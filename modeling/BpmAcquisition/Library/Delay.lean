import BpmAcquisition.Library.Run

/-!
# Delay lines

A chain of registers that shifts by one place at each step, oldest value first. After a run its end
shows the value that went in as many steps before as the chain is long, or one it started with.
-/

namespace Delay

open Machine

variable {α : Type}

def shift (line : List α) (x : α) : List α := (line ++ [x]).tail

theorem line_run (line xs : List α) : run shift line xs = (line ++ xs).drop xs.length := by
  induction xs generalizing line with
  | nil => simp
  | cons x rest ih =>
    rw [run_cons, ih]
    cases line with
    | nil => simp [shift]
    | cons y line => simp [shift, List.append_assoc]

theorem line_head (line xs : List α) : (run shift line xs).head? = (line ++ xs)[xs.length]? := by
  rw [line_run, List.head?_drop]

end Delay
