import BpmAcquisition.Library.Run
import Mathlib.Logic.Function.Basic

/-!
# Write-through caches beside a device

A processor reads memory through a cache of lines; its stores go through to memory, and a device
writes memory behind the cache. A line that is held can then differ from memory only where the
device has written last. `current_iff` says when a read returns what the device wrote.
-/

/-- Memory, the copies of the lines that are held, and as ghost history what the device wrote
last at each address. -/
structure CachedMemory (α κ β : Type) where
  main : α → β
  held : κ → Option (α → β)
  device : α → Option β

namespace CachedMemory

open Machine

inductive Op (α κ β : Type) where
  | fill (a : α)
  | store (a : α) (v : β)
  | evict (l : κ)
  | device (a : α) (v : β)

section
variable {α κ β : Type}

/-- What the cache holds for an address; one without a line is not cached. -/
def cached (line : α → Option κ) (m : CachedMemory α κ β) (a : α) : Option β := ((line a).bind m.held).map (· a)

def look (line : α → Option κ) (m : CachedMemory α κ β) (a : α) : β := (cached line m a).getD (m.main a)

/-- Where the cache differs from memory, the device was the last to write. -/
def Explained (line : α → Option κ) (m : CachedMemory α κ β) : Prop :=
  ∀ a v, cached line m a = some v → v ≠ m.main a → m.device a = some (m.main a)

def Op.Leaves (a : α) : Op α κ β → Prop
  | .store a' _ => a' ≠ a
  | .device a' _ => a' ≠ a
  | _ => True

end

variable {α κ β : Type} [DecidableEq α] [DecidableEq κ]

def fillLine (m : CachedMemory α κ β) (l : κ) : CachedMemory α κ β :=
  { m with held := Function.update m.held l (some ((m.held l).getD m.main)) }

def apply (line : α → Option κ) (m : CachedMemory α κ β) : Op α κ β → CachedMemory α κ β
  | .fill a => ((line a).map m.fillLine).getD m
  | .store a v =>
    { m with
      main := Function.update m.main a v
      held := fun l => (m.held l).map (Function.update · a v) }
  | .evict l => { m with held := Function.update m.held l none }
  | .device a v => { m with main := Function.update m.main a v, device := Function.update m.device a (some v) }

/-- The operation takes the line of the address from the cache. -/
def Op.evicts (line : α → Option κ) (a : α) : Op α κ β → Bool
  | .evict l => line a = some l
  | _ => false

section
variable {α κ β : Type} {line : α → Option κ} {m : CachedMemory α κ β} {a : α}

theorem look_none (none : cached line m a = none) : look line m a = m.main a := by
  unfold look
  rw [none, Option.getD_none]

theorem look_some {v : β} (held : cached line m a = some v) : look line m a = v := by
  unfold look
  rw [held, Option.getD_some]

end

section
variable {line : α → Option κ}

/-! ### One operation -/

theorem fill_cases (m : CachedMemory α κ β) (a' : α) :
    apply line m (.fill a') = m ∨ ∃ l, line a' = some l ∧ apply line m (.fill a') = m.fillLine l := by
  have filled : apply line m (.fill a') = ((line a').map m.fillLine).getD m := rfl
  rw [filled]
  cases line a' with
  | none => exact Or.inl rfl
  | some l => exact Or.inr ⟨l, rfl, rfl⟩

theorem fill_main (line : α → Option κ) (m : CachedMemory α κ β) (a' : α) :
    (apply line m (.fill a')).main = m.main ∧ (apply line m (.fill a')).device = m.device := by
  rcases fill_cases m a' with same | ⟨l, -, filled⟩
  · rw [same]
    exact ⟨rfl, rfl⟩
  · rw [filled]
    exact ⟨rfl, rfl⟩

theorem cached_fill (m : CachedMemory α κ β) (a a' : α) :
    cached line (apply line m (.fill a')) a = cached line m a ∨
      cached line m a = none ∧ cached line (apply line m (.fill a')) a = some (m.main a) := by
  rcases fill_cases m a' with same | ⟨l, -, filled⟩
  · rw [same]
    exact Or.inl rfl
  · rw [filled]
    unfold cached fillLine
    cases line a with
    | none => exact Or.inl rfl
    | some l' =>
      simp only [Option.bind_some]
      by_cases same : l' = l
      · subst same
        rw [Function.update_self]
        cases m.held l' with
        | none => exact Or.inr ⟨rfl, rfl⟩
        | some copy => exact Or.inl rfl
      · rw [Function.update_of_ne same]
        exact Or.inl rfl

theorem cached_store (m : CachedMemory α κ β) (a a' : α) (v : β) :
    cached line (apply line m (.store a' v)) a = (cached line m a).map fun w => if a = a' then v else w := by
  unfold apply cached
  cases line a with
  | none => rfl
  | some l =>
    simp only [Option.bind_some]
    cases m.held l with
    | none => rfl
    | some copy => simp only [Option.map_some, Function.update_apply]

theorem cached_evict (m : CachedMemory α κ β) (a : α) (l : κ) :
    cached line (apply line m (.evict l)) a = if line a = some l then none else cached line m a := by
  unfold apply cached
  cases line a with
  | none => simp
  | some l' =>
    simp only [Option.bind_some, Option.some.injEq, Function.update_apply]
    split <;> rfl

theorem apply_explained {m : CachedMemory α κ β} (op : Op α κ β) (explained : Explained line m) :
    Explained line (apply line m op) := by
  intro a w held differs
  cases op with
  | fill a' =>
    obtain ⟨main, device⟩ := fill_main line m a'
    rw [main] at differs ⊢
    rw [device]
    rcases cached_fill m a a' with same | ⟨-, filled⟩
    · rw [same] at held
      exact explained a w held differs
    · rw [filled, Option.some.injEq] at held
      exact absurd held.symm differs
  | store a' v =>
    rw [cached_store] at held
    obtain ⟨before, was, rfl⟩ := Option.map_eq_some_iff.mp held
    by_cases mine : a = a'
    · subst mine
      simp [apply] at differs
    · simp only [apply, Function.update_of_ne mine, if_neg mine] at differs ⊢
      exact explained a before was differs
  | evict l =>
    rw [cached_evict] at held
    split at held
    · cases held
    · exact explained a w held differs
  | device a' v =>
    by_cases mine : a = a'
    · subst mine
      simp [apply]
    · simp only [apply, Function.update_of_ne mine] at differs ⊢
      exact explained a w held differs

/-! ### Reads after other operations -/

theorem run_explained {m : CachedMemory α κ β} (ops : List (Op α κ β)) (explained : Explained line m) :
    Explained line (run (apply line) m ops) :=
  run_keeps (fun _ op held => apply_explained op held) explained ops

theorem apply_leaves (line : α → Option κ) (m : CachedMemory α κ β) {op : Op α κ β} {a : α} (leaves : op.Leaves a) :
    (apply line m op).main a = m.main a ∧ (apply line m op).device a = m.device a := by
  cases op with
  | fill a' =>
    obtain ⟨main, device⟩ := fill_main line m a'
    rw [main, device]
    exact ⟨rfl, rfl⟩
  | store a' v => exact ⟨Function.update_of_ne (Ne.symm leaves) _ _, rfl⟩
  | evict l => exact ⟨rfl, rfl⟩
  | device a' v => exact ⟨Function.update_of_ne (Ne.symm leaves) _ _, Function.update_of_ne (Ne.symm leaves) _ _⟩

theorem look_apply (m : CachedMemory α κ β) {op : Op α κ β} {a : α} (leaves : op.Leaves a) :
    look line (apply line m op) a = if op.evicts line a = true then m.main a else look line m a := by
  obtain ⟨main, -⟩ := apply_leaves line m leaves
  unfold look
  rw [main]
  cases op with
  | fill a' =>
    rw [if_neg (by exact Bool.false_ne_true)]
    rcases cached_fill m a a' with same | ⟨none, filled⟩
    · rw [same]
    · rw [none, filled]
      rfl
  | store a' v =>
    have other : a ≠ a' := Ne.symm leaves
    rw [if_neg (by exact Bool.false_ne_true), cached_store]
    simp only [if_neg other, Option.map_id']
  | evict l =>
    rw [cached_evict]
    by_cases mine : line a = some l
    · simp [Op.evicts, mine]
    · simp [Op.evicts, mine]
  | device a' v =>
    rw [if_neg (by exact Bool.false_ne_true)]
    rfl

theorem run_leaves (m : CachedMemory α κ β) {ops : List (Op α κ β)} {a : α} (leaves : ∀ op ∈ ops, op.Leaves a) :
    (run (apply line) m ops).main a = m.main a ∧ (run (apply line) m ops).device a = m.device a ∧
      look line (run (apply line) m ops) a =
        if ops.any (·.evicts line a) = true then m.main a else look line m a := by
  induction ops generalizing m with
  | nil => exact ⟨rfl, rfl, rfl⟩
  | cons op ops ih =>
    have first := leaves op List.mem_cons_self
    obtain ⟨main, device⟩ := apply_leaves line m first
    obtain ⟨restMain, restDevice, restLook⟩ :=
      ih (apply line m op) fun op' member => leaves op' (List.mem_cons_of_mem op member)
    rw [run_cons, restMain, restDevice, restLook, main, device, look_apply m first, List.any_cons]
    refine ⟨rfl, rfl, ?_⟩
    cases op.evicts line a <;> cases ops.any (·.evicts line a) <;> rfl

/-- Memory has what the device wrote last, and so has the cache unless the line is evicted. -/
def Current (line : α → Option κ) (m : CachedMemory α κ β) (ops : List (Op α κ β)) (a : α) : Prop :=
  m.device a = some (m.main a) ∧
    (ops.any (·.evicts line a) = false → ∀ v, cached line m a = some v → v = m.main a)

/-- After operations that do not write the address, a read returns what the device wrote there
last exactly if this is current. -/
theorem current_iff {m : CachedMemory α κ β} {ops : List (Op α κ β)} {a : α} (explained : Explained line m)
    (leaves : ∀ op ∈ ops, op.Leaves a) :
    m.device a = some (look line (run (apply line) m ops) a) ↔ Current line m ops a := by
  obtain ⟨-, -, read⟩ := run_leaves m leaves
  rw [read]
  unfold Current
  cases ops.any (·.evicts line a) with
  | true => simp
  | false =>
    simp only [Bool.false_eq_true, if_false, forall_const]
    cases held : cached line m a with
    | none => simp [look_none held]
    | some w =>
      rw [look_some held]
      constructor
      · intro device
        have agrees : w = m.main a := by
          by_contra differs
          have explanation := explained a w held differs
          rw [device, Option.some.injEq] at explanation
          exact differs explanation
        refine ⟨by rw [device, agrees], fun v same => ?_⟩
        rw [Option.some.injEq] at same
        rw [← same, agrees]
      · rintro ⟨device, agrees⟩
        rw [device, agrees w rfl]

end

end CachedMemory
