import BpmAcquisition.Library.Run

/-!
# A write register in front of a queue

A register samples its input at every clock edge and asks the queue behind it to store what
it holds. While the queue is full the request stays up, but the register goes on sampling,
so the word that is stored in the end is the one on the input at the last refused edge.
`written_stored` says which words the queue gets, for every pattern of offers and refusals;
`stored_eq_offered` says exactly when they are the words that were offered.
-/

namespace WriteRegister

open Machine

variable {α β : Type}

/-- One clock edge: the word on the input, whether it is to be stored, whether the queue refuses. -/
structure Edge (α : Type) where
  word : α
  take : Bool
  full : Bool

/-- The word that asks to be written, after an edge. -/
def step (waiting : Option α) (e : Edge α) : Option α :=
  if e.full then waiting.map fun _ => e.word
  else if e.take then some e.word else none

def written (waiting : Option α) (e : Edge α) : List α :=
  if e.full then [] else waiting.toList

def offer (e : Edge α) : List α :=
  if e.take && !e.full then [e.word] else []

/-- What a word offered just before the edges has become when the queue takes it. -/
def settle (w : α) : List (Edge α) → α
  | [] => w
  | e :: rest => if e.full then settle e.word rest else w

def stored : List (Edge α) → List α
  | [] => []
  | e :: rest => (offer e).map (settle · rest) ++ stored rest

/-- Every offered word is on the input again at the last edge before the queue takes it. -/
def Settled : List (Edge α) → Prop
  | [] => True
  | e :: rest => (∀ w ∈ offer e, settle w rest = w) ∧ Settled rest

theorem written_stored (waiting : Option α) (edges : List (Edge α)) :
    trace step written waiting edges ++ (run step waiting edges).toList =
      (waiting.map (settle · edges)).toList ++ stored edges := by
  induction edges generalizing waiting with
  | nil => cases waiting <;> rfl
  | cons e rest ih =>
    simp only [trace_cons, run_cons, List.append_assoc]
    rw [ih]
    cases full : e.full
    · cases take : e.take <;> cases waiting <;> simp [step, written, stored, offer, settle, full, take]
    · cases waiting <;> simp [step, written, stored, offer, settle, full]

theorem stored_eq_offered (edges : List (Edge α)) :
    stored edges = edges.flatMap offer ↔ Settled edges := by
  induction edges with
  | nil => simp [stored, Settled]
  | cons e rest ih =>
    simp only [stored, List.flatMap_cons, Settled]
    cases offered : (e.take && !e.full)
    · simpa [offer, offered] using ih
    · simp only [offer, offered, if_true, List.map_cons, List.map_nil, List.cons_append,
        List.nil_append, List.cons.injEq, List.mem_singleton, forall_eq, ih]

theorem settled_of_never_full {edges : List (Edge α)} (free : ∀ e ∈ edges, e.full = false) :
    Settled edges := by
  induction edges with
  | nil => trivial
  | cons e rest ih =>
    refine ⟨fun w _ => ?_, ih fun e' member => free e' (List.mem_cons_of_mem e member)⟩
    cases rest with
    | nil => rfl
    | cons e' rest =>
      have notFull := free e' (by simp)
      simp [settle, notFull]

def Edge.map (f : α → β) (e : Edge α) : Edge β := ⟨f e.word, e.take, e.full⟩

theorem settle_map (f : α → β) (w : α) (edges : List (Edge α)) :
    settle (f w) (edges.map (Edge.map f)) = f (settle w edges) := by
  induction edges generalizing w with
  | nil => rfl
  | cons e rest ih =>
    simp only [List.map_cons, settle, Edge.map]
    split
    · exact ih e.word
    · rfl

theorem stored_map (f : α → β) (edges : List (Edge α)) :
    stored (edges.map (Edge.map f)) = (stored edges).map f := by
  induction edges with
  | nil => rfl
  | cons e rest ih =>
    simp only [List.map_cons, stored, List.map_append, ih]
    cases offered : (e.take && !e.full) <;> simp [offer, Edge.map, offered, settle_map]

end WriteRegister
