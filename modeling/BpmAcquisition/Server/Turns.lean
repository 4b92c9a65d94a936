import Mathlib.Logic.Function.Basic
import BpmAcquisition.Library.Run
import BpmAcquisition.Server.Cursor

/-!
# Connections taking turns

Several connections ask for samples of one channel and take turns on its cursor; a capture is
counted when a request finds the cursor drained. `turns_exact` says for two connections from
which schedules each of them gets one capture of its own.
-/

namespace BpmAcquisition.Server

open Machine Slices

/-- What one round hands out to a connection, and the number of the capture it is cut from. -/
structure Handout where
  connection : Nat
  capture : Nat
  slice : Slice
deriving DecidableEq

def handoutsOf (c : Nat) (hs : List Handout) : List Handout := hs.filter (·.connection = c)

/-- The slices are the `n` samples of one capture, in order. -/
structure OneCapture (n : Nat) (hs : List Handout) : Prop where
  capture : ∃ k, ∀ h ∈ hs, h.capture = k
  consecutive : Consecutive 0 (hs.map (·.slice))
  total : total (hs.map (·.slice)) = n

structure Turns where
  cursor : Cursor
  captures : Nat
  need : Nat → Nat

/-- The rounds that `c` has before any other connection. -/
def lead (c : Nat) (schedule : List Nat) : Nat := (schedule.takeWhile (· = c)).length

theorem handoutsOf_append (c : Nat) (hs hs' : List Handout) :
    handoutsOf c (hs ++ hs') = handoutsOf c hs ++ handoutsOf c hs' := List.filter_append hs hs'

theorem handoutsOf_own {c : Nat} {hs : List Handout} (own : ∀ h ∈ hs, h.connection = c) : handoutsOf c hs = hs :=
  List.filter_eq_self.mpr fun h member => decide_eq_true (own h member)

theorem handoutsOf_other {c : Nat} {hs : List Handout} (other : ∀ h ∈ hs, h.connection ≠ c) : handoutsOf c hs = [] :=
  List.filter_eq_nil_iff.mpr fun h member => by simp [other h member]

theorem lead_split (c : Nat) (schedule : List Nat) :
    schedule = List.replicate (lead c schedule) c ++ schedule.dropWhile (· = c) := by
  have led : schedule.takeWhile (· = c) = List.replicate (lead c schedule) c := by
    refine List.eq_replicate_iff.mpr ⟨rfl, fun d member => ?_⟩
    simpa using List.all_eq_true.mp List.all_takeWhile d member
  rw [← led]
  exact List.takeWhile_append_dropWhile.symm

namespace Turns

def started (t : Turns) : Nat := if t.cursor.left = 0 then t.captures + 1 else t.captures

def take (max : Nat) (asks : Nat → Nat) (t : Turns) (c : Nat) : Turns :=
  if t.need c = 0 then t
  else
    { cursor := (t.cursor.next max (asks c)).2
      captures := t.started
      need := Function.update t.need c (t.need c - (t.cursor.next max (asks c)).1.size) }

def given (max : Nat) (asks : Nat → Nat) (t : Turns) (c : Nat) : List Handout :=
  if t.need c = 0 then [] else [⟨c, t.started, (t.cursor.next max (asks c)).1⟩]

variable {max : Nat} {asks : Nat → Nat} {t : Turns} {x y : Nat} {schedule : List Nat}

theorem take_done {c : Nat} (done : t.need c = 0) : t.take max asks c = t := if_pos done

theorem given_done {c : Nat} (done : t.need c = 0) : t.given max asks c = [] := if_pos done

theorem take_more {c : Nat} (more : 0 < t.need c) :
    t.take max asks c =
      { cursor := (t.cursor.next max (asks c)).2
        captures := t.started
        need := Function.update t.need c (t.need c - (t.cursor.next max (asks c)).1.size) } :=
  if_neg (Nat.ne_of_gt more)

theorem given_more {c : Nat} (more : 0 < t.need c) :
    t.given max asks c = [⟨c, t.started, (t.cursor.next max (asks c)).1⟩] := if_neg (Nat.ne_of_gt more)

theorem take_need_other {c d : Nat} (other : d ≠ c) : (t.take max asks c).need d = t.need d := by
  unfold take
  split
  · rfl
  · exact Function.update_of_ne other _ _

theorem take_need_self {c : Nat} (limit : 0 < max) (asked : 0 < asks c) :
    (t.take max asks c).need c ≤ t.need c - 1 := by
  rcases Nat.eq_zero_or_pos (t.need c) with done | more
  · rw [take_done done]
    omega
  · have positive := Cursor.next_size_positive t.cursor limit asked
    rw [take_more more]
    show Function.update t.need c _ c ≤ _
    rw [Function.update_self]
    omega

theorem run_need (limit : 0 < max) {c : Nat} (asked : 0 < asks c) :
    (run (take max asks) t schedule).need c ≤ t.need c - schedule.count c := by
  induction schedule generalizing t with
  | nil => exact Nat.le_refl _
  | cons d rest ih =>
    have later := @ih (t.take max asks d)
    rw [run_cons]
    by_cases same : d = c
    · subst same
      have step := @take_need_self max asks t d limit asked
      rw [List.count_cons_self]
      omega
    · rw [List.count_cons_of_ne same]
      rwa [take_need_other (Ne.symm same)] at later

theorem run_ended (limit : 0 < max) {c : Nat} (asked : 0 < asks c) (enough : t.need c ≤ schedule.count c) :
    (run (take max asks) t schedule).need c = 0 := by
  have need := @run_need max asks t schedule limit c asked
  omega

theorem run_need_absent {c : Nat} (absent : c ∉ schedule) :
    (run (take max asks) t schedule).need c = t.need c := by
  induction schedule generalizing t with
  | nil => rfl
  | cons d rest ih =>
    simp only [List.mem_cons, not_or] at absent
    rw [run_cons, ih absent.2, take_need_other absent.1]

/-! ### One connection by itself -/

/-- The cursor stands inside a capture for `x`, whose rest is what `x` is owed. -/
structure Within (asks : Nat → Nat) (x : Nat) (t : Turns) : Prop where
  whole : t.cursor.count = asks x
  begun : 0 < t.cursor.pos
  rest : t.cursor.pos + t.need x = t.cursor.count

/-- `x` has been served from `start` on, out of capture `k`. -/
structure Solo (asks : Nat → Nat) (x k start : Nat) (t t' : Turns) (hs : List Handout) : Prop where
  owner : ∀ h ∈ hs, h.connection = x ∧ h.capture = k
  consecutive : Consecutive start (hs.map (·.slice))
  reaches : t'.cursor.pos = start + total (hs.map (·.slice))
  within : Within asks x t'
  others : ∀ c, c ≠ x → t'.need c = t.need c
  captures : t'.captures = k

theorem within_take (within : Within asks x t) (more : 0 < t.need x) :
    t.take max asks x =
        { cursor := ⟨asks x, t.cursor.pos + min max (t.need x)⟩
          captures := t.captures
          need := Function.update t.need x (t.need x - min max (t.need x)) } ∧
      t.given max asks x = [⟨x, t.captures, ⟨t.cursor.pos, min max (t.need x)⟩⟩] := by
  obtain ⟨whole, begun, rest⟩ := within
  have left : t.cursor.left = t.need x := by unfold Cursor.left; omega
  have running : t.started = t.captures := if_neg (by omega)
  rw [take_more more, given_more more, Cursor.next_trimmed (by omega) (by omega), left, running, whole]
  exact ⟨rfl, rfl⟩

theorem drained_take (drained : t.cursor.pos = t.cursor.count) (owed : t.need x = asks x) (asked : 0 < asks x) :
    t.take max asks x =
        { cursor := ⟨asks x, 0 + min max (t.need x)⟩
          captures := t.captures + 1
          need := Function.update t.need x (t.need x - min max (t.need x)) } ∧
      t.given max asks x = [⟨x, t.captures + 1, ⟨0, min max (t.need x)⟩⟩] := by
  have left : t.cursor.left = 0 := by unfold Cursor.left; omega
  have fresh : t.started = t.captures + 1 := if_pos left
  rw [take_more (by omega), given_more (by omega), Cursor.next_drained drained asked, fresh, owed, Nat.zero_add]
  exact ⟨rfl, rfl⟩

theorem solo_cons {k start : Nat} (limit : 0 < max) (more : 0 < t.need x) (covers : start + t.need x = asks x)
    (round : t.take max asks x =
        { cursor := ⟨asks x, start + min max (t.need x)⟩
          captures := k
          need := Function.update t.need x (t.need x - min max (t.need x)) } ∧
      t.given max asks x = [⟨x, k, ⟨start, min max (t.need x)⟩⟩])
    (idle : ∀ c ∈ schedule, c ≠ x → t.need c = 0)
    (later : ∀ t' : Turns, Within asks x t' → (∀ c ∈ schedule, c ≠ x → t'.need c = 0) →
      Solo asks x t'.captures t'.cursor.pos t' (run (take max asks) t' schedule)
          (trace (take max asks) (given max asks) t' schedule) ∧
        (run (take max asks) t' schedule).need x = t'.need x - schedule.count x * max) :
    Solo asks x k start t (run (take max asks) t (x :: schedule))
        (trace (take max asks) (given max asks) t (x :: schedule)) ∧
      (run (take max asks) t (x :: schedule)).need x = t.need x - (x :: schedule).count x * max := by
  obtain ⟨step, handout⟩ := round
  have others : ∀ c, c ≠ x → (t.take max asks x).need c = t.need c := fun c other => take_need_other other
  have within : Within asks x (t.take max asks x) := by
    rw [step]
    refine ⟨rfl, by simp only; omega, ?_⟩
    simp only [Function.update_self]
    omega
  obtain ⟨rest, need⟩ := later _ within fun c member other => (others c other).trans (idle c member other)
  have captures : (t.take max asks x).captures = k := by rw [step]
  have pos : (t.take max asks x).cursor.pos = start + min max (t.need x) := by rw [step]
  have paid : (t.take max asks x).need x = t.need x - min max (t.need x) := by
    rw [step]
    exact Function.update_self _ _ _
  rw [captures, pos] at rest
  rw [run_cons, trace_cons, handout, List.cons_append, List.nil_append]
  refine ⟨⟨?_, ⟨rfl, rest.consecutive⟩, ?_, rest.within, ?_, rest.captures⟩, ?_⟩
  · intro h member
    rcases List.mem_cons.mp member with rfl | later
    · exact ⟨rfl, rfl⟩
    · exact rest.owner h later
  · rw [rest.reaches, List.map_cons, total_cons, Nat.add_assoc]
  · intro c other
    rw [rest.others c other, others c other]
  · rw [need, paid, List.count_cons_self, Nat.succ_mul]
    omega

theorem solo_within (limit : 0 < max) (within : Within asks x t)
    (idle : ∀ c ∈ schedule, c ≠ x → t.need c = 0) :
    Solo asks x t.captures t.cursor.pos t (run (take max asks) t schedule)
        (trace (take max asks) (given max asks) t schedule) ∧
      (run (take max asks) t schedule).need x = t.need x - schedule.count x * max := by
  induction schedule generalizing t with
  | nil =>
    refine ⟨⟨by simp, trivial, rfl, within, fun c _ => rfl, rfl⟩, ?_⟩
    simp
  | cons c rest ih =>
    have idle' : ∀ d ∈ rest, d ≠ x → t.need d = 0 := fun d member => idle d (List.mem_cons_of_mem c member)
    by_cases nothing : t.need c = 0
    · obtain ⟨solo, need⟩ := ih within idle'
      rw [run_cons, trace_cons, take_done nothing, given_done nothing]
      refine ⟨solo, need.trans ?_⟩
      by_cases same : c = x
      · subst same
        rw [nothing, Nat.zero_sub, Nat.zero_sub]
      · rw [List.count_cons_of_ne same]
    · have same : c = x :=
        Decidable.byContradiction fun other => nothing (idle c List.mem_cons_self other)
      subst same
      have more := Nat.pos_of_ne_zero nothing
      exact solo_cons limit more (within.rest.trans within.whole) (within_take within more) idle' fun _ => ih

/-- From a drained cursor on, a connection by itself is served from the start of a new capture. -/
theorem solo_drained (limit : 0 < max) (drained : t.cursor.pos = t.cursor.count) (owed : t.need x = asks x)
    (asked : 0 < asks x) (idle : ∀ c ∈ schedule, c ≠ x → t.need c = 0) (present : x ∈ schedule) :
    Solo asks x (t.captures + 1) 0 t (run (take max asks) t schedule)
        (trace (take max asks) (given max asks) t schedule) ∧
      (run (take max asks) t schedule).need x = t.need x - schedule.count x * max := by
  induction schedule with
  | nil => simp at present
  | cons c rest ih =>
    have idle' : ∀ d ∈ rest, d ≠ x → t.need d = 0 := fun d member => idle d (List.mem_cons_of_mem c member)
    by_cases same : c = x
    · subst same
      exact solo_cons limit (owed ▸ asked) ((Nat.zero_add _).trans owed) (drained_take drained owed asked) idle'
        fun _ => solo_within limit
    · have nothing := idle c List.mem_cons_self same
      rw [run_cons, trace_cons, take_done nothing, given_done nothing, List.count_cons_of_ne same]
      exact ih idle' ((List.mem_cons.mp present).resolve_left (Ne.symm same))

theorem Solo.one_capture {k : Nat} {t' : Turns} {hs : List Handout} (solo : Solo asks x k 0 t t' hs)
    (ended : t'.need x = 0) : OneCapture (asks x) hs := by
  have rest := solo.within.rest
  rw [ended, solo.within.whole, solo.reaches] at rest
  exact ⟨⟨k, fun h member => (solo.owner h member).2⟩, solo.consecutive, by omega⟩

/-! ### Two connections -/

/-- Where the loop of `x` has ended before `y` has its first round, the captures are apart;
where it has not, the first slice for `y` is cut from the middle of the capture for `x`. -/
theorem turns_after {k : Nat} (limit : 0 < max) (drained : t.cursor.pos = t.cursor.count) (apart : x ≠ y)
    (owed : t.need x = asks x ∧ t.need y = asks y) (asked : 0 < asks x ∧ 0 < asks y) (some : 0 < k)
    (both : ∀ c ∈ schedule, c = x ∨ c = y)
    (ended : (run (take max asks) t (List.replicate k x ++ y :: schedule)).need y = 0) :
    OneCapture (asks x)
          (handoutsOf x (trace (take max asks) (given max asks) t (List.replicate k x ++ y :: schedule))) ∧
        OneCapture (asks y)
          (handoutsOf y (trace (take max asks) (given max asks) t (List.replicate k x ++ y :: schedule))) ↔
      asks x ≤ k * max := by
  obtain ⟨first, need⟩ := @solo_drained max asks t x (List.replicate k x) limit drained owed.1 asked.1
    (fun c member other => absurd (List.eq_of_mem_replicate member) other)
    (List.mem_replicate.mpr ⟨Nat.ne_of_gt some, rfl⟩)
  have owed' := (first.others y (Ne.symm apart)).trans owed.2
  obtain ⟨whole, begun, rest⟩ := first.within
  have mine := handoutsOf_own fun h member => (first.owner h member).1
  have theirs : handoutsOf y (trace (take max asks) (given max asks) t (List.replicate k x)) = [] :=
    handoutsOf_other fun h member => by rw [(first.owner h member).1]; exact apart
  rw [List.count_replicate_self] at need
  rw [run_append] at ended
  rw [trace_append, handoutsOf_append, handoutsOf_append, mine, theirs, List.nil_append]
  constructor
  · rintro ⟨-, ⟨-, begins, -⟩⟩
    apply Decidable.byContradiction
    intro early
    rw [trace_cons, given_more (by omega), List.cons_append, List.nil_append, handoutsOf,
      List.filter_cons_of_pos (by simp)] at begins
    have start := begins.1
    rw [Cursor.next_start (by omega)] at start
    omega
  · intro done
    obtain ⟨second, -⟩ := @solo_drained max asks _ y (y :: schedule) limit (by omega) owed' asked.2
      (fun c member other => by
        rcases List.mem_cons.mp member with same | later
        · exact absurd same other
        · rw [(both c later).resolve_right other]
          omega)
      List.mem_cons_self
    rw [handoutsOf_own fun h member => (second.owner h member).1,
      handoutsOf_other fun h member => by rw [(second.owner h member).1]; exact Ne.symm apart, List.append_nil]
    exact ⟨first.one_capture (by omega), second.one_capture ended⟩

theorem turns_from (limit : 0 < max) (drained : t.cursor.pos = t.cursor.count) (apart : x ≠ y)
    (owed : t.need x = asks x ∧ t.need y = asks y) (asked : 0 < asks x ∧ 0 < asks y)
    (both : ∀ c ∈ x :: schedule, c = x ∨ c = y)
    (ended : (run (take max asks) t (x :: schedule)).need y = 0) :
    OneCapture (asks x) (handoutsOf x (trace (take max asks) (given max asks) t (x :: schedule))) ∧
        OneCapture (asks y) (handoutsOf y (trace (take max asks) (given max asks) t (x :: schedule))) ↔
      asks x ≤ lead x (x :: schedule) * max ∨ asks y ≤ lead y (x :: schedule) * max := by
  have none : lead y (x :: schedule) = 0 := by simp [lead, apart]
  have some : 0 < lead x (x :: schedule) := by simp [lead]
  have split := lead_split x (x :: schedule)
  have present : y ∈ x :: schedule := by
    apply Decidable.byContradiction
    intro absent
    rw [run_need_absent absent] at ended
    omega
  cases later : (x :: schedule).dropWhile (· = x) with
  | nil =>
    rw [later, List.append_nil] at split
    rw [split] at present
    exact absurd (List.eq_of_mem_replicate present) (Ne.symm apart)
  | cons c rest =>
    rw [later] at split
    have other : c ≠ x := by
      have head := List.head_dropWhile_not (fun d => decide (d = x)) (l := x :: schedule) (by simp [later])
      simpa [later] using head
    have next : c = y := (both c (by rw [split]; simp)).resolve_left other
    subst next
    have others : ∀ d ∈ rest, d = x ∨ d = c := fun d member => both d (by rw [split]; simp [member])
    rw [none, Nat.zero_mul]
    generalize lead x (x :: schedule) = k at split some ⊢
    rw [split] at ended ⊢
    rw [turns_after limit drained apart owed asked some others ended]
    omega

/-- Two connections that start on a drained cursor each get one capture of their own exactly if
the schedule begins with enough rounds of one of them to end its loop. -/
theorem turns_exact {a b : Nat} (limit : 0 < max) (drained : t.cursor.pos = t.cursor.count) (apart : a ≠ b)
    (owed : t.need a = asks a ∧ t.need b = asks b) (asked : 0 < asks a ∧ 0 < asks b)
    (both : ∀ c ∈ schedule, c = a ∨ c = b)
    (ended : (run (take max asks) t schedule).need a = 0 ∧ (run (take max asks) t schedule).need b = 0) :
    OneCapture (asks a) (handoutsOf a (trace (take max asks) (given max asks) t schedule)) ∧
        OneCapture (asks b) (handoutsOf b (trace (take max asks) (given max asks) t schedule)) ↔
      asks a ≤ lead a schedule * max ∨ asks b ≤ lead b schedule * max := by
  cases schedule with
  | nil =>
    have unserved : t.need a = 0 := ended.1
    omega
  | cons c rest =>
    rcases both c List.mem_cons_self with rfl | rfl
    · exact turns_from limit drained apart owed asked both ended.2
    · rw [and_comm, or_comm]
      exact turns_from limit drained (Ne.symm apart) owed.symm asked.symm (fun d member => (both d member).symm) ended.1

end Turns

end BpmAcquisition.Server
