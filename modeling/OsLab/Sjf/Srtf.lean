import Mathlib.Data.List.Perm.Basic
import Mathlib.Data.List.Sort
import Mathlib.Data.List.TakeWhile
import OsLab.Lib.Loop

/-!
# Srtf — the shortest remaining time first simulator

`main` of `200010004_srtf.cpp`.  One turn of its loop sorts the vector, takes the processes off the
front that have arrived ("add process to queue", but there is no queue), and gives a tick to the first
of the others, which leaves the vector too.

* `sort` is any sort by the remaining time: `std::sort` may order equal ones as it likes.
* Times and bursts are of type `int` in the source and mathematical integers here.  A burst equal to the
  least `int`, on which `p.remainingTime--` overflows, is left out.
* The lists `skipped` and `ran` are not in the source: they say what became of the processes, and when.
-/

namespace OsLab
namespace Sjf
namespace Srtf

open OsLab.Lib

/-! ## The program -/

structure Process where
  arrivalTime : Int
  cpuBurst : Int
  remainingTime : Int
  deriving DecidableEq, Repr

/-- Where the reading of the file is. -/
inductive Reading
  | arrival
  | burst (arrivalTime : Int)
  | io
  deriving DecidableEq, Repr

/-- The processes in the file, given as its numbers. -/
def readFile : Reading → List Int → List Process
  | _, [] => []
  | .arrival, t :: ts => readFile (.burst t) ts
  | .burst arrivalTime, t :: ts => ⟨arrivalTime, t, t⟩ :: readFile .io ts
  | .io, t :: ts => if t = -1 then readFile .arrival ts else readFile .io ts

structure State where
  processes : List Process
  currentTime : Nat
  completed : Nat
  /-- The processes taken off the front, and those that had the CPU, with the time. -/
  skipped : List (Nat × Process)
  ran : List (Nat × Process)
  deriving DecidableEq, Repr

variable (sort : List Process → List Process)

def hasArrived (currentTime : Nat) (p : Process) : Bool :=
  decide (p.arrivalTime ≤ currentTime)

/-- One turn of the loop. -/
def turn (st : State) : State :=
  let sorted := sort st.processes
  let gone := sorted.takeWhile (hasArrived st.currentTime)
  let skipped := st.skipped ++ gone.map fun p => (st.currentTime, p)
  match sorted.dropWhile (hasArrived st.currentTime) with
  | [] => { st with processes := [], currentTime := st.currentTime + 1, skipped := skipped }
  | p :: rest =>
    let remainingTime := p.remainingTime - 1
    { processes := rest
      currentTime := st.currentTime + 1
      completed := if 0 < remainingTime then st.completed else st.completed + 1
      skipped := skipped
      ran := st.ran ++ [(st.currentTime, p)] }

/-- `while (completed < processes.size())` -/
def step (st : State) : Option (State ⊕ State) :=
  if st.completed < st.processes.length then some (.inl (turn sort st)) else some (.inr st)

def start (ps : List Process) : State :=
  ⟨ps, 0, 0, [], []⟩

/-- The loop, for at most `fuel` turns. -/
def simulate (fuel : Nat) (file : List Int) : Option State :=
  loop (step sort) fuel (start (readFile .arrival file))

/-- The result is the list in order of the remaining time. -/
def Sorts : Prop :=
  ∀ l, (sort l).Perm l ∧ (sort l).Pairwise fun p q => p.remainingTime ≤ q.remainingTime

/-! ## The invariant -/

/-- What became of the processes `ps`. -/
structure Inv (ps : List Process) (st : State) : Prop where
  /-- Nobody is lost or doubled. -/
  perm : (st.ran.map Prod.snd ++ (st.skipped.map Prod.snd ++ st.processes)).Perm ps
  /-- Who was taken off had arrived. -/
  skipped : ∀ x ∈ st.skipped, x.2.arrivalTime ≤ x.1 ∧ x.1 < st.currentTime
  /-- Who had the CPU had not arrived. -/
  ran : ∀ x ∈ st.ran, (x.1 : Int) < x.2.arrivalTime ∧ x.1 < st.currentTime
  /-- One process for a tick, shorter ones first, and before those that are left. -/
  order : st.ran.Pairwise fun x y => x.1 < y.1 ∧ x.2.remainingTime ≤ y.2.remainingTime
  shortest : ∀ x ∈ st.ran, ∀ q ∈ st.processes, x.2.remainingTime ≤ q.remainingTime
  completed : st.completed = (st.ran.filter fun x => decide (x.2.remainingTime ≤ 1)).length
  time : st.currentTime + st.processes.length ≤ ps.length

section Turn

variable {sort} {ps : List Process} {st : State}

theorem start_inv (ps : List Process) : Inv ps (start ps) where
  perm := List.Perm.refl _
  skipped _ hx := absurd hx List.not_mem_nil
  ran _ hx := absurd hx List.not_mem_nil
  order := List.Pairwise.nil
  shortest _ hx := absurd hx List.not_mem_nil
  completed := rfl
  time := Nat.le_of_eq (Nat.zero_add _)

/-- The processes that are taken off. -/
def gone (sort : List Process → List Process) (st : State) : List Process :=
  (sort st.processes).takeWhile (hasArrived st.currentTime)

theorem turn_skipped (st : State) :
    (turn sort st).skipped = st.skipped ++ (gone sort st).map fun p => (st.currentTime, p) := by
  unfold turn
  dsimp only
  split <;> rfl

theorem turn_time (st : State) : (turn sort st).currentTime = st.currentTime + 1 := by
  unfold turn
  dsimp only
  split <;> rfl

/-- A turn takes off everybody, or it takes off some and gives a tick to the next one. -/
theorem turn_cases (sort : List Process → List Process) (st : State) :
    (sort st.processes = gone sort st ∧ (turn sort st).processes = [] ∧ (turn sort st).ran = st.ran ∧
        (turn sort st).completed = st.completed) ∨
      ∃ p rest, sort st.processes = gone sort st ++ p :: rest ∧ hasArrived st.currentTime p = false ∧
        (turn sort st).processes = rest ∧ (turn sort st).ran = st.ran ++ [(st.currentTime, p)] ∧
        (turn sort st).completed = if 0 < p.remainingTime - 1 then st.completed else st.completed + 1 := by
  have hsplit : gone sort st ++ (sort st.processes).dropWhile (hasArrived st.currentTime) =
      sort st.processes := List.takeWhile_append_dropWhile
  unfold turn
  dsimp only
  cases hdrop : (sort st.processes).dropWhile (hasArrived st.currentTime) with
  | nil =>
      rw [hdrop, List.append_nil] at hsplit
      exact Or.inl ⟨hsplit.symm, rfl, rfl, rfl⟩
  | cons p rest =>
      rw [hdrop] at hsplit
      have hhead := List.head?_dropWhile_not (hasArrived st.currentTime) (sort st.processes)
      rw [hdrop] at hhead
      exact Or.inr ⟨p, rest, hsplit.symm, by simpa using hhead, rfl, rfl, rfl⟩

theorem mem_skipped_turn {x : Nat × Process} (h : Inv ps st) (hx : x ∈ (turn sort st).skipped) :
    x.2.arrivalTime ≤ x.1 ∧ x.1 < st.currentTime + 1 := by
  rw [turn_skipped] at hx
  rcases List.mem_append.1 hx with hx | hx
  · have := h.skipped x hx
    omega
  · rcases List.mem_map.1 hx with ⟨p, hp, rfl⟩
    have harrived := List.mem_takeWhile_imp hp
    exact ⟨of_decide_eq_true harrived, Nat.lt_succ_self _⟩

theorem skipped_turn_map :
    (turn sort st).skipped.map Prod.snd = st.skipped.map Prod.snd ++ gone sort st := by
  rw [turn_skipped, List.map_append, List.map_map]
  exact congrArg _ (List.map_id _)

/-- Nobody gets the CPU. -/
theorem turn_inv_all (hsort : Sorts sort) (h : Inv ps st) (hne : st.processes ≠ [])
    (hall : sort st.processes = gone sort st) (hnil : (turn sort st).processes = [])
    (hran : (turn sort st).ran = st.ran) (hcompleted : (turn sort st).completed = st.completed) :
    Inv ps (turn sort st) := by
  have hperm := (hsort st.processes).1
  refine ⟨?_, ?_, ?_, ?_, ?_, ?_, ?_⟩
  · rw [hran, skipped_turn_map, hnil, List.append_nil, ← hall]
    exact ((hperm.append_left _).append_left _).trans h.perm
  · intro x hx
    rw [turn_time]
    exact mem_skipped_turn h hx
  · intro x hx
    rw [hran] at hx
    have := h.ran x hx
    rw [turn_time]
    omega
  · rw [hran]
    exact h.order
  · intro x _ q hq
    rw [hnil] at hq
    exact absurd hq List.not_mem_nil
  · rw [hcompleted, hran]
    exact h.completed
  · rw [turn_time, hnil, List.length_nil]
    have hpos := List.length_pos_iff.2 hne
    have htime := h.time
    omega

/-- The process `p` gets the CPU. -/
theorem turn_inv_tick (hsort : Sorts sort) (h : Inv ps st) {p : Process} {rest : List Process}
    (hall : sort st.processes = gone sort st ++ p :: rest)
    (hnew : hasArrived st.currentTime p = false) (hrest : (turn sort st).processes = rest)
    (hran : (turn sort st).ran = st.ran ++ [(st.currentTime, p)])
    (hcompleted : (turn sort st).completed =
      if 0 < p.remainingTime - 1 then st.completed else st.completed + 1) :
    Inv ps (turn sort st) := by
  rcases hsort st.processes with ⟨hperm, hsorted⟩
  rw [hall] at hperm hsorted
  have hshortest : ∀ x ∈ st.ran, ∀ q ∈ gone sort st ++ p :: rest, x.2.remainingTime ≤ q.remainingTime :=
    fun x hx q hq => h.shortest x hx q (hperm.mem_iff.1 hq)
  refine ⟨?_, ?_, ?_, ?_, ?_, ?_, ?_⟩
  · rw [hran, skipped_turn_map, hrest, List.map_append]
    have hmiddle : (p :: (st.skipped.map Prod.snd ++ gone sort st ++ rest)).Perm
        (st.skipped.map Prod.snd ++ (gone sort st ++ p :: rest)) := by
      rw [← List.append_assoc]
      exact List.perm_middle.symm
    rw [List.append_assoc]
    exact ((hmiddle.trans (hperm.append_left _)).append_left _).trans h.perm
  · intro x hx
    rw [turn_time]
    exact mem_skipped_turn h hx
  · intro x hx
    rw [hran] at hx
    rw [turn_time]
    rcases List.mem_append.1 hx with hx | hx
    · have := h.ran x hx
      omega
    · cases List.mem_singleton.1 hx
      have hlater := of_decide_eq_false hnew
      exact ⟨Int.not_le.1 hlater, Nat.lt_succ_self _⟩
  · rw [hran]
    refine List.pairwise_append.2 ⟨h.order, List.pairwise_singleton _ _, ?_⟩
    intro x hx y hy
    cases List.mem_singleton.1 hy
    exact ⟨(h.ran x hx).2, hshortest x hx p (List.mem_append_right _ (List.mem_cons_self ..))⟩
  · intro x hx q hq
    rw [hrest] at hq
    rw [hran] at hx
    have hafter := List.pairwise_cons.1 (List.pairwise_append.1 hsorted).2.1
    rcases List.mem_append.1 hx with hx | hx
    · exact hshortest x hx q (List.mem_append_right _ (List.mem_cons_of_mem _ hq))
    · cases List.mem_singleton.1 hx
      exact hafter.1 q hq
  · rw [hcompleted, hran, List.filter_append, List.length_append, ← h.completed]
    by_cases hpos : 0 < p.remainingTime - 1
    · have hlong : ¬ p.remainingTime ≤ 1 := by omega
      rw [if_pos hpos]
      simp [hlong]
    · have hshort : p.remainingTime ≤ 1 := by omega
      rw [if_neg hpos]
      simp [hshort]
  · have hlength := hperm.length_eq
    have htime := h.time
    rw [List.length_append, List.length_cons] at hlength
    rw [turn_time, hrest]
    omega

theorem turn_inv (hsort : Sorts sort) (h : Inv ps st) (hne : st.processes ≠ []) :
    Inv ps (turn sort st) := by
  rcases turn_cases sort st with ⟨hall, hnil, hran, hcompleted⟩ | ⟨p, rest, hall, hnew, hrest, hran, hdone⟩
  · exact turn_inv_all hsort h hne hall hnil hran hcompleted
  · exact turn_inv_tick hsort h hall hnew hrest hran hdone

end Turn

/-- **The simulator.**  For every file and every sort the loop ends after at most as many turns as there
are processes, and then at least as many have completed as are left in the vector.  No process has the
CPU at or after its arrival time; those that have it get one tick each, shorter ones first; all others
that are gone had arrived. -/
theorem srtf_run (sort : List Process → List Process) (hsort : Sorts sort) (file : List Int) :
    ∃ st, simulate sort ((readFile .arrival file).length + 1) file = some st ∧
      st.processes.length ≤ st.completed ∧ Inv (readFile .arrival file) st := by
  refine (loop_total (Inv (readFile .arrival file)) (fun st => st.processes.length)
    (fun st => st.processes.length ≤ st.completed ∧ Inv (readFile .arrival file) st) ?_ _ _
    (start_inv _) (Nat.lt_succ_self _))
  intro st h
  by_cases hcond : st.completed < st.processes.length
  · have hne : st.processes ≠ [] := by
      intro hnil
      rw [hnil] at hcond
      exact absurd hcond (Nat.not_lt_zero _)
    refine Or.inl ⟨turn sort st, if_pos hcond, turn_inv hsort h hne, ?_⟩
    have hlength := (hsort st.processes).1.length_eq
    have hpos := List.length_pos_iff.2 hne
    rcases turn_cases sort st with ⟨-, hnil, -, -⟩ | ⟨p, rest, hall, -, hrest, -, -⟩
    · rw [hnil]
      exact hpos
    · rw [hall, List.length_append, List.length_cons] at hlength
      rw [hrest]
      omega
  · exact Or.inr ⟨st, if_neg hcond, Nat.not_lt.1 hcond, h⟩

/-- Insertion by the remaining time. -/
def insertByRemainingTime (ps : List Process) : List Process :=
  ps.insertionSort fun p q => p.remainingTime ≤ q.remainingTime

theorem sorts_insertByRemainingTime : Sorts insertByRemainingTime := by
  intro l
  have htotal : Std.Total fun p q : Process => p.remainingTime ≤ q.remainingTime :=
    ⟨fun p q => le_total p.remainingTime q.remainingTime⟩
  have htrans : IsTrans Process fun p q => p.remainingTime ≤ q.remainingTime :=
    ⟨fun _ _ _ hpq hqr => le_trans hpq hqr⟩
  exact ⟨List.perm_insertionSort _ l, List.pairwise_insertionSort _ l⟩

/-- Three processes: the one that is there from the beginning is never run. -/
theorem srtf_run_small : ∃ st,
    simulate insertByRemainingTime 4 [0, 5, -1, 2, 3, -1, 9, 4, -1] = some st ∧
      st.processes.length ≤ st.completed ∧ Inv [⟨0, 5, 5⟩, ⟨2, 3, 3⟩, ⟨9, 4, 4⟩] st := by
  have hfile : readFile .arrival [0, 5, -1, 2, 3, -1, 9, 4, -1] =
      [⟨0, 5, 5⟩, ⟨2, 3, 3⟩, ⟨9, 4, 4⟩] := by
    decide +kernel
  have hrun := srtf_run insertByRemainingTime sorts_insertByRemainingTime
    [0, 5, -1, 2, 3, -1, 9, 4, -1]
  rw [hfile] at hrun
  exact hrun

example : (simulate insertByRemainingTime 4 [0, 5, -1, 2, 3, -1, 9, 4, -1]).map State.ran =
    some [(0, ⟨2, 3, 3⟩), (1, ⟨9, 4, 4⟩)] := by
  decide +kernel

end Srtf
end Sjf
end OsLab
