import Mathlib.Algebra.BigOperators.Group.Finset.Basic
import Mathlib.Algebra.Order.BigOperators.Group.Finset
import Mathlib.Tactic.Ring
import OsLab.Lib.Runs

/-!
# Letters — the processes of `part_1.c`

The program of Lab-02 forks once; a child prints the next letter of `str` and forks again, a parent
waits, and a process whose `fork` failed prints a message for every letter that is left.  The processes
run in any order.

* A process is known by its place in the order of creation.  A `Move` names the process that goes on,
  and the answer of `fork`, if it calls it: a pid, or none.
* `sleep` lets others run, and needs no step of its own.
* On a terminal (`tty`) a line is written at once.  Otherwise it stays in the buffer of the process
  until it exits, and `fork` copies the buffer.  The buffer is large enough for all lines of a process.
-/

namespace OsLab
namespace Exec
namespace Letters

open OsLab.Lib
open scoped BigOperators

/-! ## The program -/

inductive Line
  | letter (c : Char) (pid : Nat)
  | notCreated
  deriving DecidableEq, Repr

/-- Where a process is in `main`. -/
inductive Point
  /-- Before the first `fork`. -/
  | start
  /-- At the head of the loop. -/
  | head (i : Nat)
  /-- Behind the `printf` of a letter. -/
  | fork (i : Nat)
  | exited
  deriving DecidableEq, Repr

structure Proc where
  pid : Nat
  parent : Option Nat
  p_id : Int
  pc : Point
  buffer : List Line
  /-- A parent has waited for it. -/
  reaped : Bool
  deriving DecidableEq, Repr

structure State where
  count : Nat
  proc : Nat → Proc
  out : List Line

structure Move where
  k : Nat
  answer : Option Nat
  deriving DecidableEq, Repr

def State.set (st : State) (k : Nat) (pr : Proc) : State :=
  { st with proc := Function.update st.proc k pr }

def State.goto (st : State) (k : Nat) (pc : Point) : State :=
  st.set k { st.proc k with pc := pc }

def start (pid : Nat) : State where
  count := 1
  proc _ := ⟨pid, none, 0, .start, [], false⟩
  out := []

/-- `p_id = fork()`, and on to `next`. -/
def fork (st : State) (k : Nat) (answer : Option Nat) (next : Point) : State :=
  let pr := st.proc k
  match answer with
  | none => st.set k { pr with p_id := -1, pc := next }
  | some pid =>
      let child : Proc := ⟨pid, some k, 0, next, pr.buffer, false⟩
      { (st.set k { pr with p_id := pid, pc := next }).set st.count child with count := st.count + 1 }

def print (tty : Bool) (st : State) (k : Nat) (line : Line) : State :=
  if tty then { st with out := st.out ++ [line] }
  else st.set k { st.proc k with buffer := (st.proc k).buffer ++ [line] }

def exit (st : State) (k : Nat) : State :=
  { st.set k { st.proc k with pc := .exited, buffer := [] } with out := st.out ++ (st.proc k).buffer }

/-- A child that has not been waited for. -/
def State.child (st : State) (k c : Nat) : Bool :=
  decide ((st.proc c).parent = some k) && !(st.proc c).reaped

/-- `wait(NULL)`: takes an exited child, blocks if all children run, and returns if there is none. -/
def wait (st : State) (k : Nat) : Option State :=
  match (List.range st.count).find? fun c => st.child k c && decide ((st.proc c).pc = .exited) with
  | some c => some (st.set c { st.proc c with reaped := true })
  | none => if (List.range st.count).any (st.child k) then none else some st

/-- One turn of the loop. -/
def turn (tty : Bool) (st : State) (k i : Nat) (c : Char) : Option State :=
  let pr := st.proc k
  if pr.p_id < 0 then some ((print tty st k .notCreated).goto k (.head (i + 1)))
  else if pr.p_id = 0 then some ((print tty st k (.letter c pr.pid)).goto k (.fork i))
  else (wait st k).map fun st' => st'.goto k (.head (i + 1))

/-- One step of a process; `none` if it waits or has exited. -/
def step (tty : Bool) (str : List Char) (st : State) (m : Move) : Option State :=
  if m.k < st.count then
    match (st.proc m.k).pc with
    | .start => some (fork st m.k m.answer (.head 0))
    | .fork i => some (fork st m.k m.answer (.head (i + 1)))
    | .head i =>
        match str[i]? with
        | some c => turn tty st m.k i c
        | none => some (exit st m.k)
    | .exited => none
  else none

/-- A new process gets a pid of its own. -/
def Allowed (st : State) (m : Move) : Prop :=
  ∀ pid, m.answer = some pid → 0 < pid ∧ ∀ c, c < st.count → (st.proc c).pid ≠ pid

/-- The lines of the first `t` letters, each from the next process. -/
def spelled (str : List Char) (st : State) (t : Nat) : List Line :=
  (List.range t).map fun j => .letter (str.getD j ' ') (st.proc (j + 1)).pid

/-! ## The invariant -/

/-- The process that was created last, as the place `m`, after `t` letters and `e` messages.  There are
`n` letters. -/
inductive Newest (n m : Nat) (pr : Proc) : Nat → Nat → Prop
  | starting (hm : m = 0) (hpc : pr.pc = .start) : Newest n m pr 0 0
  | printing (hm : 0 < m) (hle : m ≤ n) (hid : pr.p_id = 0) (hpc : pr.pc = .head (m - 1)) :
      Newest n m pr (m - 1) 0
  | forking (hm : 0 < m) (hle : m ≤ n) (hid : pr.p_id = 0) (hpc : pr.pc = .fork (m - 1)) : Newest n m pr m 0
  | failed (i : Nat) (hm : m ≤ i) (hle : i ≤ n) (hid : pr.p_id < 0) (hpc : pr.pc = .head i) :
      Newest n m pr m (i - m)
  | failedExit (hle : m ≤ n) (hid : pr.p_id < 0) (hpc : pr.pc = .exited) : Newest n m pr m (n - m)
  | last (hm : m = n + 1) (hid : pr.p_id = 0) (hpc : pr.pc = .head n) : Newest n m pr n 0
  | lastExit (hm : m = n + 1) (hid : pr.p_id = 0) (hpc : pr.pc = .exited) : Newest n m pr n 0

/-- A process with a child.  It goes beyond its first `wait` only when the child has exited. -/
structure Older (n c : Nat) (pr child : Proc) : Prop where
  p_id : 0 < pr.p_id
  pc : pr.pc = .exited ∨ ∃ i, pr.pc = .head i ∧ c ≤ i ∧ i ≤ n
  waited : (pr.pc = .exited ∨ ∃ i, pr.pc = .head i ∧ c < i) → c < n → child.pc = .exited

structure Chain (str : List Char) (st : State) (t e : Nat) : Prop where
  count : 0 < st.count
  parent : ∀ c, c < st.count → (st.proc c).parent = if c = 0 then none else some (c - 1)
  pids : ∀ c d, c < st.count → d < st.count → (st.proc c).pid = (st.proc d).pid → c = d
  reaped : ∀ c, c < st.count → (st.proc c).reaped = true → (st.proc c).pc = .exited
  older : ∀ c, c + 1 < st.count → Older str.length c (st.proc c) (st.proc (c + 1))
  newest : Newest str.length (st.count - 1) (st.proc (st.count - 1)) t e

section Chain

variable {tty : Bool} {str : List Char} {st st' : State} {t e t' e' k : Nat}

theorem set_proc_self (k : Nat) (pr : Proc) : (st.set k pr).proc k = pr :=
  Function.update_self _ _ _

theorem set_proc_ne {c : Nat} (h : c ≠ k) (pr : Proc) : (st.set k pr).proc c = st.proc c :=
  Function.update_of_ne h _ _

theorem start_chain (str : List Char) (pid : Nat) : Chain str (start pid) 0 0 where
  count := Nat.one_pos
  parent c hc := by
    rw [Nat.lt_one_iff.1 hc]
    rfl
  pids c d hc hd _ := by
    rw [Nat.lt_one_iff.1 hc, Nat.lt_one_iff.1 hd]
  reaped c _ h := Bool.noConfusion h
  older c hc := by
    have : c + 1 < 1 := hc
    omega
  newest := .starting rfl rfl

/-- Everything about a process but its place in the program, its buffer and the mark stays. -/
structure Kept (pr pr' : Proc) : Prop where
  pid : pr'.pid = pr.pid
  parent : pr'.parent = pr.parent
  reaped : pr'.reaped = true → pr'.pc = .exited
  exited : pr.pc = .exited → pr'.pc = .exited

/-- One process changes. -/
theorem Chain.set (h : Chain str st t e) {pr : Proc} (hkept : Kept (st.proc k) pr)
    (holder : k + 1 < st.count → Older str.length k pr (st.proc (k + 1)) ∧ t' = t ∧ e' = e)
    (hnewest : k + 1 = st.count → Newest str.length k pr t' e') (hk : k < st.count) :
    Chain str (st.set k pr) t' e' where
  count := h.count
  parent c hc := by
    by_cases hck : c = k
    · subst hck
      rw [set_proc_self, hkept.parent]
      exact h.parent c hc
    · rw [set_proc_ne hck]
      exact h.parent c hc
  pids c d hc hd := by
    have hpid : ∀ x, ((st.set k pr).proc x).pid = (st.proc x).pid := by
      intro x
      by_cases hx : x = k
      · subst hx
        rw [set_proc_self]
        exact hkept.pid
      · rw [set_proc_ne hx]
    rw [hpid, hpid]
    exact h.pids c d hc hd
  reaped c hc := by
    by_cases hck : c = k
    · subst hck
      rw [set_proc_self]
      exact hkept.reaped
    · rw [set_proc_ne hck]
      exact h.reaped c hc
  older c hc := by
    change c + 1 < st.count at hc
    by_cases hck : c = k
    · subst hck
      rw [set_proc_self, set_proc_ne (by omega)]
      exact (holder hc).1
    · rw [set_proc_ne hck]
      have hold := h.older c hc
      by_cases hchild : c + 1 = k
      · -- the process that changes is the child: if it had exited, it still has
        rw [hchild] at hold ⊢
        rw [set_proc_self]
        exact ⟨hold.p_id, hold.pc, fun hw hn => hkept.exited (hold.waited hw hn)⟩
      · rw [set_proc_ne hchild]
        exact hold
  newest := by
    change Newest str.length (st.count - 1) ((st.set k pr).proc (st.count - 1)) t' e'
    by_cases hlast : k + 1 = st.count
    · rw [show st.count - 1 = k by omega, set_proc_self]
      exact hnewest hlast
    · have hold := holder (by omega)
      rw [set_proc_ne (by omega), hold.2.1, hold.2.2]
      exact h.newest

/-- The newest process changes, which has not exited. -/
theorem Chain.setNewest (h : Chain str st t e) {pr : Proc} (hk : k + 1 = st.count)
    (hpid : pr.pid = (st.proc k).pid) (hparent : pr.parent = (st.proc k).parent)
    (hreaped : pr.reaped = (st.proc k).reaped) (hpc : (st.proc k).pc ≠ .exited)
    (hnewest : Newest str.length k pr t' e') : Chain str (st.set k pr) t' e' := by
  refine h.set ⟨hpid, hparent, ?_, fun hexit => absurd hexit hpc⟩ (fun hlt => by omega)
    (fun _ => hnewest) (by omega)
  intro htrue
  rw [hreaped] at htrue
  exact absurd (h.reaped k (by omega) htrue) hpc

theorem Chain.withOut (h : Chain str st t e) (out : List Line) : Chain str { st with out := out } t e :=
  ⟨h.count, h.parent, h.pids, h.reaped, h.older, h.newest⟩

/-- A line, and on to `pc`. -/
theorem print_goto (line : Line) (pc : Point) :
    (print tty st k line).goto k pc =
      { st.set k { st.proc k with
          pc := pc
          buffer := if tty then (st.proc k).buffer else (st.proc k).buffer ++ [line] } with
        out := if tty then st.out ++ [line] else st.out } := by
  cases tty with
  | true => rfl
  | false =>
      unfold print State.goto State.set
      simp

theorem Chain.count_le (h : Chain str st t e) : st.count ≤ str.length + 2 := by
  have hm : st.count - 1 ≤ str.length + 1 := by
    cases h.newest with
    | starting hm _ => omega
    | printing _ hle _ _ => omega
    | forking _ hle _ _ => omega
    | failed i hm hle _ _ => omega
    | failedExit hle _ _ => omega
    | last hm _ _ => omega
    | lastExit hm _ _ => omega
  omega

/-- Only the newest process has no child, and its `p_id` is not positive unless it starts. -/
theorem Chain.child_iff (h : Chain str st t e) {c : Nat} (hc : c < st.count) :
    (st.proc c).parent = some k ↔ c = k + 1 := by
  rw [h.parent c hc]
  constructor
  · intro hp
    by_cases h0 : c = 0
    · rw [if_pos h0] at hp
      exact absurd hp (by simp)
    · rw [if_neg h0] at hp
      have := Option.some.inj hp
      omega
  · intro hck
    rw [if_neg (by omega), hck]
    rfl

/-! ## One step -/

/-- `wait` of a process with a child: it returns exactly when the child has exited. -/
theorem wait_spec (h : Chain str st t e) (hk : k + 1 < st.count) :
    (wait st k = none ∧ (st.proc (k + 1)).pc ≠ .exited) ∨
      (st.proc (k + 1)).pc = .exited ∧
        (wait st k = some st ∨
          wait st k = some (st.set (k + 1) { st.proc (k + 1) with reaped := true })) := by
  unfold wait
  cases hfind : (List.range st.count).find? fun c => st.child k c && decide ((st.proc c).pc = .exited) with
  | some c =>
      have hmem := List.mem_range.1 (List.mem_of_find?_eq_some hfind)
      have hc := List.find?_some hfind
      simp only [State.child, Bool.and_eq_true, decide_eq_true_eq] at hc
      have hck : c = k + 1 := (h.child_iff hmem).1 hc.1.1
      subst hck
      exact Or.inr ⟨hc.2, Or.inr rfl⟩
  | none =>
      have hnone := List.find?_eq_none.1 hfind (k + 1) (List.mem_range.2 hk)
      have hparent := (h.child_iff hk).2 rfl
      cases hreaped : (st.proc (k + 1)).reaped with
      | true =>
          refine Or.inr ⟨h.reaped _ hk hreaped, Or.inl ?_⟩
          have hany : (List.range st.count).any (st.child k) = false := by
            refine List.any_eq_false.2 ?_
            intro c hc htrue
            simp only [State.child, Bool.and_eq_true, decide_eq_true_eq] at htrue
            have hck := (h.child_iff (List.mem_range.1 hc)).1 htrue.1
            subst hck
            rw [hreaped] at htrue
            exact absurd htrue.2 (by decide)
          dsimp only
          rw [hany]
          rfl
      | false =>
          have hchild : st.child k (k + 1) = true := by
            simp [State.child, hparent, hreaped]
          rw [hchild] at hnone
          refine Or.inl ⟨?_, by simpa using hnone⟩
          have hany : (List.range st.count).any (st.child k) = true :=
            List.any_eq_true.2 ⟨k + 1, List.mem_range.2 hk, hchild⟩
          dsimp only
          rw [hany]
          rfl

/-- A parent has waited. -/
theorem Chain.reap (h : Chain str st t e) {c : Nat} (hc : c < st.count)
    (hexit : (st.proc c).pc = .exited) :
    Chain str (st.set c { st.proc c with reaped := true }) t e := by
  refine h.set ⟨rfl, rfl, fun _ => hexit, fun _ => hexit⟩ ?_ ?_ hc
  · intro hlt
    have hold := h.older c hlt
    exact ⟨⟨hold.p_id, hold.pc, hold.waited⟩, rfl, rfl⟩
  · intro hlast
    have hnew := h.newest
    rw [show st.count - 1 = c by omega] at hnew
    cases hnew with
    | starting hm hpc => exact .starting hm hpc
    | printing hm hle hid hpc => exact .printing hm hle hid hpc
    | forking hm hle hid hpc => exact .forking hm hle hid hpc
    | failed i hm hle hid hpc => exact .failed i hm hle hid hpc
    | failedExit hle hid hpc => exact .failedExit hle hid hpc
    | last hm hid hpc => exact .last hm hid hpc
    | lastExit hm hid hpc => exact .lastExit hm hid hpc

/-- A parent goes on in its loop, behind an exited child. -/
theorem Chain.parentTurn (h : Chain str st t e) (hk : k + 1 < st.count) {i : Nat}
    (hpc : (st.proc k).pc = .head i) (hi : i < str.length) (hexit : (st.proc (k + 1)).pc = .exited) :
    Chain str (st.goto k (.head (i + 1))) t e := by
  have hold := h.older k hk
  have hki : k ≤ i := by
    rcases hold.pc with hx | ⟨j, hj, hkj, -⟩
    · rw [hpc] at hx
      exact absurd hx (by simp)
    · rw [hpc] at hj
      cases hj
      exact hkj
  refine h.set ⟨rfl, rfl, ?_, ?_⟩ ?_ (fun hlast => by omega) (by omega)
  · intro hreaped
    have := h.reaped k (by omega) hreaped
    rw [hpc] at this
    exact absurd this (by simp)
  · intro hx
    rw [hpc] at hx
    exact absurd hx (by simp)
  · intro _
    exact ⟨⟨hold.p_id, Or.inr ⟨i + 1, rfl, by omega, by omega⟩, fun _ _ => hexit⟩, rfl, rfl⟩

/-- A process exits that has a child. -/
theorem Chain.parentExit (h : Chain str st t e) (hk : k + 1 < st.count)
    (hpc : (st.proc k).pc = .head str.length) : Chain str (exit st k) t e := by
  have hold := h.older k hk
  have hset : Chain str (st.set k { st.proc k with pc := .exited, buffer := [] }) t e := by
    refine h.set ⟨rfl, rfl, fun _ => rfl, fun _ => rfl⟩ ?_ (fun hlast => by omega) (by omega)
    intro _
    refine ⟨⟨hold.p_id, Or.inl rfl, ?_⟩, rfl, rfl⟩
    intro _ hn
    exact hold.waited (Or.inr ⟨_, hpc, hn⟩) hn
  exact hset.withOut _

/-- The newest process forks. -/
theorem Chain.forkNewest (h : Chain str st t e) (hk : k + 1 = st.count) (hle : k ≤ str.length)
    (hpc : (st.proc k).pc ≠ .exited) {pid : Nat} (hpos : 0 < pid)
    (hfresh : ∀ c, c < st.count → (st.proc c).pid ≠ pid) :
    Chain str (fork st k (some pid) (.head k)) k 0 := by
  -- the new process is behind the others, and the one that forks is the only other change
  have hnew : ((fork st k (some pid) (.head k)).proc st.count) =
      ⟨pid, some k, 0, .head k, (st.proc k).buffer, false⟩ := set_proc_self _ _
  have hself : (fork st k (some pid) (.head k)).proc k = { st.proc k with p_id := pid, pc := .head k } :=
    (set_proc_ne (by omega) _).trans (set_proc_self _ _)
  have hother : ∀ c, c ≠ k → c ≠ st.count → (fork st k (some pid) (.head k)).proc c = st.proc c :=
    fun c hck hcn => (set_proc_ne hcn _).trans (set_proc_ne hck _)
  have hpid : ∀ c, c < st.count → ((fork st k (some pid) (.head k)).proc c).pid = (st.proc c).pid := by
    intro c hc
    by_cases hck : c = k
    · subst hck
      rw [hself]
    · rw [hother c hck (by omega)]
  refine ⟨Nat.succ_pos _, ?_, ?_, ?_, ?_, ?_⟩
  · intro c hc
    change c < st.count + 1 at hc
    by_cases hcn : c = st.count
    · subst hcn
      rw [hnew, if_neg (by omega), ← hk]
      rfl
    · by_cases hck : c = k
      · subst hck
        rw [hself]
        exact h.parent c (by omega)
      · rw [hother c hck hcn]
        exact h.parent c (by omega)
  · intro c d hc hd heq
    change c < st.count + 1 at hc
    change d < st.count + 1 at hd
    by_cases hcn : c = st.count
    · by_cases hdn : d = st.count
      · omega
      · subst hcn
        rw [hnew, hpid d (by omega)] at heq
        exact absurd heq.symm (hfresh d (by omega))
    · by_cases hdn : d = st.count
      · subst hdn
        rw [hnew, hpid c (by omega)] at heq
        exact absurd heq (hfresh c (by omega))
      · rw [hpid c (by omega), hpid d (by omega)] at heq
        exact h.pids c d (by omega) (by omega) heq
  · intro c hc hreaped
    change c < st.count + 1 at hc
    by_cases hcn : c = st.count
    · subst hcn
      rw [hnew] at hreaped
      exact Bool.noConfusion hreaped
    · by_cases hck : c = k
      · subst hck
        rw [hself] at hreaped
        exact absurd (h.reaped c (by omega) hreaped) hpc
      · rw [hother c hck hcn] at hreaped ⊢
        exact h.reaped c (by omega) hreaped
  · intro c hc
    change c + 1 < st.count + 1 at hc
    by_cases hck : c = k
    · subst hck
      rw [hself]
      refine ⟨Int.natCast_pos.2 hpos, Or.inr ⟨c, rfl, Nat.le_refl _, hle⟩, ?_⟩
      rintro (hx | ⟨i, hi, hlt⟩) _
      · exact absurd hx (by simp)
      · cases hi
        omega
    · rw [hother c hck (by omega)]
      have hold := h.older c (by omega)
      by_cases hchild : c + 1 = k
      · rw [hchild] at hold ⊢
        exact ⟨hold.p_id, hold.pc, fun hw hn => absurd (hold.waited hw hn) hpc⟩
      · rw [hother (c + 1) hchild (by omega)]
        exact hold
  · change Newest str.length st.count ((fork st k (some pid) (.head k)).proc st.count) k 0
    rw [hnew, show k = st.count - 1 by omega]
    by_cases hn : st.count ≤ str.length
    · exact .printing (by omega) hn rfl rfl
    · have hkn : st.count - 1 = str.length := by omega
      rw [hkn]
      exact .last (by omega) rfl rfl

/-- The process `k` is about to call `fork`. -/
def Forking (k : Nat) (pc : Point) : Prop :=
  pc = .start ∨ 0 < k ∧ pc = .fork (k - 1)

theorem Forking.ne_exited {pc : Point} (h : Forking k pc) : pc ≠ .exited := by
  rcases h with rfl | ⟨-, rfl⟩
  · simp
  · simp

/-- What a step of the process `k` does, and the letters and messages afterwards. -/
inductive Effect (tty : Bool) (str : List Char) (st : State) (k t e : Nat) : State → Nat → Nat → Prop
  | forks (pid : Nat) (hk : k + 1 = st.count) (ht : t = k) (he : e = 0) (hle : k ≤ str.length)
      (hpc : Forking k (st.proc k).pc) (hpos : 0 < pid)
      (hfresh : ∀ c, c < st.count → (st.proc c).pid ≠ pid) :
      Effect tty str st k t e (fork st k (some pid) (.head k)) t e
  | forkFails (hk : k + 1 = st.count) (ht : t = k) (he : e = 0) (hle : k ≤ str.length)
      (hpc : Forking k (st.proc k).pc) : Effect tty str st k t e (fork st k none (.head k)) t e
  | letter (hk : k + 1 = st.count) (ht : t + 1 = k) (he : e = 0) (hle : k ≤ str.length)
      (hid : (st.proc k).p_id = 0) (hpc : (st.proc k).pc = .head t) :
      Effect tty str st k t e
        ((print tty st k (.letter (str.getD t ' ') (st.proc k).pid)).goto k (.fork t)) (t + 1) e
  | message (i : Nat) (hk : k + 1 = st.count) (ht : t = k) (he : e = i - k) (hki : k ≤ i)
      (hi : i < str.length) (hid : (st.proc k).p_id < 0) (hpc : (st.proc k).pc = .head i) :
      Effect tty str st k t e ((print tty st k .notCreated).goto k (.head (i + 1))) t (e + 1)
  | exits (hk : k < st.count) (hpc : (st.proc k).pc = .head str.length) :
      Effect tty str st k t e (exit st k) t e
  | waits (i : Nat) (reaped : Bool) (hk : k + 1 < st.count) (hi : i < str.length)
      (hpc : (st.proc k).pc = .head i) (hexit : (st.proc (k + 1)).pc = .exited)
      (hreaped : reaped = true ∨ reaped = (st.proc (k + 1)).reaped) :
      Effect tty str st k t e
        ((st.set (k + 1) { st.proc (k + 1) with reaped := reaped }).goto k (.head (i + 1))) t e

theorem step_head {m : Move} {i : Nat} (hk : m.k < st.count) (hpc : (st.proc m.k).pc = .head i)
    (hi : i < str.length) : step tty str st m = turn tty st m.k i (str.getD i ' ') := by
  unfold step
  rw [if_pos hk, hpc]
  dsimp only
  rw [List.getD_eq_getElem?_getD, List.getElem?_eq_getElem hi, Option.getD_some]

theorem step_exit {m : Move} (hk : m.k < st.count) (hpc : (st.proc m.k).pc = .head str.length) :
    step tty str st m = some (exit st m.k) := by
  unfold step
  rw [if_pos hk, hpc]
  dsimp only
  rw [List.getElem?_eq_none (Nat.le_refl _)]

theorem set_same (k : Nat) : st.set k (st.proc k) = st := by
  unfold State.set
  rw [Function.update_eq_self]

/-- The newest process is never blocked; a fork is answered. -/
theorem step_newest (tty : Bool) (h : Chain str st t e) {m : Move} (hk : m.k + 1 = st.count)
    (hallowed : Allowed st m) (hpc : (st.proc m.k).pc ≠ .exited) :
    ∃ st' t' e', step tty str st m = some st' ∧ Effect tty str st m.k t e st' t' e' := by
  have hlt : m.k < st.count := by omega
  have hnew := h.newest
  rw [show st.count - 1 = m.k by omega] at hnew
  have hforks : t = m.k → e = 0 → m.k ≤ str.length → Forking m.k (st.proc m.k).pc →
      Effect tty str st m.k t e (fork st m.k m.answer (.head m.k)) t e := by
    intro ht he hle hpc
    cases hanswer : m.answer with
    | none => exact .forkFails hk ht he hle hpc
    | some pid =>
        rcases hallowed pid hanswer with ⟨hpos, hfresh⟩
        exact .forks pid hk ht he hle hpc hpos hfresh
  cases hnew with
  | starting hm hpc' =>
      refine ⟨_, _, _, ?_, hforks hm.symm rfl (by omega) (Or.inl hpc')⟩
      unfold step
      rw [if_pos hlt, hpc', hm]
  | printing hm hle hid hpc' =>
      refine ⟨_, _, _, ?_, .letter hk (by omega) rfl hle hid hpc'⟩
      rw [step_head hlt hpc' (by omega), turn, if_neg (by omega), if_pos hid]
  | forking hm hle hid hpc' =>
      refine ⟨_, _, _, ?_, hforks rfl rfl hle (Or.inr ⟨hm, hpc'⟩)⟩
      unfold step
      rw [if_pos hlt, hpc']
      dsimp only
      rw [show m.k - 1 + 1 = m.k by omega]
  | failed i hm hle hid hpc' =>
      by_cases hi : i < str.length
      · refine ⟨_, _, _, ?_, .message i hk rfl rfl hm hi hid hpc'⟩
        rw [step_head hlt hpc' hi, turn, if_pos hid]
      · rw [show i = str.length by omega] at hpc'
        exact ⟨_, _, _, step_exit hlt hpc', .exits hlt hpc'⟩
  | failedExit _ _ hpc' => exact absurd hpc' hpc
  | last hm hid hpc' => exact ⟨_, _, _, step_exit hlt hpc', .exits hlt hpc'⟩
  | lastExit _ _ hpc' => exact absurd hpc' hpc

/-- A process with a child goes on unless it waits for that child. -/
theorem step_older (tty : Bool) (h : Chain str st t e) {m : Move} (hk : m.k + 1 < st.count)
    (hpc : (st.proc m.k).pc ≠ .exited) :
    (step tty str st m = none ∧ (st.proc (m.k + 1)).pc ≠ .exited) ∨
      ∃ st' t' e', step tty str st m = some st' ∧ Effect tty str st m.k t e st' t' e' := by
  have hlt : m.k < st.count := by omega
  have hold := h.older m.k hk
  rcases hold.pc with hx | ⟨i, hpc', -, hle⟩
  · exact absurd hx hpc
  · by_cases hi : i < str.length
    · have hid := hold.p_id
      have hstep : step tty str st m = (wait st m.k).map fun st' => st'.goto m.k (.head (i + 1)) := by
        rw [step_head hlt hpc' hi, turn, if_neg (by omega), if_neg (by omega)]
      rw [hstep]
      rcases wait_spec h hk with ⟨hnone, hrun⟩ | ⟨hexit, hsame | hreap⟩
      · rw [hnone]
        exact Or.inl ⟨rfl, hrun⟩
      · rw [hsame]
        refine Or.inr ⟨_, _, _, ?_, .waits i _ hk hi hpc' hexit (Or.inr rfl)⟩
        rw [show ({ st.proc (m.k + 1) with reaped := (st.proc (m.k + 1)).reaped } : Proc) =
          st.proc (m.k + 1) from rfl, set_same]
        rfl
      · rw [hreap]
        exact Or.inr ⟨_, _, _, rfl, .waits i true hk hi hpc' hexit (Or.inl rfl)⟩
    · rw [show i = str.length by omega] at hpc'
      exact Or.inr ⟨_, _, _, step_exit hlt hpc', .exits hlt hpc'⟩

theorem step_effect (h : Chain str st t e) {m : Move} (hallowed : Allowed st m)
    (hstep : step tty str st m = some st') : ∃ t' e', Effect tty str st m.k t e st' t' e' := by
  have hlt : m.k < st.count := by
    by_contra hge
    rw [step, if_neg hge] at hstep
    exact absurd hstep (by simp)
  have hpc : (st.proc m.k).pc ≠ .exited := by
    intro hx
    rw [step, if_pos hlt, hx] at hstep
    exact absurd hstep (by simp)
  by_cases hk : m.k + 1 = st.count
  · rcases step_newest tty h hk hallowed hpc with ⟨st₁, t', e', hsome, heffect⟩
    rw [hstep] at hsome
    cases hsome
    exact ⟨t', e', heffect⟩
  · rcases step_older tty h (by omega) hpc with ⟨hnone, -⟩ | ⟨st₁, t', e', hsome, heffect⟩
    · rw [hnone] at hstep
      exact absurd hstep (by simp)
    · rw [hstep] at hsome
      cases hsome
      exact ⟨t', e', heffect⟩

/-- The newest process exits. -/
theorem Chain.newestExit (h : Chain str st t e) (hk : k + 1 = st.count)
    (hpc : (st.proc k).pc = .head str.length) : Chain str (exit st k) t e := by
  have hnew := h.newest
  rw [show st.count - 1 = k by omega] at hnew
  have hset : Chain str (st.set k { st.proc k with pc := .exited, buffer := [] }) t e := by
    refine h.set ⟨rfl, rfl, fun _ => rfl, fun _ => rfl⟩ (fun hlt => by omega) (fun _ => ?_) (by omega)
    cases hnew with
    | starting hm hpc' =>
        rw [hpc] at hpc'
        exact absurd hpc' (by simp)
    | printing hm hle hid hpc' =>
        rw [hpc] at hpc'
        have := Point.head.inj hpc'
        omega
    | forking hm hle hid hpc' =>
        rw [hpc] at hpc'
        exact absurd hpc' (by simp)
    | failed i hm hle hid hpc' =>
        rw [hpc] at hpc'
        have hi := Point.head.inj hpc'
        subst hi
        exact .failedExit hm hid rfl
    | failedExit hle hid hpc' => exact .failedExit hle hid rfl
    | last hm hid hpc' => exact .lastExit hm hid rfl
    | lastExit hm hid hpc' => exact .lastExit hm hid rfl
  exact hset.withOut _

/-- The newest process prints a line. -/
theorem Chain.printNewest (h : Chain str st t e) (hk : k + 1 = st.count)
    (hpc : (st.proc k).pc ≠ .exited) {line : Line} {pc : Point}
    (hnewest : ∀ buffer, Newest str.length k { st.proc k with pc := pc, buffer := buffer } t' e') :
    Chain str ((print tty st k line).goto k pc) t' e' := by
  rw [print_goto]
  have hset : Chain str (st.set k { st.proc k with
      pc := pc
      buffer := if tty then (st.proc k).buffer else (st.proc k).buffer ++ [line] }) t' e' :=
    h.setNewest hk rfl rfl rfl hpc (hnewest _)
  exact hset.withOut _

theorem Effect.chain (h : Chain str st t e) (heffect : Effect tty str st k t e st' t' e') :
    Chain str st' t' e' := by
  cases heffect with
  | forks pid hk ht he hle hpc hpos hfresh =>
      subst ht he
      exact h.forkNewest hk hle hpc.ne_exited hpos hfresh
  | forkFails hk ht he hle hpc =>
      refine h.setNewest hk rfl rfl rfl hpc.ne_exited ?_
      have hfailed : Newest str.length k { st.proc k with p_id := -1, pc := .head k } k (k - k) :=
        .failed k (Nat.le_refl _) hle (show (-1 : Int) < 0 by decide) rfl
      rw [Nat.sub_self] at hfailed
      rw [he, ht]
      exact hfailed
  | letter hk ht he hle hid hpc =>
      refine h.printNewest hk (by rw [hpc]; simp) ?_
      intro buffer
      rw [he, ht]
      exact .forking (by omega) hle hid (by rw [← ht]; rfl)
  | message i hk ht he hki hi hid hpc =>
      refine h.printNewest hk (by rw [hpc]; simp) ?_
      intro buffer
      rw [ht, show e + 1 = i + 1 - k by omega]
      exact .failed (i + 1) (by omega) (by omega) hid rfl
  | exits hk hpc =>
      by_cases hlast : k + 1 = st.count
      · exact h.newestExit hlast hpc
      · exact h.parentExit (by omega) hpc
  | waits i reaped hk hi hpc hexit hreaped =>
      have hmarked : Chain str (st.set (k + 1) { st.proc (k + 1) with reaped := reaped }) t e := by
        rcases hreaped with rfl | rfl
        · exact h.reap hk hexit
        · rw [set_same]
          exact h
      refine hmarked.parentTurn hk ?_ hi ?_
      · rw [set_proc_ne (by omega)]
        exact hpc
      · rw [set_proc_self]
        exact hexit

/-! ## Every run ends -/

/-- How far a process has come. -/
def Point.rank (n : Nat) : Point → Nat
  | .start => 0
  | .head i => 2 * i + 1
  | .fork i => 2 * i + 2
  | .exited => 2 * n + 2

def rank (str : List Char) (st : State) : Nat :=
  ∑ c ∈ Finset.range st.count, (st.proc c).pc.rank str.length

theorem rank_le_of_newest {n m : Nat} {pr : Proc} (h : Newest n m pr t e) : pr.pc.rank n ≤ 2 * n + 2 := by
  cases h with
  | starting hm hpc => simp [hpc, Point.rank]
  | printing hm hle hid hpc =>
      rw [hpc, Point.rank]
      omega
  | forking hm hle hid hpc =>
      rw [hpc, Point.rank]
      omega
  | failed i hm hle hid hpc =>
      rw [hpc, Point.rank]
      omega
  | failedExit hle hid hpc => rw [hpc, Point.rank]
  | last hm hid hpc =>
      rw [hpc, Point.rank]
      omega
  | lastExit hm hid hpc => rw [hpc, Point.rank]

theorem Chain.rank_le (h : Chain str st t e) :
    rank str st ≤ (str.length + 2) * (2 * str.length + 2) := by
  have hall : ∀ c ∈ Finset.range st.count, (st.proc c).pc.rank str.length ≤ 2 * str.length + 2 := by
    intro c hc
    have hlt := Finset.mem_range.1 hc
    by_cases hlast : c = st.count - 1
    · rw [hlast]
      exact rank_le_of_newest h.newest
    · rcases (h.older c (by omega)).pc with hx | ⟨i, hpc, -, hle⟩
      · rw [hx, Point.rank]
      · rw [hpc, Point.rank]
        omega
  calc
    rank str st ≤ st.count * (2 * str.length + 2) := by
      have hsum := Finset.sum_le_card_nsmul _ _ _ hall
      rw [Finset.card_range] at hsum
      exact hsum
    _ ≤ (str.length + 2) * (2 * str.length + 2) := Nat.mul_le_mul_right _ h.count_le

/-- What a step leaves alone: the pids, and the places of the other processes. -/
structure Around (st st' : State) (k : Nat) : Prop where
  count : st.count ≤ st'.count
  pid : ∀ c, c < st.count → (st'.proc c).pid = (st.proc c).pid
  pc : ∀ c, c < st.count → c ≠ k → (st'.proc c).pc = (st.proc c).pc

theorem around_set (st : State) (k : Nat) (pr : Proc) (out : List Line) (hpid : pr.pid = (st.proc k).pid) :
    Around st { st.set k pr with out := out } k := by
  refine ⟨Nat.le_refl _, ?_, ?_⟩
  · intro c _
    by_cases hck : c = k
    · subst hck
      exact (congrArg Proc.pid (set_proc_self c pr)).trans hpid
    · exact congrArg Proc.pid (set_proc_ne hck pr)
  · intro c _ hck
    exact congrArg Proc.pc (set_proc_ne hck pr)

theorem Effect.around (heffect : Effect tty str st k t e st' t' e') : Around st st' k := by
  cases heffect with
  | forks pid hk ht he hle hpc hpos hfresh =>
      have hset := around_set st k { st.proc k with p_id := pid, pc := .head k } st.out rfl
      refine ⟨Nat.le_succ _, ?_, ?_⟩
      · intro c hc
        exact (congrArg Proc.pid (set_proc_ne (by omega) _)).trans (hset.pid c hc)
      · intro c hc hck
        exact (congrArg Proc.pc (set_proc_ne (by omega) _)).trans (hset.pc c hc hck)
  | forkFails hk ht he hle hpc => exact around_set _ _ _ st.out rfl
  | letter hk ht he hle hid hpc =>
      rw [print_goto]
      exact around_set _ _ _ _ rfl
  | message i hk ht he hki hi hid hpc =>
      rw [print_goto]
      exact around_set _ _ _ _ rfl
  | exits hk hpc => exact around_set _ _ _ _ rfl
  | waits i reaped hk hi hpc hexit hreaped =>
      have hmark := around_set st (k + 1) { st.proc (k + 1) with reaped := reaped } st.out rfl
      have hgoto := around_set (st.set (k + 1) { st.proc (k + 1) with reaped := reaped }) k
        { (st.set (k + 1) { st.proc (k + 1) with reaped := reaped }).proc k with pc := .head (i + 1) }
        st.out rfl
      refine ⟨Nat.le_refl _, ?_, ?_⟩
      · intro c hc
        exact (hgoto.pid c hc).trans (hmark.pid c hc)
      · intro c hc hck
        refine (hgoto.pc c hc hck).trans ?_
        by_cases hchild : c = k + 1
        · rw [hchild, set_proc_self]
        · rw [set_proc_ne hchild]

/-- The process that goes on comes further. -/
theorem Effect.rank_lt (heffect : Effect tty str st k t e st' t' e') :
    k < st.count ∧ (st.proc k).pc.rank str.length < (st'.proc k).pc.rank str.length := by
  have hforking : ∀ pc, Forking k pc → pc.rank str.length < (Point.head k).rank str.length := by
    rintro pc (rfl | ⟨hpos, rfl⟩)
    · simp [Point.rank]
    · simp only [Point.rank]
      omega
  cases heffect with
  | forks pid hk ht he hle hpc hpos hfresh =>
      refine ⟨by omega, ?_⟩
      have hself : (fork st k (some pid) (.head k)).proc k =
          { st.proc k with p_id := pid, pc := .head k } :=
        (set_proc_ne (by omega) _).trans (set_proc_self _ _)
      rw [hself]
      exact hforking _ hpc
  | forkFails hk ht he hle hpc =>
      refine ⟨by omega, ?_⟩
      rw [show fork st k none (.head k) = st.set k { st.proc k with p_id := -1, pc := .head k } from rfl,
        set_proc_self]
      exact hforking _ hpc
  | letter hk ht he hle hid hpc =>
      refine ⟨by omega, ?_⟩
      rw [State.goto, set_proc_self, hpc]
      simp [Point.rank]
  | message i hk ht he hki hi hid hpc =>
      refine ⟨by omega, ?_⟩
      rw [State.goto, set_proc_self, hpc]
      simp [Point.rank]
  | exits hk hpc =>
      refine ⟨hk, ?_⟩
      rw [show (exit st k).proc k = { st.proc k with pc := .exited, buffer := [] } from set_proc_self _ _,
        hpc]
      simp [Point.rank]
  | waits i reaped hk hi hpc hexit hreaped =>
      refine ⟨by omega, ?_⟩
      rw [State.goto, set_proc_self, hpc]
      simp [Point.rank]

theorem Effect.rank_sum (heffect : Effect tty str st k t e st' t' e') : rank str st < rank str st' := by
  have haround := heffect.around
  rcases heffect.rank_lt with ⟨hk, hlt⟩
  have hsub : Finset.range st.count ⊆ Finset.range st'.count := by
    intro c hc
    exact Finset.mem_range.2 (Nat.lt_of_lt_of_le (Finset.mem_range.1 hc) haround.count)
  calc
    rank str st < ∑ c ∈ Finset.range st.count, (st'.proc c).pc.rank str.length := by
      refine Finset.sum_lt_sum ?_ ⟨k, Finset.mem_range.2 hk, hlt⟩
      intro c hc
      by_cases hck : c = k
      · rw [hck]
        exact hlt.le
      · rw [haround.pc c (Finset.mem_range.1 hc) hck]
    _ ≤ rank str st' := Finset.sum_le_sum_of_subset hsub

end Chain

end Letters
end Exec
end OsLab
