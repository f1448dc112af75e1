import OsLab.Exec.Letters

/-!
# Output — what the processes of `part_1.c` write

On a terminal the text appears once, in order.  In a file the lines that a process had printed before
its `fork` are written by its children as well.
-/

namespace OsLab
namespace Exec
namespace Letters

open OsLab.Lib
open scoped BigOperators

section Output

variable {tty : Bool} {str : List Char} {st st' : State} {t e t' e' k : Nat}

/-! ## The terminal -/

/-- The output of a program that writes every line at once. -/
structure Terminal (str : List Char) (st : State) (t e : Nat) : Prop where
  out : st.out = spelled str st t ++ List.replicate e .notCreated
  buffers : ∀ c, c < st.count → (st.proc c).buffer = []

theorem Chain.t_lt (h : Chain str st t e) : t < st.count := by
  have hcount := h.count
  cases h.newest with
  | starting hm _ => omega
  | printing hm hle _ _ => omega
  | forking hm hle _ _ => omega
  | failed i hm hle _ _ => omega
  | failedExit hle _ _ => omega
  | last hm _ _ => omega
  | lastExit hm _ _ => omega

theorem Around.spelled (h : Around st st' k) (str : List Char) {j : Nat} (hj : j < st.count) :
    spelled str st' j = spelled str st j := by
  refine List.map_congr_left ?_
  intro i hi
  rw [h.pid (i + 1) (by have := List.mem_range.1 hi; omega)]

theorem spelled_succ (str : List Char) (st : State) (t : Nat) :
    spelled str st (t + 1) = spelled str st t ++ [.letter (str.getD t ' ') (st.proc (t + 1)).pid] := by
  simp [spelled, List.range_succ]

/-- A change that keeps the buffers. -/
theorem buffer_set {pr : Proc} (h : pr.buffer = (st.proc k).buffer) (c : Nat) :
    ((st.set k pr).proc c).buffer = (st.proc c).buffer := by
  by_cases hck : c = k
  · subst hck
    rw [set_proc_self, h]
  · rw [set_proc_ne hck]

/-- The buffers after a `fork`: the new process has a copy. -/
theorem buffer_fork (pid : Nat) (pc : Point) (c : Nat) :
    ((fork st k (some pid) pc).proc c).buffer =
      if c = st.count then (st.proc k).buffer else (st.proc c).buffer := by
  by_cases hc : c = st.count
  · have hself : (fork st k (some pid) pc).proc st.count =
        ⟨pid, some k, 0, pc, (st.proc k).buffer, false⟩ := set_proc_self _ _
    rw [if_pos hc, hc, hself]
  · rw [if_neg hc]
    exact (congrArg Proc.buffer (set_proc_ne hc _)).trans (buffer_set (by rfl) c)

theorem buffer_wait (reaped : Bool) (i c : Nat) :
    (((st.set (k + 1) { st.proc (k + 1) with reaped := reaped }).goto k (.head i)).proc c).buffer =
      (st.proc c).buffer := by
  unfold State.goto
  exact (buffer_set (by rfl) c).trans (buffer_set (by rfl) c)

theorem Effect.terminal (h : Chain str st t e) (hterm : Terminal str st t e)
    (heffect : Effect true str st k t e st' t' e') : Terminal str st' t' e' := by
  have hspelled := heffect.around.spelled str h.t_lt
  have haround := heffect.around
  cases heffect with
  | forks pid hk ht he hle hpc hpos hfresh =>
      refine ⟨hspelled ▸ hterm.out, ?_⟩
      intro c hc
      rw [buffer_fork]
      split
      · exact hterm.buffers k (by omega)
      · exact hterm.buffers c (by change c < st.count + 1 at hc; omega)
  | forkFails hk ht he hle hpc =>
      refine ⟨hspelled ▸ hterm.out, ?_⟩
      intro c hc
      exact (buffer_set (by rfl) c).trans (hterm.buffers c hc)
  | letter hk ht he hle hid hpc =>
      rw [print_goto] at hspelled haround ⊢
      refine ⟨?_, ?_⟩
      · rw [spelled_succ, hspelled, ht, haround.pid k (by omega), he]
        change st.out ++ [_] = _
        rw [hterm.out, he]
        simp
      · intro c hc
        exact (buffer_set (by rfl) c).trans (hterm.buffers c hc)
  | message i hk ht he hki hi hid hpc =>
      rw [print_goto] at hspelled ⊢
      refine ⟨?_, ?_⟩
      · rw [hspelled]
        change st.out ++ [_] = _
        rw [hterm.out, List.append_assoc, ← List.replicate_succ']
      · intro c hc
        exact (buffer_set (by rfl) c).trans (hterm.buffers c hc)
  | exits hk hpc =>
      refine ⟨?_, ?_⟩
      · rw [hspelled]
        change st.out ++ (st.proc k).buffer = _
        rw [hterm.buffers k hk, List.append_nil, hterm.out]
      · intro c hc
        exact (buffer_set (hterm.buffers k hk).symm c).trans (hterm.buffers c hc)
  | waits i reaped hk hi hpc hexit hreaped =>
      refine ⟨hspelled ▸ hterm.out, ?_⟩
      intro c hc
      exact (buffer_wait reaped (i + 1) c).trans (hterm.buffers c hc)

/-! ## A file -/

/-- The lines that the process `c` has printed or taken over. -/
def view (str : List Char) (st : State) (t e c : Nat) : List Line :=
  if c + 1 < st.count then spelled str st c else spelled str st t ++ List.replicate e .notCreated

def buffered (st : State) (line : Line) : Nat :=
  ∑ c ∈ Finset.range st.count, (st.proc c).buffer.count line

def viewed (str : List Char) (st : State) (t e : Nat) (line : Line) : Nat :=
  ∑ c ∈ Finset.range st.count, (view str st t e c).count line

/-- The output of a program whose processes write when they exit. -/
structure File (str : List Char) (st : State) (t e : Nat) : Prop where
  buffers : ∀ c, c < st.count →
    (st.proc c).buffer = if (st.proc c).pc = .exited then [] else view str st t e c
  total : ∀ line, st.out.count line + buffered st line = viewed str st t e line

/-- One buffer changes. -/
theorem buffered_update (hk : k < st.count) (hcount : st'.count = st.count)
    (hother : ∀ c, c ≠ k → (st'.proc c).buffer = (st.proc c).buffer) (line : Line) :
    buffered st' line + (st.proc k).buffer.count line =
      buffered st line + (st'.proc k).buffer.count line := by
  have hmem := Finset.mem_range.2 hk
  unfold buffered
  rw [hcount, ← Finset.add_sum_erase _ _ hmem, ← Finset.add_sum_erase (Finset.range st.count)
    (fun c => (st.proc c).buffer.count line) hmem]
  have hsame : ∑ c ∈ (Finset.range st.count).erase k, (st'.proc c).buffer.count line =
      ∑ c ∈ (Finset.range st.count).erase k, (st.proc c).buffer.count line := by
    refine Finset.sum_congr rfl ?_
    intro c hc
    rw [hother c (Finset.ne_of_mem_erase hc)]
  rw [hsame]
  ring

/-- The views, when the newest process is `k`. -/
theorem viewed_newest (hk : k + 1 = st.count) (line : Line) :
    viewed str st t e line = (∑ c ∈ Finset.range k, (spelled str st c).count line) +
      (spelled str st t ++ List.replicate e Line.notCreated).count line := by
  unfold viewed
  rw [← hk, Finset.sum_range_succ]
  have hlast : view str st t e k = spelled str st t ++ List.replicate e Line.notCreated :=
    if_neg (by omega)
  rw [hlast]
  refine congrArg (· + _) (Finset.sum_congr rfl ?_)
  intro c hc
  rw [view, if_pos (by have := Finset.mem_range.1 hc; omega)]

theorem Around.view (h : Around st st' k) (hcount : st'.count = st.count) (ht : t < st.count) {c : Nat}
    (hc : c < st.count) : view str st' t e c = view str st t e c := by
  unfold Letters.view
  rw [hcount, h.spelled str hc, h.spelled str ht]

theorem Around.viewed (h : Around st st' k) (hcount : st'.count = st.count) (ht : t < st.count)
    (line : Line) : viewed str st' t e line = viewed str st t e line := by
  unfold Letters.viewed
  rw [hcount]
  refine Finset.sum_congr rfl ?_
  intro c hc
  rw [h.view hcount ht (Finset.mem_range.1 hc)]

/-- A step that prints nothing, between two places in the program. -/
theorem File.quiet (h : File str st t e) (haround : Around st st' k) (hcount : st'.count = st.count)
    (ht : t < st.count) (hout : st'.out = st.out)
    (hbuffer : ∀ c, (st'.proc c).buffer = (st.proc c).buffer) (hpc : (st.proc k).pc ≠ .exited)
    (hpc' : (st'.proc k).pc ≠ .exited) : File str st' t e := by
  refine ⟨?_, ?_⟩
  · intro c hc
    rw [hcount] at hc
    rw [hbuffer, h.buffers c hc, haround.view hcount ht hc]
    by_cases hck : c = k
    · subst hck
      rw [if_neg hpc, if_neg hpc']
    · rw [haround.pc c hc hck]
  · intro line
    have hsame : buffered st' line = buffered st line := by
      unfold buffered
      rw [hcount]
      exact Finset.sum_congr rfl fun c _ => by rw [hbuffer]
    rw [hout, hsame, haround.viewed hcount ht]
    exact h.total line

/-- The newest process prints a line. -/
theorem File.print (h : File str st t e) (line : Line) (hk : k + 1 = st.count)
    (haround : Around st st' k) (hcount : st'.count = st.count) (hout : st'.out = st.out)
    (hself : (st'.proc k).buffer = (st.proc k).buffer ++ [line])
    (hother : ∀ c, c ≠ k → (st'.proc c).buffer = (st.proc c).buffer)
    (hpc : (st.proc k).pc ≠ .exited) (hpc' : (st'.proc k).pc ≠ .exited)
    (hlines : spelled str st' t' ++ List.replicate e' Line.notCreated =
      spelled str st t ++ List.replicate e Line.notCreated ++ [line]) : File str st' t' e' := by
  have hlt : k < st.count := by omega
  refine ⟨?_, ?_⟩
  · intro c hc
    rw [hcount] at hc
    by_cases hck : c = k
    · subst hck
      have hlast : ¬ c + 1 < st.count := by omega
      rw [hself, h.buffers c hc, if_neg hpc, if_neg hpc', view, if_neg hlast, view, hcount,
        if_neg hlast, hlines]
    · have hfirst : c + 1 < st.count := by omega
      rw [hother c hck, h.buffers c hc, haround.pc c hc hck, view, if_pos hfirst, view, hcount,
        if_pos hfirst, haround.spelled str hc]
  · intro l
    have hbuffers := buffered_update hlt hcount hother l
    have htotal := h.total l
    have hspelled : ∑ c ∈ Finset.range k, (spelled str st' c).count l =
        ∑ c ∈ Finset.range k, (spelled str st c).count l := by
      refine Finset.sum_congr rfl ?_
      intro c hc
      rw [haround.spelled str (by have := Finset.mem_range.1 hc; omega)]
    rw [viewed_newest hk] at htotal
    rw [hself, List.count_append] at hbuffers
    rw [viewed_newest (hk.trans hcount.symm), hout, hspelled, hlines, List.count_append]
    omega

/-- A process writes its buffer and exits. -/
theorem File.exits (h : File str st t e) (hk : k < st.count) (ht : t < st.count)
    (haround : Around st (exit st k) k) (hpc : (st.proc k).pc ≠ .exited) : File str (exit st k) t e := by
  have hself : (exit st k).proc k = { st.proc k with pc := .exited, buffer := [] } := set_proc_self _ _
  have hother : ∀ c, c ≠ k → (exit st k).proc c = st.proc c := fun c hck => set_proc_ne hck _
  refine ⟨?_, ?_⟩
  · intro c hc
    change c < st.count at hc
    rw [haround.view rfl ht hc]
    by_cases hck : c = k
    · subst hck
      rw [hself, if_pos rfl]
    · rw [hother c hck]
      exact h.buffers c hc
  · intro line
    have hbuffers : buffered (exit st k) line + (st.proc k).buffer.count line =
        buffered st line + ((exit st k).proc k).buffer.count line :=
      buffered_update hk (show (exit st k).count = st.count from rfl)
        (fun c hck => congrArg Proc.buffer (hother c hck)) line
    have hempty : ((exit st k).proc k).buffer.count line = 0 := by
      rw [hself]
      rfl
    have htotal := h.total line
    rw [haround.viewed rfl ht]
    change (st.out ++ (st.proc k).buffer).count line + _ = _
    rw [List.count_append]
    omega

/-- A new process gets a copy of the lines. -/
theorem File.forks (h : File str st t e) (hk : k + 1 = st.count) (ht : t = k) (he : e = 0) (pid : Nat)
    (haround : Around st (fork st k (some pid) (.head k)) k) (hpc : (st.proc k).pc ≠ .exited) :
    File str (fork st k (some pid) (.head k)) t e := by
  have hold : (st.proc k).buffer = spelled str st k := by
    rw [h.buffers k (by omega), if_neg hpc, view, if_neg (by omega), ht, he]
    exact List.append_nil _
  have hspelled : ∀ c, c < st.count → spelled str (fork st k (some pid) (.head k)) c = spelled str st c :=
    fun c hc => haround.spelled str hc
  have hcount : (fork st k (some pid) (.head k)).count = st.count + 1 := rfl
  have hself : ((fork st k (some pid) (.head k)).proc k).pc = .head k :=
    congrArg Proc.pc ((set_proc_ne (by omega) _).trans (set_proc_self k { st.proc k with
      p_id := pid, pc := .head k }))
  have hnew : ((fork st k (some pid) (.head k)).proc st.count).pc = .head k :=
    congrArg Proc.pc (set_proc_self st.count ⟨pid, some k, 0, .head k, (st.proc k).buffer, false⟩)
  refine ⟨?_, ?_⟩
  · intro c hc
    rw [hcount] at hc
    rw [buffer_fork, view, hcount]
    by_cases hcn : c = st.count
    · -- the child
      subst hcn
      rw [if_pos rfl, hnew, if_neg (by simp), if_neg (by omega), hold, ht, he, hspelled k (by omega)]
      exact (List.append_nil _).symm
    · have hfirst : c + 1 < st.count + 1 := by omega
      rw [if_neg hcn, if_pos hfirst, hspelled c (by omega)]
      by_cases hck : c = k
      · subst hck
        rw [hself, if_neg (by simp), hold]
      · have hbefore : c + 1 < st.count := by omega
        rw [h.buffers c (by omega), haround.pc c (by omega) hck, view, if_pos hbefore]
  · intro line
    have htotal := h.total line
    rw [viewed_newest hk, ht, he] at htotal
    have hviews : viewed str (fork st k (some pid) (.head k)) t e line =
        (∑ c ∈ Finset.range (k + 1), (spelled str (fork st k (some pid) (.head k)) c).count line) +
          (spelled str (fork st k (some pid) (.head k)) t ++
            List.replicate e Line.notCreated).count line := viewed_newest (by rw [hcount, hk]) line
    have hsum : ∑ c ∈ Finset.range (k + 1),
        (spelled str (fork st k (some pid) (.head k)) c).count line =
        (∑ c ∈ Finset.range k, (spelled str st c).count line) + (spelled str st k).count line := by
      rw [← Finset.sum_range_succ]
      refine Finset.sum_congr rfl ?_
      intro c hc
      rw [hspelled c (by have := Finset.mem_range.1 hc; omega)]
    have hbuffers : buffered (fork st k (some pid) (.head k)) line =
        buffered st line + (spelled str st k).count line := by
      unfold buffered
      rw [hcount, Finset.sum_range_succ, buffer_fork, if_pos rfl, hold]
      refine congrArg (· + _) (Finset.sum_congr rfl ?_)
      intro c hc
      rw [buffer_fork, if_neg (by have := Finset.mem_range.1 hc; omega)]
    rw [hviews, hsum, hbuffers, ht, he, hspelled k (by omega)]
    change st.out.count line + _ = _
    omega

theorem Effect.file (h : Chain str st t e) (hfile : File str st t e)
    (heffect : Effect false str st k t e st' t' e') : File str st' t' e' := by
  have haround := heffect.around
  cases heffect with
  | forks pid hk ht he hle hpc hpos hfresh => exact hfile.forks hk ht he pid haround hpc.ne_exited
  | forkFails hk ht he hle hpc =>
      refine hfile.quiet haround rfl h.t_lt rfl (buffer_set (by rfl)) hpc.ne_exited ?_
      rw [fork, set_proc_self]
      simp
  | letter hk ht he hle hid hpc =>
      have hpid := haround.pid k (by omega)
      refine hfile.print (.letter (str.getD t ' ') (st.proc k).pid) hk haround ?_ ?_ ?_ ?_
        (by rw [hpc]; simp) ?_ ?_
      · rfl
      · rfl
      · rw [print_goto]
        exact congrArg Proc.buffer (set_proc_self k _)
      · intro c hck
        rw [print_goto]
        exact congrArg Proc.buffer (set_proc_ne hck _)
      · rw [State.goto, set_proc_self]
        simp
      · rw [spelled_succ, haround.spelled str h.t_lt, ht, hpid, he]
        simp
  | message i hk ht he hki hi hid hpc =>
      refine hfile.print .notCreated hk haround ?_ ?_ ?_ ?_ (by rw [hpc]; simp) ?_ ?_
      · rfl
      · rfl
      · rw [print_goto]
        exact congrArg Proc.buffer (set_proc_self k _)
      · intro c hck
        rw [print_goto]
        exact congrArg Proc.buffer (set_proc_ne hck _)
      · rw [State.goto, set_proc_self]
        simp
      · rw [haround.spelled str h.t_lt, List.append_assoc, ← List.replicate_succ']
  | exits hk hpc => exact hfile.exits hk h.t_lt haround (by rw [hpc]; simp)
  | waits i reaped hk hi hpc hexit hreaped =>
      refine hfile.quiet haround rfl h.t_lt rfl (buffer_wait reaped (i + 1)) (by rw [hpc]; simp) ?_
      rw [State.goto, set_proc_self]
      simp

/-! ## Runs -/

/-- The output that belongs to the kind of stream. -/
def Printed (tty : Bool) (str : List Char) (st : State) (t e : Nat) : Prop :=
  (tty = true → Terminal str st t e) ∧ (tty = false → File str st t e)

theorem Effect.printed (h : Chain str st t e) (hprinted : Printed tty str st t e)
    (heffect : Effect tty str st k t e st' t' e') : Printed tty str st' t' e' := by
  refine ⟨?_, ?_⟩
  · rintro rfl
    exact heffect.terminal h (hprinted.1 rfl)
  · rintro rfl
    exact heffect.file h (hprinted.2 rfl)

theorem start_printed (str : List Char) (pid : Nat) : Printed tty str (start pid) 0 0 := by
  refine ⟨fun _ => ⟨rfl, fun _ _ => rfl⟩, fun _ => ⟨?_, ?_⟩⟩
  · intro c hc
    rw [Nat.lt_one_iff.1 hc]
    rfl
  · intro line
    rfl

/-- Every step counts in the rank. -/
theorem run_spec {moves : List Move} (h : Chain str st t e) (hprinted : Printed tty str st t e)
    (hguard : Guarded (step tty str) Allowed st moves) (hrun : moves.foldlM (step tty str) st = some st') :
    ∃ t' e', Chain str st' t' e' ∧ Printed tty str st' t' e' ∧
      rank str st + moves.length ≤ rank str st' := by
  induction moves generalizing st t e with
  | nil =>
      cases hrun
      exact ⟨t, e, h, hprinted, Nat.le_refl _⟩
  | cons m moves ih =>
      rcases foldlM_cons_eq_some.1 hrun with ⟨st₁, hstep, hrest⟩
      rcases step_effect h hguard.1 hstep with ⟨t₁, e₁, heffect⟩
      have hlt := heffect.rank_sum
      rcases ih (heffect.chain h) (heffect.printed h hprinted) (hguard.2 st₁ hstep) hrest with
        ⟨t', e', h', hprinted', hrank⟩
      refine ⟨t', e', h', hprinted', ?_⟩
      rw [List.length_cons]
      omega

theorem allowed_none (st : State) (k : Nat) : Allowed st ⟨k, none⟩ := by
  intro pid hpid
  cases hpid

/-- Some process goes on until all have exited. -/
theorem Chain.halted (h : Chain str st t e)
    (hhalt : ∀ m, Allowed st m → step tty str st m = none) :
    ∀ c, c < st.count → (st.proc c).pc = .exited := by
  -- from the newest process down: a parent whose child has exited does not wait
  have hdown : ∀ j, j < st.count → (st.proc (st.count - 1 - j)).pc = .exited := by
    intro j
    induction j with
    | zero =>
        intro hlt
        by_contra hpc
        have hallowed := allowed_none st (st.count - 1)
        rcases step_newest tty h (show st.count - 1 + 1 = st.count by omega) hallowed hpc with
          ⟨st', t', e', hsome, -⟩
        rw [hhalt _ hallowed] at hsome
        exact absurd hsome (by simp)
    | succ j ih =>
        intro hlt
        by_contra hpc
        have hchild := ih (by omega)
        have hallowed := allowed_none st (st.count - 1 - (j + 1))
        rcases step_older tty h (m := ⟨st.count - 1 - (j + 1), none⟩)
            (show st.count - 1 - (j + 1) + 1 < st.count by omega) hpc with
          ⟨-, hrun⟩ | ⟨st', t', e', hsome, -⟩
        · rw [show st.count - 1 - (j + 1) + 1 = st.count - 1 - j by omega] at hrun
          exact hrun hchild
        · rw [hhalt _ hallowed] at hsome
          exact absurd hsome (by simp)
  intro c hc
  have := hdown (st.count - 1 - c) (by omega)
  rwa [show st.count - 1 - (st.count - 1 - c) = c by omega] at this

/-- Some `fork` failed. -/
def Failed (st : State) : Prop :=
  ∃ c, c < st.count ∧ (st.proc c).p_id < 0

theorem Chain.t_le (h : Chain str st t e) : t ≤ str.length := by
  cases h.newest with
  | starting hm _ => omega
  | printing hm hle _ _ => omega
  | forking hm hle _ _ => omega
  | failed i hm hle _ _ => omega
  | failedExit hle _ _ => omega
  | last hm _ _ => omega
  | lastExit hm _ _ => omega

theorem Chain.e_eq_zero (h : Chain str st t e) (hok : ¬ Failed st) : e = 0 := by
  have hcount := h.count
  cases h.newest with
  | starting hm _ => rfl
  | printing hm hle _ _ => rfl
  | forking hm hle _ _ => rfl
  | failed i hm hle hid _ => exact absurd ⟨st.count - 1, by omega, hid⟩ hok
  | failedExit hle hid _ => exact absurd ⟨st.count - 1, by omega, hid⟩ hok
  | last hm _ _ => rfl
  | lastExit hm _ _ => rfl

/-- The exit of the first process, passed on to the children. -/
theorem Chain.exited_upto (h : Chain str st t e) (hfirst : (st.proc 0).pc = .exited) :
    ∀ c, c < st.count → c ≤ str.length → (st.proc c).pc = .exited := by
  intro c
  induction c with
  | zero =>
      intro _ _
      exact hfirst
  | succ c ih =>
      intro hlt hle
      exact (h.older c hlt).waited (Or.inl (ih (by omega) (by omega))) (by omega)

theorem Chain.complete (h : Chain str st t e) (hfirst : (st.proc 0).pc = .exited) (hok : ¬ Failed st) :
    t = str.length ∧ st.count = str.length + 2 := by
  have hcount := h.count
  have hexit : st.count - 1 ≤ str.length → (st.proc (st.count - 1)).pc = .exited :=
    h.exited_upto hfirst _ (by omega)
  cases h.newest with
  | starting hm hpc =>
      rw [hexit (by omega)] at hpc
      exact absurd hpc (by simp)
  | printing hm hle _ hpc =>
      rw [hexit hle] at hpc
      exact absurd hpc (by simp)
  | forking hm hle _ hpc =>
      rw [hexit hle] at hpc
      exact absurd hpc (by simp)
  | failed i hm hle hid _ => exact absurd ⟨st.count - 1, by omega, hid⟩ hok
  | failedExit hle hid _ => exact absurd ⟨st.count - 1, by omega, hid⟩ hok
  | last hm _ _ => exact ⟨rfl, by omega⟩
  | lastExit hm _ _ => exact ⟨rfl, by omega⟩

/-- A line of the text among the first `c`. -/
theorem Chain.count_spelled (h : Chain str st t e) {j c : Nat} (hj : j + 1 < st.count) (hc : c < st.count) :
    (spelled str st c).count (.letter (str.getD j ' ') (st.proc (j + 1)).pid) = if j < c then 1 else 0 := by
  induction c with
  | zero => rfl
  | succ c ih =>
      rw [spelled_succ, List.count_append, ih (by omega)]
      by_cases hcj : c = j
      · subst hcj
        rw [if_neg (by omega), if_pos (by omega), List.count_singleton_self]
      · have hne : Line.letter (str.getD c ' ') (st.proc (c + 1)).pid ≠
            .letter (str.getD j ' ') (st.proc (j + 1)).pid := by
          intro heq
          have := h.pids (c + 1) (j + 1) hc hj (Line.letter.inj heq).2
          omega
        rw [List.count_cons_of_ne hne, List.count_nil, Nat.add_zero]
        by_cases hlt : j < c
        · rw [if_pos hlt, if_pos (by omega)]
        · rw [if_neg hlt, if_neg (by omega)]

/-- The processes behind the place `j`. -/
theorem sum_later (j n : Nat) : (∑ c ∈ Finset.range n, if j < c then 1 else 0) = n - (j + 1) := by
  induction n with
  | zero => simp
  | succ n ih =>
      rw [Finset.sum_range_succ, ih]
      split <;> omega

end Output

/-- **The terminal.**  In every order of the steps the run is finite and is never stuck; the terminal
shows a beginning of the text, each letter once, in order and from another process, and messages only
if a `fork` failed.  When the first process has exited, the text is complete unless a `fork` failed. -/
theorem letters_terminal (str : List Char) (pid : Nat) (moves : List Move)
    (hguard : Guarded (step true str) Allowed (start pid) moves) (st : State)
    (hrun : moves.foldlM (step true str) (start pid) = some st) :
    moves.length ≤ (str.length + 2) * (2 * str.length + 2) ∧
      (∀ c d, c < st.count → d < st.count → (st.proc c).pid = (st.proc d).pid → c = d) ∧
      (∃ t e, t ≤ str.length ∧ t < st.count ∧
        st.out = spelled str st t ++ List.replicate e Line.notCreated ∧ (¬ Failed st → e = 0) ∧
        ((st.proc 0).pc = .exited → ¬ Failed st → t = str.length)) ∧
      ((∀ m, Allowed st m → step true str st m = none) →
        ∀ c, c < st.count → (st.proc c).pc = .exited) := by
  rcases run_spec (start_chain str pid) (start_printed str pid) hguard hrun with
    ⟨t, e, h, hprinted, hrank⟩
  have hbound := h.rank_le
  refine ⟨by omega, h.pids, ⟨t, e, h.t_le, h.t_lt, (hprinted.1 rfl).out, h.e_eq_zero, ?_⟩, h.halted⟩
  intro hfirst hok
  exact (h.complete hfirst hok).1

/-- **A file.**  Where the lines are kept until a process exits, the copies of the buffers are written
too: at the end, if no `fork` failed, letter `j` of `n` is in the file `n + 1 - j` times. -/
theorem letters_file (str : List Char) (pid : Nat) (moves : List Move)
    (hguard : Guarded (step false str) Allowed (start pid) moves) (st : State)
    (hrun : moves.foldlM (step false str) (start pid) = some st)
    (hend : ∀ m, Allowed st m → step false str st m = none) (hok : ¬ Failed st) {j : Nat}
    (hj : j < str.length) :
    st.out.count (.letter (str.getD j ' ') (st.proc (j + 1)).pid) = str.length + 1 - j := by
  rcases run_spec (start_chain str pid) (start_printed str pid) hguard hrun with ⟨t, e, h, hprinted, -⟩
  have hexited := h.halted hend
  rcases h.complete (hexited 0 h.count) hok with ⟨ht, hcount⟩
  have hfile := hprinted.2 rfl
  have htotal := hfile.total (.letter (str.getD j ' ') (st.proc (j + 1)).pid)
  have hempty : buffered st (.letter (str.getD j ' ') (st.proc (j + 1)).pid) = 0 := by
    refine Finset.sum_eq_zero ?_
    intro c hc
    have hlt := Finset.mem_range.1 hc
    rw [hfile.buffers c hlt, if_pos (hexited c hlt)]
    rfl
  have hsum : ∑ c ∈ Finset.range (str.length + 1),
      (spelled str st c).count (.letter (str.getD j ' ') (st.proc (j + 1)).pid) = str.length - j := by
    rw [show str.length - j = str.length + 1 - (j + 1) by omega, ← sum_later]
    refine Finset.sum_congr rfl ?_
    intro c hc
    exact h.count_spelled (by omega) (by have := Finset.mem_range.1 hc; omega)
  rw [hempty, Nat.add_zero, viewed_newest (show str.length + 1 + 1 = st.count by omega), hsum, ht,
    h.e_eq_zero hok, List.replicate_zero, List.append_nil,
    h.count_spelled (by omega) (by omega), if_pos hj] at htotal
  omega

/-! ## A text of two letters -/

/-- The parents run last, and process 1 exits before process 0 waits. -/
def hiMoves : List Move :=
  [⟨0, some 11⟩, ⟨1, none⟩, ⟨1, some 12⟩, ⟨2, none⟩, ⟨2, some 13⟩, ⟨3, none⟩, ⟨2, none⟩, ⟨1, none⟩,
    ⟨1, none⟩, ⟨0, none⟩, ⟨0, none⟩, ⟨0, none⟩]

theorem guarded_hi (tty : Bool) : Guarded (step tty ['H', 'i']) Allowed (start 10) hiMoves := by
  have hfork : ∀ {st : State} {k pid : Nat}, 0 < pid → (∀ c, c < st.count → (st.proc c).pid ≠ pid) →
      Allowed st ⟨k, some pid⟩ := by
    intro st k pid hpos hfresh pid' hpid
    cases hpid
    exact ⟨hpos, hfresh⟩
  cases tty
  all_goals
    refine Guarded.cons _ rfl (hfork (by decide) (by decide)) ?_
    refine Guarded.cons _ rfl (allowed_none _ _) ?_
    refine Guarded.cons _ rfl (hfork (by decide) (by decide)) ?_
    refine Guarded.cons _ rfl (allowed_none _ _) ?_
    refine Guarded.cons _ rfl (hfork (by decide) (by decide)) ?_
    refine Guarded.cons _ rfl (allowed_none _ _) ?_
    refine Guarded.cons _ rfl (allowed_none _ _) ?_
    refine Guarded.cons _ rfl (allowed_none _ _) ?_
    refine Guarded.cons _ rfl (allowed_none _ _) ?_
    refine Guarded.cons _ rfl (allowed_none _ _) ?_
    refine Guarded.cons _ rfl (allowed_none _ _) ?_
    exact Guarded.cons _ rfl (allowed_none _ _) trivial

theorem letters_terminal_hi :
    ∃ st, hiMoves.foldlM (step true ['H', 'i']) (start 10) = some st ∧
      st.out = [.letter 'H' 11, .letter 'i' 12] ∧
      ∃ t e, t ≤ 2 ∧ t < st.count ∧
        st.out = spelled ['H', 'i'] st t ++ List.replicate e Line.notCreated ∧ (¬ Failed st → e = 0) ∧
        ((st.proc 0).pc = .exited → ¬ Failed st → t = 2) :=
  ⟨_, rfl, by decide, (letters_terminal ['H', 'i'] 10 hiMoves (guarded_hi true) _ rfl).2.2.1⟩

theorem letters_file_hi :
    ∃ st, hiMoves.foldlM (step false ['H', 'i']) (start 10) = some st ∧
      st.out.count (.letter 'H' 11) = 3 := by
  refine ⟨_, rfl, ?_⟩
  refine letters_file ['H', 'i'] 10 hiMoves (guarded_hi false) _ rfl ?_ ?_ (show 0 < 2 by decide)
  · rintro ⟨k, answer⟩ _
    by_cases hk : k < 4
    · have hcases : k = 0 ∨ k = 1 ∨ k = 2 ∨ k = 3 := by omega
      rcases hcases with rfl | rfl | rfl | rfl
      all_goals rfl
    · exact if_neg hk
  · rintro ⟨c, hc, hneg⟩
    change c < 4 at hc
    have hcases : c = 0 ∨ c = 1 ∨ c = 2 ∨ c = 3 := by omega
    rcases hcases with rfl | rfl | rfl | rfl
    all_goals exact absurd hneg (by decide)

end Letters
end Exec
end OsLab
