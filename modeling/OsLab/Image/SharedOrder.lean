import OsLab.Image.SharedMemory

/-!
# SharedOrder — processes in order

As long as the processes of `part2_2` run in the order `InOrder`, each pixel of the shared segment is
as its place in the order says: as it was read, grey, or grey and blurred.

`Move` lists what each step does.  `Family` says which processes are there, in any run; `Control` and
`Ordered` say where the processes and the pixels are in a run in order.
-/

namespace OsLab
namespace Image

open Lib

variable {R : Rounding} {w h : Nat} {M : Nat → Pixel} {st st' : System} {a : Proc}

/-! ## Rows in a flat array -/

theorem greySegment_apply (seg : Segment) (p x : Nat) :
    greySegment R w seg p x =
      if p * w ≤ x ∧ x < p * w + w then greyCell R (seg x) else seg x := by
  have hloop : ∀ n,
      (List.range n).foldl
        (fun seg q => Function.update seg (p * w + q) (greyCell R (seg (p * w + q)))) seg x =
        if p * w ≤ x ∧ x < p * w + n then greyCell R (seg x) else seg x := by
    -- After `n` turns of the loop the first `n` pixels of the row are grey.
    intro n
    induction n generalizing x with
    | zero => rw [if_neg (by omega)]; rfl
    | succ n ih =>
        rw [List.range_succ, List.foldl_append, List.foldl_cons, List.foldl_nil]
        by_cases hx : x = p * w + n
        · subst hx
          -- The pixel of this turn has not been touched by the turns before.
          rw [Function.update_self, ih, if_neg (by omega), if_pos (by omega)]
        · rw [Function.update_of_ne hx, ih]
          have hiff : (p * w ≤ x ∧ x < p * w + n) ↔ (p * w ≤ x ∧ x < p * w + (n + 1)) := by omega
          simp only [hiff]
  exact hloop w

theorem greySegment_flat (seg : Segment) (p : Nat) {i q : Nat} (hq : q < w) :
    greySegment R w seg p (i * w + q) =
      if i = p then greyCell R (seg (i * w + q)) else seg (i * w + q) := by
  simp only [greySegment_apply, flat_mem_row hq]

theorem blurSegment_apply (seg : Segment) (t : Nat → Nat → Cell) (p i j : Nat) :
    blurSegment R w seg t p i j = if i = p ∧ j < w then blurCell R w seg p j else t i j := by
  rw [blurSegment, foldl_columns (p := p) (v := blurCell R w seg p)]
  intro N q _ _
  rfl

/-! ## Single steps -/

/-- What each step does. -/
inductive Move (R : Rounding) (w h : Nat) (st : System) : Proc → System → Prop
  | forkBlur : st.parent = .forkBlur →
      Move R w h st .parent { st with parent := .forkGrey, blurChild := .attach }
  | forkGrey : st.parent = .forkGrey →
      Move R w h st .parent
        { st with parent := .wait1, grey := Function.update st.grey .child .attach }
  | parentWait : st.parent = .wait1 → Move R w h st .parent { st with parent := .wait2 }
  | parentWaitAll : st.parent = .wait2 → st.blurChild = .exited → st.grey .child = .exited →
      Move R w h st .parent { st with parent := .output }
  | parentOutput : st.parent = .output →
      Move R w h st .parent { st.remove with parent := .exited, output := some (st.segs 0) }
  | blurAttach : st.blurChild = .attach →
      Move R w h st .blurChild { st.shmget with blurChild := .rows st.shmid 0 }
  | blurRow (id p : Nat) : st.blurChild = .rows id p → p < h →
      Move R w h st .blurChild
        { st with
          tmatrix := blurSegment R w (st.segs id) st.tmatrix p
          blurChild := .rows id (p + 1) }
  | blurRows (id p : Nat) : st.blurChild = .rows id p → ¬ p < h →
      Move R w h st .blurChild { st with blurChild := .back id h 0 }
  | copyPixel (id n j : Nat) : st.blurChild = .back id (n + 1) j → j < w →
      Move R w h st .blurChild
        { st with
          segs := Function.update st.segs id
            (Function.update (st.segs id) (n * w + j) (st.tmatrix n j))
          blurChild := .back id (n + 1) (j + 1) }
  | copyRow (id n j : Nat) : st.blurChild = .back id (n + 1) j → ¬ j < w →
      Move R w h st .blurChild { st with blurChild := .back id n 0 }
  | copyAll (id j : Nat) : st.blurChild = .back id 0 j →
      Move R w h st .blurChild { st with blurChild := .forkGrey }
  | forkGrandchild : st.blurChild = .forkGrey →
      Move R w h st .blurChild
        { st with blurChild := .wait1, grey := Function.update st.grey .grandchild .attach }
  | blurWait : st.blurChild = .wait1 → st.grey .grandchild = .exited →
      Move R w h st .blurChild { st with blurChild := .wait2 }
  | blurNoWait : st.blurChild = .wait2 → Move R w h st .blurChild { st with blurChild := .output }
  | blurRemove : st.blurChild = .output →
      Move R w h st .blurChild { st.remove with blurChild := .exited }
  | greyAttach (c : Grey) : st.grey c = .attach →
      Move R w h st (.grey c)
        { st.shmget with grey := Function.update st.grey c (.rows st.shmid 0) }
  | greyRow (c : Grey) (id p : Nat) : st.grey c = .rows id p → p < h →
      Move R w h st (.grey c)
        { st with
          segs := Function.update st.segs id (greySegment R w (st.segs id) p)
          grey := Function.update st.grey c (.rows id (p + 1)) }
  | greyRows (c : Grey) (id p : Nat) : st.grey c = .rows id p → ¬ p < h →
      Move R w h st (.grey c) { st with grey := Function.update st.grey c .output }
  | greyRemove (c : Grey) : st.grey c = .output →
      Move R w h st (.grey c) { st.remove with grey := Function.update st.grey c .exited }

theorem move_of_step (hstep : step R w h st a = some st') : Move R w h st a st' := by
  cases a with
  | parent =>
      simp only [step, parentStep] at hstep
      cases hpc : st.parent with
      | forkBlur =>
          simp only [hpc] at hstep
          cases hstep
          exact .forkBlur hpc
      | forkGrey =>
          simp only [hpc] at hstep
          cases hstep
          exact .forkGrey hpc
      | wait1 =>
          simp only [hpc] at hstep
          split_ifs at hstep
          cases hstep
          exact .parentWait hpc
      | wait2 =>
          simp only [hpc] at hstep
          split_ifs at hstep with hboth
          cases hstep
          exact .parentWaitAll hpc hboth.1 hboth.2
      | output =>
          simp only [hpc] at hstep
          cases hstep
          exact .parentOutput hpc
      | exited => simp [hpc] at hstep
  | blurChild =>
      simp only [step, blurStep] at hstep
      cases hpc : st.blurChild with
      | unborn => simp [hpc] at hstep
      | attach =>
          simp only [hpc] at hstep
          cases hstep
          exact .blurAttach hpc
      | rows id p =>
          simp only [hpc] at hstep
          -- With the semaphore at zero there is no step.
          split_ifs at hstep with hp
          · cases hstep
            exact .blurRow id p hpc hp
          · cases hstep
            exact .blurRows id p hpc hp
      | back id n j =>
          cases n with
          | zero =>
              simp only [hpc] at hstep
              cases hstep
              exact .copyAll id j hpc
          | succ n =>
              simp only [hpc] at hstep
              split_ifs at hstep with hj
              · cases hstep
                exact .copyPixel id n j hpc hj
              · cases hstep
                exact .copyRow id n j hpc hj
      | forkGrey =>
          simp only [hpc] at hstep
          cases hstep
          exact .forkGrandchild hpc
      | wait1 =>
          simp only [hpc] at hstep
          split_ifs at hstep with hchild
          cases hstep
          exact .blurWait hpc hchild
      | wait2 =>
          simp only [hpc] at hstep
          cases hstep
          exact .blurNoWait hpc
      | output =>
          simp only [hpc] at hstep
          cases hstep
          exact .blurRemove hpc
      | exited => simp [hpc] at hstep
  | grey c =>
      simp only [step, greyStep] at hstep
      cases hpc : st.grey c with
      | unborn => simp [hpc] at hstep
      | attach =>
          simp only [hpc] at hstep
          cases hstep
          exact .greyAttach c hpc
      | rows id p =>
          simp only [hpc] at hstep
          split_ifs at hstep with hp
          · cases hstep
            exact .greyRow c id p hpc hp
          · cases hstep
            exact .greyRows c id p hpc hp
      | output =>
          simp only [hpc] at hstep
          cases hstep
          exact .greyRemove c hpc
      | exited => simp [hpc] at hstep

/-! ## Parents and children -/

/-- The child that blurs has not forked yet. -/
def BlurPc.BeforeFork : BlurPc → Prop
  | .unborn | .attach | .rows _ _ | .back _ _ _ | .forkGrey => True
  | .wait1 | .wait2 | .output | .exited => False

/-- The child that blurs has waited for its own child. -/
def BlurPc.Waited : BlurPc → Prop
  | .unborn | .attach | .rows _ _ | .back _ _ _ | .forkGrey | .wait1 => False
  | .wait2 | .output | .exited => True

/-- Who is there, and who has to have gone. -/
structure Family (st : System) : Prop where
  blurUnborn : st.parent = .forkBlur → st.blurChild = .unborn
  greyUnborn : st.parent = .forkBlur ∨ st.parent = .forkGrey → st.grey .child = .unborn
  grandchildUnborn : st.blurChild.BeforeFork → st.grey .grandchild = .unborn
  grandchildExited : st.blurChild.Waited → st.grey .grandchild = .exited
  childrenExited : st.parent = .output ∨ st.parent = .exited →
    st.blurChild = .exited ∧ st.grey .child = .exited
  silent : st.parent ≠ .exited → st.output = none

theorem Family.move (hst : Family st) (hmove : Move R w h st a st') : Family st' := by
  rcases hst with ⟨h1, h2, h3, h4, h5, h6⟩
  -- Only the steps of a process change its own place, and a fork that of the child.
  cases hmove with
  | greyAttach c hpc => cases c <;> constructor <;> simp_all [System.shmget]
  | greyRow c id p hpc hp => cases c <;> constructor <;> simp_all
  | greyRows c id p hpc hp => cases c <;> constructor <;> simp_all
  | greyRemove c hpc => cases c <;> constructor <;> simp_all [System.remove]
  | _ => constructor <;> simp_all [BlurPc.BeforeFork, BlurPc.Waited, System.shmget, System.remove]

/-! ## Processes in order -/

/-- The rows that are in `tmatrix`. -/
def BlurPc.read (h : Nat) : BlurPc → Nat
  | .unborn | .attach => 0
  | .rows _ p => p
  | .back _ _ _ | .forkGrey | .wait1 | .wait2 | .output | .exited => h

/-- The pixels that have been copied back. -/
def BlurPc.copied : BlurPc → Nat → Nat → Bool
  | .unborn, _, _ | .attach, _, _ | .rows _ _, _, _ => false
  | .back _ n j, p, q => decide (n ≤ p ∨ (n = p + 1 ∧ q < j))
  | .forkGrey, _, _ | .wait1, _, _ | .wait2, _, _ | .output, _, _ | .exited, _, _ => true

/-- All rows have been read. -/
def BlurPc.PastRows : BlurPc → Prop
  | .unborn | .attach | .rows _ _ => False
  | .back _ _ _ | .forkGrey | .wait1 | .wait2 | .output | .exited => True

/-- The grandchild has not asked for the segment yet. -/
def GreyPc.BeforeAttach : GreyPc → Prop
  | .unborn | .attach => True
  | .rows _ _ | .output | .exited => False

/-- Which segments the processes work on, and how far they are. -/
structure Control (h : Nat) (st : System) : Prop where
  nextId : 0 < st.nextId
  key : st.grey .child ≠ .exited → st.key = some 0
  greyRows : ∀ id p, st.grey .child = .rows id p → id = 0 ∧ p ≤ h
  blurRows : ∀ id p, st.blurChild = .rows id p → id = 0 ∧ p ≤ (st.grey .child).done h
  back : ∀ id n j, st.blurChild = .back id n j → id = 0 ∧ n ≤ h
  allGrey : st.blurChild.PastRows → (st.grey .child).done h = h
  removed : ¬ (st.grey .grandchild).BeforeAttach → st.grey .child = .exited
  grandchildRows : ∀ id p, st.grey .grandchild = .rows id p → id ≠ 0

theorem GreyPc.done_le {pc : GreyPc} (hrows : ∀ id p, pc = .rows id p → id = 0 ∧ p ≤ h) :
    pc.done h ≤ h := by
  cases pc with
  | unborn => exact Nat.zero_le h
  | attach => exact Nat.zero_le h
  -- In the middle of the loop the invariant bounds the row.
  | rows id p => exact (hrows id p rfl).2
  | output => exact Nat.le_refl h
  | exited => exact Nat.le_refl h

/-- Once the segment was removed, `shmget` finds or makes another one. -/
theorem Control.shmid_ne_zero (hst : Control h st) (hkey : st.key ≠ some 0) : st.shmid ≠ 0 := by
  have hnext := hst.nextId
  rw [System.shmid]
  cases hcase : st.key with
  -- A new segment gets the next free number, and `0` is taken.
  | none => exact Nat.pos_iff_ne_zero.1 hnext
  | some id =>
      rintro rfl
      exact hkey hcase

theorem Control.move_parent (hst : Control h st) (hfam : Family st)
    (hmove : Move R w h st .parent st') : Control h st' := by
  cases hmove with
  | forkBlur hpc =>
      exact ⟨hst.nextId, hst.key, hst.greyRows, nofun, nofun, nofun, hst.removed,
        hst.grandchildRows⟩
  | forkGrey hpc =>
      -- Before the fork there were no grey rows, and there are none after it.
      have hchild := hfam.greyUnborn (.inr hpc)
      refine ⟨hst.nextId, fun _ => hst.key (by rw [hchild]; nofun), nofun, ?_, hst.back, ?_, ?_,
        hst.grandchildRows⟩
      · intro id p hrows
        have hold := hst.blurRows id p hrows
        rwa [hchild] at hold
      · intro hpast
        have hold := hst.allGrey hpast
        rwa [hchild] at hold
      · intro hattach
        have hold := hst.removed hattach
        rw [hchild] at hold
        cases hold
  | parentWait hpc | parentWaitAll hpc =>
      exact ⟨hst.nextId, hst.key, hst.greyRows, hst.blurRows, hst.back, hst.allGrey, hst.removed,
        hst.grandchildRows⟩
  | parentOutput hpc =>
      -- `main` is the last one to remove the segment.
      have hexit := (hfam.childrenExited (.inl hpc)).2
      exact ⟨hst.nextId, fun hne => absurd hexit hne, hst.greyRows, hst.blurRows, hst.back,
        hst.allGrey, hst.removed, hst.grandchildRows⟩

/-- The child that blurs, once it has read all rows. -/
theorem Control.pastRows (hst : Control h st) (hpast : st.blurChild.PastRows) {pc : BlurPc}
    (hrows : ∀ id p, pc ≠ .rows id p) (hback : ∀ id n j, pc = .back id n j → id = 0 ∧ n ≤ h) :
    Control h { st with blurChild := pc } :=
  ⟨hst.nextId, hst.key, hst.greyRows, fun id p heq => absurd heq (hrows id p), hback,
    fun _ => hst.allGrey hpast, hst.removed, hst.grandchildRows⟩

theorem Control.move_blurChild (hst : Control h st) (hfam : Family st)
    (hmove : Move R w h st .blurChild st') (hord : InOrder h st .blurChild) : Control h st' := by
  have hdone := GreyPc.done_le hst.greyRows
  cases hmove with
  | blurAttach hpc =>
      -- In order, the key still belongs to the segment of `main`.
      have hkey : st.key = some 0 := by simpa only [InOrder, hpc] using hord
      have hid : st.shmid = 0 := by rw [System.shmid, hkey]; rfl
      refine ⟨?_, fun _ => ?_, hst.greyRows, ?_, nofun, nofun, hst.removed, hst.grandchildRows⟩
      · simp only [System.shmget, hkey, Option.isNone_some]
        exact hst.nextId
      · simp only [System.shmget, hid]
      · intro id p hrows
        cases hrows
        exact ⟨hid, Nat.zero_le _⟩
  | blurRow id p hpc hp =>
      have hgrey : p < (st.grey .child).done h := by
        simp only [InOrder, hpc] at hord
        exact hord hp
      refine ⟨hst.nextId, hst.key, hst.greyRows, ?_, nofun, nofun, hst.removed,
        hst.grandchildRows⟩
      intro id' p' hrows
      cases hrows
      exact ⟨(hst.blurRows id p hpc).1, hgrey⟩
  | blurRows id p hpc hp =>
      have hold := hst.blurRows id p hpc
      -- Every row was grey when it was read, so by now all of them are.
      have hall : (st.grey .child).done h = h := Nat.le_antisymm hdone (by omega)
      refine ⟨hst.nextId, hst.key, hst.greyRows, nofun, ?_, fun _ => hall, hst.removed,
        hst.grandchildRows⟩
      intro id' n j hback
      cases hback
      exact ⟨hold.1, Nat.le_refl h⟩
  | copyPixel id n j hpc hj =>
      have hold := hst.back id (n + 1) j hpc
      have hall := hst.allGrey (by rw [hpc]; trivial)
      refine ⟨hst.nextId, hst.key, hst.greyRows, nofun, ?_, fun _ => hall, hst.removed,
        hst.grandchildRows⟩
      intro id' n' j' hback
      cases hback
      exact hold
  | copyRow id n j hpc hj =>
      have hold := hst.back id (n + 1) j hpc
      refine hst.pastRows (by rw [hpc]; trivial) (fun _ _ heq => by cases heq) ?_
      intro id' n' j' hback
      cases hback
      exact ⟨hold.1, Nat.le_of_succ_le hold.2⟩
  | copyAll id j hpc =>
      exact hst.pastRows (by rw [hpc]; trivial) (fun _ _ heq => by cases heq)
        (fun _ _ _ heq => by cases heq)
  | forkGrandchild hpc =>
      have hall := hst.allGrey (by rw [hpc]; trivial)
      exact ⟨hst.nextId, hst.key, hst.greyRows, nofun, nofun, fun _ => hall,
        fun hattach => absurd trivial hattach, nofun⟩
  | blurWait hpc | blurNoWait hpc =>
      exact hst.pastRows (by rw [hpc]; trivial) (fun _ _ heq => by cases heq)
        (fun _ _ _ heq => by cases heq)
  | blurRemove hpc =>
      have hall := hst.allGrey (by rw [hpc]; trivial)
      -- The grandchild is gone, and it came after the removal.
      have hgrand := hfam.grandchildExited (by rw [hpc]; trivial)
      have hexit := hst.removed (by rw [hgrand]; exact not_false)
      exact ⟨hst.nextId, fun hne => absurd hexit hne, hst.greyRows, nofun, nofun, fun _ => hall,
        hst.removed, hst.grandchildRows⟩

/-- The second child of `main` works on the segment of `main`. -/
theorem Control.move_child (hst : Control h st) (hmove : Move R w h st (.grey .child) st') :
    Control h st' := by
  cases hmove with
  | greyAttach _ hpc =>
      -- Nobody removes the segment before this child does.
      have hkey : st.key = some 0 := hst.key (by rw [hpc]; nofun)
      have hid : st.shmid = 0 := by rw [System.shmid, hkey]; rfl
      refine ⟨?_, fun _ => ?_, ?_, ?_, hst.back, ?_, ?_, hst.grandchildRows⟩
      · simp only [System.shmget, hkey, Option.isNone_some]
        exact hst.nextId
      · simp only [System.shmget, hid]
      · intro id p hrows
        simp only [Function.update_self] at hrows
        cases hrows
        exact ⟨hid, Nat.zero_le h⟩
      · intro id p hrows
        have hold := hst.blurRows id p hrows
        rwa [hpc] at hold
      · intro hpast
        have hold := hst.allGrey hpast
        rwa [hpc] at hold
      · intro hattach
        have hold := hst.removed hattach
        rw [hpc] at hold
        cases hold
  | greyRow _ id p hpc hp =>
      have hold := hst.greyRows id p hpc
      -- A child with rows to do has not removed anything yet.
      have hnot : st.grey .child ≠ .exited := by rw [hpc]; nofun
      refine ⟨hst.nextId, fun _ => hst.key hnot, ?_, ?_, hst.back, ?_,
        fun hattach => absurd (hst.removed hattach) hnot, hst.grandchildRows⟩
      · intro id' p' hrows
        simp only [Function.update_self] at hrows
        cases hrows
        exact ⟨hold.1, hp⟩
      · intro id' p' hrows
        have hread := hst.blurRows id' p' hrows
        rw [hpc] at hread
        exact ⟨hread.1, Nat.le_succ_of_le hread.2⟩
      · -- With rows to go the blur cannot be past its own.
        intro hpast
        have hall := hst.allGrey hpast
        rw [hpc] at hall
        exact absurd hp (Nat.not_lt.2 (Nat.le_of_eq hall.symm))
  | greyRows _ id p hpc hp =>
      have hold := hst.greyRows id p hpc
      have hnot : st.grey .child ≠ .exited := by rw [hpc]; nofun
      refine ⟨hst.nextId, fun _ => hst.key hnot, nofun, ?_, hst.back, fun _ => rfl,
        fun hattach => absurd (hst.removed hattach) hnot, hst.grandchildRows⟩
      intro id' p' hrows
      have hread := hst.blurRows id' p' hrows
      rw [hpc] at hread
      exact ⟨hread.1, Nat.le_trans hread.2 hold.2⟩
  | greyRemove _ hpc =>
      refine ⟨hst.nextId, fun hne => absurd rfl hne, nofun, ?_, hst.back, fun _ => rfl,
        fun _ => rfl, hst.grandchildRows⟩
      intro id p hrows
      have hread := hst.blurRows id p hrows
      rwa [hpc] at hread

/-- The grandchild works on another segment, after the first one was removed. -/
theorem Control.move_grandchild (hst : Control h st)
    (hmove : Move R w h st (.grey .grandchild) st') (hord : InOrder h st (.grey .grandchild)) :
    Control h st' := by
  cases hmove with
  | greyAttach _ hpc =>
      -- In order, the second greyscale goes to another segment.
      have hkey : st.key ≠ some 0 := hord hpc
      have hexit : st.grey .child = .exited := by
        by_contra hne
        exact hkey (hst.key hne)
      have hid := hst.shmid_ne_zero hkey
      refine ⟨?_, fun hne => absurd hexit hne, hst.greyRows, hst.blurRows, hst.back,
        hst.allGrey, fun _ => hexit, ?_⟩
      · have hnext := hst.nextId
        simp only [System.shmget]
        split_ifs
        · exact Nat.succ_pos _
        · exact hnext
      · intro id p hrows
        simp only [Function.update_self] at hrows
        cases hrows
        exact hid
  | greyRow _ id p hpc hp =>
      have hold := hst.grandchildRows id p hpc
      refine ⟨hst.nextId, hst.key, hst.greyRows, hst.blurRows, hst.back, hst.allGrey,
        fun _ => hst.removed (by rw [hpc]; exact not_false), ?_⟩
      intro id' p' hrows
      simp only [Function.update_self] at hrows
      cases hrows
      exact hold
  | greyRows _ id p hpc hp =>
      exact ⟨hst.nextId, hst.key, hst.greyRows, hst.blurRows, hst.back, hst.allGrey,
        fun _ => hst.removed (by rw [hpc]; exact not_false), nofun⟩
  | greyRemove _ hpc =>
      have hexit := hst.removed (by rw [hpc]; exact not_false)
      exact ⟨hst.nextId, fun hne => absurd hexit hne, hst.greyRows, hst.blurRows, hst.back,
        hst.allGrey, fun _ => hexit, nofun⟩

/-- Steps in order keep the processes where they belong. -/
theorem Control.move (hst : Control h st) (hfam : Family st) (hmove : Move R w h st a st')
    (hord : InOrder h st a) : Control h st' := by
  cases a with
  | parent => exact hst.move_parent hfam hmove
  | blurChild => exact hst.move_blurChild hfam hmove hord
  | grey c =>
      cases c with
      | child => exact hst.move_child hmove
      | grandchild => exact hst.move_grandchild hmove hord

/-! ## Pixels in order -/

/-- A pixel when both passes are through. -/
def finalCell (R : Rounding) (w : Nat) (M : Nat → Pixel) (p q : Nat) : Cell :=
  ⟨blurValue R w (fun u => greyWeighted R (M (p * w + u))) q, [.grey, .blur]⟩

/-- A pixel of the segment, with `done` rows grey. -/
def orderedCell (R : Rounding) (w : Nat) (M : Nat → Pixel) (done : Nat) (copied : Bool)
    (p q : Nat) : Cell :=
  if copied then finalCell R w M p q
  else if p < done then ⟨greyWeighted R (M (p * w + q)), [.grey]⟩
  else ⟨M (p * w + q), []⟩

/-- One more row is grey. -/
theorem orderedCell_succ (n p q : Nat) :
    (if p = n then greyCell R (orderedCell R w M n false p q) else orderedCell R w M n false p q) =
      orderedCell R w M (n + 1) false p q := by
  simp only [orderedCell, Bool.false_eq_true, if_false]
  by_cases hpn : p = n
  · subst hpn
    rw [if_pos rfl, if_neg (Nat.lt_irrefl p), if_pos (Nat.lt_succ_self p)]
    rfl
  · rw [if_neg hpn]
    have hiff : p < n ↔ p < n + 1 := by omega
    simp only [hiff]

/-- The memory of processes in order. -/
structure Ordered (R : Rounding) (w h : Nat) (M : Nat → Pixel) (st : System) : Prop where
  tmatrix : ∀ p q, p < st.blurChild.read h → q < w → st.tmatrix p q = finalCell R w M p q
  cells : ∀ p q, p < h → q < w → st.segs 0 (p * w + q) =
    orderedCell R w M ((st.grey .child).done h) (st.blurChild.copied p q) p q
  output : ∀ out, st.output = some out → OnceInOrder R w h M out

/-- Steps that do not touch the pixels. -/
theorem Ordered.of_same (hst : Ordered R w h M st) (htmatrix : st'.tmatrix = st.tmatrix)
    (hread : st'.blurChild.read h ≤ st.blurChild.read h) (hsegs : st'.segs 0 = st.segs 0)
    (hdone : (st'.grey .child).done h = (st.grey .child).done h)
    (hcopied : ∀ p q, p < h → q < w → st'.blurChild.copied p q = st.blurChild.copied p q)
    (hout : st'.output = st.output) : Ordered R w h M st' := by
  refine ⟨?_, ?_, ?_⟩
  · -- A row that counts as read now counted as read before.
    intro p q hp hq
    rw [htmatrix]
    exact hst.tmatrix p q (Nat.lt_of_lt_of_le hp hread) hq
  · intro p q hp hq
    rw [hsegs, hdone, hcopied p q hp hq]
    exact hst.cells p q hp hq
  · rw [hout]
    exact hst.output

theorem Ordered.move_parent (hst : Ordered R w h M st) (hfam : Family st)
    (hmove : Move R w h st .parent st') : Ordered R w h M st' := by
  cases hmove with
  | forkBlur hpc =>
      have hblur := hfam.blurUnborn hpc
      refine hst.of_same rfl ?_ rfl rfl ?_ rfl
      · rw [hblur]
        exact Nat.le_refl 0
      · intro p q _ _
        rw [hblur]
        rfl
  | forkGrey hpc =>
      have hchild := hfam.greyUnborn (.inr hpc)
      refine hst.of_same rfl (Nat.le_refl _) rfl ?_ (fun _ _ _ _ => rfl) rfl
      rw [hchild]
      rfl
  | parentWait hpc | parentWaitAll hpc =>
      exact hst.of_same rfl (Nat.le_refl _) rfl rfl (fun _ _ _ _ => rfl) rfl
  | parentOutput hpc =>
      refine ⟨hst.tmatrix, hst.cells, ?_⟩
      intro out hout
      cases hout
      intro p q hp hq
      -- Both children have exited, so every pixel has been copied back.
      rw [hst.cells p q hp hq, (hfam.childrenExited (.inl hpc)).1]
      rfl

theorem Ordered.move_blurChild (hst : Ordered R w h M st) (hctl : Control h st)
    (hmove : Move R w h st .blurChild st') (hord : InOrder h st .blurChild) :
    Ordered R w h M st' := by
  cases hmove with
  | blurAttach hpc =>
      refine hst.of_same rfl (Nat.zero_le _) rfl rfl ?_ rfl
      intro p q _ _
      rw [hpc]
      rfl
  | blurRow id p hpc hp =>
      have hgrey : p < (st.grey .child).done h := by
        simp only [InOrder, hpc] at hord
        exact hord hp
      have hid := (hctl.blurRows id p hpc).1
      subst hid
      -- The whole row is grey, and none of it has been copied back.
      have hrow : ∀ u, u < w →
          st.segs 0 (p * w + u) = ⟨greyWeighted R (M (p * w + u)), [.grey]⟩ := by
        intro u hu
        rw [hst.cells p u hp hu, hpc]
        simp only [orderedCell, BlurPc.copied, Bool.false_eq_true, if_false, if_pos hgrey]
      refine ⟨?_, ?_, hst.output⟩
      · intro i q hi hq
        simp only [blurSegment_apply]
        by_cases hip : i = p
        · subst hip
          -- The row that is read now.
          rw [if_pos ⟨rfl, hq⟩, blurCell, finalCell, hrow q hq]
          rw [blurValue_congr hq fun u _ hu => by rw [hrow u hu]]
          rfl
        · rw [if_neg (by omega)]
          have hlt : i < p + 1 := hi
          refine hst.tmatrix i q ?_ hq
          rw [hpc]
          exact (by omega : i < p)
      · intro i q hi hq
        rw [hst.cells i q hi hq, hpc]
        rfl
  | blurRows id p hpc hp =>
      refine hst.of_same rfl ?_ rfl rfl ?_ rfl
      · rw [hpc]
        exact Nat.le_of_not_lt hp
      · intro i q hi _
        rw [hpc]
        -- No row is copied back at the start of the loop.
        have hnot : ¬ (h ≤ i ∨ (h = i + 1 ∧ q < 0)) := by omega
        exact decide_eq_false hnot
  | copyPixel id n j hpc hj =>
      have hback := hctl.back id (n + 1) j hpc
      have hid := hback.1
      subst hid
      refine ⟨?_, ?_, hst.output⟩
      · intro p q hp hq
        refine hst.tmatrix p q ?_ hq
        rw [hpc]
        exact hp
      · intro p q hp hq
        simp only [Function.update_self]
        by_cases hcell : p = n ∧ q = j
        · -- The pixel of this turn comes from `tmatrix`.
          rcases hcell with ⟨rfl, rfl⟩
          rw [Function.update_self, hst.tmatrix p q (by rw [hpc]; exact hp) hq]
          have hcopied : (BlurPc.back 0 (p + 1) (q + 1)).copied p q = true :=
            decide_eq_true (.inr ⟨rfl, Nat.lt_succ_self q⟩)
          rw [hcopied]
          rfl
        · rw [Function.update_of_ne (fun heq => hcell ((flat_inj hj hq).1 heq)),
            hst.cells p q hp hq, hpc]
          have hiff : (n + 1 ≤ p ∨ (n + 1 = p + 1 ∧ q < j)) ↔
              (n + 1 ≤ p ∨ (n + 1 = p + 1 ∧ q < j + 1)) := by omega
          simp only [BlurPc.copied, hiff]
  | copyRow id n j hpc hj =>
      refine hst.of_same rfl ?_ rfl rfl ?_ rfl
      · rw [hpc]
        exact Nat.le_refl h
      · intro p q _ hq
        rw [hpc]
        -- The columns of the row are through: the row is.
        have hiff : (n ≤ p ∨ (n = p + 1 ∧ q < 0)) ↔ (n + 1 ≤ p ∨ (n + 1 = p + 1 ∧ q < j)) := by
          omega
        simp only [BlurPc.copied, hiff]
  | copyAll id j hpc =>
      refine hst.of_same rfl ?_ rfl rfl ?_ rfl
      · rw [hpc]
        exact Nat.le_refl h
      · intro p q _ _
        rw [hpc]
        simp [BlurPc.copied]
  | forkGrandchild hpc | blurNoWait hpc | blurRemove hpc =>
      refine hst.of_same rfl ?_ rfl rfl ?_ rfl
      · rw [hpc]
        exact Nat.le_refl h
      · intro p q _ _
        rw [hpc]
        rfl
  | blurWait hpc hexit =>
      refine hst.of_same rfl ?_ rfl rfl ?_ rfl
      · rw [hpc]
        exact Nat.le_refl h
      · intro p q _ _
        rw [hpc]
        rfl

theorem Ordered.move_child (hst : Ordered R w h M st) (hctl : Control h st)
    (hmove : Move R w h st (.grey .child) st') : Ordered R w h M st' := by
  cases hmove with
  | greyAttach _ hpc =>
      refine hst.of_same rfl (Nat.le_refl _) rfl ?_ (fun _ _ _ _ => rfl) rfl
      rw [hpc]
      rfl
  | greyRow _ id p hpc hp =>
      have hid := (hctl.greyRows id p hpc).1
      subst hid
      refine ⟨hst.tmatrix, ?_, hst.output⟩
      intro i q hi hq
      -- Nothing has been copied back as long as there are rows to make grey.
      have hcopied : st.blurChild.copied i q = false := by
        cases hblur : st.blurChild with
        | unborn => rfl
        | attach => rfl
        | rows id' p' => rfl
        | _ =>
            have hall := hctl.allGrey (by rw [hblur]; trivial)
            rw [hpc] at hall
            exact absurd hp (Nat.not_lt.2 (Nat.le_of_eq hall.symm))
      have hcell := hst.cells i q hi hq
      rw [hpc, hcopied] at hcell
      simp only [Function.update_self, greySegment_flat _ _ hq, hcell, hcopied]
      exact orderedCell_succ p i q
  | greyRows _ id p hpc hp =>
      have hold := (hctl.greyRows id p hpc).2
      refine hst.of_same rfl (Nat.le_refl _) rfl ?_ (fun _ _ _ _ => rfl) rfl
      rw [hpc]
      -- The loop ended after the last row.
      exact (by omega : h = p)
  | greyRemove _ hpc =>
      refine hst.of_same rfl (Nat.le_refl _) rfl ?_ (fun _ _ _ _ => rfl) rfl
      rw [hpc]
      rfl

theorem Ordered.move_grandchild (hst : Ordered R w h M st) (hctl : Control h st)
    (hmove : Move R w h st (.grey .grandchild) st') : Ordered R w h M st' := by
  cases hmove with
  | greyAttach _ hpc =>
      exact hst.of_same rfl (Nat.le_refl _) rfl rfl (fun _ _ _ _ => rfl) rfl
  | greyRow _ id p hpc hp =>
      -- The grandchild works on another segment.
      have hid := hctl.grandchildRows id p hpc
      refine hst.of_same rfl (Nat.le_refl _) ?_ rfl (fun _ _ _ _ => rfl) rfl
      exact Function.update_of_ne (Ne.symm hid) _ _
  | greyRows _ id p hpc hp =>
      exact hst.of_same rfl (Nat.le_refl _) rfl rfl (fun _ _ _ _ => rfl) rfl
  | greyRemove _ hpc =>
      exact hst.of_same rfl (Nat.le_refl _) rfl rfl (fun _ _ _ _ => rfl) rfl

theorem Ordered.move (hst : Ordered R w h M st) (hctl : Control h st) (hfam : Family st)
    (hmove : Move R w h st a st') (hord : InOrder h st a) : Ordered R w h M st' := by
  cases a with
  | parent => exact hst.move_parent hfam hmove
  | blurChild => exact hst.move_blurChild hctl hmove hord
  | grey c =>
      cases c with
      | child => exact hst.move_child hctl hmove
      | grandchild => exact hst.move_grandchild hctl hmove

end Image
end OsLab
