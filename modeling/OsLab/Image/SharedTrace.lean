import OsLab.Lib.Runs
import OsLab.Image.SharedOrder

/-!
# SharedTrace — when the shared image comes out right

`passes_in_order_iff` says that the matrix `main` of `part2_2` writes out went through each pass once
and in order if and only if the processes ran in the order `InOrder`.

The first step out of order leaves a trace that stays: a row that was read before it was grey, a
segment that is never blurred, or a segment that is made grey after it was blurred.
-/

namespace OsLab
namespace Image

open Lib

variable {R : Rounding} {w h : Nat} {M : Nat → Pixel} {st st' : System} {a : Proc}

/-! ## Traces of a step out of order -/

/-- Row `p` was read before it was grey.  Its blurred pixels overwrite the grey ones, or are made
grey afterwards. -/
structure ReadEarly (w h p : Nat) (st : System) : Prop where
  lt : p < h
  read : p < st.blurChild.read h
  rows : ∀ id n, st.blurChild = .rows id n → id = 0
  back : ∀ id n j, st.blurChild = .back id n j → id = 0
  tmatrix : (st.tmatrix p 0).passes = [.blur]
  cell : st.blurChild.copied p 0 = true → ∃ rest, (st.segs 0 (p * w + 0)).passes = .blur :: rest
  output : ∀ out, st.output = some out → ∃ rest, (out (p * w + 0)).passes = .blur :: rest

theorem ReadEarly.move {p : Nat} (hst : ReadEarly w h p st) (hw : 0 < w) (hfam : Family st)
    (hmove : Move R w h st a st') : ReadEarly w h p st' := by
  have hread := hst.read
  cases hmove with
  | forkBlur hpc =>
      rw [hfam.blurUnborn hpc] at hread
      exact absurd hread (Nat.not_lt_zero p)
  | forkGrey hpc | parentWait hpc | parentWaitAll hpc =>
      exact ⟨hst.lt, hst.read, hst.rows, hst.back, hst.tmatrix, hst.cell, hst.output⟩
  | parentOutput hpc =>
      refine ⟨hst.lt, hst.read, hst.rows, hst.back, hst.tmatrix, hst.cell, ?_⟩
      intro out hout
      cases hout
      -- `main` writes after the copy back.
      exact hst.cell (by rw [(hfam.childrenExited (.inl hpc)).1]; rfl)
  | blurAttach hpc =>
      rw [hpc] at hread
      exact absurd hread (Nat.not_lt_zero p)
  | blurRow id n hpc hn =>
      rw [hpc] at hread
      -- Later rows go to other rows of `tmatrix`.
      have hlt : p < n := hread
      refine ⟨hst.lt, Nat.lt_succ_of_lt hlt, ?_, by simp, ?_, by simp [BlurPc.copied], hst.output⟩
      · intro id' n' hrows
        cases hrows
        exact hst.rows id n hpc
      · simp only [blurSegment_apply]
        rw [if_neg (by omega)]
        exact hst.tmatrix
  | blurRows id n hpc hn =>
      refine ⟨hst.lt, hst.lt, by simp, ?_, hst.tmatrix, ?_, hst.output⟩
      · intro id' n' j hback
        cases hback
        exact hst.rows id n hpc
      · intro hcopied
        have hlt := hst.lt
        simp only [BlurPc.copied, decide_eq_true_eq] at hcopied
        omega
  | copyPixel id n j hpc hj =>
      have hid := hst.back id (n + 1) j hpc
      subst hid
      refine ⟨hst.lt, hst.lt, by simp, ?_, hst.tmatrix, ?_, hst.output⟩
      · intro id' n' j' hback
        cases hback
        rfl
      · intro hcopied
        simp only [Function.update_self]
        by_cases hcell : p = n ∧ 0 = j
        · -- The stale pixel overwrites what is there.
          rcases hcell with ⟨rfl, rfl⟩
          rw [Function.update_self]
          exact ⟨[], hst.tmatrix⟩
        · rw [Function.update_of_ne (fun heq => hcell ((flat_inj hj hw).1 heq))]
          refine hst.cell ?_
          rw [hpc]
          simp only [BlurPc.copied, decide_eq_true_eq] at hcopied ⊢
          omega
  | copyRow id n j hpc hj =>
      refine ⟨hst.lt, hst.lt, by simp, ?_, hst.tmatrix, ?_, hst.output⟩
      · intro id' n' j' hback
        cases hback
        exact hst.back id (n + 1) j hpc
      · intro hcopied
        refine hst.cell ?_
        rw [hpc]
        simp only [BlurPc.copied, decide_eq_true_eq] at hcopied ⊢
        omega
  | copyAll id j hpc =>
      refine ⟨hst.lt, hst.lt, by simp, by simp, hst.tmatrix, fun _ => hst.cell ?_, hst.output⟩
      rw [hpc]
      simp [BlurPc.copied]
  | forkGrandchild hpc | blurNoWait hpc | blurRemove hpc =>
      exact ⟨hst.lt, hst.lt, by simp, by simp, hst.tmatrix, fun _ => hst.cell (by rw [hpc]; rfl),
        hst.output⟩
  | blurWait hpc hexit =>
      exact ⟨hst.lt, hst.lt, by simp, by simp, hst.tmatrix, fun _ => hst.cell (by rw [hpc]; rfl),
        hst.output⟩
  | greyAttach c hpc | greyRemove c hpc =>
      exact ⟨hst.lt, hst.read, hst.rows, hst.back, hst.tmatrix, hst.cell, hst.output⟩
  | greyRows c id n hpc hn =>
      exact ⟨hst.lt, hst.read, hst.rows, hst.back, hst.tmatrix, hst.cell, hst.output⟩
  | greyRow c id n hpc hn =>
      refine ⟨hst.lt, hst.read, hst.rows, hst.back, hst.tmatrix, ?_, hst.output⟩
      intro hcopied
      -- A greyscale after the copy back is added at the end of the record.
      rcases hst.cell hcopied with ⟨rest, hrest⟩
      by_cases hid : id = 0
      · subst hid
        simp only [Function.update_self, greySegment_flat _ _ hw]
        by_cases hp : p = n
        · rw [if_pos hp, greyCell, hrest]
          exact ⟨rest ++ [.grey], rfl⟩
        · rw [if_neg hp]
          exact ⟨rest, hrest⟩
      · simp only [Function.update_of_ne (Ne.symm hid)]
        exact ⟨rest, hrest⟩

/-- The child that blurs works on another segment. -/
structure NeverBlurred (st : System) : Prop where
  attached : st.blurChild ≠ .unborn ∧ st.blurChild ≠ .attach
  rows : ∀ id p, st.blurChild = .rows id p → id ≠ 0
  back : ∀ id n j, st.blurChild = .back id n j → id ≠ 0
  cell : Pass.blur ∉ (st.segs 0 0).passes
  output : ∀ out, st.output = some out → Pass.blur ∉ (out 0).passes

theorem NeverBlurred.move (hst : NeverBlurred st) (hfam : Family st)
    (hmove : Move R w h st a st') : NeverBlurred st' := by
  cases hmove with
  | forkBlur hpc => exact absurd (hfam.blurUnborn hpc) hst.attached.1
  | forkGrey hpc | parentWait hpc | parentWaitAll hpc =>
      exact ⟨hst.attached, hst.rows, hst.back, hst.cell, hst.output⟩
  | parentOutput hpc =>
      refine ⟨hst.attached, hst.rows, hst.back, hst.cell, ?_⟩
      intro out hout
      cases hout
      exact hst.cell
  | blurAttach hpc => exact absurd hpc hst.attached.2
  | blurRow id p hpc hp =>
      refine ⟨⟨by simp, by simp⟩, ?_, by simp, hst.cell, hst.output⟩
      intro id' p' hrows
      cases hrows
      exact hst.rows id p hpc
  | blurRows id p hpc hp =>
      refine ⟨⟨by simp, by simp⟩, by simp, ?_, hst.cell, hst.output⟩
      intro id' n j hback
      cases hback
      exact hst.rows id p hpc
  | copyPixel id n j hpc hj =>
      -- The copy back goes to the other segment.
      have hid := hst.back id (n + 1) j hpc
      refine ⟨⟨by simp, by simp⟩, by simp, ?_, ?_, hst.output⟩
      · intro id' n' j' hback
        cases hback
        exact hid
      · simp only [Function.update_of_ne (Ne.symm hid)]
        exact hst.cell
  | copyRow id n j hpc hj =>
      refine ⟨⟨by simp, by simp⟩, by simp, ?_, hst.cell, hst.output⟩
      intro id' n' j' hback
      cases hback
      exact hst.back id (n + 1) j hpc
  | copyAll id j hpc | blurWait id j =>
      exact ⟨⟨by simp, by simp⟩, by simp, by simp, hst.cell, hst.output⟩
  | forkGrandchild hpc | blurNoWait hpc | blurRemove hpc =>
      exact ⟨⟨by simp, by simp⟩, by simp, by simp, hst.cell, hst.output⟩
  | greyAttach c hpc | greyRemove c hpc =>
      exact ⟨hst.attached, hst.rows, hst.back, hst.cell, hst.output⟩
  | greyRows c id p hpc hp => exact ⟨hst.attached, hst.rows, hst.back, hst.cell, hst.output⟩
  | greyRow c id p hpc hp =>
      refine ⟨hst.attached, hst.rows, hst.back, ?_, hst.output⟩
      by_cases hid : id = 0
      · subst hid
        have hcell := hst.cell
        simp only [Function.update_self, greySegment_apply]
        split_ifs
        · simpa [greyCell] using hcell
        · exact hcell
      · simp only [Function.update_of_ne (Ne.symm hid)]
        exact hst.cell

/-- The grandchild makes the segment grey after it was blurred. -/
structure GreyAgain (w h : Nat) (st : System) : Prop where
  forked : ¬ st.blurChild.BeforeFork
  attached : ¬ (st.grey .grandchild).BeforeAttach
  rows : ∀ id p, st.grey .grandchild = .rows id p → id = 0
  cells : ∀ p, p < (st.grey .grandchild).done h → p < h →
    (st.segs 0 (p * w + 0)).passes.getLast? = some .grey
  output : ∀ out, st.output = some out → ∀ p, p < h →
    (out (p * w + 0)).passes.getLast? = some .grey

/-- Whoever makes a row grey leaves that as its last pass. -/
theorem GreyAgain.cells_greyRow (hst : GreyAgain w h st) (hw : 0 < w) {c : Grey} {id n : Nat}
    (hpc : st.grey c = .rows id n) {p : Nat}
    (hp : (c = .grandchild ∧ p = n) ∨ p < (st.grey .grandchild).done h) (hph : p < h) :
    (Function.update st.segs id (greySegment R w (st.segs id) n) 0 (p * w + 0)).passes.getLast? =
      some .grey := by
  by_cases hid : id = 0
  · subst hid
    simp only [Function.update_self, greySegment_flat _ _ hw]
    by_cases hpn : p = n
    · rw [if_pos hpn]
      simp [greyCell]
    · rw [if_neg hpn]
      exact hst.cells p (by omega) hph
  · simp only [Function.update_of_ne (Ne.symm hid)]
    rcases hp with ⟨rfl, -⟩ | hp
    · exact absurd (hst.rows id n hpc) hid
    · exact hst.cells p hp hph

theorem GreyAgain.move (hst : GreyAgain w h st) (hw : 0 < w) (hfam : Family st)
    (hmove : Move R w h st a st') : GreyAgain w h st' := by
  have hforked := hst.forked
  cases hmove with
  | forkBlur hpc =>
      rw [hfam.blurUnborn hpc] at hforked
      exact absurd trivial hforked
  | forkGrey hpc | parentWait hpc | parentWaitAll hpc =>
      exact ⟨hst.forked, hst.attached, hst.rows, hst.cells, hst.output⟩
  | parentOutput hpc =>
      refine ⟨hst.forked, hst.attached, hst.rows, hst.cells, ?_⟩
      intro out hout p hp
      cases hout
      have hblur := (hfam.childrenExited (.inl hpc)).1
      -- The grandchild has exited, after all of its rows.
      have hgrand := hfam.grandchildExited (by rw [hblur]; trivial)
      exact hst.cells p (by rw [hgrand]; exact hp) hp
  | blurAttach hpc =>
      rw [hpc] at hforked
      exact absurd trivial hforked
  | blurRow id p hpc hp | blurRows id p hpc hp =>
      rw [hpc] at hforked
      exact absurd trivial hforked
  | copyPixel id n j hpc hj | copyRow id n j hpc hj =>
      rw [hpc] at hforked
      exact absurd trivial hforked
  | copyAll id j hpc =>
      rw [hpc] at hforked
      exact absurd trivial hforked
  | forkGrandchild hpc =>
      rw [hpc] at hforked
      exact absurd trivial hforked
  | blurNoWait hpc | blurRemove hpc =>
      exact ⟨not_false, hst.attached, hst.rows, hst.cells, hst.output⟩
  | blurWait hpc hexit => exact ⟨not_false, hst.attached, hst.rows, hst.cells, hst.output⟩
  | greyAttach c hpc =>
      cases c with
      | child => exact ⟨hst.forked, hst.attached, hst.rows, hst.cells, hst.output⟩
      | grandchild =>
          have hattached := hst.attached
          rw [hpc] at hattached
          exact absurd trivial hattached
  | greyRow c id n hpc hn =>
      cases c with
      | child =>
          exact ⟨hst.forked, hst.attached, hst.rows, fun p hp => hst.cells_greyRow hw hpc (.inr hp),
            hst.output⟩
      | grandchild =>
          refine ⟨hst.forked, not_false, ?_, ?_, hst.output⟩
          · intro id' p' hrows
            simp only [Function.update_self] at hrows
            cases hrows
            exact hst.rows id n hpc
          · intro p hp hph
            have hlt : p < n + 1 := hp
            refine hst.cells_greyRow hw hpc ?_ hph
            rw [hpc]
            by_cases hpn : p = n
            · exact .inl ⟨rfl, hpn⟩
            · exact .inr (by simp only [GreyPc.done]; omega)
  | greyRows c id n hpc hn =>
      cases c with
      | child => exact ⟨hst.forked, hst.attached, hst.rows, hst.cells, hst.output⟩
      | grandchild =>
          refine ⟨hst.forked, not_false, by simp, ?_, hst.output⟩
          intro p _ hph
          refine hst.cells p ?_ hph
          rw [hpc]
          simp only [GreyPc.done]
          omega
  | greyRemove c hpc =>
      cases c with
      | child => exact ⟨hst.forked, hst.attached, hst.rows, hst.cells, hst.output⟩
      | grandchild =>
          refine ⟨hst.forked, not_false, by simp, ?_, hst.output⟩
          intro p _ hph
          refine hst.cells p ?_ hph
          rw [hpc]
          exact hph

/-! ## Whole runs -/

/-- A step out of order was taken. -/
structure Spoiled (w h : Nat) (st : System) : Prop where
  family : Family st
  trace : (∃ p, ReadEarly w h p st) ∨ NeverBlurred st ∨ GreyAgain w h st

theorem Spoiled.move (hst : Spoiled w h st) (hw : 0 < w) (hmove : Move R w h st a st') :
    Spoiled w h st' := by
  refine ⟨hst.family.move hmove, ?_⟩
  rcases hst.trace with ⟨p, htrace⟩ | htrace | htrace
  · exact .inl ⟨p, htrace.move hw hst.family hmove⟩
  · exact .inr (.inl (htrace.move hst.family hmove))
  · exact .inr (.inr (htrace.move hw hst.family hmove))

theorem Spoiled.not_onceInOrder (hst : Spoiled w h st) (hw : 0 < w) (hh : 0 < h) {out : Segment}
    (hout : st.output = some out) : ¬ OnceInOrder R w h M out := by
  intro hgood
  rcases hst.trace with ⟨p, htrace⟩ | htrace | htrace
  · -- The record begins with the blur.
    rcases htrace.output out hout with ⟨rest, hrest⟩
    rw [hgood p 0 htrace.lt hw] at hrest
    cases hrest
  · -- The record has no blur in it.
    have hnot := htrace.output out hout
    have hcell := hgood 0 0 hh hw
    rw [Nat.zero_mul] at hcell
    rw [hcell] at hnot
    exact hnot (by simp)
  · -- The record ends with a greyscale.
    have hlast := htrace.output out hout 0 hh
    rw [hgood 0 0 hh hw] at hlast
    cases hlast

/-- Everything is in order so far. -/
structure Correct (R : Rounding) (w h : Nat) (M : Nat → Pixel) (st : System) : Prop where
  family : Family st
  control : Control h st
  ordered : Ordered R w h M st

theorem Correct.move (hst : Correct R w h M st) (hmove : Move R w h st a st')
    (hord : InOrder h st a) : Correct R w h M st' :=
  ⟨hst.family.move hmove, hst.control.move hst.family hmove hord,
    hst.ordered.move hst.control hst.family hmove hord⟩

theorem correct_started (R : Rounding) (w h : Nat) (M : Nat → Pixel) :
    Correct R w h M (started M) := by
  refine ⟨?_, ?_, ?_⟩
  · exact ⟨fun _ => rfl, fun _ => rfl, fun _ => rfl, nofun, nofun, fun _ => rfl⟩
  · exact ⟨Nat.one_pos, fun _ => rfl, nofun, nofun, nofun, nofun,
      fun hattach => absurd trivial hattach, nofun⟩
  · exact ⟨fun p q hp _ => absurd hp (Nat.not_lt_zero p), fun p q _ _ => rfl, nofun⟩

theorem Correct.output_eq_none (hst : Correct R w h M st) (hblur : st.blurChild ≠ .exited) :
    st.output = none := by
  refine hst.family.silent ?_
  intro hparent
  exact hblur (hst.family.childrenExited (.inr hparent)).1

/-- The child that blurs is too late: the segment is gone. -/
theorem Correct.neverBlurred (hst : Correct R w h M st) (hw : 0 < w) (hh : 0 < h)
    (hpc : st.blurChild = .attach) (hkey : st.key ≠ some 0) :
    NeverBlurred { st.shmget with blurChild := .rows st.shmid 0 } := by
  have hnone := hst.output_eq_none (by simp [hpc])
  refine ⟨⟨by simp, by simp⟩, ?_, by simp, ?_, ?_⟩
  · intro id p hrows
    cases hrows
    exact hst.control.shmid_ne_zero hkey
  · have hcell := hst.ordered.cells 0 0 hh hw
    rw [hpc, Nat.zero_mul] at hcell
    rw [show (System.shmget st).segs 0 0 = _ from hcell]
    simp only [orderedCell, BlurPc.copied, Bool.false_eq_true, if_false]
    split_ifs
    · simp
    · exact List.not_mem_nil
  · intro out hout
    cases hnone.symm.trans hout

/-- The row is read before it is grey, so the record of its pixels is empty. -/
theorem Correct.readEarly (hst : Correct R w h M st) (hw : 0 < w) {p : Nat}
    (hpc : st.blurChild = .rows 0 p) (hp : p < h) (hgrey : ¬ p < (st.grey .child).done h) :
    ReadEarly w h p
      { st with
        tmatrix := blurSegment R w (st.segs 0) st.tmatrix p
        blurChild := .rows 0 (p + 1) } := by
  have hnone := hst.output_eq_none (by simp [hpc])
  have hcell := hst.ordered.cells p 0 hp hw
  rw [hpc] at hcell
  simp only [orderedCell, BlurPc.copied, Bool.false_eq_true, if_false, if_neg hgrey] at hcell
  refine ⟨hp, Nat.lt_succ_self p, ?_, by simp, ?_, by simp [BlurPc.copied], ?_⟩
  · intro id' p' hrows
    cases hrows
    rfl
  · simp only [blurSegment_apply]
    rw [if_pos ⟨trivial, hw⟩, blurCell, hcell]
    rfl
  · intro out hout
    cases hnone.symm.trans hout

/-- The grandchild still finds the segment of `main`. -/
theorem Correct.greyAgain (hst : Correct R w h M st) (hpc : st.grey .grandchild = .attach)
    (hkey : st.key = some 0) :
    GreyAgain w h
      { st.shmget with grey := Function.update st.grey .grandchild (.rows st.shmid 0) } := by
  have hforked : ¬ st.blurChild.BeforeFork := by
    intro hbefore
    cases hpc.symm.trans (hst.family.grandchildUnborn hbefore)
  have hnone : st.output = none := by
    refine hst.output_eq_none ?_
    intro hexit
    cases hpc.symm.trans (hst.family.grandchildExited (by rw [hexit]; trivial))
  refine ⟨hforked, not_false, ?_, ?_, ?_⟩
  · intro id p hrows
    simp only [Function.update_self] at hrows
    cases hrows
    rw [System.shmid, hkey]
    rfl
  · intro p hp
    exact absurd hp (Nat.not_lt_zero p)
  · intro out hout
    cases hnone.symm.trans hout

/-- The first step out of order leaves its trace. -/
theorem Correct.spoiled (hst : Correct R w h M st) (hw : 0 < w) (hh : 0 < h)
    (hmove : Move R w h st a st') (hord : ¬ InOrder h st a) : Spoiled w h st' := by
  refine ⟨hst.family.move hmove, ?_⟩
  cases hmove with
  | blurAttach hpc =>
      have hkey : st.key ≠ some 0 := by simpa only [InOrder, hpc] using hord
      exact .inr (.inl (hst.neverBlurred hw hh hpc hkey))
  | blurRow id p hpc hp =>
      have hgrey : ¬ p < (st.grey .child).done h := by
        intro hlt
        refine hord ?_
        simp only [InOrder, hpc]
        exact fun _ => hlt
      have hid := (hst.control.blurRows id p hpc).1
      subst hid
      exact .inl ⟨p, hst.readEarly hw hpc hp hgrey⟩
  | greyAttach c hpc =>
      cases c with
      | child => exact absurd trivial hord
      | grandchild =>
          have hkey : st.key = some 0 := by
            by_contra hne
            exact hord fun _ => hne
          exact .inr (.inr (hst.greyAgain hpc hkey))
  -- No other step can be out of order.
  | forkBlur hpc | forkGrey hpc | parentWait hpc | parentWaitAll hpc | parentOutput hpc =>
      exact absurd trivial hord
  | blurRows id p hpc hp =>
      simp only [InOrder, hpc] at hord
      exact absurd (fun hlt => absurd hlt hp) hord
  | copyPixel id n j hpc hj | copyRow id n j hpc hj =>
      simp only [InOrder, hpc] at hord
      exact absurd trivial hord
  | copyAll id j hpc =>
      simp only [InOrder, hpc] at hord
      exact absurd trivial hord
  | forkGrandchild hpc | blurNoWait hpc | blurRemove hpc =>
      simp only [InOrder, hpc] at hord
      exact absurd trivial hord
  | blurWait hpc hexit =>
      simp only [InOrder, hpc] at hord
      exact absurd trivial hord
  | greyRow c id p hpc hp | greyRows c id p hpc hp =>
      refine absurd ?_ hord
      cases c with
      | child => trivial
      | grandchild =>
          intro hattach
          cases hpc.symm.trans hattach
  | greyRemove c hpc =>
      refine absurd ?_ hord
      cases c with
      | child => trivial
      | grandchild =>
          intro hattach
          cases hpc.symm.trans hattach

/-- When `main` writes the image out, it went through each pass once and in order if and only if it
has no pixels or the processes ran in order. -/
theorem passes_in_order_iff (R : Rounding) (w h : Nat) (M : Nat → Pixel) (sched : List Proc)
    (st : System) (out : Segment) (hrun : sched.foldlM (step R w h) (started M) = some st)
    (hout : st.output = some out) :
    OnceInOrder R w h M out ↔
      w = 0 ∨ h = 0 ∨ Guarded (step R w h) (InOrder h) (started M) sched := by
  by_cases hpixels : 0 < w ∧ 0 < h
  · rcases hpixels with ⟨hw, hh⟩
    have hiff : (∀ out, st.output = some out → OnceInOrder R w h M out) ↔
        Guarded (step R w h) (InOrder h) (started M) sched :=
      end_iff_guarded (P := fun st => ∀ out, st.output = some out → OnceInOrder R w h M out)
        (E := fun st => st.output = some out) (fun st hst => hst.ordered.output)
        (fun st a st' hst hord hstep => hst.move (move_of_step hstep) hord)
        (fun st a st' hst hord hstep => hst.spoiled hw hh (move_of_step hstep) hord)
        (fun st a st' hst hstep => hst.move hw (move_of_step hstep))
        (fun st hst hout hall => hst.not_onceInOrder hw hh hout (hall out hout))
        (correct_started R w h M) hrun hout
    constructor
    · intro hgood
      refine .inr (.inr (hiff.1 ?_))
      intro out' hout'
      cases hout.symm.trans hout'
      exact hgood
    · rintro (hzero | hzero | hguard)
      · omega
      · omega
      · exact hiff.2 hguard out hout
  · -- Without pixels there is nothing to be wrong.
    constructor
    · intro _
      omega
    · intro _ p q hp hq
      omega

/-- An image of one pixel.  The child that makes it grey removes the segment before the child that
blurs forks. -/
def greyThenBlur : List Proc :=
  [.parent, .parent, .grey .child, .blurChild, .grey .child, .blurChild, .grey .child, .grey .child,
    .blurChild, .blurChild, .blurChild, .blurChild, .blurChild, .grey .grandchild,
    .grey .grandchild, .grey .grandchild, .grey .grandchild, .blurChild, .blurChild, .blurChild,
    .parent, .parent, .parent]

/-- The same with the row read before it is grey. -/
def blurThenGrey : List Proc :=
  [.parent, .parent, .grey .child, .blurChild, .blurChild, .grey .child, .grey .child, .grey .child,
    .blurChild, .blurChild, .blurChild, .blurChild, .blurChild, .grey .grandchild,
    .grey .grandchild, .grey .grandchild, .grey .grandchild, .blurChild, .blurChild, .blurChild,
    .parent, .parent, .parent]

theorem passes_in_order_iff_pixel :
    ∃ st out, greyThenBlur.foldlM (step Rounding.binary64 1 1) (started fun _ => ⟨200, 0, 0⟩) =
        some st ∧ st.output = some out ∧ (out 0).passes = [.grey, .blur] ∧
      (OnceInOrder Rounding.binary64 1 1 (fun _ => ⟨200, 0, 0⟩) out ↔
        1 = 0 ∨ 1 = 0 ∨ Guarded (step Rounding.binary64 1 1) (InOrder 1)
          (started fun _ => ⟨200, 0, 0⟩) greyThenBlur) := by
  have hpasses : ((greyThenBlur.foldlM (step Rounding.binary64 1 1)
      (started fun _ => ⟨200, 0, 0⟩)).bind System.output).map (fun out => (out 0).passes) =
        some [.grey, .blur] := by
    decide +kernel
  rcases Option.map_eq_some_iff.1 hpasses with ⟨out, hbind, hzero⟩
  rcases Option.bind_eq_some_iff.1 hbind with ⟨st, hrun, hout⟩
  exact ⟨st, out, hrun, hout, hzero, passes_in_order_iff _ 1 1 _ greyThenBlur st out hrun hout⟩

/-- A red pixel is read, made grey, and then overwritten with the blurred red. -/
theorem grey_update_lost :
    ∃ st out, blurThenGrey.foldlM (step Rounding.binary64 1 1) (started fun _ => ⟨200, 0, 0⟩) =
        some st ∧ st.output = some out ∧ out 0 = ⟨⟨100, 0, 0⟩, [.blur]⟩ ∧
      ¬ OnceInOrder Rounding.binary64 1 1 (fun _ => ⟨200, 0, 0⟩) out := by
  have hpixel : ((blurThenGrey.foldlM (step Rounding.binary64 1 1)
      (started fun _ => ⟨200, 0, 0⟩)).bind System.output).map (fun out => out 0) =
        some ⟨⟨100, 0, 0⟩, [.blur]⟩ := by
    decide +kernel
  rcases Option.map_eq_some_iff.1 hpixel with ⟨out, hbind, hzero⟩
  rcases Option.bind_eq_some_iff.1 hbind with ⟨st, hrun, hout⟩
  refine ⟨st, out, hrun, hout, hzero, ?_⟩
  intro hgood
  have hcell : out 0 = _ := hgood 0 0 Nat.one_pos Nat.one_pos
  rw [hzero] at hcell
  simp at hcell

end Image
end OsLab
