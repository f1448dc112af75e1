import OsLab.Image.Passes

/-!
# Threads — the passes in two threads with a lock

`part2_1a.cpp` and `part2_1b.cpp` start a thread for each pass.  A lock, an atomic flag or a
semaphore, makes a row of `ConvertGrayscale` and a pixel of `HorizontalBlur` critical sections.  The
lock orders nothing: the blur may get to a row that is not grey yet.

`threads_eq_part1_iff` says for which orders of the critical sections the two threads compute what
`part1` does: those in which each row is grey before the first pixel of it is blurred.
-/

namespace OsLab
namespace Image

open Lib

/-! ## Locks -/

/-- A lock, with the state in which the threads start. -/
structure Lock where
  σ : Type
  init : σ
  /-- `none`: the thread has to wait. -/
  acquire : σ → Option σ
  release : σ → σ
  free : (acquire init).map release = some init

/-- `atomic_flag get_lock`: taken by `atomic_flag_test_and_set`, given back by
`atomic_flag_clear`. -/
def atomicFlag : Lock where
  σ := Bool
  init := false
  acquire := fun b => if b then none else some true
  release := fun _ => false
  free := rfl

/-- `sem_t s`, initialised to 1: taken by `sem_wait`, given back by `sem_post`. -/
def semaphore : Lock where
  σ := Nat
  init := 1
  acquire := fun n => if n = 0 then none else some (n - 1)
  release := fun n => n + 1
  free := rfl

/-! ## Threads -/

inductive Thread where
  /-- `thread1`, in `ConvertGrayscale` -/
  | grey
  /-- `thread2`, in `HorizontalBlur` -/
  | blur
  deriving DecidableEq, Repr

structure Threads (L : Lock) where
  lock : L.σ
  /-- `val_matrix` -/
  matrix : Matrix
  /-- The row of `ConvertGrayscale`. -/
  i : Nat
  /-- The row and the column of `HorizontalBlur`. -/
  p : Nat
  q : Nat

section Steps

variable (R : Rounding) {L : Lock} (w h : Nat)

/-- A critical section.  A thread that does not get the lock stays where it is. -/
def critical (body : Threads L → Threads L) (st : Threads L) : Threads L :=
  match L.acquire st.lock with
  -- The thread spins or sleeps.
  | none => st
  | some held => { body st with lock := L.release held }

/-- `ConvertGrayscale` takes the lock for each row. -/
def greySection (st : Threads L) : Threads L :=
  if st.i < h then
    critical (fun st => { st with matrix := greyRow R w st.matrix st.i, i := st.i + 1 }) st
  else st

/-- `HorizontalBlur` takes the lock for each pixel. -/
def blurSection (st : Threads L) : Threads L :=
  if st.p < h ∧ st.q < w then
    critical (fun st =>
      { st with
        matrix := blurPixel R w st.p st.matrix st.q
        -- The next pixel, or the first one of the next row.
        p := if st.q + 1 < w then st.p else st.p + 1
        q := if st.q + 1 < w then st.q + 1 else 0 }) st
  else st

def turn (st : Threads L) : Thread → Threads L
  | .grey => greySection R w h st
  | .blur => blurSection R w h st

variable (L) in
/-- Both threads from their start, in the order in which they enter their critical sections. -/
def threads (sched : List Thread) (M : Matrix) : Threads L :=
  sched.foldl (turn R w h) ⟨L.init, M, 0, 0, 0⟩

/-- The matrix that `part2_1a` writes out. -/
def part2_1a (sched : List Thread) (M : Matrix) : Matrix :=
  (threads R atomicFlag w h sched M).matrix

/-- The matrix that `part2_1b` writes out. -/
def part2_1b (sched : List Thread) (M : Matrix) : Matrix :=
  (threads R semaphore w h sched M).matrix

end Steps

/-- An order of all critical sections, up to the end of both threads. -/
structure Interleaving (w h : Nat) (sched : List Thread) : Prop where
  rows : sched.count .grey = h
  pixels : sched.count .blur = h * w

/-- Each pixel that is blurred is in a row that is grey by then.  So far `g` rows are grey, and `b`
pixels are blurred. -/
def GreyFirst (w : Nat) : Nat → Nat → List Thread → Prop
  | _, _, [] => True
  | g, b, .grey :: sched => GreyFirst w (g + 1) b sched
  | g, b, .blur :: sched => b / w < g ∧ GreyFirst w g (b + 1) sched

/-! ## Whole runs -/

section Runs

variable {R : Rounding} {L : Lock} {w h g b : Nat} {st : Threads L} {sched : List Thread}

/-- The lock is free, `g` rows are done and `b` pixels. -/
structure Reached (w : Nat) (st : Threads L) (g b : Nat) : Prop where
  lock : st.lock = L.init
  row : st.i = g
  pixel : st.p = b / w ∧ st.q = b % w

/-- The lock is free at the start of a critical section, and again at its end. -/
theorem critical_of_free {body : Threads L → Threads L} (hlock : st.lock = L.init) :
    critical body st = { body st with lock := L.init } := by
  -- Taking a free lock succeeds, and giving it back makes it free again.
  rcases Option.map_eq_some_iff.1 L.free with ⟨held, hacquire, hrelease⟩
  simp only [critical, hlock, hacquire, hrelease]

theorem Reached.grey (hst : Reached w st g b) (hg : g < h) :
    Reached w (turn R w h st .grey) (g + 1) b ∧
      (turn R w h st .grey).matrix = greyRow R w st.matrix g := by
  rw [turn, greySection, if_pos (by rw [hst.row]; exact hg), critical_of_free hst.lock]
  simp only [hst.row]
  exact ⟨⟨rfl, rfl, hst.pixel⟩, trivial⟩

theorem Reached.blur (hst : Reached w st g b) (hb : b < h * w) :
    Reached w (turn R w h st .blur) g (b + 1) ∧
      (turn R w h st .blur).matrix = blurPixel R w (b / w) st.matrix (b % w) := by
  -- There is a pixel left, so the rows are not empty.
  have hw : 0 < w := by
    by_contra hzero
    have hw : w = 0 := by omega
    simp [hw] at hb
  have hp : b / w < h := (Nat.div_lt_iff_lt_mul hw).2 hb
  have hq : b % w < w := Nat.mod_lt b hw
  have hsplit := Nat.mod_add_div b w
  rw [turn, blurSection, if_pos (by rw [hst.pixel.1, hst.pixel.2]; exact ⟨hp, hq⟩),
    critical_of_free hst.lock]
  simp only [hst.pixel.1, hst.pixel.2]
  refine ⟨⟨rfl, hst.row, ?_⟩, trivial⟩
  by_cases hnext : b % w + 1 < w
  · -- The next pixel is in the same row.
    have hpos := (Nat.div_mod_unique hw).2 ⟨(by omega : b % w + 1 + w * (b / w) = b + 1), hnext⟩
    simp only [if_pos hnext]
    exact ⟨hpos.1.symm, hpos.2.symm⟩
  · -- It was the last pixel of its row.
    have hsum : 0 + w * (b / w + 1) = b + 1 := by
      rw [Nat.mul_add]
      omega
    have hpos := (Nat.div_mod_unique hw).2 ⟨hsum, hw⟩
    simp only [if_neg hnext]
    exact ⟨hpos.1.symm, hpos.2.symm⟩

/-- Induction over a run.  What holds of the matrix may depend on the rows and pixels that are done
and on the sections to come. -/
theorem run_induction {P : Matrix → Nat → Nat → List Thread → Prop}
    (hgrey : ∀ N g b sched, g < h → P N g b (.grey :: sched) → P (greyRow R w N g) (g + 1) b sched)
    (hblur : ∀ N g b sched, b < h * w → P N g b (.blur :: sched) →
      P (blurPixel R w (b / w) N (b % w)) g (b + 1) sched) :
    ∀ (sched rest : List Thread) {st : Threads L} {g b : Nat}, Reached w st g b →
      g + sched.count .grey ≤ h → b + sched.count .blur ≤ h * w →
      P st.matrix g b (sched ++ rest) →
        Reached w (sched.foldl (turn R w h) st) (g + sched.count .grey) (b + sched.count .blur) ∧
          P (sched.foldl (turn R w h) st).matrix (g + sched.count .grey) (b + sched.count .blur) rest
  | [], _, _, _, _, hst, _, _, hP => ⟨hst, hP⟩
  | .grey :: sched, rest, st, g, b, hst, hg, hb, hP => by
      rw [List.count_cons_self] at hg ⊢
      rw [List.count_cons_of_ne (by decide)] at hb ⊢
      rcases hst.grey (R := R) (h := h) (by omega) with ⟨hst', hmatrix⟩
      have hP' := hgrey st.matrix g b (sched ++ rest) (by omega) hP
      rw [← hmatrix] at hP'
      have hrun := run_induction hgrey hblur sched rest hst' (by omega) hb hP'
      rwa [Nat.add_right_comm g 1] at hrun
  | .blur :: sched, rest, st, g, b, hst, hg, hb, hP => by
      rw [List.count_cons_self] at hb ⊢
      rw [List.count_cons_of_ne (by decide)] at hg ⊢
      rcases hst.blur (R := R) (h := h) (by omega) with ⟨hst', hmatrix⟩
      have hP' := hblur st.matrix g b (sched ++ rest) (by omega) hP
      rw [← hmatrix] at hP'
      have hrun := run_induction hgrey hblur sched rest hst' hg (by omega) hP'
      rwa [Nat.add_right_comm b 1] at hrun

/-- The run of an interleaving reaches the end of both threads. -/
theorem threads_induction {P : Matrix → Nat → Nat → List Thread → Prop}
    (hgrey : ∀ N g b sched, g < h → P N g b (.grey :: sched) → P (greyRow R w N g) (g + 1) b sched)
    (hblur : ∀ N g b sched, b < h * w → P N g b (.blur :: sched) →
      P (blurPixel R w (b / w) N (b % w)) g (b + 1) sched)
    (hsched : Interleaving w h sched) {M : Matrix} (hstart : P M 0 0 sched) :
    P (threads R L w h sched M).matrix h (h * w) [] := by
  have hreached : Reached (L := L) w ⟨L.init, M, 0, 0, 0⟩ 0 0 := ⟨rfl, rfl, by simp⟩
  have hrun := run_induction hgrey hblur sched [] hreached (by simp [hsched.rows])
    (by simp [hsched.pixels]) (by simpa using hstart)
  simpa only [threads, hsched.rows, hsched.pixels, Nat.zero_add] using hrun.2

/-! ## Rows that are grey in time -/

/-- The image after `g` rows and `b` pixels, if every row was grey in time. -/
def stage (R : Rounding) (w : Nat) (M : Matrix) (g b : Nat) : Matrix :=
  fun i j =>
    if i * w + j < b ∧ j < w then blurValue R w (fun u => greyOf R (M i u)) j
    else if i < g ∧ j < w then greyOf R (M i j)
    else M i j

variable {M : Matrix}

theorem stage_start : stage R w M 0 0 = M := by
  funext i j
  simp [stage]

theorem stage_end : stage R w M h (h * w) = part1 R w h M := by
  funext i j
  rw [part1_apply]
  by_cases hcell : i < h ∧ j < w
  · -- A pixel of the image comes before the end of the last row.
    have hpos : i * w + j < h * w := by
      calc i * w + j < i * w + w := Nat.add_lt_add_left hcell.2 _
        _ = (i + 1) * w := (Nat.succ_mul i w).symm
        _ ≤ h * w := Nat.mul_le_mul_right w hcell.1
    simp only [stage, hpos, hcell, true_and, if_true]
  · have hpos : ¬ (i * w + j < h * w ∧ j < w) := by
      -- A position before the end is in one of the `h` rows.
      rintro ⟨hlt, hj⟩
      have hi : i < h := Nat.lt_of_mul_lt_mul_right (Nat.lt_of_le_of_lt (Nat.le_add_right _ _) hlt)
      exact hcell ⟨hi, hj⟩
    simp only [stage, if_neg hpos, if_neg hcell]

/-- A row that turns grey has no blurred pixel yet. -/
theorem stage_grey (hb : b ≤ g * w) : greyRow R w (stage R w M g b) g = stage R w M (g + 1) b := by
  funext i j
  rw [greyRow_apply]
  by_cases hcell : i = g ∧ j < w
  · -- All blurred pixels are in the rows before this one.
    rcases hcell with ⟨rfl, hj⟩
    have hpos : ¬ i * w + j < b := by omega
    simp [stage, hpos, hj]
  · have hiff : (i < g ∧ j < w) ↔ (i < g + 1 ∧ j < w) := by omega
    simp only [if_neg hcell, stage, hiff]

/-- A pixel that is blurred has grey pixels to its right, none of them blurred. -/
theorem stage_blur (hw : 0 < w) (hrow : b / w < g) :
    blurPixel R w (b / w) (stage R w M g b) (b % w) = stage R w M g (b + 1) := by
  have hq : b % w < w := Nat.mod_lt b hw
  have hpos : b / w * w + b % w = b := Nat.div_add_mod' b w
  funext i j
  by_cases hcell : i = b / w ∧ j = b % w
  · rcases hcell with ⟨rfl, rfl⟩
    have hlt : b / w * w + b % w < b + 1 ∧ b % w < w := ⟨by omega, hq⟩
    rw [blurPixel, put_self]
    conv_rhs => rw [stage, if_pos hlt]
    -- What the pixel depends on is grey and not blurred.
    refine blurValue_congr hq ?_
    intro u hu huw
    have hnot : ¬ (b / w * w + u < b ∧ u < w) := by omega
    simp only [stage, if_neg hnot, if_pos (And.intro hrow huw)]
  · rw [blurPixel, put_ne _ hcell]
    have hiff : (i * w + j < b ∧ j < w) ↔ (i * w + j < b + 1 ∧ j < w) := by
      constructor
      · intro hlt
        exact ⟨by omega, hlt.2⟩
      · rintro ⟨hlt, hj⟩
        refine ⟨?_, hj⟩
        by_contra hge
        -- There is only one pixel at position `b`.
        have heq : j + w * i = b := by
          rw [Nat.mul_comm w i]
          omega
        have hunique := (Nat.div_mod_unique hw).2 ⟨heq, hj⟩
        exact hcell ⟨hunique.1.symm, hunique.2.symm⟩
    simp only [stage, hiff]

theorem threads_of_greyFirst (hsched : Interleaving w h sched) (hfirst : GreyFirst w 0 0 sched) :
    (threads R L w h sched M).matrix = part1 R w h M := by
  -- The matrix is the one of its stage, and only grey rows have blurred pixels.
  have hend := threads_induction (R := R) (L := L) (M := M)
    (P := fun N g b sched => N = stage R w M g b ∧ b ≤ g * w ∧ GreyFirst w g b sched)
    ?_ ?_ hsched ⟨stage_start.symm, Nat.zero_le _, hfirst⟩
  · rw [hend.1, stage_end]
  · rintro N g b sched _ ⟨rfl, hb, hrest⟩
    refine ⟨stage_grey hb, ?_, hrest⟩
    exact Nat.le_trans hb (Nat.mul_le_mul_right w (Nat.le_succ g))
  · rintro N g b sched hlt ⟨rfl, hb, hrow, hrest⟩
    have hw : 0 < w := Nat.pos_of_mul_pos_left (Nat.lt_of_le_of_lt (Nat.zero_le b) hlt)
    exact ⟨stage_blur hw hrow, (Nat.div_lt_iff_lt_mul hw).1 hrow, hrest⟩

/-! ## A row that is grey too late -/

/-- The first pixel of a row is blurred before the row is grey. -/
theorem exists_late_of_not_greyFirst :
    ∀ {sched : List Thread} {g b : Nat}, ¬ GreyFirst w g b sched →
      ∃ pre post, sched = pre ++ .blur :: post ∧
        g + pre.count .grey ≤ (b + pre.count .blur) / w
  | [], _, _, hnot => absurd trivial hnot
  | .grey :: sched, g, b, hnot => by
      have hrest : ¬ GreyFirst w (g + 1) b sched := hnot
      rcases exists_late_of_not_greyFirst hrest with ⟨pre, post, rfl, hlate⟩
      refine ⟨.grey :: pre, post, rfl, ?_⟩
      rw [List.count_cons_self, List.count_cons_of_ne (by decide)]
      omega
  | .blur :: sched, g, b, hnot => by
      -- This pixel is in order, or it is the one we look for.
      by_cases hrow : b / w < g
      · have hrest : ¬ GreyFirst w g (b + 1) sched := fun hrest => hnot ⟨hrow, hrest⟩
        rcases exists_late_of_not_greyFirst hrest with ⟨pre, post, rfl, hlate⟩
        refine ⟨.blur :: pre, post, rfl, ?_⟩
        rw [List.count_cons_self, List.count_cons_of_ne (by decide),
          Nat.add_comm (pre.count .blur) 1, ← Nat.add_assoc]
        exact hlate
      · refine ⟨[], sched, rfl, ?_⟩
        simpa using hrow

/-- A spot in row `p`, in the order of a late run: until the row is grey. -/
def Early (w p : Nat) (N : Matrix) (g b : Nat) : Prop :=
  g ≤ p → (b ≤ p * w → ∀ j, N p j = spot p 0 p j) ∧ (p * w < b → N p 0 = ⟨4, 4, 4⟩)

/-- The spot is blurred first, to half of its value, and then made grey. -/
def Late (w p : Nat) (N : Matrix) (g b : Nat) : Prop :=
  p * w < b ∧ N p 0 = if p < g then ⟨3, 3, 3⟩ else ⟨4, 4, 4⟩

variable {N : Matrix} {p : Nat}

theorem blurPixel_apply_ne {i j q : Nat} (hne : ¬ (i = p ∧ j = q)) :
    blurPixel R w p N q i j = N i j := by
  rw [blurPixel, put_ne _ hne]

theorem Early.grey (hN : Early w p N g b) : Early w p (greyRow R w N g) (g + 1) b := by
  intro hg
  rcases hN (by omega) with ⟨hbefore, hafter⟩
  -- Rows before `p` turn grey, not row `p` itself.
  have hrow : ∀ j, greyRow R w N g p j = N p j := by
    intro j
    rw [greyRow_apply, if_neg (by omega)]
  simp only [hrow]
  exact ⟨hbefore, hafter⟩

theorem Early.blur (hw : 0 < w) (hN : Early w p N g b) :
    Early w p (blurPixel R w (b / w) N (b % w)) g (b + 1) := by
  intro hg
  rcases hN hg with ⟨hbefore, hafter⟩
  have hpos : b / w * w + b % w = b := Nat.div_add_mod' b w
  by_cases hspot : p = b / w ∧ 0 = b % w
  · -- It is the turn of the spot.
    have hbw : b = p * w := by rw [← hpos, ← hspot.1, ← hspot.2, Nat.add_zero]
    refine ⟨by omega, fun _ => ?_⟩
    rw [← hspot.1, ← hspot.2, blurPixel, put_self]
    refine blurValue_spot (n := 9) hw ?_ (by decide) (by norm_num) ?_
    · rw [hbefore (by omega), spot, put_self]
    · intro u hu _
      rw [hbefore (by omega), spot_black (by omega)]
  · constructor
    · -- Pixels of earlier rows.
      intro hb j
      have hne : ¬ (p = b / w ∧ j = b % w) := by
        rintro ⟨hp, -⟩
        rw [← hp] at hpos
        omega
      rw [blurPixel_apply_ne hne, hbefore (by omega)]
    · intro hb
      rw [blurPixel_apply_ne hspot]
      refine hafter ?_
      -- The spot is the only pixel at position `p * w`.
      by_contra hnot
      have hbw : b = p * w := by omega
      refine hspot ⟨?_, ?_⟩
      · rw [hbw, Nat.mul_div_cancel p hw]
      · rw [hbw, Nat.mul_mod_left]

theorem Late.grey (hw : 0 < w) (hN : Late w p N g b) : Late w p (greyRow R w N g) (g + 1) b := by
  refine ⟨hN.1, ?_⟩
  rw [greyRow_apply, hN.2]
  -- The row of the spot turns grey after the spot was blurred.
  by_cases hp : p = g
  · rw [if_pos ⟨hp, hw⟩, if_neg (by omega), if_pos (by omega), greyOf_four]
  · rw [if_neg (by omega)]
    have hiff : p < g ↔ p < g + 1 := by omega
    simp only [hiff]

theorem Late.blur (hN : Late w p N g b) :
    Late w p (blurPixel R w (b / w) N (b % w)) g (b + 1) := by
  refine ⟨by have := hN.1; omega, ?_⟩
  rw [blurPixel_apply_ne, hN.2]
  -- The spot has been blurred already, and each pixel is blurred once.
  rintro ⟨hp, hq⟩
  have hpos : b / w * w + b % w = b := Nat.div_add_mod' b w
  rw [← hp, ← hq] at hpos
  have := hN.1
  omega

/-- A pixel that is blurred is a pixel of the image. -/
theorem Interleaving.blur_mem {pre post : List Thread}
    (hsched : Interleaving w h (pre ++ .blur :: post)) :
    pre.count .blur < h * w ∧ 0 < w ∧ pre.count .blur / w < h := by
  have hpixels := hsched.pixels
  rw [List.count_append, List.count_cons_self] at hpixels
  have hlt : pre.count .blur < h * w := by omega
  have hw : 0 < w := Nat.pos_of_mul_pos_left (Nat.lt_of_le_of_lt (Nat.zero_le _) hlt)
  exact ⟨hlt, hw, (Nat.div_lt_iff_lt_mul hw).2 hlt⟩

/-- A spot in a row that is grey too late ends up darker than it should. -/
theorem threads_of_late {pre post : List Thread}
    (hsched : Interleaving w h (pre ++ .blur :: post))
    (hlate : pre.count .grey ≤ pre.count .blur / w) :
    (threads R L w h (pre ++ .blur :: post) (spot (pre.count .blur / w) 0)).matrix
      (pre.count .blur / w) 0 = ⟨3, 3, 3⟩ := by
  have hrows := hsched.rows
  have hpixels := hsched.pixels
  rw [List.count_append, List.count_cons_of_ne (by decide)] at hrows
  rw [List.count_append, List.count_cons_self] at hpixels
  rcases hsched.blur_mem with ⟨hlt, hw, hp⟩
  generalize hpdef : pre.count .blur / w = p at hlate hp ⊢
  have hreached : Reached (L := L) w ⟨L.init, spot p 0, 0, 0, 0⟩ 0 0 := ⟨rfl, rfl, by simp⟩
  -- Up to the pixel that is blurred too early …
  have hpre := run_induction (R := R) (h := h) (P := fun N g b _ => Early w p N g b)
    (fun N g b _ _ hN => hN.grey) (fun N g b _ _ hN => hN.blur hw) pre [] hreached
    (by omega) (by omega) (fun _ => ⟨fun _ _ => rfl, fun hb => by omega⟩)
  rw [Nat.zero_add, Nat.zero_add] at hpre
  rcases hpre with ⟨hst, hearly⟩
  rcases hst.blur (R := R) hlt with ⟨hst', hmatrix⟩
  have hstart : Late w p (turn R w h (pre.foldl (turn R w h) ⟨L.init, spot p 0, 0, 0, 0⟩)
      .blur).matrix (pre.count .grey) (pre.count .blur + 1) := by
    rw [hmatrix]
    -- The pixel is in row `p`, so the first pixel of the row is through as well.
    have hmul : p * w ≤ pre.count .blur := by
      rw [← hpdef]
      exact Nat.div_mul_le_self _ _
    refine ⟨by omega, ?_⟩
    rw [if_neg (by omega)]
    exact ((hearly.blur hw) hlate).2 (by omega)
  -- … and from there to the end.
  have hpost := run_induction (R := R) (h := h) (P := fun N g b _ => Late w p N g b)
    (fun N g b _ _ hN => hN.grey hw) (fun N g b _ _ hN => hN.blur) post [] hst'
    (by omega) (by omega) hstart
  have hend := hpost.2.2
  rw [if_pos (by omega)] at hend
  rw [threads, List.foldl_append, List.foldl_cons]
  exact hend

/-- With either lock, the two threads compute the matrix of `part1` for every image if and only if
each row is grey before the first pixel of it is blurred. -/
theorem threads_eq_part1_iff (R : Rounding) (w h : Nat) (sched : List Thread)
    (hsched : Interleaving w h sched) :
    ((∀ M, part2_1a R w h sched M = part1 R w h M) ↔ GreyFirst w 0 0 sched) ∧
      ((∀ M, part2_1b R w h sched M = part1 R w h M) ↔ GreyFirst w 0 0 sched) := by
  have hlock : ∀ L : Lock, (∀ M, (threads R L w h sched M).matrix = part1 R w h M) ↔
      GreyFirst w 0 0 sched := by
    intro L
    constructor
    · intro hall
      by_contra hnot
      rcases exists_late_of_not_greyFirst hnot with ⟨pre, post, rfl, hlate⟩
      rw [Nat.zero_add, Nat.zero_add] at hlate
      rcases hsched.blur_mem with ⟨-, hw, hp⟩
      have hspot := threads_of_late (R := R) (L := L) hsched hlate
      rw [hall, part1_spot hp hw] at hspot
      cases hspot
    · intro hfirst M
      exact threads_of_greyFirst hsched hfirst
  exact ⟨hlock atomicFlag, hlock semaphore⟩

/-- Two rows, the second one grey while the first one is blurred. -/
theorem threads_eq_part1_iff_two_rows :
    Interleaving 2 2 [.grey, .blur, .grey, .blur, .blur, .blur] ∧
      ((∀ M, part2_1a Rounding.binary64 2 2 [.grey, .blur, .grey, .blur, .blur, .blur] M =
          part1 Rounding.binary64 2 2 M) ↔
        GreyFirst 2 0 0 [.grey, .blur, .grey, .blur, .blur, .blur]) ∧
      ((∀ M, part2_1b Rounding.binary64 2 2 [.grey, .blur, .grey, .blur, .blur, .blur] M =
          part1 Rounding.binary64 2 2 M) ↔
        GreyFirst 2 0 0 [.grey, .blur, .grey, .blur, .blur, .blur]) :=
  ⟨⟨by decide, by decide⟩,
    threads_eq_part1_iff Rounding.binary64 2 2 _ ⟨by decide, by decide⟩⟩

/-- An image of one pixel with all channels `9`, where `thread2` is faster: both programs write `3`
instead of `4`. -/
theorem blur_overtakes_grey :
    Interleaving 1 1 [.blur, .grey] ∧
      part2_1a Rounding.binary64 1 1 [.blur, .grey] (spot 0 0) 0 0 = ⟨3, 3, 3⟩ ∧
      part2_1b Rounding.binary64 1 1 [.blur, .grey] (spot 0 0) 0 0 = ⟨3, 3, 3⟩ ∧
      part1 Rounding.binary64 1 1 (spot 0 0) 0 0 = ⟨4, 4, 4⟩ := by
  have hsched : Interleaving 1 1 ([] ++ .blur :: [.grey]) := ⟨by decide, by decide⟩
  refine ⟨hsched, ?_, ?_, part1_spot (by decide) (by decide)⟩
  · exact threads_of_late hsched (by decide)
  · exact threads_of_late hsched (by decide)

end Runs

end Image
end OsLab
