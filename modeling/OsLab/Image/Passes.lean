import OsLab.Image.Blur

/-!
# Passes — what the passes do to each pixel

Both passes change every pixel of the image once.  The blur works in place, but a pixel depends only
on pixels of its row from its own column on, and these are changed later: each pixel of the result is
`blurValue` of the row as it was before.
-/

namespace OsLab
namespace Image

open Lib

variable {R : Rounding} {M N : Matrix} {w h p q : Nat}

/-! ## Greyscale -/

theorem greyRow_apply (M : Matrix) (w p i j : Nat) :
    greyRow R w M p i j = if i = p ∧ j < w then greyOf R (M i j) else M i j := by
  rw [greyRow, foldl_columns (p := p) (v := fun q => greyOf R (M p q))]
  · by_cases hcell : i = p ∧ j < w
    · simp only [hcell.1]
    · simp only [if_neg hcell]
  · intro N q _ hN
    rw [greyPixel, hN p q (by omega)]

theorem convertGrayscale_apply (M : Matrix) (w h i j : Nat) :
    convertGrayscale R w h M i j = if i < h ∧ j < w then greyOf R (M i j) else M i j := by
  rw [convertGrayscale, foldl_rows (w := w) (v := fun i j => greyOf R (M i j))]
  intro N p _ hN i j
  rw [greyRow_apply]
  by_cases hcell : i = p ∧ j < w
  · rw [if_pos hcell, if_pos hcell, hN i (by omega)]
  · rw [if_neg hcell, if_neg hcell]

/-! ## Blur -/

theorem blurValue_congr {row row' : Nat → Pixel} (hq : q < w)
    (hrow : ∀ u, q ≤ u → u < w → row u = row' u) : blurValue R w row q = blurValue R w row' q := by
  rw [blurValue_eq]
  exact windowValue_congr hq hrow

theorem heightorizontalBlur_apply (M : Matrix) (w h i j : Nat) :
    heightorizontalBlur R w h M i j = if i < h ∧ j < w then blurValue R w (M i) j else M i j := by
  rw [heightorizontalBlur_eq, blurValue_eq, inPlaceBlur_apply]

/-- Each pixel that `part1` writes out. -/
theorem part1_apply (M : Matrix) (w h i j : Nat) :
    part1 R w h M i j =
      if i < h ∧ j < w then blurValue R w (fun u => greyOf R (M i u)) j else M i j := by
  rw [part1, heightorizontalBlur_apply]
  by_cases hcell : i < h ∧ j < w
  · rw [if_pos hcell, if_pos hcell]
    -- Within the image the row is grey.
    refine blurValue_congr hcell.2 ?_
    intro u _ hu
    rw [convertGrayscale_apply, if_pos ⟨hcell.1, hu⟩]
  · rw [if_neg hcell, if_neg hcell, convertGrayscale_apply, if_neg hcell]

/-! ## An image with one bright pixel -/

@[simp] theorem greyOf_black : greyOf R ⟨0, 0, 0⟩ = ⟨0, 0, 0⟩ := by
  have hzero : truncate (0 : ℚ) = 0 := by decide
  simp [greyOf, greyValue, hzero]

theorem greyOf_nine : greyOf R ⟨9, 9, 9⟩ = ⟨8, 8, 8⟩ := by
  have hblue : truncate (R.fl ((9 : ℤ) * R.fl (114 / 1000))) = 1 :=
    R.truncate_product (by norm_num) (by norm_num) (by norm_num) (by norm_num) (by norm_num)
  have hred : truncate (R.fl ((1 : ℤ) + R.fl ((9 : ℤ) * R.fl (299 / 1000)))) = 3 :=
    R.truncate_share (by norm_num) (by norm_num) (by norm_num) (by norm_num) (by norm_num)
      (by norm_num)
  have hgreen : truncate (R.fl ((3 : ℤ) + R.fl ((9 : ℤ) * R.fl (587 / 1000)))) = 8 :=
    R.truncate_share (by norm_num) (by norm_num) (by norm_num) (by norm_num) (by norm_num)
      (by norm_num)
  simp only [greyOf, greyValue, hblue, hred, hgreen]

theorem greyOf_four : greyOf R ⟨4, 4, 4⟩ = ⟨3, 3, 3⟩ := by
  have hblue : truncate (R.fl ((4 : ℤ) * R.fl (114 / 1000))) = 0 :=
    R.truncate_product (by norm_num) (by norm_num) (by norm_num) (by norm_num) (by norm_num)
  have hred : truncate (R.fl ((0 : ℤ) + R.fl ((4 : ℤ) * R.fl (299 / 1000)))) = 1 :=
    R.truncate_share (by norm_num) (by norm_num) (by norm_num) (by norm_num) (by norm_num)
      (by norm_num)
  have hgreen : truncate (R.fl ((1 : ℤ) + R.fl ((4 : ℤ) * R.fl (587 / 1000)))) = 3 :=
    R.truncate_share (by norm_num) (by norm_num) (by norm_num) (by norm_num) (by norm_num)
      (by norm_num)
  simp only [greyOf, greyValue, hblue, hred, hgreen]

/-- A black pixel adds nothing to small channels. -/
theorem addShare_black (amount : Nat) {n : ℤ} (hn : |n| < 2 ^ 53) :
    addShare R amount ⟨n, n, n⟩ ⟨0, 0, 0⟩ = ⟨n, n, n⟩ := by
  simp only [addShare, addChannel, R.truncate_zero_share hn]

/-- A grey pixel with nothing but black to its right. -/
theorem blurValue_spot {row : Nat → Pixel} {n m : ℤ} (hq : q < w) (hself : row q = ⟨n, n, n⟩)
    (hhalf : n.tdiv 2 = m) (hm : |m| < 2 ^ 53) (hblack : ∀ u, q < u → u < w → row u = ⟨0, 0, 0⟩) :
    blurValue R w row q = ⟨m, m, m⟩ := by
  have hstart : halved (row q) = ⟨m, m, m⟩ := by
    simp only [hself, halved, hhalf]
  -- Black pixels leave the sum as it is.
  have hloop : ∀ (amount : Nat) (cols : List Nat),
      (∀ u ∈ cols, row u = ⟨0, 0, 0⟩) →
        cols.foldl (fun acc u => addShare R amount acc (row u)) ⟨m, m, m⟩ = ⟨m, m, m⟩ := by
    intro amount cols hcols
    induction cols with
    | nil => rfl
    | cons u cols ih =>
        rw [List.foldl_cons, hcols u List.mem_cons_self, addShare_black amount hm]
        exact ih fun v hv => hcols v (List.mem_cons_of_mem u hv)
  by_cases hshort : w - q < BLUR_AMOUNT
  · rw [blurValue, if_pos hshort, hstart]
    refine hloop _ _ ?_
    intro u hu
    rw [List.mem_range'_1] at hu
    exact hblack u (by omega) (by omega)
  · rw [blurValue, if_neg hshort, hstart]
    have hshift := hloop BLUR_AMOUNT ((List.range' 1 (BLUR_AMOUNT - 1)).map (q + ·))
    rw [List.foldl_map] at hshift
    refine hshift ?_
    intro u hu
    rcases List.mem_map.1 hu with ⟨i, hi, rfl⟩
    rw [List.mem_range'_1] at hi
    exact hblack (q + i) (by omega) (by omega)

/-- Black but for one grey pixel. -/
def spot (p q : Nat) : Matrix :=
  put (fun _ _ => ⟨0, 0, 0⟩) p q ⟨9, 9, 9⟩

theorem spot_black {i j : Nat} (hne : ¬ (i = p ∧ j = q)) : spot p q i j = ⟨0, 0, 0⟩ := by
  rw [spot, put_ne _ hne]

/-- The pixel is grey `8` and then half of that. -/
theorem part1_spot (hp : p < h) (hq : q < w) : part1 R w h (spot p q) p q = ⟨4, 4, 4⟩ := by
  rw [part1_apply, if_pos ⟨hp, hq⟩]
  refine blurValue_spot (n := 8) hq ?_ (by decide) (by norm_num) ?_
  · rw [spot, put_self, greyOf_nine]
  · intro u hu _
    rw [spot_black (by omega), greyOf_black]

end Image
end OsLab
