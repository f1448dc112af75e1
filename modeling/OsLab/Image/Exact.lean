import OsLab.Image.SharedOrder

/-!
# Exact — the passes with exact products

With `Rounding.exact` the products are rational numbers, and the fraction is cut off wherever a value
goes into an `int`.  The blur adds up to 49 shares to half of a pixel; with channels up to `max` each
share is at most `max / (2 n)` for a window of `n` pixels, which leaves the sum below `max`.

`part1.cpp` and `part2_2.cpp` have the same weights for the greyscale.  `part1` passes red, green and
blue to parameters for blue, red and green, and cuts off three times.
-/

namespace OsLab
namespace Image

open Lib

variable {M : Matrix} {w h p q : Nat}

/-! ## Channels in range -/

/-- Each channel is between 0 and the bound. -/
def Pixel.InRange (bound : ℚ) (t : Pixel) : Prop :=
  (0 ≤ t.red ∧ t.red ≤ bound) ∧ (0 ≤ t.green ∧ t.green ≤ bound) ∧ 0 ≤ t.blue ∧ t.blue ≤ bound

section Range

variable {a m : ℚ} {t acc : Pixel} {n : Nat}

theorem exact_fl (x : ℚ) : Rounding.exact.fl x = x :=
  rfl

theorem truncate_range {x : ℚ} (hx : 0 ≤ x) (hm : x ≤ m) :
    0 ≤ truncate x ∧ (truncate x : ℚ) ≤ m := by
  rw [truncate_of_nonneg hx]
  exact ⟨Int.floor_nonneg.2 hx, (Int.floor_le x).trans hm⟩

theorem Pixel.InRange.mono (ht : t.InRange a) (hle : a ≤ m) : t.InRange m := by
  rcases ht with ⟨⟨hr, hr'⟩, ⟨hg, hg'⟩, hb, hb'⟩
  exact ⟨⟨hr, hr'.trans hle⟩, ⟨hg, hg'.trans hle⟩, hb, hb'.trans hle⟩

theorem Pixel.InRange.bound_nonneg (ht : t.InRange m) : 0 ≤ m :=
  le_trans (by exact_mod_cast ht.1.1) ht.1.2

theorem halved_channel {x : Int} (hx : 0 ≤ x) (hm : (x : ℚ) ≤ m) :
    0 ≤ x.tdiv 2 ∧ ((x.tdiv 2 : Int) : ℚ) ≤ m / 2 := by
  rw [Int.tdiv_eq_ediv_of_nonneg hx]
  have hdouble : 2 * (x / 2) ≤ x := by omega
  have hcast : (2 : ℚ) * (x / 2 : Int) ≤ x := by exact_mod_cast hdouble
  exact ⟨by omega, by linarith⟩

theorem Pixel.InRange.halved (ht : t.InRange m) : (Image.halved t).InRange (m / 2) := by
  rcases ht with ⟨⟨hr, hr'⟩, ⟨hg, hg'⟩, hb, hb'⟩
  exact ⟨halved_channel hr hr', halved_channel hg hg', halved_channel hb hb'⟩

theorem addChannel_range {acc x : Int} (hacc : 0 ≤ acc ∧ (acc : ℚ) ≤ a) (hx : 0 ≤ x ∧ (x : ℚ) ≤ m) :
    0 ≤ addChannel Rounding.exact n acc x ∧
      (addChannel Rounding.exact n acc x : ℚ) ≤ a + m * (1 / 2 / n) := by
  have hweight : (0 : ℚ) ≤ 1 / 2 / n := by positivity
  have hacc₀ : (0 : ℚ) ≤ acc := by exact_mod_cast hacc.1
  have hx₀ : (0 : ℚ) ≤ x := by exact_mod_cast hx.1
  have hshare : (x : ℚ) * (1 / 2 / n) ≤ m * (1 / 2 / n) := mul_le_mul_of_nonneg_right hx.2 hweight
  exact truncate_range (add_nonneg hacc₀ (mul_nonneg hx₀ hweight)) (add_le_add hacc.2 hshare)

theorem Pixel.InRange.shares (hacc : acc.InRange a) (ht : t.InRange m) :
    (shares (addChannel Rounding.exact) n acc t).InRange (a + m * (1 / 2 / n)) :=
  ⟨addChannel_range hacc.1 ht.1, addChannel_range hacc.2.1 ht.2.1,
    addChannel_range hacc.2.2 ht.2.2⟩

/-- Each turn of the loop adds at most one share of the bound. -/
theorem Pixel.InRange.foldl_shares {f : Nat → Pixel} (hacc : acc.InRange a) (cols : List Nat)
    (hcols : ∀ u ∈ cols, (f u).InRange m) :
    (cols.foldl (fun acc u => Image.shares (addChannel Rounding.exact) n acc (f u)) acc).InRange
      (a + cols.length * (m * (1 / 2 / n))) := by
  induction cols generalizing acc a with
  | nil => simpa using hacc
  | cons u cols ih =>
      have hfirst := hacc.shares (n := n) (hcols u List.mem_cons_self)
      have hrest := ih hfirst fun v hv => hcols v (List.mem_cons_of_mem u hv)
      rw [List.foldl_cons]
      refine hrest.mono (le_of_eq ?_)
      push_cast [List.length_cons]
      ring

/-- Half of the bound, and the shares of a window. -/
theorem half_add_shares_le (hn : 1 ≤ n) (hm : 0 ≤ m) :
    m / 2 + ((n - 1 : Nat) : ℚ) * (m * (1 / 2 / n)) ≤ m := by
  have hpos : (0 : ℚ) < n := by exact_mod_cast hn
  have hshares : ((n - 1 : Nat) : ℚ) * (m * (1 / 2 / n)) = m / 2 - m / (2 * n) := by
    push_cast [Nat.cast_sub hn]
    field_simp
  have hrest : 0 ≤ m / (2 * n) := by positivity
  rw [hshares]
  linarith

theorem windowValue_range {row : Nat → Pixel} (hq : q < w)
    (hrow : ∀ u, u < w → (row u).InRange m) :
    (windowValue (addChannel Rounding.exact) w row q).InRange m := by
  have hself := hrow q hq
  by_cases hshort : w - q < BLUR_AMOUNT
  · rw [windowValue, if_pos hshort]
    refine (hself.halved.foldl_shares (m := m) _ ?_).mono ?_
    · intro u hu
      rw [List.mem_range'_1] at hu
      exact hrow u (by omega)
    · have hlength : w - (q + 1) = w - q - 1 := by omega
      rw [List.length_range', hlength]
      exact half_add_shares_le (by omega) hself.bound_nonneg
  · rw [windowValue, if_neg hshort]
    refine (hself.halved.foldl_shares (m := m) (f := fun i => row (q + i)) _ ?_).mono ?_
    · intro i hi
      rw [List.mem_range'_1] at hi
      exact hrow (q + i) (by omega)
    · rw [List.length_range']
      exact half_add_shares_le (by decide) hself.bound_nonneg

end Range

/-! ## Greyscale -/

/-- The weights of the greyscale, with the fraction cut off at the end. -/
def weighting (t : Pixel) : Int :=
  truncate (299 / 1000 * t.red + 587 / 1000 * t.green + 114 / 1000 * t.blue)

section Grey

variable {r g b : Int} {t : Pixel}

/-- A whole number of thousandths. -/
theorem truncate_thousandths {x : Int} (hx : 0 ≤ x) : truncate ((x : ℚ) / 1000) = x / 1000 := by
  have hpos : (0 : ℚ) ≤ (x : ℚ) / 1000 := div_nonneg (by exact_mod_cast hx) (by norm_num)
  rw [truncate_of_nonneg hpos]
  exact Rat.floor_intCast_div_natCast x 1000

/-- `part1` cuts off the fraction of each product. -/
theorem greyValue_exact (hb : 0 ≤ b) (hr : 0 ≤ r) (hg : 0 ≤ g) :
    greyValue Rounding.exact b r g = 114 * b / 1000 + 299 * r / 1000 + 587 * g / 1000 := by
  have hterm : ∀ (v x k : Int), 0 ≤ v → 0 ≤ x → 0 ≤ k →
      truncate ((v : ℚ) + x * (k / 1000)) = v + k * x / 1000 := by
    intro v x k hv hx hk
    have hprod : 0 ≤ k * x := mul_nonneg hk hx
    have hsum : (v : ℚ) + x * (k / 1000) = ((1000 * v + k * x : Int) : ℚ) / 1000 := by
      push_cast
      ring
    rw [hsum, truncate_thousandths (by omega)]
    omega
  have hfirst := hterm 0 b 114 (le_refl 0) hb (by decide)
  have hsecond := hterm (114 * b / 1000) r 299 (by omega) hr (by decide)
  have hthird := hterm (114 * b / 1000 + 299 * r / 1000) g 587 (by omega) hg (by decide)
  push_cast [zero_add] at hfirst hsecond hthird
  simp only [greyValue, exact_fl]
  rw [hfirst, hsecond]
  push_cast
  exact hthird

/-- `part2_2` cuts off the fraction of the sum. -/
theorem greyWeighted_exact (t : Pixel) :
    greyWeighted Rounding.exact t = ⟨weighting t, weighting t, weighting t⟩ := by
  have hsum : (t.blue : ℚ) * (114 / 1000) + t.red * (299 / 1000) + t.green * (587 / 1000) =
      299 / 1000 * t.red + 587 / 1000 * t.green + 114 / 1000 * t.blue := by
    ring
  simp only [greyWeighted, exact_fl, weighting, hsum]

theorem weighting_eq (hr : 0 ≤ t.red) (hg : 0 ≤ t.green) (hb : 0 ≤ t.blue) :
    weighting t = (299 * t.red + 587 * t.green + 114 * t.blue) / 1000 := by
  have hsum : (299 / 1000 * t.red + 587 / 1000 * t.green + 114 / 1000 * t.blue : ℚ) =
      ((299 * t.red + 587 * t.green + 114 * t.blue : Int) : ℚ) / 1000 := by
    push_cast
    ring
  rw [weighting, hsum, truncate_thousandths (by omega)]

theorem Pixel.InRange.greyOf {max : Int} (ht : t.InRange max) :
    (Image.greyOf Rounding.exact t).InRange max := by
  rcases ht with ⟨⟨hr, hr'⟩, ⟨hg, hg'⟩, hb, hb'⟩
  have hred : t.red ≤ max := by exact_mod_cast hr'
  have hgreen : t.green ≤ max := by exact_mod_cast hg'
  have hblue : t.blue ≤ max := by exact_mod_cast hb'
  have hvalue := greyValue_exact hr hg hb
  have hlo : 0 ≤ greyValue Rounding.exact t.red t.green t.blue := by omega
  have hhi : greyValue Rounding.exact t.red t.green t.blue ≤ max := by omega
  have hcast : (greyValue Rounding.exact t.red t.green t.blue : ℚ) ≤ max := by exact_mod_cast hhi
  exact ⟨⟨hlo, hcast⟩, ⟨hlo, hcast⟩, hlo, hcast⟩

/-- The greyscale pass of `part2_2`, without another process. -/
theorem greySegments_apply (seg : Segment) {i j : Nat} (hj : j < w) (h : Nat) :
    (List.range h).foldl (greySegment Rounding.exact w) seg (i * w + j) =
      if i < h then greyCell Rounding.exact (seg (i * w + j)) else seg (i * w + j) := by
  induction h with
  | zero => simp
  | succ h ih =>
      rw [List.range_succ, List.foldl_append, List.foldl_cons, List.foldl_nil, greySegment_apply]
      simp only [flat_mem_row hj, ih]
      by_cases hrow : i = h
      · simp [hrow]
      · have hiff : i < h + 1 ↔ i < h := by omega
        simp only [hrow, if_false, hiff]

end Grey

/-! ## Main results -/

/-- For channels up to `max` both passes leave channels up to `max`, one by one and in a row. -/
theorem passes_keep_range {max : Int} (w h : Nat) (M : Matrix)
    (hrange : ∀ p q, p < h → q < w → (M p q).InRange max) :
    ∀ p q, p < h → q < w →
      (convertGrayscale Rounding.exact w h M p q).InRange max ∧
      (heightorizontalBlur Rounding.exact w h M p q).InRange max ∧
      (part1 Rounding.exact w h M p q).InRange max := by
  have hgrey : ∀ p q, p < h → q < w →
      (convertGrayscale Rounding.exact w h M p q).InRange max := by
    intro p q hp hq
    rw [convertGrayscale_apply, if_pos ⟨hp, hq⟩]
    exact (hrange p q hp hq).greyOf
  have hblur : ∀ N : Matrix, (∀ p q, p < h → q < w → (N p q).InRange max) →
      ∀ p q, p < h → q < w → (heightorizontalBlur Rounding.exact w h N p q).InRange max := by
    intro N hN p q hp hq
    rw [heightorizontalBlur_eq, inPlaceBlur_apply, if_pos ⟨hp, hq⟩]
    exact windowValue_range hq fun u hu => hN p u hp hu
  intro p q hp hq
  exact ⟨hgrey p q hp hq, hblur M hrange p q hp hq, hblur _ hgrey p q hp hq⟩

/-- A white image, with channels up to 255. -/
theorem passes_keep_range_white :
    (convertGrayscale Rounding.exact 60 2 (fun _ _ => ⟨255, 255, 255⟩) 1 3).InRange (255 : Int) ∧
      (heightorizontalBlur Rounding.exact 60 2 (fun _ _ => ⟨255, 255, 255⟩) 1 3).InRange
        (255 : Int) ∧
      (part1 Rounding.exact 60 2 (fun _ _ => ⟨255, 255, 255⟩) 1 3).InRange (255 : Int) := by
  refine passes_keep_range 60 2 _ ?_ 1 3 (by decide) (by decide)
  intro p q _ _
  norm_num [Pixel.InRange]

/-- The passes of `part1` and `part2_2` leave the same matrix, with the weighting of each pixel in its
channels, exactly when in each pixel the fractions that `part1` cuts off make up for the channels that
it mixes up. -/
theorem greyscale_agree_iff (w h : Nat) (M : Matrix) (seg : Segment)
    (hsame : ∀ p q, p < h → q < w → (seg (p * w + q)).pixel = M p q)
    (hpos : ∀ p q, p < h → q < w → 0 ≤ (M p q).red ∧ 0 ≤ (M p q).green ∧ 0 ≤ (M p q).blue) :
    (∀ p q, p < h → q < w →
      convertGrayscale Rounding.exact w h M p q =
        ((List.range h).foldl (greySegment Rounding.exact w) seg (p * w + q)).pixel ∧
      convertGrayscale Rounding.exact w h M p q =
        ⟨weighting (M p q), weighting (M p q), weighting (M p q)⟩) ↔
    ∀ p q, p < h → q < w →
      0 ≤ 114 * (M p q).red % 1000 + 299 * (M p q).green % 1000 + 587 * (M p q).blue % 1000 +
        185 * (M p q).red + 288 * (M p q).green - 473 * (M p q).blue ∧
      114 * (M p q).red % 1000 + 299 * (M p q).green % 1000 + 587 * (M p q).blue % 1000 +
        185 * (M p q).red + 288 * (M p q).green - 473 * (M p q).blue < 1000 := by
  refine forall_congr' fun p => forall_congr' fun q => forall_congr' fun hp => forall_congr' fun hq =>
    ?_
  rcases hpos p q hp hq with ⟨hr, hg, hb⟩
  have hcell : ((List.range h).foldl (greySegment Rounding.exact w) seg (p * w + q)).pixel =
      ⟨weighting (M p q), weighting (M p q), weighting (M p q)⟩ := by
    rw [greySegments_apply seg hq, if_pos hp, greyCell, hsame p q hp hq, greyWeighted_exact]
  have hvalue : greyOf Rounding.exact (M p q) =
      ⟨weighting (M p q), weighting (M p q), weighting (M p q)⟩ ↔
        greyValue Rounding.exact (M p q).red (M p q).green (M p q).blue = weighting (M p q) := by
    simp [greyOf]
  rw [convertGrayscale_apply, if_pos ⟨hp, hq⟩, hcell, and_self, hvalue, greyValue_exact hr hg hb,
    weighting_eq hr hg hb]
  omega

/-- A grey pixel for which no fraction is cut off. -/
theorem greyscale_agree_iff_grey :
    convertGrayscale Rounding.exact 1 1 (fun _ _ => ⟨1000, 1000, 1000⟩) 0 0 =
        ((List.range 1).foldl (greySegment Rounding.exact 1) (fun _ => ⟨⟨1000, 1000, 1000⟩, []⟩)
          (0 * 1 + 0)).pixel ∧
      convertGrayscale Rounding.exact 1 1 (fun _ _ => ⟨1000, 1000, 1000⟩) 0 0 =
        ⟨weighting ⟨1000, 1000, 1000⟩, weighting ⟨1000, 1000, 1000⟩,
          weighting ⟨1000, 1000, 1000⟩⟩ :=
  (greyscale_agree_iff 1 1 (fun _ _ => ⟨1000, 1000, 1000⟩) (fun _ => ⟨⟨1000, 1000, 1000⟩, []⟩)
    (fun _ _ _ _ => rfl) (fun _ _ _ _ => by decide)).2 (fun _ _ _ _ => by decide) 0 0 (by decide)
      (by decide)

/-- A red pixel: `part1` gives it the weight of blue. -/
theorem greyscale_red_pixel :
    convertGrayscale Rounding.exact 1 1 (fun _ _ => ⟨255, 0, 0⟩) 0 0 = ⟨29, 29, 29⟩ ∧
      ((List.range 1).foldl (greySegment Rounding.exact 1) (fun _ => ⟨⟨255, 0, 0⟩, []⟩)
        (0 * 1 + 0)).pixel = ⟨76, 76, 76⟩ ∧
      weighting ⟨255, 0, 0⟩ = 76 ∧
      convertGrayscale Rounding.exact 1 1 (fun _ _ => ⟨255, 0, 0⟩) 0 0 ≠
        ((List.range 1).foldl (greySegment Rounding.exact 1) (fun _ => ⟨⟨255, 0, 0⟩, []⟩)
          (0 * 1 + 0)).pixel := by
  decide +kernel

end Image
end OsLab
