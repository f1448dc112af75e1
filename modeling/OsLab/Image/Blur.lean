import OsLab.Image.Model

/-!
# Blur — the blur in place and the blur with a buffer

`part1.cpp` blurs the matrix in place: `matrix[p][q]` is overwritten while pixels to its right are still
to come.  `part2_2.cpp` has the matrix as a flat array, reads it, writes to `tmatrix` and copies that
back at the end.  Both add up the same shares; how a share is rounded is a parameter here.

A pixel depends only on pixels of its row from its own column on (`windowValue_congr`), and these are
overwritten later.
-/

namespace OsLab
namespace Image

open Lib

variable {M : Matrix} {w h p q : Nat}

section Put

variable {α : Type} {T : Nat → Nat → α}

@[simp] theorem put_self (t : α) : put T p q t p q = t := by
  simp [put]

theorem put_ne {i j : Nat} (t : α) (hne : ¬ (i = p ∧ j = q)) : put T p q t i j = T i j := by
  simp [put, hne]

end Put

/-! ## Loops over rows and columns -/

/-- A loop over the columns of a row whose body puts into one cell a value that does not depend on
the cells put before. -/
theorem foldl_columns {α : Type} {T : Nat → Nat → α} {body : (Nat → Nat → α) → Nat → Nat → Nat → α}
    {v : Nat → α} (n : Nat)
    (hbody : ∀ (N : Nat → Nat → α) (q : Nat), q < n →
      (∀ i j, ¬ (i = p ∧ j < q) → N i j = T i j) → body N q = put N p q (v q)) (i j : Nat) :
    (List.range n).foldl body T i j = if i = p ∧ j < n then v j else T i j := by
  induction n generalizing i j with
  | zero => simp
  | succ n ih =>
      have hsofar := ih fun N q hq hN => hbody N q (Nat.lt_succ_of_lt hq) hN
      rw [List.range_succ, List.foldl_append, List.foldl_cons, List.foldl_nil]
      -- The last turn of the loop, on a matrix changed in the columns before.
      rw [hbody _ n (Nat.lt_succ_self n)]
      · by_cases hcell : i = p ∧ j = n
        · rcases hcell with ⟨rfl, rfl⟩
          simp
        · rw [put_ne _ hcell, hsofar]
          have hiff : (i = p ∧ j < n) ↔ (i = p ∧ j < n + 1) := by omega
          simp only [hiff]
      · intro i j hij
        rw [hsofar, if_neg hij]

/-- A loop over the rows whose body changes one row, to a value that does not depend on the rows
changed before. -/
theorem foldl_rows {body : Matrix → Nat → Matrix} {v : Nat → Nat → Pixel} (n : Nat)
    (hbody : ∀ (N : Matrix) (p : Nat), p < n → (∀ i, p ≤ i → N i = M i) →
      ∀ i j, body N p i j = if i = p ∧ j < w then v i j else N i j) (i j : Nat) :
    (List.range n).foldl body M i j = if i < n ∧ j < w then v i j else M i j := by
  induction n generalizing i j with
  | zero => simp
  | succ n ih =>
      have hsofar := ih fun N p hp hN => hbody N p (Nat.lt_succ_of_lt hp) hN
      rw [List.range_succ, List.foldl_append, List.foldl_cons, List.foldl_nil]
      -- The last row, on a matrix changed in the rows before.
      rw [hbody _ n (Nat.lt_succ_self n), hsofar]
      · by_cases hrow : i = n ∧ j < w
        · simp [hrow]
        · rw [if_neg hrow]
          have hiff : (i < n ∧ j < w) ↔ (i < n + 1 ∧ j < w) := by omega
          simp only [hiff]
      · intro i hi
        funext j
        rw [hsofar, if_neg (by omega)]

/-! ## The two programs -/

section Programs

variable (share : Nat → Int → Int → Int) (w h : Nat)

/-- The share of a pixel of the window, in all channels. -/
def shares (amount : Nat) (acc t : Pixel) : Pixel :=
  ⟨share amount acc.red t.red, share amount acc.green t.green, share amount acc.blue t.blue⟩

/-- The value of one pixel: half of it, and a share of the pixels to the right of it, 49 of them or the
rest of the row. -/
def windowValue (row : Nat → Pixel) (q : Nat) : Pixel :=
  if w - q < BLUR_AMOUNT then
    (List.range' (q + 1) (w - (q + 1))).foldl (fun acc u => shares share (w - q) acc (row u))
      (halved (row q))
  else
    (List.range' 1 (BLUR_AMOUNT - 1)).foldl
      (fun acc i => shares share BLUR_AMOUNT acc (row (q + i))) (halved (row q))

def inPlaceRow (M : Matrix) (p : Nat) : Matrix :=
  (List.range w).foldl (fun M q => put M p q (windowValue share w (M p) q)) M

/-- `heightorizontalBlur` of `part1.cpp` -/
def inPlaceBlur (M : Matrix) : Matrix :=
  (List.range h).foldl (inPlaceRow share w) M

/-- A row of the first loop of `part2_2.cpp`, into `tmatrix`. -/
def bufferRow (matrix : Nat → Pixel) (tmatrix : Matrix) (p : Nat) : Matrix :=
  (List.range w).foldl
    (fun tmatrix q => put tmatrix p q (windowValue share w (fun u => matrix (p * w + u)) q)) tmatrix

/-- A row of the second loop, out of `tmatrix`. -/
def copyRow (tmatrix : Matrix) (matrix : Nat → Pixel) (i : Nat) : Nat → Pixel :=
  (List.range w).foldl (fun matrix j => Function.update matrix (i * w + j) (tmatrix i j)) matrix

/-- `heightorizontalBlur` of `part2_2.cpp`, without another process.  The rows are copied back from the
last one on. -/
def bufferedBlur (matrix : Nat → Pixel) : Nat → Pixel :=
  let tmatrix := (List.range h).foldl (bufferRow share w matrix) fun _ _ => ⟨0, 0, 0⟩
  (List.range h).reverse.foldl (copyRow w tmatrix) matrix

end Programs

/-- With the rounding of the code, the share is that of `part1`. -/
theorem blurValue_eq (R : Rounding) : blurValue R = windowValue (addChannel R) :=
  rfl

theorem heightorizontalBlur_eq (R : Rounding) : heightorizontalBlur R = inPlaceBlur (addChannel R) :=
  rfl

/-! ## In place -/

section Results

variable {share : Nat → Int → Int → Int}

/-- A blurred pixel depends on the pixels of the row from its own column on. -/
theorem windowValue_congr {row row' : Nat → Pixel} (hq : q < w)
    (hrow : ∀ u, q ≤ u → u < w → row u = row' u) :
    windowValue share w row q = windowValue share w row' q := by
  have hself := hrow q (Nat.le_refl q) hq
  by_cases hshort : w - q < BLUR_AMOUNT
  · rw [windowValue, windowValue, if_pos hshort, if_pos hshort, hself]
    refine List.foldl_ext _ _ _ ?_
    intro acc u hu
    rw [List.mem_range'_1] at hu
    rw [hrow u (by omega) (by omega)]
  · rw [windowValue, windowValue, if_neg hshort, if_neg hshort, hself]
    refine List.foldl_ext _ _ _ ?_
    intro acc i hi
    -- The window is full: its last pixel is still in the row.
    rw [List.mem_range'_1] at hi
    rw [hrow (q + i) (by omega) (by omega)]

theorem inPlaceRow_apply (M : Matrix) (w p i j : Nat) :
    inPlaceRow share w M p i j = if i = p ∧ j < w then windowValue share w (M i) j else M i j := by
  rw [inPlaceRow, foldl_columns (p := p) (v := fun q => windowValue share w (M p) q)]
  · by_cases hcell : i = p ∧ j < w
    · simp only [hcell.1]
    · simp only [if_neg hcell]
  · intro N q hq hN
    -- The pixels overwritten so far are to the left.
    rw [windowValue_congr hq]
    intro u hu _
    exact hN p u (by omega)

theorem inPlaceBlur_apply (M : Matrix) (w h i j : Nat) :
    inPlaceBlur share w h M i j =
      if i < h ∧ j < w then windowValue share w (M i) j else M i j := by
  rw [inPlaceBlur, foldl_rows (w := w) (v := fun i j => windowValue share w (M i) j)]
  intro N p _ hN i j
  rw [inPlaceRow_apply]
  by_cases hcell : i = p ∧ j < w
  · rw [if_pos hcell, if_pos hcell, hN i (by omega)]
  · rw [if_neg hcell, if_neg hcell]

/-! ## Rows in a flat array -/

theorem flat_mem_row {p i q : Nat} (hq : q < w) :
    (p * w ≤ i * w + q ∧ i * w + q < p * w + w) ↔ i = p := by
  constructor
  · -- A row above or below is a whole row of `w` pixels away.
    rintro ⟨hlo, hhi⟩
    have hle : i ≤ p := by
      by_contra hlt
      have := Nat.mul_le_mul_right w (by omega : p + 1 ≤ i)
      rw [Nat.succ_mul] at this
      omega
    have hge : p ≤ i := by
      by_contra hlt
      have := Nat.mul_le_mul_right w (by omega : i + 1 ≤ p)
      rw [Nat.succ_mul] at this
      omega
    omega
  · rintro rfl
    omega

theorem flat_inj {p q i j : Nat} (hq : q < w) (hj : j < w) :
    i * w + j = p * w + q ↔ i = p ∧ j = q := by
  constructor
  · intro heq
    -- The index lies in row `p`, which leaves only the column.
    have hi : i = p := (flat_mem_row hj).1 (by omega)
    subst hi
    exact ⟨rfl, by omega⟩
  · rintro ⟨rfl, rfl⟩
    rfl

/-! ## With a buffer -/

theorem bufferRow_apply (matrix : Nat → Pixel) (T : Matrix) (w p i j : Nat) :
    bufferRow share w matrix T p i j =
      if i = p ∧ j < w then windowValue share w (fun u => matrix (p * w + u)) j else T i j :=
  foldl_columns w (fun _ _ _ _ => rfl) i j

/-- `tmatrix` after the first loop. -/
theorem buffer_apply (matrix : Nat → Pixel) (T : Matrix) (w h i j : Nat) :
    (List.range h).foldl (bufferRow share w matrix) T i j =
      if i < h ∧ j < w then windowValue share w (fun u => matrix (i * w + u)) j else T i j := by
  rw [foldl_rows (w := w) (v := fun i j => windowValue share w (fun u => matrix (i * w + u)) j)]
  intro N p _ _ i j
  rw [bufferRow_apply]
  by_cases hcell : i = p ∧ j < w
  · rw [if_pos hcell, if_pos hcell, hcell.1]
  · rw [if_neg hcell, if_neg hcell]

theorem copyRow_apply (T : Matrix) (F : Nat → Pixel) {w j : Nat} (hj : j < w) (p i : Nat) :
    copyRow w T F p (i * w + j) = if i = p then T i j else F (i * w + j) := by
  have hloop : ∀ n, n ≤ w →
      (List.range n).foldl (fun F q => Function.update F (p * w + q) (T p q)) F (i * w + j) =
        if i = p ∧ j < n then T i j else F (i * w + j) := by
    -- After `n` turns the first `n` pixels of the row are copied.
    intro n
    induction n with
    | zero => simp
    | succ n ih =>
        intro hn
        rw [List.range_succ, List.foldl_append, List.foldl_cons, List.foldl_nil]
        by_cases hcell : i = p ∧ j = n
        · rcases hcell with ⟨rfl, rfl⟩
          simp
        · have hne : i * w + j ≠ p * w + n := fun heq => hcell ((flat_inj hn hj).1 heq)
          have hiff : (i = p ∧ j < n) ↔ (i = p ∧ j < n + 1) := by omega
          rw [Function.update_of_ne hne, ih (by omega)]
          simp only [hiff]
  rw [copyRow, hloop w (Nat.le_refl w)]
  simp only [hj, and_true]

/-- The order of the rows does not matter. -/
theorem copyRows_apply (T : Matrix) {w j : Nat} (hj : j < w) (rows : List Nat) (F : Nat → Pixel)
    (i : Nat) :
    rows.foldl (copyRow w T) F (i * w + j) = if i ∈ rows then T i j else F (i * w + j) := by
  induction rows generalizing F with
  | nil => simp
  | cons p rows ih =>
      rw [List.foldl_cons, ih, copyRow_apply T F hj]
      by_cases hmem : i ∈ rows
      · simp [hmem]
      · simp [hmem]

theorem bufferedBlur_apply (matrix : Nat → Pixel) {w h i j : Nat} (hi : i < h) (hj : j < w) :
    bufferedBlur share w h matrix (i * w + j) =
      windowValue share w (fun u => matrix (i * w + u)) j := by
  have hrow : i ∈ (List.range h).reverse := by simpa using hi
  rw [bufferedBlur, copyRows_apply _ hj, if_pos hrow, buffer_apply, if_pos ⟨hi, hj⟩]

end Results

/-- The two programs give the same matrix, for any rounding of the shares.  What stands outside of the
image does not matter. -/
theorem inPlaceBlur_eq_bufferedBlur (share : Nat → Int → Int → Int) (w h : Nat) (M : Matrix)
    (matrix : Nat → Pixel) (hsame : ∀ p q, p < h → q < w → matrix (p * w + q) = M p q) :
    ∀ p q, p < h → q < w → inPlaceBlur share w h M p q = bufferedBlur share w h matrix (p * w + q) := by
  intro p q hp hq
  rw [inPlaceBlur_apply, if_pos ⟨hp, hq⟩, bufferedBlur_apply matrix hp hq]
  refine windowValue_congr hq ?_
  intro u _ hu
  exact (hsame p u hp hu).symm

/-- An image of one row with two pixels. -/
theorem inPlaceBlur_eq_bufferedBlur_two_pixels :
    inPlaceBlur (fun _ acc x => acc + x) 2 1 (fun _ q => ⟨q + 1, 0, 0⟩) 0 0 = ⟨2, 0, 0⟩ ∧
      inPlaceBlur (fun _ acc x => acc + x) 2 1 (fun _ q => ⟨q + 1, 0, 0⟩) 0 0 =
        bufferedBlur (fun _ acc x => acc + x) 2 1 (fun k => ⟨k + 1, 0, 0⟩) (0 * 2 + 0) := by
  refine ⟨by decide, inPlaceBlur_eq_bufferedBlur _ 2 1 _ _ ?_ 0 0 (by decide) (by decide)⟩
  intro p q hp _
  cases Nat.lt_one_iff.1 hp
  simp

end Image
end OsLab
