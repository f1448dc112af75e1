import OsLab.Lib.Rounding

/-!
# Model — the two passes over an image

Lab-06 turns an image to greyscale and blurs it.  `part1.cpp` runs the two passes one after the other
on one matrix; the other programs of the lab give each pass to a thread or a process.

The matrix is the one after the input file has been read, with row `0` at the bottom.  Channels are
integers and the weights are floating point numbers: every product, quotient and sum is rounded as
the `Rounding` says, and the fraction is cut off when the result goes into an `int`.
-/

namespace OsLab
namespace Image

open Lib

/-- `struct pixel` -/
structure Pixel where
  red : Int
  green : Int
  blue : Int
  deriving DecidableEq, Repr, Inhabited

/-- `vector<vector<pixel>>`, by row and column. -/
abbrev Matrix : Type := Nat → Nat → Pixel

/-- `matrix[p][q] = t` -/
def put {α : Type} (M : Nat → Nat → α) (p q : Nat) (t : α) : Nat → Nat → α :=
  fun i j => if i = p ∧ j = q then t else M i j

section Passes

variable (R : Rounding)

/-! ## Greyscale -/

/-- `grey_value` -/
def greyValue (blue red green : Int) : Int :=
  let value := truncate (R.fl (blue * R.fl (114 / 1000)))
  let value := truncate (R.fl (value + R.fl (red * R.fl (299 / 1000))))
  truncate (R.fl (value + R.fl (green * R.fl (587 / 1000))))

/-- The new pixel.  The channels are passed in the order red, green, blue. -/
def greyOf (t : Pixel) : Pixel :=
  let v := greyValue R t.red t.green t.blue
  ⟨v, v, v⟩

/-- One pixel of `ConvertGrayscale`. -/
def greyPixel (p : Nat) (M : Matrix) (q : Nat) : Matrix :=
  put M p q (greyOf R (M p q))

/-- One row of `ConvertGrayscale`. -/
def greyRow (w : Nat) (M : Matrix) (p : Nat) : Matrix :=
  (List.range w).foldl (greyPixel R p) M

/-- `ConvertGrayscale` -/
def convertGrayscale (w h : Nat) (M : Matrix) : Matrix :=
  (List.range h).foldl (greyRow R w) M

/-! ## Blur -/

def BLUR_AMOUNT : Nat := 50

/-- Each channel divided by two, as `int`s. -/
def halved (t : Pixel) : Pixel :=
  ⟨t.red.tdiv 2, t.green.tdiv 2, t.blue.tdiv 2⟩

/-- `acc += x * (0.5 / amount)` -/
def addChannel (amount : Nat) (acc x : Int) : Int :=
  truncate (R.fl (acc + R.fl (x * R.fl (1 / 2 / amount))))

/-- The share of one of the pixels to the right, in all channels. -/
def addShare (amount : Nat) (acc t : Pixel) : Pixel :=
  ⟨addChannel R amount acc.red t.red, addChannel R amount acc.green t.green,
    addChannel R amount acc.blue t.blue⟩

/-- The blurred pixel at column `q` of a row: a full window, or what is left of the row. -/
def blurValue (w : Nat) (row : Nat → Pixel) (q : Nat) : Pixel :=
  if w - q < BLUR_AMOUNT then
    (List.range' (q + 1) (w - (q + 1))).foldl (fun acc u => addShare R (w - q) acc (row u))
      (halved (row q))
  else
    (List.range' 1 (BLUR_AMOUNT - 1)).foldl (fun acc i => addShare R BLUR_AMOUNT acc (row (q + i)))
      (halved (row q))

/-- One pixel of `heightorizontalBlur`, in place. -/
def blurPixel (w p : Nat) (M : Matrix) (q : Nat) : Matrix :=
  put M p q (blurValue R w (M p) q)

def blurRow (w : Nat) (M : Matrix) (p : Nat) : Matrix :=
  (List.range w).foldl (blurPixel R w p) M

/-- `heightorizontalBlur` -/
def heightorizontalBlur (w h : Nat) (M : Matrix) : Matrix :=
  (List.range h).foldl (blurRow R w) M

/-- The matrix that `part1` writes out. -/
def part1 (w h : Nat) (M : Matrix) : Matrix :=
  heightorizontalBlur R w h (convertGrayscale R w h M)

end Passes

end Image
end OsLab
