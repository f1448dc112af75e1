import Mathlib.Data.Fin.VecNotation
import OsLab.Lib.Channels
import OsLab.Image.Passes

/-!
# Pipes — the passes in two processes with pipes

In `part2_3.cpp` one child of `main` reads the image, turns it to greyscale and sends it through a
pipe, in tiles of three by three pixels; the other child puts the tiles together, blurs the image and
writes it out.  The size of the image goes through a second pipe.

The two loops over the tiles are written separately, and the receiver takes its bounds from the
header.  Accesses to the matrices are checked here: a process that leaves its matrix crashes.
-/

namespace OsLab
namespace Image

open Lib

/-! ## Checked access -/

section Checked

variable (R : Rounding) (w h : Nat)

/-- `matrix[p][q]`, in a matrix of `h` rows and `w` columns. -/
def fetch (M : Matrix) (p q : Nat) : Option Pixel :=
  if p < h ∧ q < w then some (M p q) else none

/-- `matrix[p][q] = t` -/
def store (M : Matrix) (p q : Nat) (t : Pixel) : Option Matrix :=
  if p < h ∧ q < w then some (put M p q t) else none

def greyPixelChecked (p : Nat) (M : Matrix) (q : Nat) : Option Matrix := do
  let t ← fetch w h M p q
  store w h M p q (greyOf R t)

def greyRowChecked (M : Matrix) (p : Nat) : Option Matrix :=
  (List.range w).foldlM (greyPixelChecked R w h p) M

def convertGrayscaleChecked (M : Matrix) : Option Matrix :=
  (List.range h).foldlM (greyRowChecked R w h) M

/-- The share of the pixel at column `u`. -/
def addShareChecked (M : Matrix) (p amount : Nat) (acc : Pixel) (u : Nat) : Option Pixel := do
  let t ← fetch w h M p u
  return addShare R amount acc t

def blurValueChecked (M : Matrix) (p q : Nat) : Option Pixel := do
  let t ← fetch w h M p q
  if w - q < BLUR_AMOUNT then
    (List.range' (q + 1) (w - (q + 1))).foldlM (addShareChecked R w h M p (w - q)) (halved t)
  else
    (List.range' 1 (BLUR_AMOUNT - 1)).foldlM
      (fun acc i => addShareChecked R w h M p BLUR_AMOUNT acc (q + i)) (halved t)

def blurPixelChecked (p : Nat) (M : Matrix) (q : Nat) : Option Matrix := do
  let t ← blurValueChecked R w h M p q
  store w h M p q t

def blurRowChecked (M : Matrix) (p : Nat) : Option Matrix :=
  (List.range w).foldlM (blurPixelChecked R w h p) M

def horizontalBlurChecked (M : Matrix) : Option Matrix :=
  (List.range h).foldlM (blurRowChecked R w h) M

end Checked

/-! ## Tiles -/

/-- `struct pixel data_fwd[9]` -/
abbrev Tile : Type := Fin 9 → Pixel

/-- The assignments to `data_fwd`. -/
def takeTile (w h : Nat) (M : Matrix) (i j : Nat) : Option Tile := do
  let t0 ← fetch w h M i j
  let t1 ← fetch w h M i (j + 1)
  let t2 ← fetch w h M i (j + 2)
  let t3 ← fetch w h M (i + 1) j
  let t4 ← fetch w h M (i + 1) (j + 1)
  let t5 ← fetch w h M (i + 1) (j + 2)
  let t6 ← fetch w h M (i + 2) j
  let t7 ← fetch w h M (i + 2) (j + 1)
  let t8 ← fetch w h M (i + 2) (j + 2)
  return ![t0, t1, t2, t3, t4, t5, t6, t7, t8]

/-- The assignments from `getDt`. -/
def placeTile (w h : Nat) (M : Matrix) (p j : Nat) (t : Tile) : Option Matrix := do
  let M ← store w h M p j (t 0)
  let M ← store w h M p (j + 1) (t 1)
  let M ← store w h M p (j + 2) (t 2)
  let M ← store w h M (p + 1) j (t 3)
  let M ← store w h M (p + 1) (j + 1) (t 4)
  let M ← store w h M (p + 1) (j + 2) (t 5)
  let M ← store w h M (p + 2) j (t 6)
  let M ← store w h M (p + 2) (j + 1) (t 7)
  store w h M (p + 2) (j + 2) (t 8)

/-! ## Processes -/

/-- `struct fileInformation` -/
structure FileInformation where
  height : Nat
  weight : Nat
  maxAscii : Int
  ppm_version : String
  deriving DecidableEq, Repr

/-- The input file: the header and the pixels, as they are stored in `matrix`. -/
structure Picture where
  head : FileInformation
  pixels : Matrix

inductive Pipe where
  /-- `pipeCreate2` -/
  | head
  /-- `pipeCreate` -/
  | tiles
  deriving DecidableEq, Repr

/-- What is written to a pipe as a whole. -/
def Block : Pipe → Type
  | .head => FileInformation
  | .tiles => Tile

inductive SenderPc where
  | head
  | grey
  /-- The head of the inner loop, with the variables `i` and `j`. -/
  | tiles (i j : Nat)
  | exited
  | crashed
  deriving DecidableEq, Repr

/-- The process in `ConvertGrayscale`. -/
structure Sender where
  pc : SenderPc
  matrix : Matrix
  /-- The tiles written so far, with the row and the column they were taken from. -/
  written : List (Nat × Nat × Tile)

inductive ReceiverPc where
  | head
  /-- The head of the inner loop, with the variables `p` and `j`. -/
  | tiles (p j : Nat)
  | blur
  | exited
  | crashed
  deriving DecidableEq, Repr

/-- The process in `HorizontalBlur`. -/
structure Receiver where
  pc : ReceiverPc
  head : FileInformation
  matrix : Matrix
  /-- The tiles read so far, with the row and the column they were stored at. -/
  read : List (Nat × Nat × Tile)

/-- The receiver stores a tile and goes on. -/
def Receiver.place (s : Receiver) (p j : Nat) (t : Tile) : Receiver :=
  match placeTile s.head.weight s.head.height s.matrix p j t with
  | none => { s with pc := .crashed }
  | some M => { s with pc := .tiles p (j + 3), matrix := M, read := s.read ++ [(p, j, t)] }

section Programs

variable (R : Rounding)

/-- `ConvertGrayscale`.  The bounds `height - 3` and `weight - 3` may be negative. -/
def convertGrayscaleSender (pic : Picture) (s : Sender) : Produce Pipe Block Sender :=
  match s.pc with
  -- The header goes out before the pixels are read.
  | .head => .write .head pic.head { s with pc := .grey, matrix := pic.pixels }
  | .grey =>
      match convertGrayscaleChecked R pic.head.weight pic.head.height s.matrix with
      | none => .move { s with pc := .crashed }
      | some M => .move { s with pc := .tiles 0 0, matrix := M }
  | .tiles i j =>
      if (i : Int) ≤ pic.head.height - 3 then
        if (j : Int) ≤ pic.head.weight - 3 then
          match takeTile pic.head.weight pic.head.height s.matrix i j with
          | none => .move { s with pc := .crashed }
          | some t =>
              .write .tiles t
                { s with pc := .tiles i (j + 3), written := s.written ++ [(i, j, t)] }
        else .move { s with pc := .tiles (i + 3) 0 }
      else .move { s with pc := .exited }
  | .exited => .halt
  | .crashed => .halt

/-- `HorizontalBlur`, up to the end of the blur. -/
def horizontalBlurReceiver (s : Receiver) : Consume Pipe Block Receiver :=
  match s.pc with
  -- The vectors are filled with zeros.
  | .head =>
      .read .head fun (head : FileInformation) =>
        { s with pc := .tiles 0 0, head := head, matrix := fun _ _ => ⟨0, 0, 0⟩ }
  | .tiles p j =>
      if (p : Int) ≤ s.head.height - 3 then
        if (j : Int) ≤ s.head.weight - 3 then
          .read .tiles (s.place p j)
        else .move { s with pc := .tiles (p + 3) 0 }
      else .move { s with pc := .blur }
  | .blur =>
      match horizontalBlurChecked R s.head.weight s.head.height s.matrix with
      | none => .move { s with pc := .crashed }
      | some M => .move { s with pc := .exited, matrix := M }
  | .exited => .halt
  | .crashed => .halt

/-- How many blocks a pipe of the system holds. -/
structure PipeCapacity where
  blocks : Nat
  pos : 0 < blocks

/-- The two children of `main` and the two pipes. -/
def part2_3 (cap : PipeCapacity) (pic : Picture) : Network Pipe Block Sender Receiver where
  produce := convertGrayscaleSender R pic
  consume := horizontalBlurReceiver R
  capacity := cap.blocks
  pos := cap.pos

abbrev Children : Type := Network.State Pipe Block Sender Receiver

/-- The children after the two calls of `fork`. -/
def forked : Children where
  producer := ⟨.head, fun _ _ => ⟨0, 0, 0⟩, []⟩
  consumer := ⟨.head, ⟨0, 0, 0, ""⟩, fun _ _ => ⟨0, 0, 0⟩, []⟩
  channel := fun
    | .head => []
    | .tiles => []

end Programs

end Image
end OsLab
