import Mathlib.Logic.Function.Basic
import OsLab.Image.Passes

/-!
# SharedMemory — the passes in processes with shared memory

`part2_2.cpp` keeps the image in a shared memory segment, row after row, and calls

    heightorizontalBlur(key, height, weight, fork());
    ConvertGrayscale(key, height, weight, fork());

in `main`.  Both functions return at once in the process that forked, and do their work in the child.
But the children return into `main` as well.  The child that blurs goes on to the second call and
forks a child of its own, which makes the image grey once more; every process waits, writes the output
file and removes the segment.  After the segment was removed, `shmget` with the same key makes a new
one.

A row under the semaphore is one step, and so is each pixel of the copy back from `tmatrix`.
-/

namespace OsLab
namespace Image

open Lib

inductive Pass where
  | grey
  | blur
  deriving DecidableEq, Repr

/-- A pixel in shared memory, with a record of the passes that its value went through. -/
structure Cell where
  pixel : Pixel
  passes : List Pass
  deriving DecidableEq, Repr

/-- A segment, as a flat array of pixels. -/
abbrev Segment : Type := Nat → Cell

/-! ## Processes -/

/-- The processes that make the image grey: the second child of `main`, and the child of the child
that blurs. -/
inductive Grey where
  | child
  | grandchild
  deriving DecidableEq, Repr

inductive Proc where
  | parent
  | blurChild
  | grey (c : Grey)
  deriving DecidableEq, Repr

/-- Where `main` is. -/
inductive ParentPc where
  | forkBlur
  | forkGrey
  | wait1
  | wait2
  | output
  | exited
  deriving DecidableEq, Repr

/-- Where the child is that blurs. -/
inductive BlurPc where
  | unborn
  | attach
  /-- Reading row `p` of segment `id`. -/
  | rows (id p : Nat)
  /-- Copying back, with `n` rows to go, column `j` of the next one. -/
  | back (id n j : Nat)
  | forkGrey
  | wait1
  | wait2
  | output
  | exited
  deriving DecidableEq, Repr

/-- Where a process is that makes the image grey. -/
inductive GreyPc where
  | unborn
  | attach
  | rows (id p : Nat)
  | output
  | exited
  deriving DecidableEq, Repr

structure System where
  /-- The segments by `shmid`.  The one that `main` works on is number 0. -/
  segs : Nat → Segment
  nextId : Nat
  /-- The segment that the key belongs to. -/
  key : Option Nat
  sem : Nat
  parent : ParentPc
  blurChild : BlurPc
  grey : Grey → GreyPc
  tmatrix : Nat → Nat → Cell
  /-- The matrix when `main` writes it out. -/
  output : Option Segment

/-- `shmget(key, …, 0666 | IPC_CREAT)` -/
def System.shmid (st : System) : Nat :=
  st.key.getD st.nextId

/-- The key and the next free number after `shmget`. -/
def System.shmget (st : System) : System :=
  { st with
    key := some st.shmid
    nextId := if st.key.isNone then st.nextId + 1 else st.nextId }

/-- `shmctl(shmid, IPC_RMID, NULL)`.  The segment stays until it is detached by all. -/
def System.remove (st : System) : System :=
  { st with key := if st.key = some 0 then none else st.key }

section Steps

variable (R : Rounding) (w h : Nat)

/-! ## Rows -/

/-- The greyscale of `ConvertGrayscale` in `part2_2`: one sum, with the fraction cut off at the
end. -/
def greyWeighted (t : Pixel) : Pixel :=
  let v := truncate (R.fl (R.fl (R.fl (t.blue * R.fl (114 / 1000)) +
    R.fl (t.red * R.fl (299 / 1000))) + R.fl (t.green * R.fl (587 / 1000))))
  ⟨v, v, v⟩

def greyCell (c : Cell) : Cell :=
  ⟨greyWeighted R c.pixel, c.passes ++ [.grey]⟩

/-- A row of `ConvertGrayscale`. -/
def greySegment (seg : Segment) (p : Nat) : Segment :=
  (List.range w).foldl
    (fun seg q => Function.update seg (p * w + q) (greyCell R (seg (p * w + q)))) seg

def blurCell (seg : Segment) (p q : Nat) : Cell :=
  ⟨blurValue R w (fun u => (seg (p * w + u)).pixel) q, (seg (p * w + q)).passes ++ [.blur]⟩

/-- A row of `heightorizontalBlur`, into `tmatrix`. -/
def blurSegment (seg : Segment) (tmatrix : Nat → Nat → Cell) (p : Nat) : Nat → Nat → Cell :=
  (List.range w).foldl (fun t q => put t p q (blurCell R w seg p q)) tmatrix

/-! ## Steps of the processes -/

/-- `main`.  `wait` needs a child that has exited. -/
def parentStep (st : System) : Option System :=
  match st.parent with
  | .forkBlur => some { st with parent := .forkGrey, blurChild := .attach }
  | .forkGrey => some { st with parent := .wait1, grey := Function.update st.grey .child .attach }
  -- One child, and then the other one.
  | .wait1 =>
      if st.blurChild = .exited ∨ st.grey .child = .exited then some { st with parent := .wait2 }
      else none
  | .wait2 =>
      if st.blurChild = .exited ∧ st.grey .child = .exited then some { st with parent := .output }
      else none
  | .output => some { st.remove with parent := .exited, output := some (st.segs 0) }
  | .exited => none

/-- `heightorizontalBlur`, and `main` from there. -/
def blurStep (st : System) : Option System :=
  match st.blurChild with
  | .unborn => none
  | .attach => some { st.shmget with blurChild := .rows st.shmid 0 }
  -- `sem_wait`, the row, `sem_post`: the semaphore is as before.
  | .rows id p =>
      if p < h then
        if st.sem = 0 then none
        else
          some { st with
            tmatrix := blurSegment R w (st.segs id) st.tmatrix p
            blurChild := .rows id (p + 1) }
      else some { st with blurChild := .back id h 0 }
  | .back _ 0 _ => some { st with blurChild := .forkGrey }
  -- Rows from the last to the first, without the semaphore.
  | .back id (n + 1) j =>
      if j < w then
        some { st with
          segs := Function.update st.segs id
            (Function.update (st.segs id) (n * w + j) (st.tmatrix n j))
          blurChild := .back id (n + 1) (j + 1) }
      else some { st with blurChild := .back id n 0 }
  -- Back in `main`, before the second call.
  | .forkGrey =>
      some { st with blurChild := .wait1, grey := Function.update st.grey .grandchild .attach }
  | .wait1 =>
      if st.grey .grandchild = .exited then some { st with blurChild := .wait2 } else none
  -- There is no child left, and `wait` returns at once.
  | .wait2 => some { st with blurChild := .output }
  | .output => some { st.remove with blurChild := .exited }
  | .exited => none

/-- `ConvertGrayscale`, and `main` from there.  There is no child to wait for. -/
def greyStep (st : System) (c : Grey) : Option System :=
  match st.grey c with
  | .unborn => none
  | .attach => some { st.shmget with grey := Function.update st.grey c (.rows st.shmid 0) }
  | .rows id p =>
      if p < h then
        if st.sem = 0 then none
        else
          some { st with
            segs := Function.update st.segs id (greySegment R w (st.segs id) p)
            grey := Function.update st.grey c (.rows id (p + 1)) }
      else some { st with grey := Function.update st.grey c .output }
  | .output => some { st.remove with grey := Function.update st.grey c .exited }
  | .exited => none

def step (st : System) : Proc → Option System
  | .parent => parentStep st
  | .blurChild => blurStep R w h st
  | .grey c => greyStep R w h st c

end Steps

/-- `main` has read the image and opened the semaphore. -/
def started (M : Nat → Pixel) : System where
  segs := fun id x => ⟨if id = 0 then M x else ⟨0, 0, 0⟩, []⟩
  nextId := 1
  key := some 0
  sem := 1
  parent := .forkBlur
  blurChild := .unborn
  grey := fun _ => .unborn
  tmatrix := fun _ _ => ⟨⟨0, 0, 0⟩, []⟩
  output := none

/-! ## What is meant -/

/-- The image went through each pass once, first the greyscale and then the blur. -/
def OnceInOrder (R : Rounding) (w h : Nat) (M : Nat → Pixel) (out : Segment) : Prop :=
  ∀ p q, p < h → q < w →
    out (p * w + q) =
      ⟨blurValue R w (fun u => greyWeighted R (M (p * w + u))) q, [.grey, .blur]⟩

/-- The rows that a process has made grey. -/
def GreyPc.done (h : Nat) : GreyPc → Nat
  | .unborn => 0
  | .attach => 0
  | .rows _ p => p
  | .output => h
  | .exited => h

/-- The order in which the image comes out right.  The segment is still there when the child that
blurs attaches it, and a row is grey when it is read; but the segment has been removed when the
grandchild asks for it. -/
def InOrder (h : Nat) (st : System) : Proc → Prop
  | .blurChild =>
      match st.blurChild with
      | .attach => st.key = some 0
      | .rows _ p => p < h → p < (st.grey .child).done h
      | _ => True
  | .grey .grandchild => st.grey .grandchild = .attach → st.key ≠ some 0
  | _ => True

end Image
end OsLab
