import Mathlib.Logic.Function.Basic
import OsLab.Lib.Loop
import OsLab.Lib.LinkedTree
import OsLab.Lib.SortedInsert

/-!
# Buddy allocator — the program

The allocator of `CS304-Assignment/200010004.cpp`.  `BuddyBlock *` is a pointer into a heap of
blocks, `NULL` is `none`, and `new` hands out the next unused pointer; the class never frees a
block.  Sizes and addresses are `int`s that stay below `2 ^ 31` (see `BuddyInv.fits`), so they are
plain integers here.

The order of two heap addresses is not something the program controls, so `releaseProcess` takes the
outcome `below p q` of its pointer comparison `p < q` as an argument.  Results are `Option`s:
`none` stands for a `NULL` dereference or a loop that does not terminate.
-/

namespace OsLab
namespace Buddy

open Lib

structure BuddyBlock where
  pId : Int
  size : Int
  start : Int
  free : Bool
  sizeUsed : Int
  left : Option Ptr
  right : Option Ptr
  parent : Option Ptr
  deriving DecidableEq, Repr, Inhabited

instance : Links BuddyBlock where
  left := BuddyBlock.left
  right := BuddyBlock.right
  parent := BuddyBlock.parent

/-- Smaller blocks first; among blocks of one size, the higher start first. -/
def compareBlocks (b1 b2 : BuddyBlock) : Bool :=
  if b1.size ≠ b2.size then
    decide (b1.size < b2.size)
  else
    decide (b1.start > b2.start)

/-- The members of the class that requests use, with the heap and the global `MIN_BLOCK_SIZE`. -/
structure BuddySystem where
  minBlockSize : Int
  root : Ptr
  blockMap : Int → Option Ptr
  freeList : List Ptr
  heap : Ptr → BuddyBlock
  next : Ptr

namespace BuddySystem

/-- The constructor `BuddySystem(lower, upper)`, under `MIN_BLOCK_SIZE = lower`. -/
def init (lower upper : Int) : BuddySystem :=
  { minBlockSize := lower
    root := 0
    blockMap := Function.update (fun _ => none) 0 (some 0)
    freeList := [0]
    -- The root block is free and has process number `-1`.
    heap := Function.update (fun _ => default) 0 ⟨-1, upper, 0, true, 0, none, none, none⟩
    next := 1 }

/-- `new BuddyBlock(...)`. -/
def new (s : BuddySystem) (b : BuddyBlock) : BuddySystem × Ptr :=
  ({ s with heap := Function.update s.heap s.next b, next := s.next + 1 }, s.next)

/-- Assign to fields of the block at `p`. -/
def modify (s : BuddySystem) (p : Ptr) (f : BuddyBlock → BuddyBlock) : BuddySystem :=
  { s with heap := Function.update s.heap p (f (s.heap p)) }

/-- `freeList.insert(lower_bound(begin, end, p, compareBlocks), p)`. -/
def insertFree (s : BuddySystem) (p : Ptr) : BuddySystem :=
  { s with
    freeList := lowerInsert (fun q q' => compareBlocks (s.heap q) (s.heap q')) p s.freeList }

/-- `freeList.erase(remove(begin, end, p), end)`. -/
def removeFree (s : BuddySystem) (p : Ptr) : BuddySystem :=
  { s with freeList := s.freeList.filter fun q => decide (q ≠ p) }

/-! ## Allocation -/

/-- The first block of the free list that is large enough, and the list without it. -/
def takeFit (heap : Ptr → BuddyBlock) (size : Int) : List Ptr → Option (Ptr × List Ptr)
  | [] => none
  | p :: ps =>
      -- The list is sorted by size, so the first fit is a best fit.
      if (heap p).size ≥ size then
        some (p, ps)
      else
        (takeFit heap size ps).map fun (q, qs) => (q, p :: qs)

/-- One turn of the split loop of `findFreeBlock`. -/
def splitStep (size : Int) :
    BuddySystem × Ptr → Option ((BuddySystem × Ptr) ⊕ (BuddySystem × Ptr))
  | (s, block) =>
      -- `int` division rounds towards zero.
      let half := (s.heap block).size.tdiv 2
      if half > size ∧ half ≥ s.minBlockSize then
        let start := (s.heap block).start
        let (s, leftBlock) := s.new ⟨0, half, start, true, 0, none, none, some block⟩
        let (s, rightBlock) := s.new ⟨0, half, start + half, true, 0, none, none, some block⟩
        let s := s.modify block fun b => { b with left := some leftBlock }
        let s := s.modify block fun b => { b with right := some rightBlock }
        let s := s.modify block fun b => { b with free := false }
        let s := s.modify leftBlock fun b => { b with parent := some block }
        let s := s.modify rightBlock fun b => { b with parent := some block }
        -- The lower half stays in hand and is split further.
        some (.inl (s.insertFree rightBlock, leftBlock))
      else
        some (.inr (s, block))

def findFreeBlock (s : BuddySystem) (size : Int) : Option (BuddySystem × Option Ptr) :=
  match takeFit s.heap size s.freeList with
  | none => some (s, none)
  | some (block, rest) =>
      (loop (splitStep size) ((s.heap block).size.toNat + 1) ({ s with freeList := rest }, block)).map
        fun (s, block) => (s, some block)

/-- One turn of the loop of `allocateProcess` that marks all parents as allocated. -/
def markStep : BuddySystem × Ptr → Option ((BuddySystem × Ptr) ⊕ BuddySystem)
  | (s, block) =>
      match (s.heap block).parent with
      | none => some (.inr s)
      | some p => some (.inl (s.modify p fun b => { b with free := false }, p))

def allocateProcess (s : BuddySystem) (pid size : Int) : Option BuddySystem :=
  match s.findFreeBlock size with
  | none => none
  -- No block is large enough: a message is printed and nothing changes.
  | some (s, none) => some s
  | some (s, some block) =>
      let s := s.modify block fun b => { b with pId := pid }
      let s := s.modify block fun b => { b with sizeUsed := size }
      let s := s.modify block fun b => { b with free := false }
      -- An older entry of the process is overwritten unseen.
      let s := { s with blockMap := Function.update s.blockMap pid (some block) }
      loop markStep (s.next + 1) (s, block)

/-! ## Release -/

def getBuddy (s : BuddySystem) (block : Ptr) : Option Ptr :=
  match (s.heap block).parent with
  | none => none
  | some p =>
      if (s.heap p).left = some block then
        (s.heap p).right
      else
        (s.heap p).left

/-- The merge of `block` with `buddy` after the swap, up to and including the step to the parent.
Both blocks are cut off the tree; the block that survives is their parent. -/
def mergeInto (s : BuddySystem) (block buddy : Ptr) : Option (BuddySystem × Option Ptr) :=
  let s := s.modify block fun b => { b with size := b.size * 2 }
  -- Both blocks are leaves, so `right` and the test below find no child.
  let s := s.modify block fun b => { b with right := (s.heap buddy).right }
  let s :=
    match (s.heap block).right with
    | some r => s.modify r fun b => { b with parent := some block }
    | none => s
  let s := s.modify block fun b => { b with free := true }
  match (s.heap block).parent with
  -- `block->parent->left` on a null parent: the root has no buddy to merge with.
  | none => none
  | some p =>
      if (s.heap p).left = some block then
        let s := s.modify p fun b => { b with right := none }
        let s := s.modify p fun b => { b with left := none }
        some (s, (s.heap block).parent)
      else if (s.heap p).right = some block then
        let s := s.modify p fun b => { b with left := none }
        let s := s.modify p fun b => { b with right := none }
        some (s, (s.heap block).parent)
      else
        some (s, (s.heap block).parent)

/-- The branch of the merge loop in which the buddy is free. -/
def merge (s : BuddySystem) (below : Ptr → Ptr → Bool) (block buddy : Ptr) :
    Option (BuddySystem × Option Ptr) :=
  let s := s.removeFree buddy
  -- `if (buddy < block) swap(block, buddy)`
  if below buddy block then
    s.mergeInto buddy block
  else
    s.mergeInto block buddy

/-- One turn of the merge loop of `releaseProcess`. -/
def mergeStep (below : Ptr → Ptr → Bool) :
    BuddySystem × Option Ptr → Option ((BuddySystem × Option Ptr) ⊕ BuddySystem)
  -- The loop condition `while (block)`.
  | (s, none) => some (.inr s)
  | (s, some block) =>
      match s.getBuddy block with
      | some buddy =>
          if (s.heap buddy).free then
            (s.merge below block buddy).map .inl
          else
            some (.inr ((s.modify block fun b => { b with free := true }).insertFree block))
      | none =>
          some (.inr ((s.modify block fun b => { b with free := true }).insertFree block))

def releaseProcess (s : BuddySystem) (below : Ptr → Ptr → Bool) (pid : Int) :
    Option BuddySystem :=
  match s.blockMap pid with
  -- A process without a block: a message is printed and nothing changes.
  | none => some s
  | some block =>
      let s := s.modify block fun b => { b with free := true }
      let s := { s with blockMap := Function.update s.blockMap pid none }
      loop (mergeStep below) (s.next + 1) (s, some block)

end BuddySystem

/-! ## Runs -/

/-- A queued request, with the outcomes of the pointer comparisons made while it is processed. -/
structure Request where
  pid : Int
  size : Int
  terminate : Bool
  below : Ptr → Ptr → Bool

/-- The arguments the allocator is specified for: the pid `0` is the root's own key, and a size is
positive. -/
def Request.Valid (r : Request) : Prop :=
  r.pid ≠ 0 ∧ (r.terminate = false → 1 ≤ r.size)

namespace BuddySystem

def processRequest (s : BuddySystem) (r : Request) : Option BuddySystem :=
  if r.terminate then
    s.releaseProcess r.below r.pid
  else
    s.allocateProcess r.pid r.size

/-- Process a sequence of requests, oldest first. -/
def processRequests (s : BuddySystem) : List Request → Option BuddySystem
  | [] => some s
  | r :: rs =>
      match s.processRequest r with
      | none => none
      | some s' => s'.processRequests rs

/-- The tree under `root`. -/
def tree (s : BuddySystem) : Option Tree :=
  readTree s.heap s.next s.root

end BuddySystem

end Buddy
end OsLab
