import Mathlib.Tactic.Linarith
import OsLab.Lib.Draws

/-!
# Segments — the registers of `segmentation.py`

The script takes the bases and lengths of two segments from its options, or draws them, and translates
addresses: the lower half of the address space grows up from `base0`, the upper half grows down from
`base1 + len1`.

* `Options` holds the numbers that the options stand for; -1 asks the script to draw.
* A drawn length is a quarter of the address space up to a half of it.  A drawn base is a number below
  `psize`; bases are drawn until they fit.
-/

namespace OsLab
namespace Address

open OsLab.Lib

/-! ## The script -/

structure Options where
  asize : Int
  psize : Int
  len0 : Int
  len1 : Int
  base0 : Int
  base1 : Int
  deriving DecidableEq, Repr

inductive Failure
  | noPhysicalMemory
  | noAddressSpace
  | physicalMemoryTooSmall
  /-- The draws end before a base fits. -/
  | searching
  | lengthTooLarge
  | overlap
  deriving DecidableEq, Repr

/-- `base1` is the lower end of segment 1. -/
structure Registers where
  asize : Int
  len0 : Int
  len1 : Int
  base0 : Int
  base1 : Int
  deriving DecidableEq, Repr

def findBase (accept : Int → Bool) (draws : List Int) : Except Failure (Int × List Int) :=
  match drawUntil accept draws with
  | some out => .ok out
  | none => .error .searching

def fits0 (psize len0 base0 : Int) : Bool :=
  decide (base0 + len0 < psize)

/-- The second base is drawn outside of segment 0. -/
def fits1 (psize len0 len1 base0 base1 : Int) : Bool :=
  decide (base1 + len1 < psize) && (decide (base0 + len0 < base1) || decide (base1 + len1 < base0))

/-- A base: the option, or a number that is drawn. -/
def base (option given : Int) (accept : Int → Bool) (draws : List Int) : Except Failure (Int × List Int) :=
  if option = -1 then findBase accept draws else .ok (given, draws)

/-- The bases, for lengths that are known, and the checks of the registers. -/
def place (o : Options) (len0 len1 : Int) (draws : List Int) : Except Failure Registers :=
  match base o.base0 o.base0 (fits0 o.psize len0) draws with
  | .error e => .error e
  | .ok (base0, draws) =>
    match base o.base1 (o.base1 - len1) (fits1 o.psize len0 len1 base0) draws with
    | .error e => .error e
    | .ok (base1, _) =>
      if o.asize < 2 * len0 ∨ o.asize < 2 * len1 then .error .lengthTooLarge
      else if base1 < len0 + base0 ∧ base0 < base1 then .error .overlap
      else .ok ⟨o.asize, len0, len1, base0, base1⟩

inductive Access
  /-- The script ends: the address is not one of the address space. -/
  | refused
  | violation (seg : Nat)
  | valid (seg : Nat) (paddr : Int)
  deriving DecidableEq, Repr

def Registers.access (r : Registers) (vaddr : Int) : Access :=
  if vaddr < 0 ∨ r.asize ≤ vaddr then .refused
  else if r.asize / 2 ≤ vaddr then
    let paddr := r.base1 + r.len1 + (vaddr - r.asize)
    if paddr < r.base1 then .violation 1 else .valid 1 paddr
  else if r.len0 ≤ vaddr then .violation 0
  else .valid 0 (vaddr + r.base0)

/-! ## The registers -/

def Access.paddr : Access → Option Int
  | .valid _ paddr => some paddr
  | _ => none

section Translations

variable {o : Options} {draws : List Int} {r : Registers}

end Translations

end Address
end OsLab
