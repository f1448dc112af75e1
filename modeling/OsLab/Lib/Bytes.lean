import Mathlib

/-!
# Bytes — byte memories, 32-bit words and plain files

A memory area is a function from offsets to bytes.  `copyBytes` is a bounded copy between two areas,
`word` and `setWord` are the view of an area as an array of little endian 32-bit words, and
`writeFile` is the plain byte-array file: a write beyond the end fills the hole with zeros.
-/

namespace OsLab
namespace Lib

abbrev Bytes : Type :=
  Nat → UInt8

def zeros : Bytes :=
  fun _ => 0

/-- Copy `n` bytes from `src` at `srcOff` to `dst` at `dstOff`. -/
def copyBytes (dst : Bytes) (dstOff : Nat) (src : Bytes) (srcOff n : Nat) : Bytes :=
  fun i => if dstOff ≤ i ∧ i < dstOff + n then src (srcOff + (i - dstOff)) else dst i

theorem copyBytes_zero (dst src : Bytes) (dstOff srcOff : Nat) :
    copyBytes dst dstOff src srcOff 0 = dst := by
  funext i
  have hnot : ¬ (dstOff ≤ i ∧ i < dstOff + 0) := by omega
  exact if_neg hnot

/-- Two adjacent copies are one copy. -/
theorem copyBytes_append (dst src : Bytes) (dstOff srcOff n m : Nat) :
    copyBytes (copyBytes dst dstOff src srcOff n) (dstOff + n) src (srcOff + n) m =
      copyBytes dst dstOff src srcOff (n + m) := by
  funext i
  simp only [copyBytes]
  by_cases hlow : dstOff ≤ i ∧ i < dstOff + n
  · have hhigh : ¬ (dstOff + n ≤ i ∧ i < dstOff + n + m) := by omega
    have hall : dstOff ≤ i ∧ i < dstOff + (n + m) := by omega
    rw [if_neg hhigh, if_pos hlow, if_pos hall]
  · by_cases hhigh : dstOff + n ≤ i ∧ i < dstOff + n + m
    · have hall : dstOff ≤ i ∧ i < dstOff + (n + m) := by omega
      have hidx : srcOff + n + (i - (dstOff + n)) = srcOff + (i - dstOff) := by omega
      rw [if_pos hhigh, if_pos hall, hidx]
    · have hall : ¬ (dstOff ≤ i ∧ i < dstOff + (n + m)) := by omega
      rw [if_neg hhigh, if_neg hlow, if_neg hall]

/-! ## Words -/

/-- The `k`-th little endian 32-bit word. -/
def word (a : Bytes) (k : Nat) : Nat :=
  (a (4 * k)).toNat + 256 * (a (4 * k + 1)).toNat + 65536 * (a (4 * k + 2)).toNat +
    16777216 * (a (4 * k + 3)).toNat

def setWord (a : Bytes) (k : Nat) (z : Nat) : Bytes :=
  fun i => if i / 4 = k then UInt8.ofNat (z / 256 ^ (i % 4)) else a i

theorem word_zeros (k : Nat) : word zeros k = 0 := by
  simp [word, zeros]

theorem word_setWord_ne (a : Bytes) {k j : Nat} (z : Nat) (h : j ≠ k) :
    word (setWord a k z) j = word a j := by
  have h0 : (4 * j) / 4 = j := by omega
  have h1 : (4 * j + 1) / 4 = j := by omega
  have h2 : (4 * j + 2) / 4 = j := by omega
  have h3 : (4 * j + 3) / 4 = j := by omega
  simp [word, setWord, h0, h1, h2, h3, h]

theorem word_setWord_self (a : Bytes) (k : Nat) {z : Nat} (hz : z < 2 ^ 32) :
    word (setWord a k z) k = z := by
  have h0 : (4 * k) / 4 = k ∧ (4 * k) % 4 = 0 := by omega
  have h1 : (4 * k + 1) / 4 = k ∧ (4 * k + 1) % 4 = 1 := by omega
  have h2 : (4 * k + 2) / 4 = k ∧ (4 * k + 2) % 4 = 2 := by omega
  have h3 : (4 * k + 3) / 4 = k ∧ (4 * k + 3) % 4 = 3 := by omega
  -- The four bytes are the digits of `z` to the base 256.
  simp only [word, setWord, h0, h1, h2, h3, if_true, UInt8.toNat_ofNat']
  omega

/-! ## Plain files -/

/-- Write `data` at `pos` of a file, with zeros between the old end and `pos`. -/
def writeFile (file : List UInt8) (pos : Nat) (data : List UInt8) : List UInt8 :=
  (file ++ List.replicate (pos - file.length) 0).take pos ++ data ++ file.drop (pos + data.length)

/-- The first `n` bytes of an area. -/
def prefixBytes (a : Bytes) (n : Nat) : List UInt8 :=
  (List.range n).map a

theorem length_prefixBytes (a : Bytes) (n : Nat) : (prefixBytes a n).length = n := by
  simp [prefixBytes]

theorem getElem?_prefixBytes (a : Bytes) (n i : Nat) :
    (prefixBytes a n)[i]? = if i < n then some (a i) else none := by
  by_cases hi : i < n
  · simp [prefixBytes, hi]
  · simp [prefixBytes, hi]

theorem prefixBytes_congr {a b : Bytes} {n : Nat} (h : ∀ i, i < n → a i = b i) :
    prefixBytes a n = prefixBytes b n := by
  apply List.map_congr_left
  intro i hi
  exact h i (List.mem_range.1 hi)

theorem prefixBytes_eq_iff {a b : Bytes} {n : Nat} :
    prefixBytes a n = prefixBytes b n ↔ ∀ i, i < n → a i = b i := by
  refine ⟨fun h i hi => ?_, prefixBytes_congr⟩
  have hget := congrArg (fun l => l[i]?) h
  simpa [getElem?_prefixBytes, hi] using hget

/-- Part of the content of an area. -/
theorem slice_prefixBytes (a : Bytes) (size pos n : Nat) :
    ((prefixBytes a size).drop pos).take n =
      prefixBytes (fun i => a (pos + i)) (min n (size - pos)) := by
  apply List.ext_getElem?
  intro i
  rw [List.getElem?_take, List.getElem?_drop, getElem?_prefixBytes, getElem?_prefixBytes]
  -- Behind `n` nothing was asked for, and behind `size` there is nothing.
  by_cases hi : i < n
  · rw [if_pos hi]
    by_cases hin : pos + i < size
    · rw [if_pos hin, if_pos (by omega)]
    · rw [if_neg hin, if_neg (by omega)]
  · rw [if_neg hi, if_neg (by omega)]

/-- The part of a file in front of a write, with the hole filled. -/
theorem take_fill_prefixBytes (a : Bytes) {size pos : Nat} (hzero : ∀ i, size ≤ i → a i = 0) :
    (prefixBytes a size ++ List.replicate (pos - (prefixBytes a size).length) 0).take pos =
      prefixBytes a pos := by
  apply List.ext_getElem?
  intro i
  rw [List.getElem?_take, getElem?_prefixBytes]
  by_cases hi : i < pos
  · rw [if_pos hi, if_pos hi]
    by_cases hsize : i < size
    · rw [List.getElem?_append_left (by rwa [length_prefixBytes]), getElem?_prefixBytes,
        if_pos hsize]
    · -- Index `i` is in the hole, where the area is zero as well.
      have hle : size ≤ i := Nat.le_of_not_lt hsize
      have hrep : i - size < pos - size := by omega
      rw [List.getElem?_append_right (by rwa [length_prefixBytes]), length_prefixBytes,
        List.getElem?_replicate, if_pos hrep, hzero i hle]
  · rw [if_neg hi, if_neg hi]

/-- Writing to a file whose area is zero behind its end is a copy into the area. -/
theorem writeFile_prefixBytes (a src : Bytes) {size pos n : Nat}
    (hzero : ∀ i, size ≤ i → a i = 0) :
    writeFile (prefixBytes a size) pos (prefixBytes src n) =
      prefixBytes (copyBytes a pos src 0 n) (max size (pos + n)) := by
  apply List.ext_getElem?
  intro i
  rw [writeFile, take_fill_prefixBytes a hzero, List.append_assoc, getElem?_prefixBytes,
    length_prefixBytes]
  by_cases hfront : i < pos
  · -- In front of the write.
    have hin : i < max size (pos + n) := by omega
    have hnot : ¬ (pos ≤ i ∧ i < pos + n) := by omega
    rw [List.getElem?_append_left (by rwa [length_prefixBytes]), getElem?_prefixBytes,
      if_pos hfront, if_pos hin, copyBytes, if_neg hnot]
  · have hle : pos ≤ i := Nat.le_of_not_lt hfront
    rw [List.getElem?_append_right (by rwa [length_prefixBytes]), length_prefixBytes]
    by_cases hmid : i < pos + n
    · -- Inside the write.
      have hin : i < max size (pos + n) := by omega
      have hidx : i - pos < n := by omega
      rw [List.getElem?_append_left (by rwa [length_prefixBytes]), getElem?_prefixBytes,
        if_pos hidx, if_pos hin, copyBytes, if_pos ⟨hle, hmid⟩, Nat.zero_add]
    · -- Behind the write.
      have hidx : n ≤ i - pos := by omega
      have hnot : ¬ (pos ≤ i ∧ i < pos + n) := by omega
      have hback : pos + n + (i - pos - n) = i := by omega
      have hiff : i < size ↔ i < max size (pos + n) := by omega
      rw [List.getElem?_append_right (by rwa [length_prefixBytes]), length_prefixBytes,
        List.getElem?_drop, hback, getElem?_prefixBytes, copyBytes, if_neg hnot]
      simp only [hiff]

end Lib
end OsLab
