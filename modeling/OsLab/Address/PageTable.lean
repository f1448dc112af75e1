import Mathlib.Data.Int.Bitwise
import Mathlib.Data.Nat.Bitwise
import Mathlib.Data.List.Nodup
import Mathlib.Data.List.Perm.Subperm
import OsLab.Lib.Draws

/-!
# PageTable — the page table of `paging-linear-translate.py`

The script gives each page of an address space a frame that is not in use, or none, prints the table and
translates addresses with it.

* `Sizes` holds the sizes that pass the checks of the script.
* A `Draw` is what one turn of the inner loop gets from `random`: whether the page is to be valid, and a
  frame.
* The failure `none` of `translate` is an index outside of the table.
-/

namespace OsLab
namespace Address

open OsLab.Lib

/-! ## The script -/

structure Sizes where
  asize : Nat
  psize : Nat
  vabits : Nat
  pagebits : Nat
  asize_pow : 2 ^ vabits = asize
  asize_lt : asize < psize
  psize_lt : psize < 2 ^ 30

namespace Sizes

variable (s : Sizes)

/-- A power of two as well. -/
def pagesize : Nat :=
  2 ^ s.pagebits

def pages : Nat :=
  s.psize / s.pagesize

def vpages : Nat :=
  s.asize / s.pagesize

def pagemask : Nat :=
  (1 <<< s.pagebits) - 1

/-- `0xFFFFFFFF & ~pagemask` -/
def vpnmask : Nat :=
  Nat.ldiff 0xFFFFFFFF s.pagemask

end Sizes

structure Draw where
  /-- `random.random() * 100.0 > 100.0 - used` -/
  valid : Bool
  u : Nat
  deriving DecidableEq, Repr

structure Table where
  used : List Bool
  pt : List Int
  deriving DecidableEq, Repr

/-- The turn of the inner loop ends it. -/
def Table.accepts (t : Table) (d : Draw) : Bool :=
  !d.valid || t.used[d.u]? == some false

/-- The entry of the next page. -/
def Table.add (t : Table) (d : Draw) : Table :=
  if d.valid then ⟨t.used.set d.u true, t.pt ++ [(d.u : Int)]⟩ else { t with pt := t.pt ++ [-1] }

/-- The outer loop, for `v` pages. -/
def assign : Nat → Table → List Draw → Option (Table × List Draw)
  | 0, t, ds => some (t, ds)
  | v + 1, t, ds => (drawUntil t.accepts ds).bind fun (d, rest) => assign v (t.add d) rest

variable (s : Sizes)

def emptyTable : Table :=
  ⟨List.replicate s.pages false, []⟩

/-- The number that is printed for an entry. -/
def printed (pfn : Int) : Nat :=
  if pfn < 0 then 0 else 0x80000000 ||| pfn.toNat

/-- The entry, as the text before the table explains it: the valid bit, and the PFN. -/
def explained (x : Nat) : Int :=
  if x.testBit 31 then ((x % 2 ^ 31 : Nat) : Int) else -1

/-- The translation of one address: a physical address, or none where the page is not valid. -/
def translate (pt : List Int) (vaddr : Int) : Option (Option Nat) :=
  let vpn := (Int.land vaddr s.vpnmask).toNat >>> s.pagebits
  match pt[vpn]? with
  | none => none
  | some pfn =>
    if pfn < 0 then some none
    else
      let offset := (Int.land vaddr s.pagemask).toNat
      some (some ((pfn.toNat <<< s.pagebits) ||| offset))

/-! ## Bits -/

/-- The low 32 bits of an address, which is all that `translate` looks at. -/
def low (vaddr : Int) : Nat :=
  (vaddr % 2 ^ 32).toNat

theorem low_of_nat (n : Nat) : low n = n % 2 ^ 32 := by
  unfold low
  omega

theorem low_lt (vaddr : Int) : low vaddr < 2 ^ 32 := by
  unfold low
  omega

/-- A mask of 32 bits looks at the low bits only, also of a negative address. -/
theorem land_low (vaddr : Int) {m : Nat} (hm : m < 2 ^ 32) :
    Int.land vaddr m = ((low vaddr &&& m : Nat) : Int) := by
  have hhigh : ∀ i, 32 ≤ i → m.testBit i = false := by
    intro i hi
    refine Nat.testBit_lt_two_pow (Nat.lt_of_lt_of_le hm ?_)
    exact Nat.pow_le_pow_right (by decide) hi
  cases vaddr with
  | ofNat n =>
      have hland : n &&& m = low (Int.ofNat n) &&& m := by
        refine Nat.eq_of_testBit_eq ?_
        intro i
        rw [Int.ofNat_eq_natCast, low_of_nat, Nat.testBit_and, Nat.testBit_and, Nat.testBit_mod_two_pow]
        by_cases hi : i < 32
        · simp [hi]
        · simp [hhigh i (by omega)]
      exact congrArg Int.ofNat hland
  | negSucc n =>
      have hlow : low (Int.negSucc n) = 2 ^ 32 - (n % 2 ^ 32 + 1) := by
        unfold low
        omega
      have hland : Nat.ldiff m n = low (Int.negSucc n) &&& m := by
        refine Nat.eq_of_testBit_eq ?_
        intro i
        rw [hlow, Nat.testBit_ldiff, Nat.testBit_and,
          Nat.testBit_two_pow_sub_succ (Nat.mod_lt _ (by decide)), Nat.testBit_mod_two_pow]
        by_cases hi : i < 32
        · simp [hi, Bool.and_comm]
        · simp [hhigh i (by omega)]
      exact congrArg Int.ofNat hland

section Masks

variable {s : Sizes}

theorem testBit_pagemask (i : Nat) : s.pagemask.testBit i = decide (i < s.pagebits) := by
  unfold Sizes.pagemask
  rw [Nat.one_shiftLeft, Nat.testBit_two_pow_sub_one]

theorem vpn_eq (vaddr : Int) :
    (Int.land vaddr s.vpnmask).toNat >>> s.pagebits = low vaddr / s.pagesize := by
  have hmask : s.vpnmask < 2 ^ 32 := by
    refine Nat.lt_pow_two_of_testBit _ ?_
    intro i hi
    unfold Sizes.vpnmask
    rw [Nat.testBit_ldiff, show (0xFFFFFFFF : Nat) = 2 ^ 32 - 1 from rfl, Nat.testBit_two_pow_sub_one]
    simp [hi]
  rw [land_low vaddr hmask, Int.toNat_natCast, Sizes.pagesize, ← Nat.shiftRight_eq_div_pow]
  refine Nat.eq_of_testBit_eq ?_
  intro i
  rw [Nat.testBit_shiftRight, Nat.testBit_shiftRight, Nat.testBit_and, Sizes.vpnmask, Nat.testBit_ldiff,
    testBit_pagemask, show (0xFFFFFFFF : Nat) = 2 ^ 32 - 1 from rfl, Nat.testBit_two_pow_sub_one]
  by_cases hi : s.pagebits + i < 32
  · simp [hi]
  · have hzero : (low vaddr).testBit (s.pagebits + i) = false := by
      refine Nat.testBit_lt_two_pow (Nat.lt_of_lt_of_le (low_lt vaddr) ?_)
      exact Nat.pow_le_pow_right (by decide) (by omega)
    simp [hzero]

theorem offset_eq (hbits : s.pagebits ≤ 32) (vaddr : Int) :
    (Int.land vaddr s.pagemask).toNat = low vaddr % s.pagesize := by
  have hpow : 2 ^ s.pagebits ≤ 2 ^ 32 := Nat.pow_le_pow_right (by decide) hbits
  have hpos : 0 < 2 ^ s.pagebits := Nat.two_pow_pos _
  have hmask : s.pagemask = 2 ^ s.pagebits - 1 := by
    rw [Sizes.pagemask, Nat.one_shiftLeft]
  rw [land_low vaddr (by rw [hmask]; omega), Int.toNat_natCast, hmask, Nat.and_two_pow_sub_one_eq_mod]
  rfl

/-- The translation by division. -/
theorem translate_eq (hbits : s.pagebits ≤ 32) (pt : List Int) (vaddr : Int) :
    translate s pt vaddr =
      match pt[low vaddr / s.pagesize]? with
      | none => none
      | some pfn =>
        if pfn < 0 then some none
        else some (some (pfn.toNat * s.pagesize + low vaddr % s.pagesize)) := by
  have hoffset : low vaddr % s.pagesize < 2 ^ s.pagebits := Nat.mod_lt _ (Nat.two_pow_pos _)
  unfold translate
  dsimp only
  rw [vpn_eq, offset_eq hbits]
  cases pt[low vaddr / s.pagesize]? with
  | none => rfl
  | some pfn =>
      dsimp only
      rw [← Nat.shiftLeft_add_eq_or_of_lt hoffset, Nat.shiftLeft_eq]
      rfl

/-- A page is not larger than the address space unless there are no pages. -/
theorem pagebits_le (h : s.vpages ≠ 0) : s.pagebits ≤ 32 := by
  by_contra hlarge
  have hpow : 2 ^ 32 ≤ s.pagesize := Nat.pow_le_pow_right (by decide) (by omega)
  have hlt : s.asize < s.pagesize := by
    have := s.asize_lt
    have := s.psize_lt
    omega
  exact h (Nat.div_eq_of_lt hlt)

theorem vpages_le : s.vpages ≤ s.pages :=
  Nat.div_le_div_right s.asize_lt.le

end Masks

/-! ## The table -/

section Filling

variable {s : Sizes} {t : Table} {v : Nat}

/-- The table of the first `v` pages. -/
structure Table.Ok (s : Sizes) (v : Nat) (t : Table) : Prop where
  used_length : t.used.length = s.pages
  pt_length : t.pt.length = v
  entries : ∀ e ∈ t.pt, e = -1 ∨ ∃ u : Nat, u < s.pages ∧ e = u
  used_iff : ∀ u : Nat, t.used[u]? = some true ↔ (u : Int) ∈ t.pt
  distinct : ∀ (i j u : Nat), t.pt[i]? = some (u : Int) → t.pt[j]? = some (u : Int) → i = j

theorem emptyTable_ok (s : Sizes) : (emptyTable s).Ok s 0 := by
  refine ⟨List.length_replicate, rfl, ?_, ?_, ?_⟩
  · intro e he
    exact absurd he List.not_mem_nil
  · intro u
    simp [emptyTable, List.getElem?_replicate]
  · intro i j u hi
    exact absurd hi (by simp [emptyTable])

theorem getElem?_concat {l : List Int} {x : Int} {i : Nat} {e : Int} (h : (l ++ [x])[i]? = some e) :
    l[i]? = some e ∨ i = l.length ∧ e = x := by
  by_cases hi : i < l.length
  · rw [List.getElem?_append_left hi] at h
    exact Or.inl h
  · have hlast : i = l.length := by
      by_contra hne
      rw [List.getElem?_eq_none (by simp; omega)] at h
      exact absurd h (by simp)
    subst hlast
    rw [List.getElem?_concat_length] at h
    exact Or.inr ⟨rfl, (Option.some.inj h).symm⟩

/-- One entry more. -/
theorem Table.Ok.add (h : t.Ok s v) {d : Draw} (haccept : t.accepts d = true) (hu : d.u < s.pages) :
    (t.add d).Ok s (v + 1) := by
  unfold Table.add
  cases hvalid : d.valid with
  | false =>
      refine ⟨h.used_length, by simp [h.pt_length], ?_, ?_, ?_⟩
      · intro e he
        rcases List.mem_append.1 he with he | he
        · exact h.entries e he
        · exact Or.inl (List.mem_singleton.1 he)
      · intro u
        change t.used[u]? = some true ↔ (u : Int) ∈ t.pt ++ [-1]
        rw [h.used_iff, List.mem_append, List.mem_singleton]
        exact ⟨Or.inl, fun hor => hor.resolve_right (by omega)⟩
      · intro i j u hi hj
        rcases getElem?_concat hi with hi | ⟨-, hi⟩
        · rcases getElem?_concat hj with hj | ⟨-, hj⟩
          · exact h.distinct i j u hi hj
          · omega
        · omega
  | true =>
      have hfree : t.used[d.u]? = some false := by
        simpa [Table.accepts, hvalid] using haccept
      have hnew : ∀ i : Nat, t.pt[i]? ≠ some (d.u : Int) := by
        intro i hi
        have hused := (h.used_iff d.u).2 (List.mem_of_getElem? hi)
        rw [hfree] at hused
        exact absurd hused (by simp)
      refine ⟨by simp [h.used_length], by simp [h.pt_length], ?_, ?_, ?_⟩
      · intro e he
        rcases List.mem_append.1 he with he | he
        · exact h.entries e he
        · exact Or.inr ⟨d.u, hu, List.mem_singleton.1 he⟩
      · intro u
        change (t.used.set d.u true)[u]? = some true ↔ (u : Int) ∈ t.pt ++ [(d.u : Int)]
        rw [List.mem_append, List.mem_singleton, ← h.used_iff, List.getElem?_set]
        by_cases hdu : d.u = u
        · subst hdu
          simp [h.used_length, hu]
        · have hne : ¬ (u : Int) = d.u := by omega
          simp [hdu, hne]
      · intro i j u hi hj
        rcases getElem?_concat hi with hi | ⟨rfl, hid⟩
        · rcases getElem?_concat hj with hj | ⟨-, hjd⟩
          · exact h.distinct i j u hi hj
          · rw [hjd] at hi
            exact absurd hi (hnew i)
        · rcases getElem?_concat hj with hjd | ⟨rfl, -⟩
          · rw [hid] at hjd
            exact absurd hjd (hnew j)
          · rfl

theorem assign_ok : ∀ (k : Nat) {v : Nat} {t t' : Table} {ds rest : List Draw}, t.Ok s v →
    (∀ d ∈ ds, d.u < s.pages) → assign k t ds = some (t', rest) → t'.Ok s (v + k)
  | 0, v, t, t', ds, rest, h, _, hrun => by
      cases hrun
      exact h
  | k + 1, v, t, t', ds, rest, h, hds, hrun => by
      unfold assign at hrun
      rcases Option.bind_eq_some_iff.1 hrun with ⟨⟨d, ds'⟩, hdraw, hrest⟩
      rcases drawUntil_mem hdraw with ⟨hd, hds'⟩
      have hadd := h.add (drawUntil_accepts hdraw) (hds d hd)
      have := assign_ok k hadd (fun x hx => hds x (hds' x hx)) hrest
      rwa [show v + 1 + k = v + (k + 1) by omega] at this

/-- While a page has no entry, some frame is free. -/
theorem Table.Ok.free (h : t.Ok s v) (hv : v < s.vpages) : ∃ u, u < s.pages ∧ t.used[u]? = some false := by
  by_contra hnone
  have hall : ∀ u, u < s.pages → (u : Int) ∈ t.pt := by
    intro u hu
    rw [← h.used_iff]
    cases hused : t.used[u]? with
    | none =>
        rw [List.getElem?_eq_none_iff, h.used_length] at hused
        omega
    | some b =>
        cases b with
        | true => rfl
        | false => exact absurd ⟨u, hu, hused⟩ hnone
  have hsub : ((List.range s.pages).map fun u : Nat => (u : Int)) ⊆ t.pt := by
    intro e he
    rcases List.mem_map.1 he with ⟨u, hu, rfl⟩
    exact hall u (List.mem_range.1 hu)
  have hnodup : ((List.range s.pages).map fun u : Nat => (u : Int)).Nodup :=
    List.nodup_range.map fun _ _ heq => Int.natCast_inj.1 heq
  have hlength := (List.subperm_of_subset hnodup hsub).length_le
  rw [List.length_map, List.length_range, h.pt_length] at hlength
  have hpages : s.vpages ≤ s.pages := vpages_le
  omega

end Filling

/-! ## Translations -/

section Translations

variable {s : Sizes} {t : Table}

/-- What the number of an entry says is the entry. -/
theorem explained_printed {e : Int} (h : e = -1 ∨ ∃ u : Nat, u < s.pages ∧ e = u) :
    explained (printed e) = e := by
  rcases h with rfl | ⟨u, hu, rfl⟩
  · rfl
  · have hsmall : u < 2 ^ 31 := by
      have hpages : s.pages ≤ s.psize := Nat.div_le_self _ _
      have := s.psize_lt
      omega
    have hor : (0x80000000 ||| u : Nat) = 2 ^ 31 + u := by
      rw [show (0x80000000 : Nat) = 1 <<< 31 from rfl, ← Nat.shiftLeft_add_eq_or_of_lt hsmall]
      rfl
    have hpos : ¬ (u : Int) < 0 := by omega
    have hmod : (2 ^ 31 + u) % 2 ^ 31 = u := by omega
    unfold explained printed
    rw [if_neg hpos, Int.toNat_natCast, hor, Nat.testBit_two_pow_add_eq, Nat.testBit_lt_two_pow hsmall,
      hmod]
    rfl

/-- A translation that succeeds, told by its page. -/
theorem translate_valid (h : t.Ok s s.vpages) {vaddr : Int} {paddr : Nat}
    (htrans : translate s t.pt vaddr = some (some paddr)) :
    ∃ u : Nat, u < s.pages ∧ t.pt[low vaddr / s.pagesize]? = some (u : Int) ∧
      paddr = u * s.pagesize + low vaddr % s.pagesize := by
  have hnonzero : s.vpages ≠ 0 := by
    intro hzero
    have hempty : t.pt = [] := List.eq_nil_of_length_eq_zero (h.pt_length.trans hzero)
    rw [hempty] at htrans
    exact absurd htrans (by simp [translate])
  rw [translate_eq (pagebits_le hnonzero)] at htrans
  cases hpfn : t.pt[low vaddr / s.pagesize]? with
  | none =>
      rw [hpfn] at htrans
      exact absurd htrans (by simp)
  | some pfn =>
      rw [hpfn] at htrans
      dsimp only at htrans
      by_cases hneg : pfn < 0
      · rw [if_pos hneg] at htrans
        exact absurd htrans (by simp)
      · rw [if_neg hneg] at htrans
        rcases h.entries pfn (List.mem_of_getElem? hpfn) with rfl | ⟨u, hu, rfl⟩
        · exact absurd (show (-1 : Int) < 0 by decide) hneg
        · rw [Int.toNat_natCast] at htrans
          exact ⟨u, hu, rfl, (Option.some.inj (Option.some.inj htrans)).symm⟩

/-- Outside of the pages the index is outside of the table. -/
theorem translate_none_iff (h : t.Ok s s.vpages) (vaddr : Int) :
    translate s t.pt vaddr = none ↔ s.vpages * s.pagesize ≤ low vaddr := by
  have hpos : 0 < s.pagesize := Nat.two_pow_pos _
  rw [← Nat.le_div_iff_mul_le hpos, ← h.pt_length]
  by_cases hzero : s.vpages = 0
  · have hempty : t.pt = [] := List.eq_nil_of_length_eq_zero (h.pt_length.trans hzero)
    rw [hempty]
    simp [translate]
  · rw [translate_eq (pagebits_le hzero), ← List.getElem?_eq_none_iff]
    cases t.pt[low vaddr / s.pagesize]? with
    | none => simp
    | some pfn =>
        by_cases hneg : pfn < 0
        · simp [hneg]
        · simp [hneg]

theorem translate_lt (h : t.Ok s s.vpages) {vaddr : Int} {paddr : Nat}
    (htrans : translate s t.pt vaddr = some (some paddr)) : paddr < s.psize := by
  rcases translate_valid h htrans with ⟨u, hu, -, rfl⟩
  have hoffset : low vaddr % s.pagesize < s.pagesize := Nat.mod_lt _ (Nat.two_pow_pos _)
  calc
    u * s.pagesize + low vaddr % s.pagesize < u * s.pagesize + s.pagesize := Nat.add_lt_add_left hoffset _
    _ = (u + 1) * s.pagesize := (Nat.succ_mul u _).symm
    _ ≤ s.pages * s.pagesize := Nat.mul_le_mul_right _ hu
    _ ≤ s.psize := Nat.div_mul_le_self _ _

/-- Two addresses with one physical address are the same, in their low 32 bits. -/
theorem translate_inj (h : t.Ok s s.vpages) {x y : Int} {paddr : Nat}
    (hx : translate s t.pt x = some (some paddr)) (hy : translate s t.pt y = some (some paddr)) :
    low x = low y := by
  have hpos : 0 < s.pagesize := Nat.two_pow_pos _
  rcases translate_valid h hx with ⟨u, -, hu, hpx⟩
  rcases translate_valid h hy with ⟨w, -, hw, hpy⟩
  have hoffx : low x % s.pagesize < s.pagesize := Nat.mod_lt _ hpos
  have hoffy : low y % s.pagesize < s.pagesize := Nat.mod_lt _ hpos
  have hoffset : low x % s.pagesize = low y % s.pagesize := by
    have hmod := hpx.symm.trans hpy
    have := congrArg (· % s.pagesize) hmod
    simpa [Nat.add_mod, Nat.mod_eq_of_lt hoffx, Nat.mod_eq_of_lt hoffy] using this
  have hframe : u = w := by
    have hmul : u * s.pagesize = w * s.pagesize := by omega
    exact Nat.eq_of_mul_eq_mul_right hpos hmul
  subst hframe
  have hpage := h.distinct _ _ u hu hw
  calc
    low x = s.pagesize * (low x / s.pagesize) + low x % s.pagesize := (Nat.div_add_mod _ _).symm
    _ = s.pagesize * (low y / s.pagesize) + low y % s.pagesize := by rw [hpage, hoffset]
    _ = low y := Nat.div_add_mod _ _

end Translations

/-- **The page table.**  Whatever is drawn, the table that is made has an entry for each page, its
printed form says all of it, every translation is an address of the physical memory, and two addresses
of 32 bits never share one.  While a page has no entry some draw ends the inner loop. -/
theorem page_table_sound (s : Sizes) (v : Nat) (hv : v ≤ s.vpages) (ds rest : List Draw)
    (hds : ∀ d ∈ ds, d.u < s.pages) (t : Table) (hrun : assign v (emptyTable s) ds = some (t, rest)) :
    (v < s.vpages → ∃ d : Draw, d.valid = true ∧ d.u < s.pages ∧ t.accepts d = true) ∧
      (v = s.vpages →
        t.pt.length = s.vpages ∧ t.pt.map (fun e => explained (printed e)) = t.pt ∧
          (∀ x, translate s t.pt x = none ↔ s.vpages * s.pagesize ≤ low x) ∧
          (∀ x paddr, translate s t.pt x = some (some paddr) → paddr < s.psize) ∧
          ∀ x y paddr, translate s t.pt x = some (some paddr) → translate s t.pt y = some (some paddr) →
            low x = low y) := by
  have hok := assign_ok v (emptyTable_ok s) hds hrun
  rw [Nat.zero_add] at hok
  refine ⟨?_, ?_⟩
  · intro hlt
    rcases hok.free hlt with ⟨u, hu, hfree⟩
    exact ⟨⟨true, u⟩, rfl, hu, by simp [Table.accepts, hfree]⟩
  · rintro rfl
    refine ⟨hok.pt_length, ?_, translate_none_iff hok, fun x paddr => translate_lt hok,
      fun x y paddr => translate_inj hok⟩
    have hmap : t.pt.map (fun e => explained (printed e)) = t.pt.map id := by
      refine List.map_congr_left ?_
      intro e he
      exact explained_printed (hok.entries e he)
    rw [hmap, List.map_id]

/-- Four pages of four bytes, and eight frames. -/
def smallSizes : Sizes :=
  { asize := 16, psize := 32, vabits := 4, pagebits := 2, asize_pow := rfl, asize_lt := by decide
    psize_lt := by decide }

/-- The frame 3 is drawn twice. -/
def smallDraws : List Draw :=
  [⟨true, 3⟩, ⟨false, 0⟩, ⟨true, 3⟩, ⟨true, 5⟩, ⟨true, 0⟩]

theorem page_table_sound_small :
    ∃ t, assign 4 (emptyTable smallSizes) smallDraws = some (t, []) ∧ t.pt = [3, -1, 5, 0] ∧
      translate smallSizes t.pt 9 = some (some 21) ∧
      ∀ y, translate smallSizes t.pt y = some (some 21) → low 9 = low y := by
  have hds : ∀ d ∈ smallDraws, d.u < smallSizes.pages := by decide
  have hsound := page_table_sound smallSizes 4 (by decide) smallDraws [] hds _ rfl
  have htrans : translate smallSizes [3, -1, 5, 0] 9 = some (some 21) := by
    rw [translate_eq (by decide)]
    rfl
  refine ⟨_, rfl, rfl, htrans, ?_⟩
  intro y hy
  exact (hsound.2 rfl).2.2.2.2 9 y 21 htrans hy

end Address
end OsLab
