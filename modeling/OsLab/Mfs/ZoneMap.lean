import OsLab.Mfs.Model

/-!
# ZoneMap — the zones of one file

The zone numbers that belong to a file sit in *slots*: in the inode, in the single indirect block, in
the double indirect block, and in the single indirect blocks below it.  `MapOk` says that no zone is
in two slots and that all of them are legal and marked in the bit map.  Writing a zone into an empty
slot (`Linked`) changes that slot and no other, and touches no data block; `write_map` is one to three
such steps.

Everything here is for zones of one block, which is what `clear_zone` asserts.
-/

namespace OsLab
namespace Mfs

open OsLab.Lib

/-! ## Slots -/

inductive Slot
  /-- Entry `k` of the inode: direct zones, then the single and the double indirect zone. -/
  | top (k : Nat)
  /-- Entry `e` of the single indirect block. -/
  | single (e : Nat)
  /-- Entry `i` of the double indirect block. -/
  | ind (i : Nat)
  /-- Entry `e` of the `i`-th single indirect block below the double indirect one. -/
  | leaf (i e : Nat)
  deriving DecidableEq

section Slots

variable (sb : SuperBlock)

def Slot.Valid : Slot → Prop
  | .top k => k < sb.ndzones + 2
  | .single e => e < sb.nindirs
  | .ind i => i < sb.nindirs
  | .leaf i e => i < sb.nindirs ∧ e < sb.nindirs

instance Slot.decidableValid : (s : Slot) → Decidable (s.Valid sb)
  | .top _ => inferInstanceAs (Decidable (_ < _))
  | .single _ => inferInstanceAs (Decidable (_ < _))
  | .ind _ => inferInstanceAs (Decidable (_ < _))
  | .leaf _ _ => inferInstanceAs (Decidable (_ ∧ _))

/-- Slots whose zones hold file data. -/
def Slot.IsData : Slot → Prop
  | .top k => k < sb.ndzones
  | .single _ => True
  | .ind _ => False
  | .leaf _ _ => True

/-- An entry of an indirect block, `NO_ZONE` when there is no block. -/
def entryAt (c : Core) (z e : Nat) : Nat :=
  if z = NO_ZONE then NO_ZONE else word (c.disk sb.s_dev z) e

def slotVal (c : Core) : Slot → Nat
  | .top k => c.rip.zone k
  | .single e => entryAt sb c (c.rip.zone sb.ndzones) e
  | .ind i => entryAt sb c (c.rip.zone (sb.ndzones + 1)) i
  | .leaf i e => entryAt sb c (entryAt sb c (c.rip.zone (sb.ndzones + 1)) i) e

/-- The slot of the `k`-th block of a file. -/
def slotOf (k : Nat) : Slot :=
  if k < sb.ndzones then .top k
  else if k - sb.ndzones < sb.nindirs then .single (k - sb.ndzones)
  else
    .leaf ((k - sb.ndzones - sb.nindirs) / sb.nindirs) ((k - sb.ndzones - sb.nindirs) % sb.nindirs)

structure MapOk (c : Core) : Prop where
  inj : ∀ s s' : Slot, s.Valid sb → s'.Valid sb → slotVal sb c s ≠ NO_ZONE →
    slotVal sb c s = slotVal sb c s' → s = s'
  legal : ∀ s : Slot, s.Valid sb → slotVal sb c s ≠ NO_ZONE →
    sb.s_firstdatazone ≤ slotVal sb c s ∧ slotVal sb c s < sb.s_zones
  marked : ∀ s : Slot, s.Valid sb → slotVal sb c s ≠ NO_ZONE → c.used (slotVal sb c s) = true

/-- A legal zone that is in no slot of the file. -/
structure Loose (c : Core) (z : Nat) : Prop where
  first : sb.s_firstdatazone ≤ z
  last : z < sb.s_zones
  marked : c.used z = true
  unlinked : ∀ s : Slot, s.Valid sb → slotVal sb c s ≠ z

/-- `c'` is `c` with `z` put into the slot `s`. -/
structure Linked (c c' : Core) (s : Slot) (z : Nat) : Prop where
  val : ∀ s' : Slot, s'.Valid sb → slotVal sb c' s' = if s' = s then z else slotVal sb c s'
  data : ∀ s' : Slot, s'.Valid sb → s'.IsData sb → slotVal sb c s' ≠ NO_ZONE →
    c'.disk sb.s_dev (slotVal sb c s') = c.disk sb.s_dev (slotVal sb c s')
  used : c'.used = c.used
  mode : c'.rip.i_mode = c.rip.i_mode
  size : c'.rip.i_size = c.rip.i_size

end Slots

section ZoneMap

variable {sb : SuperBlock} {c c' : Core} {s : Slot} {z : Nat}

theorem Loose.ne_zero (h : Loose sb c z) : z ≠ NO_ZONE := by
  have hpos := sb.firstdatazone_pos
  have hfirst := h.first
  simp only [NO_ZONE]
  omega

theorem Loose.lt_word (h : Loose sb c z) : z < 2 ^ 32 :=
  Nat.lt_of_lt_of_le h.last sb.zones_le

@[simp] theorem setBlock_self (c : Core) (dev b : Nat) (data : Bytes) :
    (c.setBlock dev b data).disk dev b = data := by
  simp [Core.setBlock]

@[simp] theorem setBlock_ne (c : Core) (dev : Nat) {b b' : Nat} (data : Bytes) (h : b' ≠ b) :
    (c.setBlock dev b data).disk dev b' = c.disk dev b' := by
  simp [Core.setBlock, h]

@[simp] theorem setBlock_rip (c : Core) (dev b : Nat) (data : Bytes) :
    (c.setBlock dev b data).rip = c.rip := rfl

theorem zone_setZone_self (rip : Inode) (k : Nat) (hz : z < 2 ^ 32) :
    (rip.setZone k z).zone k = z :=
  word_setWord_self rip.i_zone k hz

theorem zone_setZone_ne (rip : Inode) {k j : Nat} (h : j ≠ k) :
    (rip.setZone k z).zone j = rip.zone j :=
  word_setWord_ne rip.i_zone z h

theorem entryAt_congr {z : Nat} (h : z ≠ NO_ZONE → c'.disk sb.s_dev z = c.disk sb.s_dev z)
    (e : Nat) : entryAt sb c' z e = entryAt sb c z e := by
  by_cases hz : z = NO_ZONE
  · simp [entryAt, hz]
  · simp [entryAt, hz, h hz]

theorem entryAt_none (c : Core) (e : Nat) : entryAt sb c NO_ZONE e = NO_ZONE := by
  simp [entryAt]

/-- Linking a loose zone into an empty slot keeps the map well formed. -/
theorem MapOk.link (h : MapOk sb c) (hz : Loose sb c z)
    (hl : Linked sb c c' s z) : MapOk sb c' where
  inj := by
    intro s₁ s₂ h₁ h₂ hne heq
    rw [hl.val s₁ h₁] at hne heq
    rw [hl.val s₂ h₂] at heq
    by_cases hs₁ : s₁ = s
    · by_cases hs₂ : s₂ = s
      · rw [hs₁, hs₂]
      · rw [if_pos hs₁, if_neg hs₂] at heq
        exact absurd heq.symm (hz.unlinked s₂ h₂)
    · by_cases hs₂ : s₂ = s
      · rw [if_neg hs₁, if_pos hs₂] at heq
        exact absurd heq (hz.unlinked s₁ h₁)
      · rw [if_neg hs₁] at hne heq
        rw [if_neg hs₂] at heq
        exact h.inj s₁ s₂ h₁ h₂ hne heq
  legal := by
    intro s₁ h₁ hne
    rw [hl.val s₁ h₁] at hne ⊢
    by_cases hs₁ : s₁ = s
    · rw [if_pos hs₁]
      exact ⟨hz.first, hz.last⟩
    · rw [if_neg hs₁] at hne ⊢
      exact h.legal s₁ h₁ hne
  marked := by
    intro s₁ h₁ hne
    rw [hl.val s₁ h₁] at hne ⊢
    rw [hl.used]
    by_cases hs₁ : s₁ = s
    · rw [if_pos hs₁]
      exact hz.marked
    · rw [if_neg hs₁] at hne ⊢
      exact h.marked s₁ h₁ hne

/-- Another loose zone stays loose. -/
theorem Loose.link {x : Nat} (hx : Loose sb c x) (hne : x ≠ z) (hl : Linked sb c c' s z) :
    Loose sb c' x where
  first := hx.first
  last := hx.last
  marked := by rw [hl.used]; exact hx.marked
  unlinked := by
    intro s' hs'
    rw [hl.val s' hs']
    by_cases heq : s' = s
    · rw [if_pos heq]
      exact Ne.symm hne
    · rw [if_neg heq]
      exact hx.unlinked s' hs'

/-! ## Writing into a slot -/

/-- A direct zone. -/
theorem link_direct (hz : Loose sb c z) {k : Nat} (hk : k < sb.ndzones) :
    Linked sb c { c with rip := c.rip.setZone k z } (.top k) z where
  val := by
    have h1 : sb.ndzones ≠ k := by omega
    have h2 : sb.ndzones + 1 ≠ k := by omega
    intro s' _
    cases s' with
    | top j =>
        by_cases hj : j = k
        · simp [slotVal, hj, zone_setZone_self c.rip k hz.lt_word]
        · simp [slotVal, hj, zone_setZone_ne c.rip hj]
    | single e => simp [slotVal, zone_setZone_ne c.rip h1, entryAt]
    | ind i => simp [slotVal, zone_setZone_ne c.rip h2, entryAt]
    | leaf i e => simp [slotVal, zone_setZone_ne c.rip h2, entryAt]
  data := fun _ _ _ _ => rfl
  used := rfl
  mode := rfl
  size := rfl

theorem valid_single : (Slot.top sb.ndzones).Valid sb := by
  simp [Slot.Valid]

theorem valid_double : (Slot.top (sb.ndzones + 1)).Valid sb := by
  simp [Slot.Valid]

/-- The zone of one slot is not the zone of another. -/
theorem MapOk.ne (h : MapOk sb c) {s s' : Slot} (hs : s.Valid sb) (hs' : s'.Valid sb)
    (hss : s ≠ s') (hne : slotVal sb c s ≠ NO_ZONE) : slotVal sb c s ≠ slotVal sb c s' :=
  fun heq => hss (h.inj s s' hs hs' hne heq)

/-- The single indirect zone, with its block zeroed. -/
theorem link_single_block (hz : Loose sb c z) (hempty : c.rip.zone sb.ndzones = NO_ZONE) :
    Linked sb c
      (zeroBlock { c with rip := c.rip.setZone sb.ndzones z } sb.s_dev z) (.top sb.ndzones) z where
  val := by
    have hzd : (c.rip.setZone sb.ndzones z).zone (sb.ndzones + 1) = c.rip.zone (sb.ndzones + 1) :=
      zone_setZone_ne c.rip (by omega)
    intro s' hs'
    cases s' with
    | top j =>
        by_cases hj : j = sb.ndzones
        · simp [slotVal, zeroBlock, hj, zone_setZone_self c.rip sb.ndzones hz.lt_word]
        · simp [slotVal, zeroBlock, hj, zone_setZone_ne c.rip hj]
    | single e =>
        -- The new block is empty, and before there was no block.
        simp [slotVal, zeroBlock, zone_setZone_self c.rip sb.ndzones hz.lt_word, entryAt,
          word_zeros, hempty, NO_ZONE]
    | ind i =>
        have hdbl : c.rip.zone (sb.ndzones + 1) ≠ z := hz.unlinked _ valid_double
        simp only [slotVal, zeroBlock, setBlock_rip, hzd, reduceCtorEq, if_false]
        exact entryAt_congr (fun _ => setBlock_ne _ _ _ hdbl) i
    | leaf i e =>
        have hdbl : c.rip.zone (sb.ndzones + 1) ≠ z := hz.unlinked _ valid_double
        have hind : entryAt sb c (c.rip.zone (sb.ndzones + 1)) i ≠ z :=
          hz.unlinked (.ind i) hs'.1
        simp only [slotVal, zeroBlock, setBlock_rip, hzd, reduceCtorEq, if_false]
        rw [entryAt_congr (fun _ => setBlock_ne _ _ _ hdbl) i]
        exact entryAt_congr (fun _ => setBlock_ne _ _ _ hind) e
  data := by
    intro s' hs' _ _
    exact setBlock_ne _ _ _ (hz.unlinked s' hs')
  used := rfl
  mode := rfl
  size := rfl

/-- The double indirect zone, with its block zeroed. -/
theorem link_double_block (hz : Loose sb c z) (hempty : c.rip.zone (sb.ndzones + 1) = NO_ZONE) :
    Linked sb c
      (zeroBlock { c with rip := c.rip.setZone (sb.ndzones + 1) z } sb.s_dev z)
      (.top (sb.ndzones + 1)) z where
  val := by
    have hzs : (c.rip.setZone (sb.ndzones + 1) z).zone sb.ndzones = c.rip.zone sb.ndzones :=
      zone_setZone_ne c.rip (by omega)
    have hself := zone_setZone_self c.rip (sb.ndzones + 1) hz.lt_word
    intro s' hs'
    cases s' with
    | top j =>
        by_cases hj : j = sb.ndzones + 1
        · simp [slotVal, zeroBlock, hj, hself]
        · simp [slotVal, zeroBlock, hj, zone_setZone_ne c.rip hj]
    | single e =>
        have hsingle : c.rip.zone sb.ndzones ≠ z := hz.unlinked _ valid_single
        simp only [slotVal, zeroBlock, setBlock_rip, hzs, reduceCtorEq, if_false]
        exact entryAt_congr (fun _ => setBlock_ne _ _ _ hsingle) e
    | ind i =>
        simp [slotVal, zeroBlock, hself, entryAt, word_zeros, hempty, NO_ZONE]
    | leaf i e =>
        simp [slotVal, zeroBlock, hself, entryAt, word_zeros, hempty, NO_ZONE]
  data := by
    intro s' hs' _ _
    exact setBlock_ne _ _ _ (hz.unlinked s' hs')
  used := rfl
  mode := rfl
  size := rfl

/-- An entry of the single indirect block. -/
theorem link_single (h : MapOk sb c) (hz : Loose sb c z) {e : Nat}
    (hblock : c.rip.zone sb.ndzones ≠ NO_ZONE) :
    Linked sb c (wrIndir sb c (c.rip.zone sb.ndzones) e z) (.single e) z where
  val := by
    intro s' hs'
    cases s' with
    | top j => simp [slotVal, wrIndir]
    | single e' =>
        by_cases he : e' = e
        · simp [slotVal, wrIndir, entryAt, hblock, he,
            word_setWord_self _ e hz.lt_word]
        · simp [slotVal, wrIndir, entryAt, hblock, he, word_setWord_ne _ z he]
    | ind i =>
        simp only [slotVal, wrIndir, setBlock_rip, reduceCtorEq, if_false]
        refine entryAt_congr (fun hne => setBlock_ne _ _ _ ?_) i
        exact h.ne valid_double valid_single (by simp) hne
    | leaf i e' =>
        have hind : entryAt sb (wrIndir sb c (c.rip.zone sb.ndzones) e z)
            (c.rip.zone (sb.ndzones + 1)) i = entryAt sb c (c.rip.zone (sb.ndzones + 1)) i := by
          refine entryAt_congr (fun hne => setBlock_ne _ _ _ ?_) i
          exact h.ne valid_double valid_single (by simp) hne
        have hval : slotVal sb (wrIndir sb c (c.rip.zone sb.ndzones) e z) (.leaf i e') =
            slotVal sb c (.leaf i e') := by
          simp only [slotVal]
          rw [show (wrIndir sb c (c.rip.zone sb.ndzones) e z).rip = c.rip from rfl, hind]
          refine entryAt_congr (fun hne => setBlock_ne _ _ _ ?_) e'
          exact h.ne (s := .ind i) hs'.1 valid_single (by simp) hne
        simpa using hval
  data := by
    intro s' hs' hdata hne
    refine setBlock_ne _ _ _ (h.ne hs' valid_single ?_ hne)
    intro heq
    subst heq
    simp [Slot.IsData] at hdata
  used := rfl
  mode := rfl
  size := rfl

/-- An entry of the double indirect block, with the block of the new zone zeroed. -/
theorem link_ind_block (h : MapOk sb c) (hz : Loose sb c z) {i : Nat}
    (hblock : c.rip.zone (sb.ndzones + 1) ≠ NO_ZONE)
    (hempty : slotVal sb c (.ind i) = NO_ZONE) :
    Linked sb c
      (zeroBlock (wrIndir sb c (c.rip.zone (sb.ndzones + 1)) i z) sb.s_dev z) (.ind i) z where
  val := by
    have hdbl : c.rip.zone (sb.ndzones + 1) ≠ z := hz.unlinked _ valid_double
    have hentry : ∀ j, entryAt sb
        (zeroBlock (wrIndir sb c (c.rip.zone (sb.ndzones + 1)) i z) sb.s_dev z)
        (c.rip.zone (sb.ndzones + 1)) j =
          if j = i then z else entryAt sb c (c.rip.zone (sb.ndzones + 1)) j := by
      intro j
      by_cases hj : j = i
      · simp [zeroBlock, wrIndir, entryAt, hblock, hdbl, hj, word_setWord_self _ i hz.lt_word]
      · simp [zeroBlock, wrIndir, entryAt, hblock, hdbl, hj, word_setWord_ne _ z hj]
    intro s' hs'
    cases s' with
    | top j => simp [slotVal, zeroBlock, wrIndir]
    | single e =>
        have hsingle : c.rip.zone sb.ndzones ≠ z := hz.unlinked _ valid_single
        simp only [slotVal, zeroBlock, wrIndir, setBlock_rip, reduceCtorEq, if_false]
        refine entryAt_congr (fun hne => ?_) e
        rw [setBlock_ne _ _ _ hsingle]
        exact setBlock_ne _ _ _ (h.ne valid_single valid_double (by simp) hne)
    | ind j =>
        have hval := hentry j
        simpa [slotVal, zeroBlock, wrIndir] using hval
    | leaf j e =>
        have hrip : (zeroBlock (wrIndir sb c (c.rip.zone (sb.ndzones + 1)) i z) sb.s_dev z).rip =
            c.rip := rfl
        simp only [slotVal, hrip, hentry j, reduceCtorEq, if_false]
        by_cases hj : j = i
        · -- Below the new zone everything is empty, as it was before.
          have hempty' : entryAt sb c (c.rip.zone (sb.ndzones + 1)) i = NO_ZONE := hempty
          rw [hj, if_pos rfl, hempty', entryAt_none]
          simp [zeroBlock, entryAt, word_zeros, NO_ZONE]
        · rw [if_neg hj]
          have hne' : entryAt sb c (c.rip.zone (sb.ndzones + 1)) j ≠ z :=
            hz.unlinked (.ind j) hs'.1
          refine entryAt_congr (fun hne => ?_) e
          rw [zeroBlock, setBlock_ne _ _ _ hne']
          exact setBlock_ne _ _ _ (h.ne (s := .ind j) hs'.1 valid_double (by simp) hne)
  data := by
    intro s' hs' hdata hne
    rw [zeroBlock, setBlock_ne _ _ _ (hz.unlinked s' hs')]
    refine setBlock_ne _ _ _ (h.ne hs' valid_double ?_ hne)
    intro heq
    subst heq
    have hlt : sb.ndzones + 1 < sb.ndzones := hdata
    omega
  used := rfl
  mode := rfl
  size := rfl

/-- An entry of the single indirect block `z1` below the double indirect one. -/
theorem link_leaf (h : MapOk sb c) (hz : Loose sb c z) {i e z1 : Nat} (hi : i < sb.nindirs)
    (hz1 : slotVal sb c (.ind i) = z1) (hblock : z1 ≠ NO_ZONE) :
    Linked sb c (wrIndir sb c z1 e z) (.leaf i e) z where
  val := by
    have hvalid : (Slot.ind i).Valid sb := hi
    have hdouble : ∀ j, entryAt sb (wrIndir sb c z1 e z) (c.rip.zone (sb.ndzones + 1)) j =
        entryAt sb c (c.rip.zone (sb.ndzones + 1)) j := by
      intro j
      refine entryAt_congr (fun hne => setBlock_ne _ _ _ ?_) j
      exact hz1 ▸ h.ne valid_double hvalid (by simp) hne
    intro s' hs'
    cases s' with
    | top j => simp [slotVal, wrIndir]
    | single e' =>
        have hval : slotVal sb (wrIndir sb c z1 e z) (.single e') = slotVal sb c (.single e') := by
          refine entryAt_congr (fun hne => setBlock_ne _ _ _ ?_) e'
          exact hz1 ▸ h.ne valid_single hvalid (by simp) hne
        simpa using hval
    | ind j =>
        have hval : slotVal sb (wrIndir sb c z1 e z) (.ind j) = slotVal sb c (.ind j) := hdouble j
        simpa using hval
    | leaf j e' =>
        have hleaf : slotVal sb (wrIndir sb c z1 e z) (.leaf j e') =
            entryAt sb (wrIndir sb c z1 e z) (slotVal sb c (.ind j)) e' :=
          congrArg (fun x => entryAt sb (wrIndir sb c z1 e z) x e') (hdouble j)
        rw [hleaf]
        by_cases hj : j = i
        · subst hj
          rw [hz1]
          by_cases he : e' = e
          · subst he
            simp [entryAt, wrIndir, hblock, word_setWord_self _ e' hz.lt_word]
          · have hold : slotVal sb c (.leaf j e') = entryAt sb c z1 e' :=
              congrArg (fun x => entryAt sb c x e') hz1
            have hne' : (Slot.leaf j e') ≠ .leaf j e := by simp [he]
            rw [if_neg hne', hold]
            simp [entryAt, wrIndir, hblock, word_setWord_ne _ z he]
        · have hne' : (Slot.leaf j e') ≠ .leaf i e := by simp [hj]
          rw [if_neg hne']
          refine entryAt_congr (fun hne => setBlock_ne _ _ _ ?_) e'
          exact hz1 ▸ h.ne (s := .ind j) hs'.1 hvalid (by simp [hj]) hne
  data := by
    have hvalid : (Slot.ind i).Valid sb := hi
    intro s' hs' hdata hne
    refine setBlock_ne _ _ _ (hz1 ▸ h.ne hs' hvalid ?_ hne)
    intro heq
    subst heq
    simp [Slot.IsData] at hdata
  used := rfl
  mode := rfl
  size := rfl

/-! ## Reading the map -/

/-- The zone of the `k`-th block of the file. -/
def fileZone (sb : SuperBlock) (c : Core) (k : Nat) : Nat :=
  if (slotOf sb k).Valid sb then slotVal sb c (slotOf sb k) else NO_ZONE

theorem fileZone_congr (hval : ∀ s : Slot, s.Valid sb → slotVal sb c' s = slotVal sb c s) (k : Nat) :
    fileZone sb c' k = fileZone sb c k := by
  by_cases hk : (slotOf sb k).Valid sb
  · simp only [fileZone, hk, if_true]
    exact hval _ hk
  · simp [fileZone, hk]

theorem slotOf_isData (sb : SuperBlock) (k : Nat) : (slotOf sb k).IsData sb := by
  by_cases hk : k < sb.ndzones
  · simp [slotOf, hk, Slot.IsData]
  · by_cases he : k - sb.ndzones < sb.nindirs
    · simp [slotOf, hk, he, Slot.IsData]
    · simp [slotOf, hk, he, Slot.IsData]

/-- The block of a file that a data slot stands for. -/
def Slot.block (sb : SuperBlock) : Slot → Nat
  | .top k => k
  | .single e => sb.ndzones + e
  | .ind _ => 0
  | .leaf i e => sb.ndzones + sb.nindirs + (sb.nindirs * i + e)

theorem block_slotOf (sb : SuperBlock) (k : Nat) : (slotOf sb k).block sb = k := by
  by_cases hk : k < sb.ndzones
  · simp [slotOf, hk, Slot.block]
  · by_cases he : k - sb.ndzones < sb.nindirs
    · have hsum : sb.ndzones + (k - sb.ndzones) = k := by omega
      simp [slotOf, hk, he, Slot.block, hsum]
    · have hdiv := Nat.div_add_mod (k - sb.ndzones - sb.nindirs) sb.nindirs
      simp only [slotOf, hk, he, if_false, Slot.block, hdiv]
      omega

/-- Different blocks of a file have different slots. -/
theorem slotOf_inj {k j : Nat} (h : slotOf sb k = slotOf sb j) : k = j := by
  rw [← block_slotOf sb k, h, block_slotOf]

/-- The blocks that have a slot. -/
theorem valid_slotOf_iff (sb : SuperBlock) (k : Nat) :
    (slotOf sb k).Valid sb ↔ k < sb.ndzones + sb.nindirs + sb.nindirs * sb.nindirs := by
  by_cases hk : k < sb.ndzones
  · have hslot : slotOf sb k = .top k := if_pos hk
    rw [hslot]
    exact iff_of_true (Nat.lt_add_right 2 hk) (by omega)
  · by_cases he : k - sb.ndzones < sb.nindirs
    · have hslot : slotOf sb k = .single (k - sb.ndzones) := by simp [slotOf, hk, he]
      rw [hslot]
      exact iff_of_true he (by omega)
    · have hmod := Nat.mod_lt (k - sb.ndzones - sb.nindirs) sb.nindirs_pos
      simp only [slotOf, hk, he, if_false, Slot.Valid, hmod, and_true]
      rw [Nat.div_lt_iff_lt_mul sb.nindirs_pos]
      omega

theorem rdIndir_eq {block : Bytes} {e : Nat} (he : e < sb.nindirs)
    (hlegal : word block e ≠ NO_ZONE →
      sb.s_firstdatazone ≤ word block e ∧ word block e < sb.s_zones) :
    rdIndir sb block e = some (word block e) := by
  have hnot : ¬ (word block e ≠ NO_ZONE ∧
      (word block e < sb.s_firstdatazone ∨ sb.s_zones ≤ word block e)) := by
    rintro ⟨hne, hbad⟩
    have hok := hlegal hne
    omega
  simp [rdIndir, Nat.not_le.2 he, hnot]

/-- A read through an indirect block that the map knows. -/
theorem MapOk.rdIndir (h : MapOk sb c) {s : Slot} (hs : s.Valid sb) {z e : Nat}
    (hval : slotVal sb c s = entryAt sb c z e) (hz : z ≠ NO_ZONE) (he : e < sb.nindirs) :
    Mfs.rdIndir sb (c.disk sb.s_dev z) e = some (slotVal sb c s) := by
  have hword : slotVal sb c s = word (c.disk sb.s_dev z) e := by simp [hval, entryAt, hz]
  rw [hword]
  apply rdIndir_eq he
  rw [← hword]
  exact h.legal s hs

theorem MapOk.readSingle (h : MapOk sb c) (hscale : sb.s_log_zone_size = 0) {s : Slot}
    (hs : s.Valid sb) {z e : Nat} (hval : slotVal sb c s = entryAt sb c z e)
    (he : e < sb.nindirs) : Mfs.readSingle sb c z e 0 = some (slotVal sb c s) := by
  by_cases hz : z = NO_ZONE
  · simp [Mfs.readSingle, hz, hval, entryAt, NO_ZONE, NO_BLOCK]
  · have hread := h.rdIndir hs hval hz he
    simp only [Mfs.readSingle, hz, if_false, hscale, Nat.shiftLeft_zero, hread, Option.map_some]
    by_cases hzero : slotVal sb c s = NO_ZONE
    · simp [hzero, NO_ZONE, NO_BLOCK]
    · simp [hzero]

/-- `read_map` finds the zone of the block, for every block the map can hold. -/
theorem MapOk.readMap (h : MapOk sb c) (hscale : sb.s_log_zone_size = 0) {position : Nat}
    (hvalid : (slotOf sb (position / sb.s_block_size)).Valid sb) :
    Mfs.readMap sb c position = some (fileZone sb c (position / sb.s_block_size)) := by
  generalize hk : position / sb.s_block_size = k at hvalid
  have hfile : fileZone sb c k = slotVal sb c (slotOf sb k) := if_pos hvalid
  rw [hfile]
  simp only [Mfs.readMap, hk, hscale, Nat.shiftRight_zero, Nat.shiftLeft_zero, Nat.sub_self,
    Nat.add_zero]
  by_cases hdirect : k < sb.ndzones
  · simp only [hdirect, if_true, slotOf, slotVal]
    by_cases hz : c.rip.zone k = NO_ZONE
    · simp [hz, NO_ZONE, NO_BLOCK]
    · simp [hz]
  · by_cases hsingle : k - sb.ndzones < sb.nindirs
    · simp only [slotOf, hdirect, hsingle, if_false, if_true] at hvalid ⊢
      exact h.readSingle hscale hvalid rfl hsingle
    · simp only [slotOf, hdirect, hsingle, if_false] at hvalid ⊢
      have hindex : ¬ sb.nindirs < (k - sb.ndzones - sb.nindirs) / sb.nindirs := by
        have := hvalid.1
        omega
      by_cases hz : c.rip.zone (sb.ndzones + 1) = NO_ZONE
      · simp [hz, slotVal, entryAt, NO_ZONE, NO_BLOCK]
      · have hread := h.rdIndir (s := .ind ((k - sb.ndzones - sb.nindirs) / sb.nindirs)) hvalid.1
          rfl hz hvalid.1
        simp only [hz, if_false, hindex, hread, Option.bind_some]
        exact h.readSingle hscale hvalid rfl hvalid.2

/-! ## Allocating -/

/-- What `alloc_zone` promises: a zone that is not marked, between the first data zone and the end of
the device. -/
structure AllocOk (env : Env) (sb : SuperBlock) : Prop where
  unused : ∀ used z z', env.alloc used z = some z' → used z' = false
  first : ∀ used z z', env.alloc used z = some z' → sb.s_firstdatazone ≤ z'
  last : ∀ used z z', env.alloc used z = some z' → z' < sb.s_zones

/-- `c'` is `c` with more indirect blocks: no data slot and no data block is different. -/
structure Extends (sb : SuperBlock) (c c' : Core) : Prop where
  map : MapOk sb c'
  val : ∀ s : Slot, s.Valid sb → s.IsData sb → slotVal sb c' s = slotVal sb c s
  data : ∀ s : Slot, s.Valid sb → s.IsData sb → slotVal sb c s ≠ NO_ZONE →
    c'.disk sb.s_dev (slotVal sb c s) = c.disk sb.s_dev (slotVal sb c s)
  loose : ∀ x, Loose sb c x → Loose sb c' x
  mode : c'.rip.i_mode = c.rip.i_mode
  size : c'.rip.i_size = c.rip.i_size

theorem Extends.refl (h : MapOk sb c) : Extends sb c c :=
  ⟨h, fun _ _ _ => rfl, fun _ _ _ _ => rfl, fun _ hx => hx, rfl, rfl⟩

theorem Extends.trans {c₁ c₂ : Core} (h : Extends sb c c₁) (h' : Extends sb c₁ c₂) :
    Extends sb c c₂ where
  map := h'.map
  val := fun s hs hdata => (h'.val s hs hdata).trans (h.val s hs hdata)
  data := by
    intro s hs hdata hne
    have hval := h.val s hs hdata
    have hsame := h'.data s hs hdata (by rwa [hval])
    rw [hval] at hsame
    exact hsame.trans (h.data s hs hdata hne)
  loose := fun x hx => h'.loose x (h.loose x hx)
  mode := h'.mode.trans h.mode
  size := h'.size.trans h.size

theorem slotVal_setUsed (c : Core) (z : Nat) (v : Bool) (s : Slot) :
    slotVal sb (c.setUsed z v) s = slotVal sb c s := by
  cases s <;> rfl

section Alloc

variable {env : Env}

theorem allocZone_some (ha : AllocOk env sb) {hint : Nat} (h : allocZone env c hint = some (z, c')) :
    c' = c.setUsed z true ∧ c.used z = false ∧ sb.s_firstdatazone ≤ z ∧ z < sb.s_zones := by
  rcases Option.map_eq_some_iff.1 h with ⟨z', halloc, heq⟩
  have hpair : z' = z ∧ c.setUsed z' true = c' := by simpa using heq
  rcases hpair with ⟨rfl, rfl⟩
  exact ⟨rfl, ha.unused _ _ _ halloc, ha.first _ _ _ halloc, ha.last _ _ _ halloc⟩

theorem MapOk.setUsed (h : MapOk sb c) (z : Nat) : MapOk sb (c.setUsed z true) where
  inj := by
    intro s s' hs hs' hne heq
    rw [slotVal_setUsed] at hne heq
    rw [slotVal_setUsed] at heq
    exact h.inj s s' hs hs' hne heq
  legal := by
    intro s hs hne
    rw [slotVal_setUsed] at hne ⊢
    exact h.legal s hs hne
  marked := by
    intro s hs hne
    rw [slotVal_setUsed] at hne ⊢
    by_cases heq : slotVal sb c s = z
    · simp [Core.setUsed, heq]
    · simpa [Core.setUsed, heq] using h.marked s hs hne

/-- A zone just allocated is loose. -/
theorem MapOk.loose_alloc (h : MapOk sb c) (hunused : c.used z = false)
    (hfirst : sb.s_firstdatazone ≤ z) (hlast : z < sb.s_zones) :
    Loose sb (c.setUsed z true) z where
  first := hfirst
  last := hlast
  marked := by simp [Core.setUsed]
  unlinked := by
    intro s hs heq
    rw [slotVal_setUsed] at heq
    have hpos := sb.firstdatazone_pos
    have hne : slotVal sb c s ≠ NO_ZONE := by
      rw [heq, NO_ZONE]
      omega
    have hmarked := h.marked s hs hne
    rw [heq, hunused] at hmarked
    exact absurd hmarked (by simp)

theorem Loose.alloc {x : Nat} (hx : Loose sb c x) (z : Nat) : Loose sb (c.setUsed z true) x where
  first := hx.first
  last := hx.last
  marked := by
    by_cases heq : x = z
    · simp [Core.setUsed, heq]
    · simpa [Core.setUsed, heq] using hx.marked
  unlinked := by
    intro s hs
    rw [slotVal_setUsed]
    exact hx.unlinked s hs

theorem Loose.ne_unused {x : Nat} (hx : Loose sb c x) (hunused : c.used z = false) : x ≠ z := by
  intro heq
  have := hx.marked
  rw [heq, hunused] at this
  exact absurd this (by simp)

/-- Allocating a zone for an indirect block and linking it. -/
theorem Extends.alloc (h : MapOk sb c) (hunused : c.used z = false)
    (hz : Loose sb (c.setUsed z true) z) (hs : ¬ s.IsData sb)
    (hl : Linked sb (c.setUsed z true) c' s z) : Extends sb c c' where
  map := (h.setUsed z).link hz hl
  val := by
    intro s' hs' hdata
    have hne : s' ≠ s := fun heq => hs (heq ▸ hdata)
    rw [hl.val s' hs', if_neg hne, slotVal_setUsed]
  data := by
    intro s' hs' hdata hne
    have hsame := hl.data s' hs' hdata (by rwa [slotVal_setUsed])
    rw [slotVal_setUsed] at hsame
    exact hsame
  loose := fun x hx => (hx.alloc z).link (hx.ne_unused hunused) hl
  mode := hl.mode
  size := hl.size

end Alloc

/-! ## Mapping a zone -/

/-- `c'` is `c` with the zone `z` for block `k` of the file. -/
structure Mapped (sb : SuperBlock) (c c' : Core) (k z : Nat) : Prop where
  map : MapOk sb c'
  valid : (slotOf sb k).Valid sb
  zone : ∀ j, fileZone sb c' j = if j = k then z else fileZone sb c j
  data : ∀ j, fileZone sb c j ≠ NO_ZONE →
    c'.disk sb.s_dev (fileZone sb c j) = c.disk sb.s_dev (fileZone sb c j)
  mode : c'.rip.i_mode = c.rip.i_mode
  size : c'.rip.i_size = c.rip.i_size

/-- Indirect blocks first, then the entry of the data zone. -/
theorem Extends.mapped {c₁ : Core} (h : Extends sb c c₁) (hz : Loose sb c z) {k : Nat}
    (hvalid : (slotOf sb k).Valid sb) (hl : Linked sb c₁ c' (slotOf sb k) z) :
    Mapped sb c c' k z where
  map := h.map.link (h.loose z hz) hl
  valid := hvalid
  zone := by
    intro j
    by_cases hj : (slotOf sb j).Valid sb
    · have hslot : (slotOf sb j = slotOf sb k) ↔ j = k :=
        ⟨slotOf_inj, fun heq => by rw [heq]⟩
      simp only [fileZone, hj, if_true]
      rw [hl.val _ hj, h.val _ hj (slotOf_isData sb j)]
      simp only [hslot]
    · have hne : j ≠ k := fun heq => hj (heq ▸ hvalid)
      simp [fileZone, hj, hne]
  data := by
    intro j hne
    by_cases hj : (slotOf sb j).Valid sb
    · have hfile : fileZone sb c j = slotVal sb c (slotOf sb j) := if_pos hj
      have hdata := slotOf_isData sb j
      rw [hfile] at hne ⊢
      have hval := h.val _ hj hdata
      have hlater := hl.data _ hj hdata (by rwa [hval])
      rw [hval] at hlater
      exact hlater.trans (h.data _ hj hdata hne)
    · simp [fileZone, hj] at hne
  mode := hl.mode.trans h.mode
  size := hl.size.trans h.size

/-- Only the zones, the blocks, the mode and the size of the first core matter. -/
theorem Mapped.of_same {c₁ : Core} {k : Nat} (h : Mapped sb c₁ c' k z)
    (hzone : ∀ j, fileZone sb c₁ j = fileZone sb c j) (hdisk : c₁.disk = c.disk)
    (hmode : c₁.rip.i_mode = c.rip.i_mode) (hsize : c₁.rip.i_size = c.rip.i_size) :
    Mapped sb c c' k z where
  map := h.map
  valid := h.valid
  zone := fun j => by rw [h.zone j, hzone j]
  data := by
    intro j hne
    have hdata := h.data j (by rwa [hzone j])
    rwa [hzone j, hdisk] at hdata
  mode := h.mode.trans hmode
  size := h.size.trans hsize

/-! ## Writing data -/

/-- Cores with the same slots and bit map are the same to the zone map. -/
theorem MapOk.congr (h : MapOk sb c)
    (hval : ∀ s : Slot, s.Valid sb → slotVal sb c' s = slotVal sb c s) (hused : c'.used = c.used) :
    MapOk sb c' where
  inj := by
    intro s s' hs hs' hne heq
    rw [hval s hs] at hne heq
    rw [hval s' hs'] at heq
    exact h.inj s s' hs hs' hne heq
  legal := by
    intro s hs hne
    rw [hval s hs] at hne ⊢
    exact h.legal s hs hne
  marked := by
    intro s hs hne
    rw [hval s hs] at hne ⊢
    rw [hused]
    exact h.marked s hs hne

theorem Loose.congr (h : Loose sb c z)
    (hval : ∀ s : Slot, s.Valid sb → slotVal sb c' s = slotVal sb c s) (hused : c'.used = c.used) :
    Loose sb c' z where
  first := h.first
  last := h.last
  marked := by rw [hused]; exact h.marked
  unlinked := by
    intro s hs
    rw [hval s hs]
    exact h.unlinked s hs

/-- A data block is no indirect block: writing it leaves all slots alone. -/
theorem MapOk.slotVal_setBlock (h : MapOk sb c) {s : Slot} (hs : s.Valid sb) (hdata : s.IsData sb)
    (data : Bytes) :
    ∀ s' : Slot, s'.Valid sb →
      slotVal sb (c.setBlock sb.s_dev (slotVal sb c s) data) s' = slotVal sb c s' := by
  have hblock : ∀ m : Slot, m.Valid sb → ¬ m.IsData sb → slotVal sb c m ≠ NO_ZONE →
      (c.setBlock sb.s_dev (slotVal sb c s) data).disk sb.s_dev (slotVal sb c m) =
        c.disk sb.s_dev (slotVal sb c m) := by
    intro m hm hmeta hmne
    exact setBlock_ne _ _ _ (h.ne hm hs (fun heq => hmeta (heq ▸ hdata)) hmne)
  have hsingle : ¬ (Slot.top sb.ndzones).IsData sb := Nat.lt_irrefl _
  have hdouble : ¬ (Slot.top (sb.ndzones + 1)).IsData sb := Nat.not_lt_of_ge (Nat.le_succ _)
  intro s' hs'
  cases s' with
  | top k => rfl
  | single e => exact entryAt_congr (hblock _ valid_single hsingle) e
  | ind i => exact entryAt_congr (hblock _ valid_double hdouble) i
  | leaf i e =>
      have hind : slotVal sb (c.setBlock sb.s_dev (slotVal sb c s) data) (.ind i) =
          slotVal sb c (.ind i) := entryAt_congr (hblock _ valid_double hdouble) i
      have hentry : entryAt sb (c.setBlock sb.s_dev (slotVal sb c s) data) (slotVal sb c (.ind i)) e =
          entryAt sb c (slotVal sb c (.ind i)) e :=
        entryAt_congr (hblock (.ind i) hs'.1 id) e
      calc
        slotVal sb (c.setBlock sb.s_dev (slotVal sb c s) data) (.leaf i e)
            = entryAt sb (c.setBlock sb.s_dev (slotVal sb c s) data)
                (slotVal sb (c.setBlock sb.s_dev (slotVal sb c s) data) (.ind i)) e := rfl
        _ = entryAt sb (c.setBlock sb.s_dev (slotVal sb c s) data) (slotVal sb c (.ind i)) e := by
          rw [hind]
        _ = slotVal sb c (.leaf i e) := hentry

/-- Writing the block of the file's block `k` changes neither the map nor the other blocks. -/
structure DataWrite (sb : SuperBlock) (c c' : Core) (k : Nat) (data : Bytes) : Prop where
  map : MapOk sb c'
  zone : ∀ j, fileZone sb c' j = fileZone sb c j
  self : c'.disk sb.s_dev (fileZone sb c k) = data
  other : ∀ j, j ≠ k → fileZone sb c j ≠ NO_ZONE →
    c'.disk sb.s_dev (fileZone sb c j) = c.disk sb.s_dev (fileZone sb c j)
  rip : c'.rip = c.rip

theorem MapOk.dataWrite (h : MapOk sb c) {k : Nat} (hne : fileZone sb c k ≠ NO_ZONE)
    (data : Bytes) :
    DataWrite sb c (c.setBlock sb.s_dev (fileZone sb c k) data) k data := by
  have hk : (slotOf sb k).Valid sb := by
    by_contra hk
    simp [fileZone, hk] at hne
  have hfile : fileZone sb c k = slotVal sb c (slotOf sb k) := if_pos hk
  have hval := h.slotVal_setBlock hk (slotOf_isData sb k) data
  rw [← hfile] at hval
  refine ⟨h.congr hval rfl, ?_, setBlock_self _ _ _ _, ?_, rfl⟩
  · exact fileZone_congr hval
  · intro j hjk hjne
    have hj : (slotOf sb j).Valid sb := by
      by_contra hj
      simp [fileZone, hj] at hjne
    have hfilej : fileZone sb c j = slotVal sb c (slotOf sb j) := if_pos hj
    refine setBlock_ne _ _ _ ?_
    rw [hfile, hfilej]
    rw [hfilej] at hjne
    exact h.ne hj hk (fun heq => hjk (slotOf_inj heq)) hjne

end ZoneMap

end Mfs
end OsLab
