import OsLab.Mfs.ZoneMap

/-!
# NewBlock — mapping a new block

What `write_map` and `new_block` do when they succeed: the block gets a zone of its own, no other
block of the file changes its zone or its content, and the new block reads as zeros.
-/

namespace OsLab
namespace Mfs

open OsLab.Lib

section NewBlock

variable {env : Env} {sb : SuperBlock} {c c' : Core} {k z : Nat}

/-! ## What the functions can do -/

/-- Every way through `doubleIndirect` when nothing is freed. -/
theorem doubleIndirect_cases {indEx : Nat} {res : Except Int (Holder × Nat)}
    (h : doubleIndirect env sb c indEx false = some (res, c')) :
    (c.rip.zone (sb.ndzones + 1) = NO_ZONE ∧
      ((res = .error ENOSPC ∧ c' = c) ∨
        ∃ z c₁, allocZone env c (c.rip.zone 0) = some (z, c₁) ∧
          ((res = .error EFBIG ∧ c' = { c₁ with rip := c₁.rip.setZone (sb.ndzones + 1) z }) ∨
            indEx < sb.nindirs ∧
              c' = zeroBlock { c₁ with rip := c₁.rip.setZone (sb.ndzones + 1) z } sb.s_dev
                (z <<< sb.s_log_zone_size) ∧
              ∃ z1, rdIndir sb (c'.disk sb.s_dev (z <<< sb.s_log_zone_size)) indEx = some z1 ∧
                res = .ok (.entry (z <<< sb.s_log_zone_size) indEx, z1)))) ∨
      (c.rip.zone (sb.ndzones + 1) ≠ NO_ZONE ∧ c' = c ∧
        (res = .error EFBIG ∨
          indEx < sb.nindirs ∧
            ∃ z1, rdIndir sb
                (c.disk sb.s_dev (c.rip.zone (sb.ndzones + 1) <<< sb.s_log_zone_size)) indEx =
                  some z1 ∧
              res = .ok (.entry (c.rip.zone (sb.ndzones + 1) <<< sb.s_log_zone_size) indEx, z1))) := by
  simp only [doubleIndirect] at h
  -- The inode has no double indirect block yet, or it has one.
  by_cases hzone : c.rip.zone (sb.ndzones + 1) = NO_ZONE
  · simp only [hzone, true_and, if_true] at h
    refine .inl ⟨hzone, ?_⟩
    cases halloc : allocZone env c (c.rip.zone 0) with
    | none =>
        simp only [halloc, Option.some.injEq, Prod.mk.injEq] at h
        exact .inl ⟨h.1.symm, h.2.symm⟩
    | some x =>
        rcases x with ⟨z, c₁⟩
        refine .inr ⟨z, c₁, rfl, ?_⟩
        simp only [halloc] at h
        by_cases hindex : sb.nindirs ≤ indEx
        · simp only [hindex, if_true, Option.some.injEq, Prod.mk.injEq] at h
          exact .inl ⟨h.1.symm, h.2.symm⟩
        · simp only [hindex, if_false] at h
          rcases Option.map_eq_some_iff.1 h with ⟨z1, hread, heq⟩
          cases heq
          exact .inr ⟨Nat.lt_of_not_le hindex, rfl, z1, hread, rfl⟩
  · simp only [hzone, false_and, if_false] at h
    refine .inr ⟨hzone, ?_⟩
    by_cases hindex : sb.nindirs ≤ indEx
    · simp only [hindex, if_true, Option.some.injEq, Prod.mk.injEq] at h
      exact ⟨h.2.symm, .inl h.1.symm⟩
    · simp only [hindex, if_false] at h
      rcases Option.map_eq_some_iff.1 h with ⟨z1, hread, heq⟩
      cases heq
      exact ⟨rfl, .inr ⟨Nat.lt_of_not_le hindex, z1, hread, rfl⟩⟩

/-- Every way through `mapSingle`. -/
theorem mapSingle_cases {holder : Holder} {z1 ex newZone : Nat} {r : Int}
    (h : mapSingle env sb c holder z1 ex newZone = (r, c')) :
    (z1 = NO_ZONE ∧
      ((r = ENOSPC ∧ c' = holder.store sb c NO_ZONE) ∨
        r = OK ∧ ∃ z c₁, allocZone env c (c.rip.zone 0) = some (z, c₁) ∧
          c' = wrIndir sb
            (zeroBlock (holder.store sb c₁ z) sb.s_dev (z <<< sb.s_log_zone_size))
            (z <<< sb.s_log_zone_size) ex newZone)) ∨
      (z1 ≠ NO_ZONE ∧ r = OK ∧ c' = wrIndir sb c (z1 <<< sb.s_log_zone_size) ex newZone) := by
  simp only [mapSingle] at h
  by_cases hz1 : z1 = NO_ZONE
  · simp only [hz1, if_true] at h
    refine .inl ⟨hz1, ?_⟩
    cases halloc : allocZone env c (c.rip.zone 0) with
    | none =>
        simp only [halloc, Prod.mk.injEq] at h
        exact .inl ⟨h.1.symm, h.2.symm⟩
    | some x =>
        rcases x with ⟨z, c₁⟩
        simp only [halloc, Prod.mk.injEq] at h
        exact .inr ⟨h.1.symm, z, c₁, rfl, h.2.symm⟩
  · simp only [hz1, if_false, Prod.mk.injEq] at h
    exact .inr ⟨hz1, h.1.symm, h.2.symm⟩

/-- Every way through `write_map` when nothing is freed; `zone` is the zone of the file. -/
theorem writeMap_cases {position zone newZone : Nat} {r : Int}
    (hzone : (position / sb.s_block_size) >>> sb.s_log_zone_size = zone)
    (h : writeMap env sb c position newZone false = some (r, c')) :
    (c.rip.type = I_IMMEDIATE ∧ r = OK ∧ c' = c) ∨
      c.rip.type ≠ I_IMMEDIATE ∧
        ((zone < sb.ndzones ∧ r = OK ∧ c' = { c with rip := c.rip.setZone zone newZone }) ∨
          ¬ zone < sb.ndzones ∧
            ((zone - sb.ndzones < sb.nindirs ∧
              mapSingle env sb c .inode (c.rip.zone sb.ndzones) (zone - sb.ndzones) newZone =
                (r, c')) ∨
              ¬ zone - sb.ndzones < sb.nindirs ∧
                ∃ res c₁, doubleIndirect env sb c
                    ((zone - sb.ndzones - sb.nindirs) / sb.nindirs) false = some (res, c₁) ∧
                  ((res = .error r ∧ c' = c₁) ∨
                    ∃ holder z1, res = .ok (holder, z1) ∧
                      mapSingle env sb c₁ holder z1
                        ((zone - sb.ndzones - sb.nindirs) % sb.nindirs) newZone = (r, c')))) := by
  simp only [writeMap, hzone] at h
  by_cases himm : c.rip.type = I_IMMEDIATE
  · simp only [himm, if_true, Option.some.injEq, Prod.mk.injEq] at h
    exact .inl ⟨himm, h.1.symm, h.2.symm⟩
  · simp only [himm, if_false] at h
    refine .inr ⟨himm, ?_⟩
    by_cases hdirect : zone < sb.ndzones
    · simp only [hdirect, if_true, Bool.false_eq_true, and_false, if_false, Option.some.injEq,
        Prod.mk.injEq] at h
      exact .inl ⟨hdirect, h.1.symm, h.2.symm⟩
    · simp only [hdirect, if_false] at h
      refine .inr ⟨hdirect, ?_⟩
      by_cases hsingle : zone - sb.ndzones < sb.nindirs
      · simp only [hsingle, if_true, Bool.false_eq_true, if_false, Option.some.injEq] at h
        exact .inl ⟨hsingle, h⟩
      · simp only [hsingle, if_false] at h
        rcases Option.bind_eq_some_iff.1 h with ⟨⟨res, c₁⟩, hdouble, hrest⟩
        refine .inr ⟨hsingle, res, c₁, hdouble, ?_⟩
        cases res with
        | error r' =>
            simp only [Option.some.injEq, Prod.mk.injEq] at hrest
            exact .inl ⟨by rw [hrest.1], hrest.2.symm⟩
        | ok x =>
            simp only [Bool.false_eq_true, if_false, Option.some.injEq] at hrest
            exact .inr ⟨x.1, x.2, rfl, hrest⟩

/-- Every way through `new_block`. -/
theorem newBlock_cases {position : Nat} {res : Except Int Nat}
    (h : newBlock env sb c position = some (res, c')) :
    (∃ b, b ≠ NO_BLOCK ∧ readMap sb c position = some b ∧ res = .ok b ∧
      c' = zeroBlock c sb.s_dev b) ∨
      readMap sb c position = some NO_BLOCK ∧
        ((res = .error ENOSPC ∧ c' = c) ∨
          ∃ hint z c₁ r c₂, allocZone env c hint = some (z, c₁) ∧
            writeMap env sb { c₁ with rip := { c₁.rip with i_zsearch := z } } position z false =
              some (r, c₂) ∧
            ((r ≠ OK ∧ res = .error r ∧ c' = freeZone c₂ z) ∨
              r = OK ∧ ∃ b,
                b = (z <<< sb.s_log_zone_size) +
                  (position % (sb.s_block_size <<< sb.s_log_zone_size)) / sb.s_block_size ∧
                res = .ok b ∧ c' = zeroBlock c₂ sb.s_dev b)) := by
  rcases Option.bind_eq_some_iff.1 h with ⟨b, hread, hrest⟩
  by_cases hb : b = NO_BLOCK
  · simp only [hb, if_true] at hrest
    refine .inr ⟨hb ▸ hread, ?_⟩
    -- Where the search for a free zone starts plays no part.
    generalize (if c.rip.i_zsearch = NO_ZONE then
      if c.rip.zone 0 = NO_ZONE then sb.s_firstdatazone else c.rip.zone 0
      else c.rip.i_zsearch) = hint at hrest
    cases halloc : allocZone env c hint with
    | none =>
        simp only [halloc, Option.some.injEq, Prod.mk.injEq] at hrest
        exact .inl ⟨hrest.1.symm, hrest.2.symm⟩
    | some x =>
        rcases x with ⟨z, c₁⟩
        simp only [halloc] at hrest
        rcases Option.bind_eq_some_iff.1 hrest with ⟨⟨r, c₂⟩, hmap, hlast⟩
        refine .inr ⟨hint, z, c₁, r, c₂, halloc, hmap, ?_⟩
        by_cases hr : r = OK
        · simp only [hr, ne_eq, not_true, if_false] at hlast
          rcases Option.map_eq_some_iff.1 hlast with ⟨_, _, heq⟩
          cases heq
          exact .inr ⟨hr, _, rfl, rfl, rfl⟩
        · simp only [ne_eq, hr, not_false_iff, if_true, Option.some.injEq, Prod.mk.injEq] at hlast
          exact .inl ⟨hr, hlast.1.symm, hlast.2.symm⟩
  · simp only [hb, if_false, Option.some.injEq, Prod.mk.injEq] at hrest
    exact .inl ⟨b, hb, hread, hrest.1.symm, hrest.2.symm⟩

/-! ## Indirect blocks -/

theorem not_isData_single : ¬ (Slot.top sb.ndzones).IsData sb :=
  Nat.lt_irrefl _

theorem not_isData_double : ¬ (Slot.top (sb.ndzones + 1)).IsData sb :=
  Nat.not_lt_of_ge (Nat.le_succ _)

theorem not_isData_ind (i : Nat) : ¬ (Slot.ind i).IsData sb :=
  id

/-- A new single indirect block in the inode. -/
theorem extends_single (h : MapOk sb c) (hunused : c.used z = false)
    (hz : Loose sb (c.setUsed z true) z) (hempty : c.rip.zone sb.ndzones = NO_ZONE) :
    Extends sb c (zeroBlock (Holder.inode.store sb (c.setUsed z true) z) sb.s_dev z) :=
  Extends.alloc h hunused hz not_isData_single (link_single_block hz hempty)

/-- A new double indirect block in the inode. -/
theorem extends_double (h : MapOk sb c) (hunused : c.used z = false)
    (hz : Loose sb (c.setUsed z true) z) (hempty : c.rip.zone (sb.ndzones + 1) = NO_ZONE) :
    Extends sb c
      (zeroBlock
        { c.setUsed z true with rip := (c.setUsed z true).rip.setZone (sb.ndzones + 1) z }
        sb.s_dev z) :=
  Extends.alloc h hunused hz not_isData_double (link_double_block hz hempty)

/-- A new single indirect block below the double indirect one. -/
theorem extends_ind (h : MapOk sb c) (hunused : c.used z = false)
    (hz : Loose sb (c.setUsed z true) z) {i : Nat} (hblock : c.rip.zone (sb.ndzones + 1) ≠ NO_ZONE)
    (hempty : slotVal sb c (.ind i) = NO_ZONE) :
    Extends sb c
      (zeroBlock
        ((Holder.entry (c.rip.zone (sb.ndzones + 1)) i).store sb (c.setUsed z true) z)
        sb.s_dev z) := by
  have hempty' : slotVal sb (c.setUsed z true) (.ind i) = NO_ZONE := by
    rw [slotVal_setUsed]
    exact hempty
  exact Extends.alloc h hunused hz (not_isData_ind i) (link_ind_block (h.setUsed z) hz hblock hempty')

/-- `doubleIndirect` when nothing is freed: the double indirect block is there afterwards. -/
theorem doubleIndirect_ok (hscale : sb.s_log_zone_size = 0) (ha : AllocOk env sb) (h : MapOk sb c)
    {indEx : Nat} {holder : Holder} {z1 : Nat}
    (hok : doubleIndirect env sb c indEx false = some (.ok (holder, z1), c')) :
    Extends sb c c' ∧ indEx < sb.nindirs ∧ c'.rip.zone (sb.ndzones + 1) ≠ NO_ZONE ∧
      holder = .entry (c'.rip.zone (sb.ndzones + 1)) indEx ∧ slotVal sb c' (.ind indEx) = z1 := by
  rcases doubleIndirect_cases hok with
    ⟨hzone, ⟨hres, _⟩ | ⟨z, c₁, halloc, ⟨hres, _⟩ | ⟨hlt, hc', z1', hread, hres⟩⟩⟩ |
      ⟨hzone, rfl, hres | ⟨hlt, z1', hread, hres⟩⟩
  · cases hres
  · cases hres
  · -- The block is new, so its entry is empty.
    cases hres
    rcases allocZone_some ha halloc with ⟨rfl, hunused, hfirst, hlast⟩
    rw [hscale, Nat.shiftLeft_zero] at hc' hread
    subst hc'
    have hz := h.loose_alloc hunused hfirst hlast
    have hext := extends_double h hunused hz hzone
    have hself : (c.rip.setZone (sb.ndzones + 1) z).zone (sb.ndzones + 1) = z :=
      zone_setZone_self c.rip (sb.ndzones + 1) hz.lt_word
    refine ⟨hext, hlt, ?_, ?_, ?_⟩
    · change (c.rip.setZone (sb.ndzones + 1) z).zone (sb.ndzones + 1) ≠ NO_ZONE
      rw [hself]
      exact hz.ne_zero
    · change Holder.entry (z <<< sb.s_log_zone_size) indEx =
        .entry ((c.rip.setZone (sb.ndzones + 1) z).zone (sb.ndzones + 1)) indEx
      rw [hself, hscale, Nat.shiftLeft_zero]
    · have hblock : (zeroBlock
          { c.setUsed z true with rip := (c.setUsed z true).rip.setZone (sb.ndzones + 1) z }
          sb.s_dev z).rip.zone (sb.ndzones + 1) = z := hself
      have hentry := hext.map.rdIndir (s := .ind indEx) hlt rfl
        (by rw [hblock]; exact hz.ne_zero) hlt
      rw [hblock, hread] at hentry
      exact (Option.some.inj hentry).symm
  · cases hres
  · cases hres
    rw [hscale, Nat.shiftLeft_zero] at hread ⊢
    have hentry := h.rdIndir (s := .ind indEx) hlt rfl hzone hlt
    rw [hread] at hentry
    exact ⟨Extends.refl h, hlt, hzone, rfl, (Option.some.inj hentry).symm⟩

/-! ## The single indirect block -/

/-- `mapSingle` for the single indirect zone of the inode. -/
theorem mapSingle_inode (hscale : sb.s_log_zone_size = 0) (ha : AllocOk env sb) (h : MapOk sb c)
    (hz : Loose sb c z) (hdirect : ¬ k < sb.ndzones) (hsingle : k - sb.ndzones < sb.nindirs)
    (hok : mapSingle env sb c .inode (c.rip.zone sb.ndzones) (k - sb.ndzones) z = (OK, c')) :
    Mapped sb c c' k z := by
  have hslot : slotOf sb k = .single (k - sb.ndzones) := by simp [slotOf, hdirect, hsingle]
  have hvalid : (slotOf sb k).Valid sb := by
    rw [hslot]
    exact hsingle
  rcases mapSingle_cases hok with ⟨hzone, ⟨hr, _⟩ | ⟨_, z', c₁, halloc, hc'⟩⟩ | ⟨hzone, _, hc'⟩
  · exact absurd hr (by decide)
  · rcases allocZone_some ha halloc with ⟨rfl, hunused, hfirst, hlast⟩
    rw [hscale, Nat.shiftLeft_zero] at hc'
    have hz' := h.loose_alloc hunused hfirst hlast
    have hext := extends_single h hunused hz' hzone
    have hself : (zeroBlock (Holder.inode.store sb (c.setUsed z' true) z') sb.s_dev z').rip.zone
        sb.ndzones = z' := zone_setZone_self c.rip sb.ndzones hz'.lt_word
    have hlink := link_single hext.map (hext.loose z hz) (e := k - sb.ndzones)
      (by rw [hself]; exact hz'.ne_zero)
    rw [hself, ← hc', ← hslot] at hlink
    exact hext.mapped hz hvalid hlink
  · rw [hscale, Nat.shiftLeft_zero] at hc'
    have hlink := link_single h hz (e := k - sb.ndzones) hzone
    rw [← hc', ← hslot] at hlink
    exact (Extends.refl h).mapped hz hvalid hlink

/-- `mapSingle` for an entry of the double indirect block. -/
theorem mapSingle_entry (hscale : sb.s_log_zone_size = 0) (ha : AllocOk env sb) (h : MapOk sb c)
    (hz : Loose sb c z) {i e : Nat} (hi : i < sb.nindirs)
    (hblock : c.rip.zone (sb.ndzones + 1) ≠ NO_ZONE)
    (hok : mapSingle env sb c (.entry (c.rip.zone (sb.ndzones + 1)) i) (slotVal sb c (.ind i)) e z =
      (OK, c')) :
    ∃ c₁, Extends sb c c₁ ∧ Linked sb c₁ c' (.leaf i e) z := by
  rcases mapSingle_cases hok with ⟨hzone, ⟨hr, _⟩ | ⟨_, z', c₁, halloc, hc'⟩⟩ | ⟨hzone, _, hc'⟩
  · exact absurd hr (by decide)
  · rcases allocZone_some ha halloc with ⟨rfl, hunused, hfirst, hlast⟩
    rw [hscale, Nat.shiftLeft_zero] at hc'
    have hz' := h.loose_alloc hunused hfirst hlast
    have hext := extends_ind h hunused hz' hblock hzone
    have hempty : slotVal sb (c.setUsed z' true) (.ind i) = NO_ZONE := by
      rw [slotVal_setUsed]
      exact hzone
    -- The entry of the double indirect block now leads to the new block.
    have hval := (link_ind_block (h.setUsed z') hz' hblock hempty).val (.ind i) hi
    rw [if_pos rfl] at hval
    have hlink := link_leaf hext.map (hext.loose z hz) (e := e) hi hval hz'.ne_zero
    exact ⟨_, hext, hc' ▸ hlink⟩
  · rw [hscale, Nat.shiftLeft_zero] at hc'
    exact ⟨c, Extends.refl h, hc' ▸ link_leaf h hz hi rfl hzone⟩

/-! ## Errors -/

/-- The errors of the functions here are negative numbers. -/
theorem doubleIndirect_error {indEx : Nat} {r : Int}
    (h : doubleIndirect env sb c indEx false = some (.error r, c')) : r < 0 := by
  have hnospc : ENOSPC < 0 := by decide
  have hfbig : EFBIG < 0 := by decide
  rcases doubleIndirect_cases h with
    ⟨_, ⟨hres, _⟩ | ⟨_, _, _, ⟨hres, _⟩ | ⟨_, _, _, _, hres⟩⟩⟩ | ⟨_, _, hres | ⟨_, _, _, hres⟩⟩
  · cases hres
    exact hnospc
  · cases hres
    exact hfbig
  · cases hres
  · cases hres
    exact hfbig
  · cases hres

theorem mapSingle_result {holder : Holder} {z1 ex : Nat} {r : Int}
    (h : mapSingle env sb c holder z1 ex z = (r, c')) : r ≤ 0 := by
  rcases mapSingle_cases h with ⟨_, ⟨rfl, _⟩ | ⟨rfl, _⟩⟩ | ⟨_, rfl, _⟩
  · decide
  · decide
  · decide

theorem writeMap_result {position : Nat} {r : Int}
    (h : writeMap env sb c position z false = some (r, c')) : r ≤ 0 := by
  have hok : OK ≤ 0 := by decide
  rcases writeMap_cases rfl h with
    ⟨_, rfl, _⟩ | ⟨_, ⟨_, rfl, _⟩ | ⟨_, ⟨_, hmap⟩ | ⟨_, res, c₁, hdouble, ⟨rfl, _⟩ | ⟨_, _, _, hmap⟩⟩⟩⟩
  · exact hok
  · exact hok
  · exact mapSingle_result hmap
  · exact Int.le_of_lt (doubleIndirect_error hdouble)
  · exact mapSingle_result hmap

theorem newBlock_error {position : Nat} {r : Int}
    (h : newBlock env sb c position = some (.error r, c')) : r < 0 := by
  rcases newBlock_cases h with
    ⟨_, _, _, hres, _⟩ | ⟨_, ⟨hres, _⟩ | ⟨_, _, _, _, _, _, hmap, ⟨hr, hres, _⟩ | ⟨_, _, _, hres, _⟩⟩⟩
  · cases hres
  · cases hres
    decide
  · cases hres
    exact Int.lt_iff_le_and_ne.2 ⟨writeMap_result hmap, hr⟩
  · cases hres

/-! ## Whole functions -/

/-- `write_map` maps the zone, if it succeeds. -/
theorem writeMap_ok (hscale : sb.s_log_zone_size = 0) (ha : AllocOk env sb) (h : MapOk sb c)
    (hz : Loose sb c z) (htype : c.rip.type ≠ I_IMMEDIATE) {position : Nat}
    (hok : writeMap env sb c position z false = some (OK, c')) :
    Mapped sb c c' (position / sb.s_block_size) z := by
  generalize hk : position / sb.s_block_size = k
  have hzone : (position / sb.s_block_size) >>> sb.s_log_zone_size = k := by
    rw [hk, hscale, Nat.shiftRight_zero]
  rcases writeMap_cases hzone hok with
    ⟨himm, _⟩ | ⟨_, ⟨hdirect, _, rfl⟩ | ⟨hdirect, ⟨hsingle, hmap⟩ | ⟨hsingle, res, c₁, hdouble, hrest⟩⟩⟩
  · exact absurd himm htype
  · have hslot : slotOf sb k = .top k := if_pos hdirect
    have hvalid : (slotOf sb k).Valid sb := by
      rw [hslot]
      exact Nat.lt_of_lt_of_le hdirect (Nat.le_add_right _ _)
    have hlink := link_direct hz hdirect
    rw [← hslot] at hlink
    exact (Extends.refl h).mapped hz hvalid hlink
  · exact mapSingle_inode hscale ha h hz hdirect hsingle hmap
  · rcases hrest with ⟨rfl, _⟩ | ⟨holder, z1, rfl, hmap⟩
    · exact absurd (doubleIndirect_error hdouble) (by decide)
    · rcases doubleIndirect_ok hscale ha h hdouble with ⟨hext, hlt, hblock, rfl, rfl⟩
      rcases mapSingle_entry hscale ha hext.map (hext.loose z hz) hlt hblock hmap with
        ⟨c₂, hext₂, hlink⟩
      have hslot : slotOf sb k = .leaf ((k - sb.ndzones - sb.nindirs) / sb.nindirs)
          ((k - sb.ndzones - sb.nindirs) % sb.nindirs) := by
        simp [slotOf, hdirect, hsingle]
      have hvalid : (slotOf sb k).Valid sb := by
        rw [hslot]
        exact ⟨hlt, Nat.mod_lt _ sb.nindirs_pos⟩
      rw [← hslot] at hlink
      exact (hext.trans hext₂).mapped hz hvalid hlink

/-- What a successful `new_block` does for a block that was not mapped. -/
structure NewBlock (sb : SuperBlock) (c c' : Core) (k b : Nat) : Prop where
  mapped : Mapped sb c c' k b
  nonzero : b ≠ NO_BLOCK
  zeroed : c'.disk sb.s_dev b = zeros

/-- Mapping a zone for an empty block and zeroing the block. -/
theorem Mapped.newBlock (h : Mapped sb c c' k z) (hempty : fileZone sb c k = NO_ZONE)
    (hz : z ≠ NO_ZONE) : NewBlock sb c (zeroBlock c' sb.s_dev z) k z := by
  have hself : fileZone sb c' k = z := by rw [h.zone k, if_pos rfl]
  have hwrite := h.map.dataWrite (k := k) (by rwa [hself]) zeros
  rw [hself] at hwrite
  refine ⟨⟨hwrite.map, h.valid, ?_, ?_, h.mode, h.size⟩, hz, setBlock_self _ _ _ _⟩
  · intro j
    rw [← h.zone j]
    exact hwrite.zone j
  · intro j hne
    have hjk : j ≠ k := fun heq => hne (heq ▸ hempty)
    have hzone : fileZone sb c' j = fileZone sb c j := by rw [h.zone j, if_neg hjk]
    have hother := hwrite.other j hjk (by rwa [hzone])
    rw [hzone] at hother
    exact hother.trans (h.data j hne)

theorem newBlock_ok (hscale : sb.s_log_zone_size = 0) (ha : AllocOk env sb) (h : MapOk sb c)
    (htype : c.rip.type ≠ I_IMMEDIATE) {position b : Nat}
    (hread : readMap sb c position = some NO_BLOCK)
    (hempty : fileZone sb c (position / sb.s_block_size) = NO_ZONE)
    (hok : newBlock env sb c position = some (.ok b, c')) :
    NewBlock sb c c' (position / sb.s_block_size) b := by
  rcases newBlock_cases hok with
    ⟨b', hb', hread', _⟩ | ⟨_, ⟨hres, _⟩ | ⟨hint, z, c₁, r, c₂, halloc, hmap, hrest⟩⟩
  · rw [hread] at hread'
    cases hread'
    exact absurd rfl hb'
  · cases hres
  · rcases allocZone_some ha halloc with ⟨rfl, hunused, hfirst, hlast⟩
    rcases hrest with ⟨_, hres, _⟩ | ⟨rfl, b', hb', hres, rfl⟩
    · cases hres
    · cases hres
      -- Remembering the zone for the next search changes no slot.
      have hsame : ∀ s : Slot, s.Valid sb → slotVal sb
          { c.setUsed z true with rip := { (c.setUsed z true).rip with i_zsearch := z } } s =
            slotVal sb (c.setUsed z true) s := by
        intro s _
        cases s <;> rfl
      have hzone : ∀ j, fileZone sb
          { c.setUsed z true with rip := { (c.setUsed z true).rip with i_zsearch := z } } j =
            fileZone sb c j := by
        intro j
        rw [fileZone_congr hsame, fileZone_congr fun s _ => slotVal_setUsed c z true s]
      have hz := h.loose_alloc hunused hfirst hlast
      have hmapped := writeMap_ok hscale ha ((h.setUsed z).congr hsame rfl) (hz.congr hsame rfl)
        htype hmap
      -- With zones of one block, the block has the number of the zone.
      have hblock : b = z := by
        rw [hb', hscale, Nat.shiftLeft_zero, Nat.shiftLeft_zero,
          Nat.div_eq_of_lt (Nat.mod_lt _ sb.block_size_pos), Nat.add_zero]
      rw [hblock]
      exact (hmapped.of_same hzone rfl rfl rfl).newBlock hempty hz.ne_zero

end NewBlock

end Mfs
end OsLab
