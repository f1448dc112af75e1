import Mathlib.Data.Finset.Card
import Mathlib.Data.Finset.Dedup
import Mathlib.Data.List.DropRight

/-!
# LoadOrder — first in, first out, told from the history of loads

A history is the list of the elements that were loaded, oldest load first.  With room for `n` elements,
an element is out (`LoadFault`) when it was never loaded or at least `n` loads came after its last one.
That is the same as not being among the last `n` loads, `loads.rtake n`.

`loadsOf n refs` is the history that the references `refs` leave when every reference to an element
that is out loads it.  Its windows of `n` loads are free of repetitions, and so is the part of it that
belongs to references to at most `n` elements.
-/

namespace OsLab
namespace Lib

universe u

variable {α : Type u} {n : Nat} {loads : List α} {a : α}

/-! ## Windows of a history -/

theorem rtake_eq_self (h : loads.length ≤ n) : loads.rtake n = loads := by
  rw [List.rtake, Nat.sub_eq_zero_of_le h, List.drop_zero]

/-- One more load pushes the oldest one out of a full window. -/
theorem rtake_concat_full (hn : 1 ≤ n) (hfull : n ≤ loads.length) (a : α) :
    (loads ++ [a]).rtake n = (loads.rtake n).tail ++ [a] := by
  obtain ⟨k, rfl⟩ := Nat.exists_eq_add_of_le' hn
  have hindex : loads.length - k = loads.length - (k + 1) + 1 := by omega
  rw [List.rtake_concat_succ, List.rtake, List.rtake, List.tail_drop, hindex]

theorem length_rtake (n : Nat) (loads : List α) : (loads.rtake n).length = min n loads.length := by
  rw [List.rtake, List.length_drop]
  omega

theorem rtake_min (n : Nat) (loads : List α) : loads.rtake (min n loads.length) = loads.rtake n := by
  have hindex : loads.length - min n loads.length = loads.length - n := by omega
  rw [List.rtake, List.rtake, hindex]

variable [DecidableEq α]

/-- The loads after the last load of `a`. -/
def loadsSince (loads : List α) (a : α) : List α :=
  loads.rtakeWhile (· ≠ a)

/-- `a` was never loaded, or at least `n` loads came after its last one. -/
def LoadFault (n : Nat) (loads : List α) (a : α) : Prop :=
  a ∉ loads ∨ n ≤ (loadsSince loads a).length

instance (n : Nat) (loads : List α) (a : α) : Decidable (LoadFault n loads a) :=
  inferInstanceAs (Decidable (_ ∨ _))

theorem loadsSince_concat (loads : List α) (a b : α) :
    loadsSince (loads ++ [b]) a = if b = a then [] else loadsSince loads a ++ [b] := by
  rw [loadsSince, List.rtakeWhile_concat]
  by_cases hb : b = a
  · simp [hb]
  · simp [hb, loadsSince]

theorem loadsSince_split (past : List α) {since : List α} (ha : a ∉ since) :
    loadsSince (past ++ a :: since) a = since := by
  induction since using List.reverseRecOn with
  | nil => rw [loadsSince_concat, if_pos rfl]
  | append_singleton since b ih =>
      rw [List.mem_append, List.mem_singleton, not_or] at ha
      rw [← List.cons_append, ← List.append_assoc, loadsSince_concat, if_neg (Ne.symm ha.2),
        ih ha.1]

/-- Being out is not being among the last `n` loads. -/
theorem loadFault_iff : LoadFault n loads a ↔ a ∉ loads.rtake n := by
  induction loads using List.reverseRecOn generalizing n with
  | nil => simp [LoadFault]
  | append_singleton loads b ih =>
      cases n with
      | zero => simp [LoadFault]
      | succ n =>
          rw [LoadFault, loadsSince_concat, List.rtake_concat_succ, List.mem_append,
            List.mem_append, List.mem_singleton, not_or, not_or, ← ih, LoadFault]
          by_cases hb : b = a
          · simp [hb]
          · simp [hb, Ne.symm hb]

/-! ## The history of a reference string -/

/-- One reference: an element that is out is loaded. -/
def load (n : Nat) (loads : List α) (a : α) : List α :=
  if LoadFault n loads a then loads ++ [a] else loads

def loadsOf (n : Nat) (refs : List α) : List α :=
  refs.foldl (load n) []

theorem loadsOf_concat (n : Nat) (refs : List α) (a : α) :
    loadsOf n (refs ++ [a]) = load n (loadsOf n refs) a := by
  simp [loadsOf]

theorem mem_of_mem_loadsOf (refs : List α) : a ∈ loadsOf n refs → a ∈ refs := by
  induction refs using List.reverseRecOn with
  | nil => exact id
  | append_singleton refs b ih =>
      rw [loadsOf_concat, load]
      split
      · intro ha
        rcases List.mem_append.1 ha with ha | ha
        · exact List.mem_append_left _ (ih ha)
        · exact List.mem_append_right _ ha
      · exact fun ha => List.mem_append_left _ (ih ha)

/-- Every element of the references was loaded at some time. -/
theorem mem_loadsOf (refs : List α) : a ∈ refs → a ∈ loadsOf n refs := by
  induction refs using List.reverseRecOn with
  | nil => exact id
  | append_singleton refs b ih =>
      intro ha
      rw [loadsOf_concat, load]
      rcases List.mem_append.1 ha with ha | ha
      · split
        · exact List.mem_append_left _ (ih ha)
        · exact ih ha
      · cases List.mem_singleton.1 ha
        split
        · exact List.mem_append_right _ (List.mem_singleton_self a)
        · rename_i hthere
          exact not_not.1 (not_or.1 hthere).1

/-- The last `n` loads are distinct. -/
theorem nodup_rtake_loadsOf (hn : 1 ≤ n) (refs : List α) : ((loadsOf n refs).rtake n).Nodup := by
  induction refs using List.reverseRecOn with
  | nil => simp [loadsOf]
  | append_singleton refs a ih =>
      rw [loadsOf_concat, load]
      split
      · rename_i hfault
        have hnot := loadFault_iff.1 hfault
        by_cases hfull : n ≤ (loadsOf n refs).length
        · rw [rtake_concat_full hn hfull]
          refine List.Nodup.append (ih.sublist (List.tail_sublist _)) (List.nodup_singleton a) ?_
          rw [List.disjoint_singleton]
          exact fun ha => hnot (List.mem_of_mem_tail ha)
        · have hshort : (loadsOf n refs ++ [a]).length ≤ n := by
            rw [List.length_append, List.length_singleton]
            omega
          rw [rtake_eq_self (by omega : (loadsOf n refs).length ≤ n)] at ih hnot
          rw [rtake_eq_self hshort]
          refine List.Nodup.append ih (List.nodup_singleton a) ?_
          rw [List.disjoint_singleton]
          exact hnot
      · exact ih

/-! ## Few elements -/

/-- What the references `seg` load, after the references `pre`, are references of `seg`, and each
element at most once when they are at most `n`. -/
theorem loadsOf_append (n : Nat) (pre seg : List α) :
    ∃ fresh, loadsOf n (pre ++ seg) = loadsOf n pre ++ fresh ∧ (∀ a ∈ fresh, a ∈ seg) ∧
      (seg.toFinset.card ≤ n → fresh.Nodup) := by
  induction seg using List.reverseRecOn with
  | nil => exact ⟨[], by simp, by simp, fun _ => List.nodup_nil⟩
  | append_singleton seg a ih =>
      rcases ih with ⟨fresh, heq, hmem, hnodup⟩
      have hsub : seg.toFinset ⊆ (seg ++ [a]).toFinset := by
        rw [List.toFinset_append]
        exact Finset.subset_union_left
      rw [← List.append_assoc, loadsOf_concat, heq, load]
      split
      · rename_i hfault
        refine ⟨fresh ++ [a], by rw [List.append_assoc], ?_, ?_⟩
        · intro b hb
          rcases List.mem_append.1 hb with hb | hb
          · exact List.mem_append_left _ (hmem b hb)
          · exact List.mem_append_right _ hb
        · intro hfew
          have hfresh := hnodup ((Finset.card_le_card hsub).trans hfew)
          refine List.Nodup.append hfresh (List.nodup_singleton a) ?_
          rw [List.disjoint_singleton]
          intro ha
          rcases List.append_of_mem ha with ⟨past, since, rfl⟩
          have hsince : (a :: since).Nodup := hfresh.sublist (List.sublist_append_right past _)
          have hnot : a ∉ since := (List.nodup_cons.1 hsince).1
          -- A second load of `a` would have `n` loads of other elements of the segment behind it.
          have hmany : n ≤ since.length := by
            rcases hfault with hnever | hmany
            · exact absurd (List.mem_append_right _ ha) hnever
            · rw [← List.append_assoc, loadsSince_split _ hnot] at hmany
              exact hmany
          have hcard : (a :: since).length ≤ (seg ++ [a]).toFinset.card := by
            rw [← List.toFinset_card_of_nodup hsince]
            refine Finset.card_le_card ?_
            intro b hb
            rcases List.mem_cons.1 (List.mem_toFinset.1 hb) with rfl | hb
            · simp
            · have hseg := hmem b (by simp [hb])
              simp [hseg]
          rw [List.length_cons] at hcard
          omega
      · exact ⟨fresh, rfl, fun b hb => List.mem_append_left _ (hmem b hb),
          fun hfew => hnodup ((Finset.card_le_card hsub).trans hfew)⟩

/-- From the start, at most `n` elements are loaded once each. -/
theorem length_loadsOf {refs : List α} (hfew : refs.toFinset.card ≤ n) :
    (loadsOf n refs).length = refs.toFinset.card := by
  rcases loadsOf_append n [] refs with ⟨fresh, heq, hmem, hnodup⟩
  have hfresh : loadsOf n refs = fresh := heq
  have hsame : fresh.toFinset = refs.toFinset := by
    ext a
    rw [List.mem_toFinset, List.mem_toFinset]
    exact ⟨hmem a, fun ha => hfresh ▸ mem_loadsOf refs ha⟩
  rw [hfresh, ← List.toFinset_card_of_nodup (hnodup hfew), hsame]

end Lib
end OsLab
