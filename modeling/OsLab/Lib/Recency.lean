import Mathlib.Data.Finset.Card
import Mathlib.Data.Finset.Dedup
import Mathlib.Data.List.Dedup
import Mathlib.Data.List.DropRight

/-!
# Recency — the recency order of a reference string

A reference string is a list, oldest reference first.  `lastUse hist a` is the instant of the last
reference to `a`, counted from one, and zero when `a` was never referenced.  The distinct elements in
the order of their last use are `hist.dedup` (Mathlib's `dedup` keeps the last copy of each element),
so a stack of the `n` most recently used elements is `recent n hist`, the last `n` elements of that
list.
-/

namespace OsLab
namespace Lib

universe u

variable {α : Type u} [DecidableEq α]

/-- The instant of the last reference to `a`, from one; zero when there is none. -/
def lastUse (hist : List α) (a : α) : Nat :=
  hist.length - hist.reverse.idxOf a

/-- The elements referenced after the last reference to `a`. -/
def usedSince (hist : List α) (a : α) : Finset α :=
  (hist.drop (lastUse hist a)).toFinset

/-- The `n` most recently used elements, in the order of their last use. -/
def recent (n : Nat) (hist : List α) : List α :=
  hist.dedup.rtake n

/-- `queue` lists the `min n (number of distinct references)` most recently used elements of `hist`,
without repetition and in the order of their last use. -/
structure MostRecentlyUsed (n : Nat) (hist queue : List α) : Prop where
  nodup : queue.Nodup
  ordered : queue.Pairwise (fun a b => lastUse hist a < lastUse hist b)
  referenced : ∀ a ∈ queue, a ∈ hist
  latest : ∀ a ∈ hist, a ∉ queue → ∀ b ∈ queue, lastUse hist a < lastUse hist b
  length : queue.length = min n hist.toFinset.card

/-! ## Distinct elements -/

section Distinct

variable {hist : List α} {a : α}

theorem card_concat_of_mem (ha : a ∈ hist) :
    (hist ++ [a]).toFinset.card = hist.toFinset.card := by
  have hsingle : [a].toFinset ⊆ hist.toFinset := by
    intro b hb
    cases List.mem_singleton.1 (List.mem_toFinset.1 hb)
    exact List.mem_toFinset.2 ha
  rw [List.toFinset_append, Finset.union_eq_left.2 hsingle]

theorem card_concat_of_not_mem (ha : a ∉ hist) :
    (hist ++ [a]).toFinset.card = hist.toFinset.card + 1 := by
  rw [List.toFinset_append, Finset.union_comm]
  simp [ha]

theorem card_le_concat (hist : List α) (a : α) :
    hist.toFinset.card ≤ (hist ++ [a]).toFinset.card := by
  refine Finset.card_le_card ?_
  rw [List.toFinset_append]
  exact Finset.subset_union_left

end Distinct

/-! ## The last use -/

theorem lastUse_concat (hist : List α) (a b : α) :
    lastUse (hist ++ [b]) a = if a = b then hist.length + 1 else lastUse hist a := by
  by_cases hab : a = b
  · simp [lastUse, hab]
  · have hba : b ≠ a := fun h => hab h.symm
    simp [lastUse, hab, List.idxOf_cons_ne _ hba]

theorem lastUse_le_length (hist : List α) (a : α) : lastUse hist a ≤ hist.length :=
  Nat.sub_le _ _

/-- The last reference splits the string: everything behind it is what was used since. -/
theorem lastUse_split (past since : List α) {a : α} (ha : a ∉ since) :
    lastUse (past ++ a :: since) a = past.length + 1 := by
  have hidx : (past ++ a :: since).reverse.idxOf a = since.length := by
    have hnot : a ∉ since.reverse := by simpa using ha
    simp [List.idxOf_append, hnot]
  simp only [lastUse, hidx, List.length_append, List.length_cons]
  omega

theorem usedSince_split (past since : List α) {a : α} (ha : a ∉ since) :
    usedSince (past ++ a :: since) a = since.toFinset := by
  have hdrop : (past ++ a :: since).drop (past.length + 1) = since := by
    simp [List.drop_append]
  rw [usedSince, lastUse_split past since ha, hdrop]

/-! ## The recency list -/

/-- Referencing `a` moves it to the back of the recency list. -/
theorem dedup_concat (hist : List α) (a : α) :
    (hist ++ [a]).dedup = hist.dedup.erase a ++ [a] := by
  induction hist with
  | nil => simp
  | cons b hist ih =>
      by_cases hb : b ∈ hist
      · -- `b` has a later copy, so neither side keeps this one.
        have hb' : b ∈ hist ++ [a] := List.mem_append_left _ hb
        rw [List.cons_append, List.dedup_cons_of_mem hb', List.dedup_cons_of_mem hb, ih]
      · by_cases hab : b = a
        · -- The new reference takes the place of this copy of `a`.
          subst hab
          have herase : hist.dedup.erase b = hist.dedup :=
            List.erase_of_not_mem (fun h => hb (List.mem_dedup.1 h))
          rw [List.cons_append, List.dedup_cons_of_mem (by simp), List.dedup_cons_of_notMem hb, ih,
            herase, List.erase_cons_head]
        · have hb' : b ∉ hist ++ [a] := by simp [hb, hab]
          rw [List.cons_append, List.dedup_cons_of_notMem hb', List.dedup_cons_of_notMem hb, ih,
            List.erase_cons_tail (by simpa using hab), List.cons_append]

theorem dedup_ordered (hist : List α) :
    hist.dedup.Pairwise (fun a b => lastUse hist a < lastUse hist b) := by
  induction hist using List.reverseRecOn with
  | nil => simp
  | append_singleton hist c ih =>
      rw [dedup_concat]
      have hne : ∀ a ∈ hist.dedup.erase c, a ≠ c := fun a ha =>
        (List.Nodup.mem_erase_iff hist.nodup_dedup).1 ha |>.1
      refine List.pairwise_append.2 ⟨?_, List.pairwise_singleton _ _, ?_⟩
      · -- Among the others the order is as before.
        refine (ih.sublist List.erase_sublist).imp_of_mem ?_
        intro a b ha hb hlt
        rw [lastUse_concat, lastUse_concat, if_neg (hne a ha), if_neg (hne b hb)]
        exact hlt
      · -- `c` was used last of all.
        intro a ha b hb
        have hbc : b = c := by simpa using hb
        rw [lastUse_concat, lastUse_concat, if_neg (hne a ha), if_pos hbc]
        exact Nat.lt_succ_of_le (lastUse_le_length hist a)

theorem recent_suffix (n : Nat) (hist : List α) : recent n hist <:+ hist.dedup :=
  List.drop_suffix _ _

theorem recent_nodup (n : Nat) (hist : List α) : (recent n hist).Nodup :=
  hist.nodup_dedup.sublist (recent_suffix n hist).sublist

theorem recent_length (n : Nat) (hist : List α) :
    (recent n hist).length = min n hist.toFinset.card := by
  have hcard : hist.dedup.length = hist.toFinset.card := (List.card_toFinset hist).symm
  simp only [recent, List.rtake, List.length_drop, hcard]
  omega

/-- At most `n` elements are all among the last `n`. -/
theorem recent_of_few {n : Nat} {hist : List α} (hfew : hist.toFinset.card ≤ n) :
    recent n hist = hist.dedup := by
  rw [recent, List.rtake, ← List.card_toFinset, Nat.sub_eq_zero_of_le hfew, List.drop_zero]

theorem recent_mostRecentlyUsed (n : Nat) (hist : List α) :
    MostRecentlyUsed n hist (recent n hist) where
  nodup := recent_nodup n hist
  ordered := (dedup_ordered hist).sublist (recent_suffix n hist).sublist
  referenced := fun a ha => List.mem_dedup.1 ((recent_suffix n hist).subset ha)
  latest := by
    intro a ha hnot b hb
    -- Elements outside the suffix stand in front of it in the recency list.
    rcases recent_suffix n hist with ⟨older, hsplit⟩
    have hmem : a ∈ older := by
      have : a ∈ older ++ recent n hist := hsplit ▸ List.mem_dedup.2 ha
      exact (List.mem_append.1 this).resolve_right hnot
    have hord : (older ++ recent n hist).Pairwise
        (fun a b => lastUse hist a < lastUse hist b) := hsplit ▸ dedup_ordered hist
    exact (List.pairwise_append.1 hord).2.2 a hmem b hb
  length := recent_length n hist

/-! ## One reference -/

/-- Splitting the recency list at the window of the `n` most recent elements. -/
theorem dedup_eq_older_append (n : Nat) (hist : List α) :
    hist.dedup = hist.dedup.take (hist.dedup.length - n) ++ recent n hist :=
  (List.take_append_drop _ _).symm

theorem recent_eq_of_append {n : Nat} {hist older queue : List α}
    (hsplit : hist.dedup = older ++ queue) (holder : older.length = hist.dedup.length - n) :
    recent n hist = queue := by
  rw [recent, List.rtake, ← holder, hsplit, List.drop_left]

/-- A reference inside the window moves the element to the back of it. -/
theorem recent_concat_of_mem {n : Nat} {hist : List α} {a : α} (ha : a ∈ recent n hist) :
    recent n (hist ++ [a]) = (recent n hist).erase a ++ [a] := by
  have hsplit := dedup_eq_older_append n hist
  have hnodup : (hist.dedup.take (hist.dedup.length - n) ++ recent n hist).Nodup :=
    hsplit ▸ hist.nodup_dedup
  have hnot : a ∉ hist.dedup.take (hist.dedup.length - n) := fun h =>
    (List.nodup_append.1 hnodup).2.2 a h a ha rfl
  have hmem : a ∈ hist.dedup := (recent_suffix n hist).subset ha
  -- The number of distinct elements does not change.
  have hlen : (hist ++ [a]).dedup.length = hist.dedup.length := by
    have hpos : 0 < hist.dedup.length := List.length_pos_of_mem hmem
    rw [dedup_concat, List.length_append, List.length_erase_of_mem hmem, List.length_singleton]
    omega
  have hdedup : (hist ++ [a]).dedup =
      hist.dedup.take (hist.dedup.length - n) ++ ((recent n hist).erase a ++ [a]) := by
    calc
      (hist ++ [a]).dedup = hist.dedup.erase a ++ [a] := dedup_concat hist a
      _ = (hist.dedup.take (hist.dedup.length - n) ++ recent n hist).erase a ++ [a] := by
        rw [← hsplit]
      _ = hist.dedup.take (hist.dedup.length - n) ++ ((recent n hist).erase a ++ [a]) := by
        rw [List.erase_append_right _ hnot, List.append_assoc]
  refine recent_eq_of_append hdedup ?_
  rw [hlen, List.length_take]
  omega

/-- While the window is not full, a reference outside it adds the element. -/
theorem recent_concat_of_short {n : Nat} {hist : List α} {a : α} (ha : a ∉ recent n hist)
    (hshort : (recent n hist).length < n) :
    recent n (hist ++ [a]) = recent n hist ++ [a] := by
  -- The window is not full, so it is the whole recency list.
  have hdrop : hist.dedup.length - n = 0 := by
    have hlen : (recent n hist).length = hist.dedup.length - (hist.dedup.length - n) := by
      simp [recent, List.rtake]
    omega
  have hall : recent n hist = hist.dedup := by simp [recent, List.rtake, hdrop]
  have herase : hist.dedup.erase a = hist.dedup := List.erase_of_not_mem (hall ▸ ha)
  have hdedup : (hist ++ [a]).dedup = [] ++ (recent n hist ++ [a]) := by
    rw [dedup_concat, herase, hall, List.nil_append]
  refine recent_eq_of_append hdedup ?_
  rw [hdedup, List.nil_append, List.length_append, List.length_singleton, List.length_nil]
  omega

/-- When the window is full, a reference outside it drops the least recently used element. -/
theorem recent_concat_of_full {n : Nat} {hist rest : List α} {a old : α}
    (hrecent : recent n hist = old :: rest) (ha : a ∉ recent n hist)
    (hfull : n ≤ (recent n hist).length) :
    recent n (hist ++ [a]) = rest ++ [a] := by
  have hsplit := dedup_eq_older_append n hist
  have hwindow : (recent n hist).length = n := by
    have := recent_length n hist
    omega
  have hlen : hist.dedup.length = (hist.dedup.take (hist.dedup.length - n)).length + n := by
    have := congrArg List.length hsplit
    rw [List.length_append, hwindow] at this
    exact this
  -- Only the length of the older part matters from here on.
  generalize hist.dedup.take (hist.dedup.length - n) = older at hsplit hlen
  -- An older copy of `a` may have to go from the part outside the window.
  have herase : hist.dedup.erase a = older.erase a ++ recent n hist := by
    by_cases hmem : a ∈ older
    · rw [hsplit, List.erase_append_left _ hmem]
    · rw [hsplit, List.erase_append_right _ hmem, List.erase_of_not_mem hmem,
        List.erase_of_not_mem ha]
  have hdedup : (hist ++ [a]).dedup = (older.erase a ++ [old]) ++ (rest ++ [a]) := by
    rw [dedup_concat, herase, hrecent]
    simp
  have hrest : rest.length + 1 = n := by rw [← hwindow, hrecent, List.length_cons]
  refine recent_eq_of_append hdedup ?_
  rw [hdedup]
  simp only [List.length_append, List.length_singleton]
  omega

/-! ## The stack distance -/

omit [DecidableEq α] in
theorem exists_split_last {hist : List α} {a : α} (ha : a ∈ hist) :
    ∃ past since, hist = past ++ a :: since ∧ a ∉ since := by
  have hrev : a ∈ hist.reverse := List.mem_reverse.2 ha
  rcases List.eq_append_cons_of_mem hrev with ⟨since, past, heq, hnot⟩
  refine ⟨past.reverse, since.reverse, ?_, by simpa using hnot⟩
  simpa using congrArg List.reverse heq

omit [DecidableEq α] in
theorem mem_drop_split_iff {older newer : List α} {a : α} (hnodup : (older ++ a :: newer).Nodup)
    (k : Nat) : a ∈ (older ++ a :: newer).drop k ↔ k ≤ older.length := by
  by_cases hk : k ≤ older.length
  · simp [List.drop_append_of_le_length hk, hk]
  · -- `a` itself is dropped, and it has no second copy.
    have hnot : a ∉ newer := (List.nodup_cons.1 (List.nodup_append.1 hnodup).2.1).1
    have hdrop : (older ++ a :: newer).drop k = newer.drop (k - older.length - 1) := by
      obtain ⟨j, rfl⟩ : ∃ j, k = older.length + (j + 1) := ⟨k - older.length - 1, by omega⟩
      have hj : older.length + (j + 1) - older.length - 1 = j := by omega
      rw [List.drop_length_add_append, List.drop_succ_cons, hj]
    rw [hdrop]
    exact iff_of_false (fun h => hnot (List.mem_of_mem_drop h)) hk

theorem erase_usedSince (hist : List α) (a : α) : (usedSince hist a).erase a = usedSince hist a := by
  apply Finset.erase_eq_of_notMem
  by_cases ha : a ∈ hist
  · rcases exists_split_last ha with ⟨past, since, rfl, hnot⟩
    rw [usedSince_split past since hnot]
    simpa using hnot
  · intro hmem
    exact ha (List.mem_of_mem_drop (List.mem_toFinset.1 hmem))

/-- An element is in the window of size `n` exactly when fewer than `n` others were used since. -/
theorem mem_recent_iff (n : Nat) (hist : List α) (a : α) :
    a ∈ recent n hist ↔ a ∈ hist ∧ (usedSince hist a).card < n := by
  by_cases ha : a ∈ hist
  · -- Split at the last reference: `hist = past ++ a :: since` with `a ∉ since`.
    rcases exists_split_last ha with ⟨past, since, hsplit, hnot⟩
    subst hsplit
    -- Behind `a` the recency list has the elements used since, once each.
    have hsuffix : a :: since.dedup <:+ (past ++ a :: since).dedup := by
      rw [List.dedup_append, List.dedup_cons_of_notMem hnot]
      exact List.suffix_union_right _ _
    rcases hsuffix with ⟨older, hdedup⟩
    have hcard : (usedSince (past ++ a :: since) a).card = since.dedup.length := by
      rw [usedSince_split past since hnot, List.card_toFinset]
    have hnodup : (older ++ a :: since.dedup).Nodup := hdedup ▸ List.nodup_dedup _
    rw [hcard, recent, List.rtake, ← hdedup]
    rw [mem_drop_split_iff hnodup, List.length_append, List.length_cons]
    simp only [ha, true_and]
    omega
  · refine ⟨fun h => absurd (List.mem_dedup.1 ((recent_suffix n hist).subset h)) ha, ?_⟩
    exact fun h => absurd h.1 ha

end Lib
end OsLab
