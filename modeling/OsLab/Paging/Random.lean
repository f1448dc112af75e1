import OsLab.Lib.Runs
import OsLab.Paging.Fifo
import OsLab.Paging.Lru

/-!
# Random — random page replacement

The loop of `200010004_random.cpp` keeps the hash map `in_memory` from the resident pages to their
frames and the vector `frameUsage` from the frames to their pages, with -1 for a frame that is free.
At a fault the frame is `rand() % num_frames`, whether it is free or not.

The values that `rand()` returns are a parameter, by the number of the call.  A turn fails (`none`)
where the C++ code divides by `num_frames = 0`.
-/

namespace OsLab
namespace Paging

open OsLab.Lib

/-! ## The loop -/

/-- The variables of the loop, and the number of calls of `rand()` so far. -/
structure RandomState where
  pageFaults : Nat
  pageHits : Nat
  inMemory : AList (fun _ : Int => Nat)
  frameUsage : List Int
  draws : Nat
  deriving DecidableEq

def RandomState.init (numFrames : Nat) : RandomState :=
  { pageFaults := 0
    pageHits := 0
    inMemory := ∅
    frameUsage := List.replicate numFrames (-1)
    draws := 0 }

/-- The end of a fault: the page in the frame makes room, and the new page is entered. -/
def RandomState.load (st : RandomState) (victimFrame : Nat) (victimPage page : Int) :
    RandomState :=
  let inMemory := if victimPage ≠ -1 then st.inMemory.erase victimPage else st.inMemory
  { st with
    pageFaults := st.pageFaults + 1
    inMemory := inMemory.insert page victimFrame
    frameUsage := st.frameUsage.set victimFrame page
    draws := st.draws + 1 }

section Loop

variable (numFrames : Nat) (rand : Nat → Nat)

def randomStep (st : RandomState) (page : Int) : Option RandomState :=
  if page ∈ st.inMemory then some { st with pageHits := st.pageHits + 1 }
  else
    let victimFrame := rand st.draws % numFrames
    st.frameUsage[victimFrame]?.map fun victimPage => st.load victimFrame victimPage page

def randomRun (refs : List Int) : Option RandomState :=
  refs.foldlM (randomStep numFrames rand) (RandomState.init numFrames)

end Loop

/-! ## The page table -/

/-- `in_memory` and `frameUsage` are inverse to each other. -/
structure PageTable (numFrames : Nat) (st : RandomState) : Prop where
  length : st.frameUsage.length = numFrames
  inverse : ∀ p f, st.inMemory.lookup p = some f ↔ st.frameUsage[f]? = some p ∧ p ≠ -1

section Table

variable {numFrames : Nat} {rand : Nat → Nat} {st st' : RandomState} {page : Int}

theorem PageTable.init (numFrames : Nat) : PageTable numFrames (.init numFrames) where
  length := List.length_replicate
  inverse := by
    intro p f
    simp only [RandomState.init, AList.lookup_empty, List.getElem?_replicate]
    constructor
    · intro h
      cases h
    · rintro ⟨hfree, hpage⟩
      split at hfree
      · exact absurd (Option.some.inj hfree).symm hpage
      · cases hfree

theorem PageTable.mem_iff (h : PageTable numFrames st) {p : Int} :
    p ∈ st.inMemory ↔ p ∈ st.frameUsage ∧ p ≠ -1 := by
  rw [← AList.lookup_isSome, Option.isSome_iff_exists]
  constructor
  · rintro ⟨f, hf⟩
    rcases (h.inverse p f).1 hf with ⟨husage, hpage⟩
    exact ⟨List.mem_of_getElem? husage, hpage⟩
  · rintro ⟨hp, hpage⟩
    rcases List.mem_iff_getElem?.1 hp with ⟨f, hf⟩
    exact ⟨f, (h.inverse p f).2 ⟨hf, hpage⟩⟩

/-- No page is in two frames. -/
theorem PageTable.unique (h : PageTable numFrames st) {p : Int} {f g : Nat} (hp : p ≠ -1)
    (hf : st.frameUsage[f]? = some p) (hg : st.frameUsage[g]? = some p) : f = g := by
  have hlookup := (h.inverse p f).2 ⟨hf, hp⟩
  rw [(h.inverse p g).2 ⟨hg, hp⟩] at hlookup
  exact (Option.some.inj hlookup).symm

/-- There are no more resident pages than frames. -/
theorem PageTable.size_le (h : PageTable numFrames st) : st.inMemory.entries.length ≤ numFrames := by
  have hsub : st.inMemory.keys ⊆ st.frameUsage := by
    intro p hp
    exact (h.mem_iff.1 (AList.mem_keys.2 hp)).1
  have hlength : st.inMemory.keys.length = st.inMemory.entries.length := List.length_map _
  rw [← hlength, ← h.length]
  exact (st.inMemory.keys_nodup.subperm hsub).length_le

/-- A reference is a hit, or loads the page into the frame that `rand()` tells. -/
theorem PageTable.step (hframes : 1 ≤ numFrames) (h : PageTable numFrames st) (rand : Nat → Nat)
    (page : Int) :
    (page ∈ st.inMemory ∧
        randomStep numFrames rand st page = some { st with pageHits := st.pageHits + 1 }) ∨
      page ∉ st.inMemory ∧ ∃ victimPage,
        st.frameUsage[rand st.draws % numFrames]? = some victimPage ∧
        randomStep numFrames rand st page =
          some (st.load (rand st.draws % numFrames) victimPage page) := by
  by_cases hhit : page ∈ st.inMemory
  · exact .inl ⟨hhit, if_pos hhit⟩
  · have hlt : rand st.draws % numFrames < st.frameUsage.length := by
      rw [h.length]
      exact Nat.mod_lt _ hframes
    refine .inr ⟨hhit, st.frameUsage[rand st.draws % numFrames], List.getElem?_eq_getElem hlt, ?_⟩
    simp only [randomStep, if_neg hhit, List.getElem?_eq_getElem hlt, Option.map_some]

/-- The pages after a fault: the victim is gone, and the new page is there. -/
theorem PageTable.lookup_load (h : PageTable numFrames st) (f : Nat) (victimPage page p : Int) :
    (st.load f victimPage page).inMemory.lookup p =
      if p = page then some f else if p = victimPage then none else st.inMemory.lookup p := by
  by_cases hpage : p = page
  · subst hpage
    simp only [RandomState.load, AList.lookup_insert, if_true]
  · simp only [RandomState.load, AList.lookup_insert_ne hpage, if_neg hpage]
    by_cases hvictim : p = victimPage
    · subst hvictim
      by_cases hfree : p = -1
      · -- A free frame holds no page.
        have hnone : st.inMemory.lookup p = none := by
          rw [Option.eq_none_iff_forall_ne_some]
          intro g hg
          exact ((h.inverse p g).1 hg).2 hfree
        rw [if_pos rfl, if_neg (not_not.2 hfree)]
        exact hnone
      · simp [hfree]
    · rw [if_neg hvictim]
      split
      · exact AList.lookup_erase_ne hvictim
      · rfl

/-- A fault keeps the table consistent. -/
theorem PageTable.load (h : PageTable numFrames st) {f : Nat} {victimPage : Int}
    (hvictim : st.frameUsage[f]? = some victimPage) (hout : page ∉ st.inMemory)
    (hpage : page ≠ -1) : PageTable numFrames (st.load f victimPage page) where
  length := by
    simp only [RandomState.load, List.length_set]
    exact h.length
  inverse := by
    intro p g
    have hlt : f < st.frameUsage.length := (List.getElem?_eq_some_iff.1 hvictim).1
    have husage : (st.load f victimPage page).frameUsage[g]? =
        if f = g then some page else st.frameUsage[g]? := by
      simp only [RandomState.load, List.getElem?_set, hlt, if_true]
    rw [h.lookup_load, husage]
    by_cases hg : f = g
    · subst hg
      simp only [if_true, Option.some.injEq]
      by_cases hp : p = page
      · simp [hp, hpage]
      · rw [if_neg hp]
        constructor
        · intro hlookup
          split at hlookup
          · cases hlookup
          · -- The frame belongs to the victim.
            rename_i hne
            have hf := ((h.inverse p f).1 hlookup).1
            rw [hvictim] at hf
            exact absurd (Option.some.inj hf).symm hne
        · rintro ⟨rfl, _⟩
          exact absurd rfl hp
    · rw [if_neg hg]
      by_cases hp : p = page
      · subst hp
        simp only [if_true, Option.some.injEq, hg, false_iff]
        rintro ⟨husage, hne⟩
        exact hout (h.mem_iff.2 ⟨List.mem_of_getElem? husage, hne⟩)
      · rw [if_neg hp]
        by_cases hpv : p = victimPage
        · subst hpv
          rw [if_pos rfl]
          constructor
          · intro hnone
            cases hnone
          · rintro ⟨husage, hne⟩
            exact absurd (h.unique hne hvictim husage) hg
        · rw [if_neg hpv]
          exact h.inverse p g

theorem PageTable.next (hframes : 1 ≤ numFrames) (h : PageTable numFrames st) (hpage : 0 ≤ page) :
    ∃ st', randomStep numFrames rand st page = some st' ∧ PageTable numFrames st' ∧
      page ∈ st'.inMemory ∧ st'.pageHits + st'.pageFaults = st.pageHits + st.pageFaults + 1 := by
  rcases h.step hframes rand page with ⟨hhit, hstep⟩ | ⟨hout, victimPage, hvictim, hstep⟩
  · exact ⟨_, hstep, ⟨h.length, h.inverse⟩, hhit, Nat.add_right_comm ..⟩
  · have hload := h.load hvictim hout (by omega)
    refine ⟨_, hstep, hload, ?_, rfl⟩
    rw [← AList.lookup_isSome, h.lookup_load, if_pos rfl]
    rfl

theorem randomRun_concat (hist : List Int) (page : Int) :
    randomRun numFrames rand (hist ++ [page]) =
      (randomRun numFrames rand hist).bind fun st => randomStep numFrames rand st page := by
  simp [randomRun, List.foldlM_append]

theorem randomRun_table (hframes : 1 ≤ numFrames) (rand : Nat → Nat) (refs : List Int)
    (hpages : ∀ page ∈ refs, 0 ≤ page) :
    ∃ st, randomRun numFrames rand refs = some st ∧ PageTable numFrames st ∧
      st.pageHits + st.pageFaults = refs.length := by
  induction refs using List.reverseRecOn with
  | nil => exact ⟨_, rfl, .init numFrames, rfl⟩
  | append_singleton hist page ih =>
      rcases ih fun p hp => hpages p (List.mem_append_left _ hp) with ⟨st, hrun, htable, hcount⟩
      rcases htable.next hframes (hpages page (by simp)) with ⟨st', hstep, htable', _, hcount'⟩
      refine ⟨st', ?_, htable', ?_⟩
      · rw [randomRun_concat, hrun]
        exact hstep
      · rw [hcount', hcount, List.length_append, List.length_singleton]

end Table

/-- After each reference the two maps are inverse to each other, no page is in two frames, there are
at most `num_frames` resident pages, the page just referenced is one of them, and every reference was
counted once. -/
theorem random_table_consistent {numFrames : Nat} (hframes : 1 ≤ numFrames) (refs : List Int)
    (hpages : ∀ page ∈ refs, 0 ≤ page) (rand : Nat → Nat) :
    ∀ i (hi : i < refs.length), ∃ st, randomRun numFrames rand (refs.take (i + 1)) = some st ∧
      st.frameUsage.length = numFrames ∧
      (∀ p f, st.inMemory.lookup p = some f ↔ st.frameUsage[f]? = some p ∧ p ≠ -1) ∧
      (∀ p (f g : Nat), p ≠ -1 → st.frameUsage[f]? = some p → st.frameUsage[g]? = some p → f = g) ∧
      st.inMemory.entries.length ≤ numFrames ∧ refs[i] ∈ st.inMemory ∧
      st.pageHits + st.pageFaults = i + 1 := by
  intro i hi
  have hbefore : ∀ page ∈ refs.take i, 0 ≤ page := fun p hp => hpages p (List.mem_of_mem_take hp)
  have htake : refs.take (i + 1) = refs.take i ++ [refs[i]] := List.take_succ_eq_append_getElem hi
  rcases randomRun_table hframes rand (refs.take i) hbefore with ⟨st, hrun, htable, hcount⟩
  rcases htable.next hframes (hpages _ (List.getElem_mem hi)) with
    ⟨st', hstep, htable', hresident, hcount'⟩
  refine ⟨st', ?_, htable'.length, htable'.inverse, ?_, htable'.size_le, hresident, ?_⟩
  · rw [htake, randomRun_concat, hrun]
    exact hstep
  · intro p f g hp hf hg
    exact htable'.unique hp hf hg
  · rw [hcount', hcount, List.length_take_of_le (Nat.le_of_lt hi)]

/-- Three frames and the references `4 7 4 9`.  Page 9 takes the frame of page 4. -/
theorem random_table_consistent_reused :
    (∃ st, randomRun 3 (fun k => [5, 1, 2].getD k 0) [4, 7, 4, 9] = some st ∧
      st.frameUsage.length = 3 ∧
      (∀ p f, st.inMemory.lookup p = some f ↔ st.frameUsage[f]? = some p ∧ p ≠ -1) ∧
      (∀ p (f g : Nat), p ≠ -1 → st.frameUsage[f]? = some p → st.frameUsage[g]? = some p → f = g) ∧
      st.inMemory.entries.length ≤ 3 ∧ 9 ∈ st.inMemory ∧ st.pageHits + st.pageFaults = 4) ∧
    (randomRun 3 (fun k => [5, 1, 2].getD k 0) [4, 7, 4, 9]).map RandomState.frameUsage =
      some [-1, 7, 9] :=
  ⟨random_table_consistent (by decide) [4, 7, 4, 9] (by decide) (fun k => [5, 1, 2].getD k 0) 3
    (by decide), by decide⟩

/-! ## Evictions -/

/-- All frames hold a page. -/
def RandomState.Full (st : RandomState) : Prop :=
  -1 ∉ st.frameUsage

/-- If a reference removes a page, it is a fault and all frames hold a page. -/
def EvictsWhenFull (numFrames : Nat) (rand : Nat → Nat) (st : RandomState) (page : Int) : Prop :=
  ∀ st', randomStep numFrames rand st page = some st' → ∀ p, p ∈ st.inMemory → p ∉ st'.inMemory →
    page ∉ st.inMemory ∧ st.Full

/-- The frames of the first `k` calls of `rand()`. -/
def drawnFrames (numFrames : Nat) (rand : Nat → Nat) (k : Nat) : List Nat :=
  (List.range k).map fun i => rand i % numFrames

section Evictions

variable {numFrames : Nat} {rand : Nat → Nat} {st st' : RandomState} {page : Int}
variable {hist : List Int}

/-- A frame that is taken while another one is free has to be free. -/
theorem PageTable.evictsWhenFull_iff (hframes : 1 ≤ numFrames) (h : PageTable numFrames st)
    (hout : page ∉ st.inMemory) :
    EvictsWhenFull numFrames rand st page ↔
      st.frameUsage[rand st.draws % numFrames]? = some (-1) ∨ st.Full := by
  rcases h.step hframes rand page with ⟨hhit, _⟩ | ⟨_, victimPage, hvictim, hstep⟩
  · exact absurd hhit hout
  · rw [hvictim]
    constructor
    · intro hevicts
      by_cases hfree : victimPage = -1
      · exact .inl (congrArg some hfree)
      · -- The page of the frame is removed.
        have hresident : victimPage ∈ st.inMemory :=
          h.mem_iff.2 ⟨List.mem_of_getElem? hvictim, hfree⟩
        have hne : victimPage ≠ page := fun heq => hout (heq ▸ hresident)
        refine .inr (hevicts _ hstep victimPage hresident ?_).2
        rw [← AList.lookup_eq_none, h.lookup_load, if_neg hne, if_pos rfl]
    · rintro (hfree | hfull) st' hstep' p hp hgone
      · rw [hstep] at hstep'
        cases hstep'
        -- Nothing is removed from a free frame.
        have hne : p ≠ page := fun heq => hout (heq ▸ hp)
        have hpv : p ≠ victimPage := by
          rw [Option.some.inj hfree]
          exact (h.mem_iff.1 hp).2
        rw [← AList.lookup_eq_none, h.lookup_load, if_neg hne, if_neg hpv, AList.lookup_eq_none]
          at hgone
        exact absurd hp hgone
      · exact ⟨hout, hfull⟩

theorem evictsWhenFull_hit (hhit : page ∈ st.inMemory) :
    EvictsWhenFull numFrames rand st page := by
  intro st' hstep p hp hgone
  rw [randomStep, if_pos hhit] at hstep
  cases hstep
  exact absurd hp hgone

/-! ## Cold start -/

theorem drawnFrames_succ (numFrames : Nat) (rand : Nat → Nat) (k : Nat) :
    drawnFrames numFrames rand (k + 1) = drawnFrames numFrames rand k ++ [rand k % numFrames] := by
  simp [drawnFrames, List.range_succ]

theorem drawnFrames_sublist {k m : Nat} (hle : k ≤ m) :
    (drawnFrames numFrames rand k).Sublist (drawnFrames numFrames rand m) :=
  (List.range_sublist.2 hle).map _

theorem nodup_drawnFrames_succ {k : Nat} :
    (drawnFrames numFrames rand (k + 1)).Nodup ↔
      (drawnFrames numFrames rand k).Nodup ∧ rand k % numFrames ∉ drawnFrames numFrames rand k := by
  rw [drawnFrames_succ, List.nodup_append_comm, List.singleton_append, List.nodup_cons, and_comm]

/-- No page has been removed so far: every page of the references is in a frame of its own, in the
order of the calls of `rand()`. -/
structure Filling (numFrames : Nat) (rand : Nat → Nat) (hist : List Int) (st : RandomState) :
    Prop where
  room : hist.toFinset.card ≤ numFrames
  draws : st.draws = hist.toFinset.card
  faults : st.pageFaults = hist.toFinset.card
  resident : ∀ p, p ∈ st.inMemory ↔ p ∈ hist
  free : ∀ f, st.frameUsage[f]? = some (-1) ↔
    f < numFrames ∧ f ∉ drawnFrames numFrames rand hist.toFinset.card

/-- The frames fill up, and stay full from then on. -/
def ColdStart (numFrames : Nat) (rand : Nat → Nat) (hist : List Int) (st : RandomState) : Prop :=
  Filling numFrames rand hist st ∨ numFrames < hist.toFinset.card ∧ st.Full

theorem Filling.full_iff (h : Filling numFrames rand hist st) :
    st.Full ↔ ∀ f, f < numFrames → f ∈ drawnFrames numFrames rand hist.toFinset.card := by
  rw [RandomState.Full, List.mem_iff_getElem?]
  simp only [h.free]
  push Not
  rfl

/-- As long as there are fewer pages than frames, one is free. -/
theorem Filling.not_full (h : Filling numFrames rand hist st)
    (hroom : hist.toFinset.card < numFrames) : ¬ st.Full := by
  rw [h.full_iff]
  intro hall
  have hsub : List.range numFrames ⊆ drawnFrames numFrames rand hist.toFinset.card := by
    intro f hf
    exact hall f (List.mem_range.1 hf)
  have hle := (List.nodup_range.subperm hsub).length_le
  simp only [List.length_range, drawnFrames, List.length_map] at hle
  omega

/-- With as many pages as frames, in different frames, all frames are in use. -/
theorem Filling.full (hframes : 1 ≤ numFrames) (h : Filling numFrames rand hist st)
    (hcard : hist.toFinset.card = numFrames)
    (hnodup : (drawnFrames numFrames rand hist.toFinset.card).Nodup) : st.Full := by
  rw [h.full_iff]
  have hsub : drawnFrames numFrames rand hist.toFinset.card ⊆ List.range numFrames := by
    intro f hf
    rcases List.mem_map.1 hf with ⟨i, _, rfl⟩
    exact List.mem_range.2 (Nat.mod_lt _ hframes)
  have hperm : (drawnFrames numFrames rand hist.toFinset.card).Perm (List.range numFrames) := by
    refine (hnodup.subperm hsub).perm_of_length_le ?_
    simp [drawnFrames, hcard]
  intro f hf
  exact hperm.mem_iff.2 (List.mem_range.2 hf)

/-- A page that is new and goes to a free frame. -/
theorem Filling.load (h : Filling numFrames rand hist st) (htable : PageTable numFrames st)
    (hpage : 0 ≤ page) (hout : page ∉ hist) (hroom : hist.toFinset.card < numFrames)
    (hfree : st.frameUsage[rand st.draws % numFrames]? = some (-1)) :
    Filling numFrames rand (hist ++ [page]) (st.load (rand st.draws % numFrames) (-1) page) := by
  have hcard := card_concat_of_not_mem hout
  have hlt : rand st.draws % numFrames < st.frameUsage.length :=
    (List.getElem?_eq_some_iff.1 hfree).1
  refine ⟨by omega, ?_, ?_, ?_, ?_⟩
  · rw [hcard, ← h.draws]
    rfl
  · rw [hcard, ← h.faults]
    rfl
  · intro p
    rw [← AList.lookup_isSome, htable.lookup_load]
    by_cases hp : p = page
    · simp [hp]
    · have hnot : p = -1 → p ∉ st.inMemory := fun heq hmem => (htable.mem_iff.1 hmem).2 heq
      rw [if_neg hp, List.mem_append, List.mem_singleton, or_iff_left hp, ← h.resident]
      by_cases hpv : p = -1
      · simp [hpv, hpv ▸ hnot hpv]
      · rw [if_neg hpv, AList.lookup_isSome]
  · intro f
    rw [hcard, drawnFrames_succ, ← h.draws, List.mem_append, List.mem_singleton, not_or]
    simp only [RandomState.load, List.getElem?_set, hlt, if_true]
    by_cases hf : rand st.draws % numFrames = f
    · have hne : page ≠ -1 := by omega
      simp [hf, hne]
    · rw [if_neg hf, h.free, ← h.draws]
      simp [Ne.symm hf]

theorem RandomState.Full.load (h : st.Full) (hpage : 0 ≤ page) (f : Nat) (victimPage : Int) :
    (st.load f victimPage page).Full := by
  intro hmem
  rcases List.mem_or_eq_of_mem_set hmem with hold | hnew
  · exact h hold
  · omega

/-- Full frames stay full, and nothing is removed too early. -/
theorem RandomState.Full.step (hframes : 1 ≤ numFrames) (h : st.Full)
    (htable : PageTable numFrames st) (rand : Nat → Nat) (hpage : 0 ≤ page) :
    EvictsWhenFull numFrames rand st page ∧
      ∀ st', randomStep numFrames rand st page = some st' → st'.Full := by
  rcases htable.step hframes rand page with ⟨hhit, hstep⟩ | ⟨hout, victimPage, _, hstep⟩
  · refine ⟨evictsWhenFull_hit hhit, ?_⟩
    intro st' hstep'
    rw [hstep] at hstep'
    cases hstep'
    exact h
  · refine ⟨(htable.evictsWhenFull_iff hframes hout).2 (.inr h), ?_⟩
    intro st' hstep'
    rw [hstep] at hstep'
    cases hstep'
    exact h.load hpage _ _

/-- A page that was loaded is still there. -/
theorem Filling.hit (h : Filling numFrames rand hist st) (hold : page ∈ hist) :
    EvictsWhenFull numFrames rand st page ∧
      ∀ st', randomStep numFrames rand st page = some st' →
        Filling numFrames rand (hist ++ [page]) st' := by
  have hhit := (h.resident page).2 hold
  have hcard := card_concat_of_mem hold
  refine ⟨evictsWhenFull_hit hhit, ?_⟩
  intro st' hstep
  rw [randomStep, if_pos hhit] at hstep
  cases hstep
  refine ⟨hcard ▸ h.room, hcard ▸ h.draws, hcard ▸ h.faults, ?_, hcard ▸ h.free⟩
  intro p
  rw [List.mem_append, List.mem_singleton, ← h.resident]
  exact ⟨.inl, fun hp => hp.elim id fun heq => heq ▸ hhit⟩

/-- There is room for a new page, and its frame has to be a new one. -/
theorem Filling.fault (hframes : 1 ≤ numFrames) (h : Filling numFrames rand hist st)
    (htable : PageTable numFrames st) (hpage : 0 ≤ page) (hnew : page ∉ hist)
    (hroom : hist.toFinset.card < numFrames) :
    (EvictsWhenFull numFrames rand st page ↔
        rand hist.toFinset.card % numFrames ∉ drawnFrames numFrames rand hist.toFinset.card) ∧
      ∀ st', randomStep numFrames rand st page = some st' → EvictsWhenFull numFrames rand st page →
        Filling numFrames rand (hist ++ [page]) st' := by
  have hout : page ∉ st.inMemory := fun hmem => hnew ((h.resident page).1 hmem)
  have hfree : EvictsWhenFull numFrames rand st page ↔
      st.frameUsage[rand st.draws % numFrames]? = some (-1) := by
    rw [htable.evictsWhenFull_iff hframes hout, or_iff_left (h.not_full hroom)]
  constructor
  · rw [hfree, h.free, h.draws, and_iff_right (Nat.mod_lt _ hframes)]
  · intro st' hstep' hevicts
    rcases htable.step hframes rand page with ⟨hhit, _⟩ | ⟨_, victimPage, hvictim, hstep⟩
    · exact absurd hhit hout
    · have hslot := hfree.1 hevicts
      rw [hvictim] at hslot
      rw [hstep, Option.some.inj hslot] at hstep'
      cases hstep'
      exact h.load htable hpage hnew hroom (hfree.1 hevicts)

/-- From `num_frames` pages on the condition is about the same frames. -/
theorem RandomState.Full.coldStart_step (hframes : 1 ≤ numFrames) (h : st.Full)
    (htable : PageTable numFrames st) (hpage : 0 ≤ page)
    (hmany : numFrames ≤ hist.toFinset.card) (hmore : numFrames < (hist ++ [page]).toFinset.card)
    (hnodup : (drawnFrames numFrames rand (min numFrames hist.toFinset.card)).Nodup) :
    (EvictsWhenFull numFrames rand st page ↔
        (drawnFrames numFrames rand (min numFrames (hist ++ [page]).toFinset.card)).Nodup) ∧
      ∀ st', randomStep numFrames rand st page = some st' → EvictsWhenFull numFrames rand st page →
        ColdStart numFrames rand (hist ++ [page]) st' := by
  rcases h.step hframes htable rand hpage with ⟨hevicts, hstays⟩
  have hmin : min numFrames (hist ++ [page]).toFinset.card =
      min numFrames hist.toFinset.card := by omega
  rw [hmin]
  exact ⟨iff_of_true hevicts hnodup, fun st' hstep _ => .inr ⟨hmore, hstays st' hstep⟩⟩

/-- One reference after references that removed nothing too early: it does not either exactly when
the next frame is a new one, as long as there is room. -/
theorem ColdStart.step (hframes : 1 ≤ numFrames) (h : ColdStart numFrames rand hist st)
    (htable : PageTable numFrames st) (hpage : 0 ≤ page)
    (hnodup : (drawnFrames numFrames rand (min numFrames hist.toFinset.card)).Nodup) :
    (EvictsWhenFull numFrames rand st page ↔
        (drawnFrames numFrames rand (min numFrames (hist ++ [page]).toFinset.card)).Nodup) ∧
      ∀ st', randomStep numFrames rand st page = some st' → EvictsWhenFull numFrames rand st page →
        ColdStart numFrames rand (hist ++ [page]) st' := by
  rcases h with hfilling | ⟨hmany, hfull⟩
  · by_cases hold : page ∈ hist
    · rcases hfilling.hit hold with ⟨hevicts, hnext⟩
      have hcard := card_concat_of_mem hold
      exact ⟨iff_of_true hevicts (hcard ▸ hnodup), fun st' hstep _ => .inl (hnext st' hstep)⟩
    · have hcard := card_concat_of_not_mem hold
      rcases Nat.lt_or_eq_of_le hfilling.room with hroom | hroom
      · rcases hfilling.fault hframes htable hpage hold hroom with ⟨hiff, hnext⟩
        have hmin : min numFrames (hist ++ [page]).toFinset.card = hist.toFinset.card + 1 := by
          omega
        rw [Nat.min_eq_right hfilling.room] at hnodup
        refine ⟨?_, fun st' hstep hevicts => .inl (hnext st' hstep hevicts)⟩
        rw [hiff, hmin, nodup_drawnFrames_succ, and_iff_right hnodup]
      · rw [Nat.min_eq_right hfilling.room] at hnodup
        have hfull := hfilling.full hframes hroom hnodup
        rw [← Nat.min_eq_right hfilling.room] at hnodup
        exact hfull.coldStart_step hframes htable hpage (by omega) (by omega) hnodup
  · have hle := card_le_concat hist page
    exact hfull.coldStart_step hframes htable hpage (by omega) (by omega) hnodup

/-- In a whole run nothing is removed too early exactly when the first frames are different. -/
theorem guarded_evictsWhenFull_iff (hframes : 1 ≤ numFrames) (rand : Nat → Nat) (refs : List Int)
    (hpages : ∀ page ∈ refs, 0 ≤ page) :
    (Guarded (randomStep numFrames rand) (EvictsWhenFull numFrames rand) (.init numFrames) refs ↔
        (drawnFrames numFrames rand (min numFrames refs.toFinset.card)).Nodup) ∧
      (Guarded (randomStep numFrames rand) (EvictsWhenFull numFrames rand) (.init numFrames) refs →
        ∃ st, randomRun numFrames rand refs = some st ∧ ColdStart numFrames rand refs st) := by
  induction refs using List.reverseRecOn with
  | nil =>
      refine ⟨iff_of_true trivial (by simp [drawnFrames]), fun _ => ⟨_, rfl, .inl ?_⟩⟩
      refine ⟨Nat.zero_le _, rfl, rfl, ?_, ?_⟩
      · intro p
        simp [RandomState.init]
      · intro f
        simp [RandomState.init, drawnFrames, List.getElem?_replicate]
  | append_singleton hist page ih =>
      have hbefore : ∀ p ∈ hist, 0 ≤ p := fun p hp => hpages p (List.mem_append_left _ hp)
      rcases ih hbefore with ⟨hiff, hcold⟩
      rw [guarded_concat]
      by_cases hguarded : Guarded (randomStep numFrames rand) (EvictsWhenFull numFrames rand)
          (.init numFrames) hist
      · rcases hcold hguarded with ⟨st, hrun, hst⟩
        rcases randomRun_table hframes rand hist hbefore with ⟨st₁, hrun₁, htable, _⟩
        have hsame : st₁ = st := Option.some.inj (hrun₁.symm.trans hrun)
        subst hsame
        have hpage := hpages page (by simp)
        rcases hst.step hframes htable hpage (hiff.1 hguarded) with ⟨hstep, hnext⟩
        have hlast : (∀ s', hist.foldlM (randomStep numFrames rand) (.init numFrames) = some s' →
            EvictsWhenFull numFrames rand s' page) ↔ EvictsWhenFull numFrames rand st₁ page := by
          constructor
          · intro hall
            exact hall st₁ hrun
          · intro hone s' hs'
            have heq : s' = st₁ := Option.some.inj (hs'.symm.trans hrun)
            exact heq ▸ hone
        refine ⟨by rw [hlast, and_iff_right hguarded, hstep], ?_⟩
        rintro ⟨_, hall⟩
        rcases htable.next hframes hpage with ⟨st', hgo, _⟩
        refine ⟨st', ?_, hnext st' hgo (hlast.1 hall)⟩
        rw [randomRun_concat, hrun]
        exact hgo
      · -- What was removed too early stays a repetition among the frames.
        have hnot : ¬ (drawnFrames numFrames rand
            (min numFrames (hist ++ [page]).toFinset.card)).Nodup := by
          intro hnodup
          have hle := card_le_concat hist page
          refine hguarded (hiff.2 (hnodup.sublist (drawnFrames_sublist ?_)))
          omega
        exact ⟨iff_of_false (fun hboth => hguarded hboth.1) hnot, fun hboth =>
          absurd hboth.1 hguarded⟩

theorem faults_of_few {numBlocks : Nat} (hframes : 1 ≤ numFrames) {refs : List Int}
    (hpages : ∀ page ∈ refs, InRange numBlocks page) (hfew : refs.toFinset.card ≤ numFrames) :
    faults numFrames numBlocks refs = some refs.toFinset.card := by
  rw [faults_eq hframes refs hpages, length_loadsOf hfew]

end Evictions

/-- A page is removed only at a fault with all frames in use, and at most `num_frames` pages cost one
fault each, if and only if the first calls of `rand()`, one for each page up to `num_frames`, tell
different frames.  The LRU and FIFO loops always have one fault for each page then. -/
theorem evicts_only_when_full_iff {numFrames : Nat} (hframes : 1 ≤ numFrames) (refs : List Int)
    (hpages : ∀ page ∈ refs, 0 ≤ page) (rand : Nat → Nat) :
    ((Guarded (randomStep numFrames rand) (EvictsWhenFull numFrames rand) (.init numFrames) refs ∧
        (refs.toFinset.card ≤ numFrames →
          (randomRun numFrames rand refs).map RandomState.pageFaults = some refs.toFinset.card)) ↔
      (drawnFrames numFrames rand (min numFrames refs.toFinset.card)).Nodup) ∧
    (refs.toFinset.card ≤ numFrames →
      (lruRun numFrames refs).map LruState.pageFaults = some refs.toFinset.card ∧
      ∀ numBlocks : Nat, (∀ page ∈ refs, page < numBlocks) →
        faults numFrames numBlocks refs = some refs.toFinset.card) := by
  rcases guarded_evictsWhenFull_iff hframes rand refs hpages with ⟨hiff, hcold⟩
  refine ⟨⟨fun h => hiff.1 h.1, fun hnodup => ⟨hiff.2 hnodup, ?_⟩⟩, ?_⟩
  · intro hfew
    rcases hcold (hiff.2 hnodup) with ⟨st, hrun, hfilling | ⟨hmany, _⟩⟩
    · rw [hrun, Option.map_some, hfilling.faults]
    · omega
  · intro hfew
    rcases Tracks.run_few hframes refs hfew with ⟨st, hrun, _, hcount⟩
    refine ⟨by rw [hrun, Option.map_some, hcount], ?_⟩
    intro numBlocks hbelow
    exact faults_of_few hframes (fun page hp => ⟨hpages page hp, hbelow page hp⟩) hfew

/-- Two frames, and `rand()` tells both of them. -/
theorem evicts_only_when_full_two_frames :
    (Guarded (randomStep 2 fun k => k) (EvictsWhenFull 2 fun k => k) (.init 2) [5, 8, 5] ∧
      ([(5 : Int), 8, 5].toFinset.card ≤ 2 →
        (randomRun 2 (fun k => k) [5, 8, 5]).map RandomState.pageFaults =
          some [(5 : Int), 8, 5].toFinset.card)) ∧
    (drawnFrames 2 (fun k => k) (min 2 [(5 : Int), 8, 5].toFinset.card)).Nodup := by
  have hnodup : (drawnFrames 2 (fun k => k) (min 2 [(5 : Int), 8, 5].toFinset.card)).Nodup := by
    decide
  exact ⟨(evicts_only_when_full_iff (by decide) [5, 8, 5] (by decide) fun k => k).1.2 hnodup, hnodup⟩

/-- Two frames, and `rand()` is 0 each time: page 1 removes page 0 while frame 1 is free, and two pages
cost three faults. -/
theorem page_removed_with_free_frame :
    ¬ Guarded (randomStep 2 fun _ => 0) (EvictsWhenFull 2 fun _ => 0) (.init 2) [0, 1, 0] ∧
      (randomRun 2 (fun _ => 0) [0, 1, 0]).map RandomState.pageFaults = some 3 ∧
      [(0 : Int), 1, 0].toFinset.card = 2 := by
  refine ⟨?_, by decide, by decide⟩
  intro hguarded
  have hfirst : randomStep 2 (fun _ => 0) (.init 2) 0 =
      some ((RandomState.init 2).load 0 (-1) 0) := rfl
  have hsecond : randomStep 2 (fun _ => 0) ((RandomState.init 2).load 0 (-1) 0) 1 =
      some (((RandomState.init 2).load 0 (-1) 0).load 0 0 1) := rfl
  have hfull := ((hguarded.2 _ hfirst).1 _ hsecond 0 (by decide) (by decide)).2
  exact hfull (by decide)

end Paging
end OsLab
