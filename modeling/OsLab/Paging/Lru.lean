import Mathlib.Data.List.AList
import OsLab.Lib.Recency

/-!
# LRU — least recently used page replacement

The loop of `200010004_lru.cpp` keeps two structures: the hash map `in_memory` of resident pages and
the vector `frameQueue` of the same pages, least recently used first.  One turn of the loop is
`lruStep`; a turn fails (`none`) where the C++ code reads `frameQueue.front()` of an empty vector,
which happens only when `num_frames` is zero.

The specification looks back over the whole reference string (`StackFault`, `MostRecentlyUsed`) and
mentions neither structure.
-/

namespace OsLab
namespace Paging

open OsLab.Lib

/-! ## The loop -/

/-- The variables of the loop.  The values of `in_memory` are written and never read. -/
structure LruState where
  pageFaults : Nat
  inMemory : AList (fun _ : Int => Nat)
  frameQueue : List Int
  deriving DecidableEq

def LruState.init : LruState :=
  { pageFaults := 0, inMemory := ∅, frameQueue := [] }

/-- `in_memory.size()` -/
def LruState.size (st : LruState) : Nat :=
  st.inMemory.entries.length

def lruStep (numFrames : Nat) (st : LruState) (page : Int) : Option LruState :=
  if page ∈ st.inMemory then
    -- The inner loop erases the first copy of the page, then the page goes to the back.
    some { st with frameQueue := st.frameQueue.erase page ++ [page] }
  else if st.size < numFrames then
    some
      { pageFaults := st.pageFaults + 1
        -- A free frame: the page is added.
        inMemory := st.inMemory.insert page st.size
        frameQueue := st.frameQueue ++ [page] }
  else
    match st.frameQueue with
    -- `frameQueue[0]` of an empty vector.
    | [] => none
    | lruPage :: rest =>
        let erased := st.inMemory.erase lruPage
        some
          { pageFaults := st.pageFaults + 1
            inMemory := erased.insert page erased.entries.length
            frameQueue := rest ++ [page] }

def lruRun (numFrames : Nat) (pageReferences : List Int) : Option LruState :=
  pageReferences.foldlM (lruStep numFrames) LruState.init

theorem lruRun_concat (numFrames : Nat) (hist : List Int) (page : Int) :
    lruRun numFrames (hist ++ [page]) =
      (lruRun numFrames hist).bind fun st => lruStep numFrames st page := by
  simp [lruRun, List.foldlM_append]

/-! ## The stack distance definition -/

/-- The page was not referenced before, or at least `numFrames` distinct other pages were referenced
since its last reference. -/
def StackFault (numFrames : Nat) (hist : List Int) (page : Int) : Prop :=
  page ∉ hist ∨ numFrames ≤ ((usedSince hist page).erase page).card

instance (numFrames : Nat) (hist : List Int) (page : Int) :
    Decidable (StackFault numFrames hist page) :=
  inferInstanceAs (Decidable (_ ∨ _))

theorem stackFault_iff (numFrames : Nat) (hist : List Int) (page : Int) :
    StackFault numFrames hist page ↔ page ∉ recent numFrames hist := by
  rw [StackFault, mem_recent_iff, erase_usedSince]
  by_cases hmem : page ∈ hist
  · simp [hmem]
  · simp [hmem]

theorem StackFault.of_more_frames {few many : Nat} (hle : few ≤ many) {hist : List Int} {page : Int}
    (h : StackFault many hist page) : StackFault few hist page :=
  h.imp_right hle.trans

/-! ## The loop follows the recency list -/

/-- The loop state after the references `hist`: both structures hold the most recent pages. -/
structure Tracks (numFrames : Nat) (hist : List Int) (st : LruState) : Prop where
  queue : st.frameQueue = recent numFrames hist
  keys : st.inMemory.keys.Perm st.frameQueue

section Tracks

variable {numFrames : Nat} {hist : List Int} {st : LruState}

theorem Tracks.init (numFrames : Nat) : Tracks numFrames [] LruState.init where
  queue := by simp [LruState.init, recent]
  keys := by simp [LruState.init]

theorem Tracks.resident (h : Tracks numFrames hist st) (page : Int) :
    page ∈ st.inMemory ↔ page ∈ recent numFrames hist := by
  rw [AList.mem_keys, h.keys.mem_iff, h.queue]

theorem Tracks.size_eq (h : Tracks numFrames hist st) :
    st.size = (recent numFrames hist).length := by
  have hkeys : st.inMemory.keys.length = st.size := List.length_map _
  rw [← hkeys, h.keys.length_eq, h.queue]

/-- A hit: the page moves to the back of the queue. -/
theorem Tracks.hit (h : Tracks numFrames hist st) {page : Int}
    (hhit : page ∈ recent numFrames hist) :
    ∃ st', lruStep numFrames st page = some st' ∧ Tracks numFrames (hist ++ [page]) st' ∧
      st'.pageFaults = st.pageFaults := by
  have hmem : page ∈ st.inMemory := (h.resident page).2 hhit
  refine ⟨{ st with frameQueue := st.frameQueue.erase page ++ [page] }, if_pos hmem, ⟨?_, ?_⟩, rfl⟩
  · change st.frameQueue.erase page ++ [page] = _
    rw [h.queue, recent_concat_of_mem hhit]
  · have hqueue : page ∈ st.frameQueue := h.queue ▸ hhit
    calc
      st.inMemory.keys.Perm st.frameQueue := h.keys
      _ |>.Perm (page :: st.frameQueue.erase page) := List.perm_cons_erase hqueue
      _ |>.Perm (st.frameQueue.erase page ++ [page]) := (List.perm_append_singleton _ _).symm

/-- A miss with a free frame. -/
theorem Tracks.fill (h : Tracks numFrames hist st) {page : Int}
    (hmiss : page ∉ recent numFrames hist) (hsize : st.size < numFrames) :
    ∃ st', lruStep numFrames st page = some st' ∧ Tracks numFrames (hist ++ [page]) st' ∧
      st'.pageFaults = st.pageFaults + 1 := by
  have hmem : page ∉ st.inMemory := fun hin => hmiss ((h.resident page).1 hin)
  have hkeys : page ∉ st.inMemory.keys := fun hin => hmem (AList.mem_keys.2 hin)
  refine ⟨_, by simp only [lruStep, hmem, hsize, if_true, if_false]; rfl, ⟨?_, ?_⟩, rfl⟩
  · change st.frameQueue ++ [page] = _
    rw [h.queue, recent_concat_of_short hmiss (h.size_eq ▸ hsize)]
  · have hcons : (st.inMemory.insert page st.size).keys = page :: st.inMemory.keys := by
      simp [List.erase_of_not_mem hkeys]
    calc
      (st.inMemory.insert page st.size).keys.Perm (page :: st.inMemory.keys) :=
        List.Perm.of_eq hcons
      _ |>.Perm (page :: st.frameQueue) := h.keys.cons page
      _ |>.Perm (st.frameQueue ++ [page]) := (List.perm_append_singleton _ _).symm

/-- A miss with all frames in use: the front of the queue is the least recently used page. -/
theorem Tracks.replace (h : Tracks numFrames hist st) {page lruPage : Int} {rest : List Int}
    (hmiss : page ∉ recent numFrames hist) (hsize : ¬ st.size < numFrames)
    (hqueue : st.frameQueue = lruPage :: rest) :
    ∃ st', lruStep numFrames st page = some st' ∧ Tracks numFrames (hist ++ [page]) st' ∧
      st'.pageFaults = st.pageFaults + 1 := by
  have hmem : page ∉ st.inMemory := fun hin => hmiss ((h.resident page).1 hin)
  have hkeys : page ∉ st.inMemory.keys := fun hin => hmem (AList.mem_keys.2 hin)
  have hfull : numFrames ≤ (recent numFrames hist).length := by
    simpa [h.size_eq] using hsize
  have hrecent : recent numFrames hist = lruPage :: rest := h.queue ▸ hqueue
  refine ⟨_, by simp only [lruStep, hmem, hsize, hqueue, if_false]; rfl, ⟨?_, ?_⟩, rfl⟩
  · change rest ++ [page] = _
    exact (recent_concat_of_full hrecent hmiss hfull).symm
  · have hperm : (st.inMemory.keys.erase lruPage).Perm rest := by
      have hcons : st.inMemory.keys.Perm (lruPage :: rest) := hqueue ▸ h.keys
      simpa using hcons.erase lruPage
    have hnot : page ∉ st.inMemory.keys.erase lruPage := fun hin =>
      hkeys (List.mem_of_mem_erase hin)
    have hcons : ((st.inMemory.erase lruPage).insert page
        (st.inMemory.erase lruPage).entries.length).keys =
          page :: st.inMemory.keys.erase lruPage := by
      simp [List.erase_of_not_mem hnot]
    calc
      ((st.inMemory.erase lruPage).insert page
        (st.inMemory.erase lruPage).entries.length).keys.Perm
          (page :: st.inMemory.keys.erase lruPage) := List.Perm.of_eq hcons
      _ |>.Perm (page :: rest) := hperm.cons page
      _ |>.Perm (rest ++ [page]) := (List.perm_append_singleton _ _).symm

/-- One turn of the loop: the state moves on with the recency list, and the fault counter goes up
exactly at a stack fault. -/
theorem Tracks.step (hframes : 1 ≤ numFrames) (h : Tracks numFrames hist st) (page : Int) :
    ∃ st', lruStep numFrames st page = some st' ∧ Tracks numFrames (hist ++ [page]) st' ∧
      st'.pageFaults = st.pageFaults + if StackFault numFrames hist page then 1 else 0 := by
  by_cases hhit : page ∈ recent numFrames hist
  · rw [if_neg fun hfault => (stackFault_iff ..).1 hfault hhit]
    exact h.hit hhit
  · rw [if_pos ((stackFault_iff ..).2 hhit)]
    by_cases hsize : st.size < numFrames
    · exact h.fill hhit hsize
    · cases hqueue : st.frameQueue with
      -- With at least one frame a full memory has a front page.
      | nil =>
          have hnil : recent numFrames hist = [] := h.queue ▸ hqueue
          rw [h.size_eq, hnil] at hsize
          exact absurd hframes hsize
      | cons lruPage rest => exact h.replace hhit hsize hqueue

/-- A whole run of the loop: it never reads an empty queue, and its state follows the recency list. -/
theorem Tracks.run (hframes : 1 ≤ numFrames) (refs : List Int) :
    ∃ st, lruRun numFrames refs = some st ∧ Tracks numFrames refs st := by
  induction refs using List.reverseRecOn with
  | nil => exact ⟨LruState.init, rfl, Tracks.init numFrames⟩
  | append_singleton hist page ih =>
      rcases ih with ⟨st, hrun, htracks⟩
      rcases htracks.step hframes page with ⟨st', hstep, htracks', _⟩
      refine ⟨st', ?_, htracks'⟩
      rw [lruRun_concat, hrun]
      exact hstep

/-- With more frames the loop never counts more faults. -/
theorem Tracks.faults_antitone {few many : Nat} (hframes : 1 ≤ few) (hle : few ≤ many)
    (refs : List Int) :
    ∃ stFew stMany, lruRun few refs = some stFew ∧ lruRun many refs = some stMany ∧
      Tracks few refs stFew ∧ Tracks many refs stMany ∧ stMany.pageFaults ≤ stFew.pageFaults := by
  induction refs using List.reverseRecOn with
  | nil => exact ⟨_, _, rfl, rfl, Tracks.init few, Tracks.init many, Nat.le_refl _⟩
  | append_singleton hist page ih =>
      rcases ih with ⟨stFew, stMany, hfew, hmany, tfew, tmany, hcount⟩
      rcases tfew.step hframes page with ⟨stFew', hstepF, tfew', hcountF⟩
      rcases tmany.step (hframes.trans hle) page with ⟨stMany', hstepM, tmany', hcountM⟩
      refine ⟨stFew', stMany', ?_, ?_, tfew', tmany', ?_⟩
      · rw [lruRun_concat, hfew]
        exact hstepF
      · rw [lruRun_concat, hmany]
        exact hstepM
      · rw [hcountF, hcountM]
        refine Nat.add_le_add hcount ?_
        -- A fault with many frames is a fault with few.
        by_cases hmanyFault : StackFault many hist page
        · simp [hmanyFault, hmanyFault.of_more_frames hle]
        · simp [hmanyFault]

/-- With no more pages than frames there is one fault for each page. -/
theorem Tracks.run_few (hframes : 1 ≤ numFrames) (refs : List Int)
    (hfew : refs.toFinset.card ≤ numFrames) :
    ∃ st, lruRun numFrames refs = some st ∧ Tracks numFrames refs st ∧
      st.pageFaults = refs.toFinset.card := by
  induction refs using List.reverseRecOn with
  | nil => exact ⟨LruState.init, rfl, Tracks.init numFrames, rfl⟩
  | append_singleton hist page ih =>
      have hbefore : hist.toFinset.card ≤ numFrames := (card_le_concat hist page).trans hfew
      rcases ih hbefore with ⟨st, hrun, htracks, hcount⟩
      rcases htracks.step hframes page with ⟨st', hstep, htracks', hcount'⟩
      refine ⟨st', ?_, htracks', ?_⟩
      · rw [lruRun_concat, hrun]
        exact hstep
      · -- No page has left the window, so a fault is a page that is new.
        have hfault : StackFault numFrames hist page ↔ page ∉ hist := by
          rw [stackFault_iff, recent_of_few hbefore, List.mem_dedup]
        rw [hcount', hcount]
        by_cases hold : page ∈ hist
        · rw [if_neg (fun hf => hfault.1 hf hold), card_concat_of_mem hold, Nat.add_zero]
        · rw [if_pos (hfault.2 hold), card_concat_of_not_mem hold]

end Tracks

/-! ## Main result -/

/-- The LRU loop is the stack distance definition: the `i`-th reference is counted as a fault exactly
when it is a stack fault, after every reference both structures hold the most recently used pages,
and more frames never give more faults. -/
theorem lru_stack_distance (numFrames : Nat) (hframes : 1 ≤ numFrames)
    (pageReferences : List Int) :
    (∀ i (hi : i < pageReferences.length), ∃ st st',
      lruRun numFrames (pageReferences.take i) = some st ∧
      lruRun numFrames (pageReferences.take (i + 1)) = some st' ∧
      st'.pageFaults = (if StackFault numFrames (pageReferences.take i) pageReferences[i]
        then st.pageFaults + 1 else st.pageFaults) ∧
      MostRecentlyUsed numFrames (pageReferences.take (i + 1)) st'.frameQueue ∧
      ∀ page, page ∈ st'.inMemory ↔ page ∈ st'.frameQueue) ∧
    ∀ more, numFrames ≤ more → ∃ st st',
      lruRun numFrames pageReferences = some st ∧ lruRun more pageReferences = some st' ∧
      st'.pageFaults ≤ st.pageFaults := by
  refine ⟨?_, ?_⟩
  · intro i hi
    -- The `i`-th reference is one step from the state after the first `i`.
    have htake : pageReferences.take (i + 1) = pageReferences.take i ++ [pageReferences[i]] :=
      List.take_succ_eq_append_getElem hi
    rcases Tracks.run hframes (pageReferences.take i) with ⟨st, hrun, htracks⟩
    rcases htracks.step hframes pageReferences[i] with ⟨st', hstep, htracks', hcount⟩
    refine ⟨st, st', hrun, ?_, ?_, ?_, ?_⟩
    · rw [htake, lruRun_concat, hrun]
      exact hstep
    · rw [hcount]
      split <;> rfl
    · rw [htake, htracks'.queue]
      exact recent_mostRecentlyUsed _ _
    · intro page
      rw [htracks'.resident page, htracks'.queue]
  · intro more hle
    rcases Tracks.faults_antitone hframes hle pageReferences with ⟨st, st', hrun, hrun', _, _, hfaults⟩
    exact ⟨st, st', hrun, hrun', hfaults⟩

/-- Two frames and the string `1 2 1 3`: the last reference is a fault and evicts page 2, not page 1. -/
theorem lru_stack_distance_two_frames :
    1 ≤ 2 ∧
    (∃ st st', lruRun 2 [1, 2, 1] = some st ∧ lruRun 2 [1, 2, 1, 3] = some st' ∧
      st'.pageFaults = (if StackFault 2 [1, 2, 1] 3 then st.pageFaults + 1 else st.pageFaults) ∧
      MostRecentlyUsed 2 [1, 2, 1, 3] st'.frameQueue ∧
      ∀ page, page ∈ st'.inMemory ↔ page ∈ st'.frameQueue) ∧
    StackFault 2 [1, 2, 1] 3 ∧ (lruRun 2 [1, 2, 1, 3]).map LruState.frameQueue = some [1, 3] :=
  ⟨by decide, (lru_stack_distance 2 (by decide) [1, 2, 1, 3]).1 3 (by decide), by decide, by decide⟩

end Paging
end OsLab
