import Mathlib.Logic.Function.Basic
import OsLab.Lib.LoadOrder
import OsLab.Lib.Streams

/-!
# FIFO — first in, first out page replacement

The loop of `200010004_fifo.cpp` keeps the queue `fifoQueue` of the resident pages, oldest load first,
and the array `in_memory` that is 1 at the resident pages.  One turn of the loop is `fifoStep`; it
fails (`none`) where the C++ code indexes `in_memory` out of range or takes the front of an empty
queue, which happens only when `num_frames` is zero.

The turn is written over a `Residency` table.  The program has an array of `num_blocks` entries
(`arrayTable`); the programs for the other policies use a hash map, which has an entry for every page
(`mapTable`).

The specification looks back over the faults only (`LoadFault`).
-/

namespace OsLab
namespace Paging

open OsLab.Lib

/-! ## Residency tables -/

/-- A table with an entry for some pages.  Whatever can be read can be written, and a write changes
one entry. -/
structure Residency (τ : Type) where
  look : τ → Int → Option Int
  put : τ → Int → Int → Option τ
  look_put : ∀ mem page v, look mem page ≠ none →
    ∃ mem', put mem page v = some mem' ∧
      ∀ other, look mem' other = if other = page then some v else look mem other

/-- `int in_memory[num_blocks]` -/
def arrayTable : Residency (List Int) where
  look mem page := if page < 0 then none else mem[page.toNat]?
  put mem page v := if page < 0 ∨ mem.length ≤ page.toNat then none else some (mem.set page.toNat v)
  look_put := by
    intro mem page v hlook
    have hrange : ¬ page < 0 ∧ page.toNat < mem.length := by
      by_cases hneg : page < 0
      · simp [hneg] at hlook
      · simpa [hneg] using hlook
    refine ⟨mem.set page.toNat v, by simp [hrange], ?_⟩
    intro other
    by_cases hother : other = page
    · subst hother
      simp [hrange]
    · by_cases hneg : other < 0
      · simp [hneg, hother]
      · have hne : page.toNat ≠ other.toNat := by omega
        simp [hneg, hother, hne]

/-- A hash map from pages, in which a page without an entry counts as 0. -/
def mapTable : Residency (Int → Int) where
  look mem page := some (mem page)
  put mem page v := some (Function.update mem page v)
  look_put := by
    intro mem page v _
    refine ⟨_, rfl, ?_⟩
    intro other
    by_cases hother : other = page
    · simp [hother]
    · simp [hother]

/-! ## The loop -/

/-- The variables of the loop. -/
structure FifoState (τ : Type) where
  pageFaults : Nat
  fifoQueue : List Int
  inMemory : τ
  deriving DecidableEq

section Loop

variable {τ : Type} (R : Residency τ)

/-- The end of a fault: the page goes to the back of the queue. -/
def bringIn (st : FifoState τ) (page : Int) : Option (FifoState τ) :=
  (R.put st.inMemory page 1).map fun mem =>
    { st with fifoQueue := st.fifoQueue ++ [page], inMemory := mem }

def fifoStep (numFrames : Nat) (st : FifoState τ) (page : Int) : Option (FifoState τ) :=
  (R.look st.inMemory page).bind fun hit =>
    if hit ≠ 0 then some st
    else
      let st := { st with pageFaults := st.pageFaults + 1 }
      if st.fifoQueue.length = numFrames then
        match st.fifoQueue with
        -- `front()` of an empty queue.
        | [] => none
        | victimPage :: rest =>
            (R.put st.inMemory victimPage 0).bind fun mem =>
              bringIn R { st with fifoQueue := rest, inMemory := mem } page
      else bringIn R st page

def fifoLoop (numFrames : Nat) (mem : τ) (pageReferences : List Int) : Option (FifoState τ) :=
  pageReferences.foldlM (fifoStep R numFrames) { pageFaults := 0, fifoQueue := [], inMemory := mem }

end Loop

/-- The loop of the program, on an array of zeros. -/
def fifoRun (numFrames numBlocks : Nat) (pageReferences : List Int) :
    Option (FifoState (List Int)) :=
  fifoLoop arrayTable numFrames (List.replicate numBlocks 0) pageReferences

/-- The same loop on an empty hash map. -/
def fifoMapRun (numFrames : Nat) (pageReferences : List Int) : Option (FifoState (Int → Int)) :=
  fifoLoop mapTable numFrames (fun _ => 0) pageReferences

/-- The page references in a file. -/
def readReferences (text : List Char) : List Int :=
  extractInts text.length text

/-- The faults that the loop has counted after the references. -/
def faults (numFrames numBlocks : Nat) (pageReferences : List Int) : Option Nat :=
  (fifoRun numFrames numBlocks pageReferences).map FifoState.pageFaults

/-- The pages of the references at which the counter went up, in order. -/
def loadedPages (numFrames numBlocks : Nat) (pageReferences : List Int) : List Int :=
  (List.range pageReferences.length).filterMap fun i =>
    if faults numFrames numBlocks (pageReferences.take (i + 1)) =
        faults numFrames numBlocks (pageReferences.take i) then none
    else pageReferences[i]?

/-! ## The loop follows the history of loads -/

/-- The loop state after the references `hist`.  The table is only known on the pages of `dom`. -/
structure Follows {τ : Type} (R : Residency τ) (dom : Int → Prop) (numFrames : Nat)
    (hist : List Int) (st : FifoState τ) : Prop where
  faults : st.pageFaults = (loadsOf numFrames hist).length
  queue : st.fifoQueue = (loadsOf numFrames hist).rtake numFrames
  table : ∀ page, dom page →
    R.look st.inMemory page = some (if page ∈ st.fifoQueue then 1 else 0)

section Follows

variable {τ : Type} {R : Residency τ} {dom : Int → Prop} {numFrames : Nat} {hist : List Int}
variable {st : FifoState τ}

theorem fifoLoop_concat (R : Residency τ) (numFrames : Nat) (mem : τ) (hist : List Int)
    (page : Int) :
    fifoLoop R numFrames mem (hist ++ [page]) =
      (fifoLoop R numFrames mem hist).bind fun st => fifoStep R numFrames st page := by
  simp [fifoLoop, List.foldlM_append]

/-- A page that is out goes to the back of the queue. -/
theorem bringIn_eq (st : FifoState τ) {page : Int} (hpage : R.look st.inMemory page ≠ none)
    (htable : ∀ other, dom other →
      R.look st.inMemory other = some (if other ∈ st.fifoQueue then 1 else 0)) :
    ∃ mem, bringIn R st page =
        some { st with fifoQueue := st.fifoQueue ++ [page], inMemory := mem } ∧
      ∀ other, dom other →
        R.look mem other = some (if other ∈ st.fifoQueue ++ [page] then 1 else 0) := by
  rcases R.look_put st.inMemory page 1 hpage with ⟨mem, hput, hlook⟩
  refine ⟨mem, by simp [bringIn, hput], ?_⟩
  intro other hdom
  rw [hlook other]
  by_cases hother : other = page
  · simp [hother]
  · simp [hother, htable other hdom]

/-- The oldest page of a queue without repetitions is put out of the table. -/
theorem evict_eq {mem : τ} {victimPage : Int} {rest : List Int}
    (hnodup : (victimPage :: rest).Nodup) (hvictim : dom victimPage)
    (htable : ∀ other, dom other →
      R.look mem other = some (if other ∈ victimPage :: rest then 1 else 0)) :
    ∃ mem', R.put mem victimPage 0 = some mem' ∧
      ∀ other, dom other → R.look mem' other = some (if other ∈ rest then 1 else 0) := by
  have hreadable : R.look mem victimPage ≠ none := by
    rw [htable victimPage hvictim]
    exact Option.some_ne_none _
  rcases R.look_put mem victimPage 0 hreadable with ⟨mem', hput, hlook⟩
  refine ⟨mem', hput, ?_⟩
  intro other hdom
  rw [hlook other]
  by_cases hother : other = victimPage
  · subst hother
    rw [if_pos rfl, if_neg (List.nodup_cons.1 hnodup).1]
  · rw [if_neg hother, htable other hdom]
    simp [hother]

theorem Follows.mem_queue_iff (h : Follows R dom numFrames hist st) {page : Int} :
    page ∈ st.fifoQueue ↔ ¬ LoadFault numFrames (loadsOf numFrames hist) page := by
  rw [loadFault_iff, not_not, h.queue]

/-- A page of the queue has an entry in the table. -/
theorem Follows.dom_queue (hhist : ∀ page ∈ hist, dom page) (h : Follows R dom numFrames hist st)
    {page : Int} (hpage : page ∈ st.fifoQueue) : dom page := by
  rw [h.queue] at hpage
  exact hhist page (mem_of_mem_loadsOf hist (List.mem_of_mem_drop hpage))

/-- A reference to a page that is in changes nothing. -/
theorem Follows.hit (h : Follows R dom numFrames hist st) {page : Int} (hpage : dom page)
    (hin : ¬ LoadFault numFrames (loadsOf numFrames hist) page) :
    fifoStep R numFrames st page = some st ∧ Follows R dom numFrames (hist ++ [page]) st := by
  have hsame : loadsOf numFrames (hist ++ [page]) = loadsOf numFrames hist := by
    rw [loadsOf_concat, load, if_neg hin]
  have hlook := h.table page hpage
  rw [if_pos (h.mem_queue_iff.2 hin)] at hlook
  refine ⟨by simp [fifoStep, hlook], ?_, ?_, h.table⟩
  · rw [hsame, h.faults]
  · rw [hsame, h.queue]

/-- A reference to a page that is out is one more load. -/
theorem Follows.loaded (h : Follows R dom numFrames hist st) {page : Int}
    (hout : LoadFault numFrames (loadsOf numFrames hist) page) {queue : List Int} {mem : τ}
    (hqueue : (loadsOf numFrames hist ++ [page]).rtake numFrames = queue)
    (htable : ∀ other, dom other → R.look mem other = some (if other ∈ queue then 1 else 0)) :
    Follows R dom numFrames (hist ++ [page]) ⟨st.pageFaults + 1, queue, mem⟩ := by
  have hmore : loadsOf numFrames (hist ++ [page]) = loadsOf numFrames hist ++ [page] := by
    rw [loadsOf_concat, load, if_pos hout]
  refine ⟨?_, ?_, htable⟩
  · rw [hmore, List.length_append, List.length_singleton, h.faults]
  · rw [hmore, hqueue]

/-- All frames are in use: the oldest load leaves. -/
theorem Follows.replace (hframes : 1 ≤ numFrames) (hhist : ∀ page ∈ hist, dom page)
    (h : Follows R dom numFrames hist st) {page : Int} (hpage : dom page)
    (hout : LoadFault numFrames (loadsOf numFrames hist) page)
    (hfull : st.fifoQueue.length = numFrames) :
    ∃ queue mem, fifoStep R numFrames st page = some ⟨st.pageFaults + 1, queue, mem⟩ ∧
      Follows R dom numFrames (hist ++ [page]) ⟨st.pageFaults + 1, queue, mem⟩ := by
  have hlength : st.fifoQueue.length = min numFrames (loadsOf numFrames hist).length := by
    rw [h.queue, length_rtake]
  have hwindow : (loadsOf numFrames hist ++ [page]).rtake numFrames =
      st.fifoQueue.tail ++ [page] := by
    rw [rtake_concat_full hframes (by omega), h.queue]
  have hnodup : st.fifoQueue.Nodup := h.queue ▸ nodup_rtake_loadsOf hframes hist
  have hlook := h.table page hpage
  rw [if_neg fun hin => h.mem_queue_iff.1 hin hout] at hlook
  cases hqueue : st.fifoQueue with
  | nil =>
      rw [hqueue] at hfull
      exact absurd hframes (by simp [← hfull])
  | cons victimPage rest =>
      have hvictim : dom victimPage := h.dom_queue hhist (hqueue ▸ List.mem_cons_self)
      have htable := h.table
      rw [hqueue] at hwindow hnodup htable hfull
      rcases evict_eq hnodup hvictim htable with ⟨mem, hput, hevicted⟩
      have hpage' : R.look mem page ≠ none := by
        rw [hevicted page hpage]
        exact Option.some_ne_none _
      rcases bringIn_eq ⟨st.pageFaults + 1, rest, mem⟩ hpage' hevicted with
        ⟨mem', hbring, htable'⟩
      refine ⟨rest ++ [page], mem', ?_, h.loaded hout hwindow htable'⟩
      simp only [fifoStep, hlook, hqueue, Option.bind_some, ne_eq, not_true, if_false, hfull,
        if_true, hput]
      exact hbring

/-- A frame is free, so nothing has ever been pushed out. -/
theorem Follows.fill (h : Follows R dom numFrames hist st) {page : Int} (hpage : dom page)
    (hout : LoadFault numFrames (loadsOf numFrames hist) page)
    (hfree : st.fifoQueue.length ≠ numFrames) :
    ∃ queue mem, fifoStep R numFrames st page = some ⟨st.pageFaults + 1, queue, mem⟩ ∧
      Follows R dom numFrames (hist ++ [page]) ⟨st.pageFaults + 1, queue, mem⟩ := by
  have hlength : st.fifoQueue.length = min numFrames (loadsOf numFrames hist).length := by
    rw [h.queue, length_rtake]
  have hshort : (loadsOf numFrames hist ++ [page]).length ≤ numFrames := by
    rw [List.length_append, List.length_singleton]
    omega
  have hall : (loadsOf numFrames hist ++ [page]).rtake numFrames = st.fifoQueue ++ [page] := by
    rw [h.queue, rtake_eq_self hshort, rtake_eq_self (by omega)]
  have hlook := h.table page hpage
  rw [if_neg fun hin => h.mem_queue_iff.1 hin hout] at hlook
  have hpage' : R.look st.inMemory page ≠ none := by
    rw [hlook]
    exact Option.some_ne_none _
  rcases bringIn_eq ⟨st.pageFaults + 1, st.fifoQueue, st.inMemory⟩ hpage' h.table with
    ⟨mem, hbring, htable⟩
  refine ⟨st.fifoQueue ++ [page], mem, ?_, h.loaded hout hall htable⟩
  simp only [fifoStep, hlook, Option.bind_some, ne_eq, not_true, if_false, hfree]
  exact hbring

/-- One turn of the loop: the counter goes up exactly when the page is out. -/
theorem Follows.step (hframes : 1 ≤ numFrames) (hhist : ∀ page ∈ hist, dom page)
    (h : Follows R dom numFrames hist st) {page : Int} (hpage : dom page) :
    ∃ st', fifoStep R numFrames st page = some st' ∧
      Follows R dom numFrames (hist ++ [page]) st' ∧
      st'.pageFaults =
        if LoadFault numFrames (loadsOf numFrames hist) page then st.pageFaults + 1
        else st.pageFaults := by
  by_cases hout : LoadFault numFrames (loadsOf numFrames hist) page
  · rw [if_pos hout]
    by_cases hfull : st.fifoQueue.length = numFrames
    · rcases h.replace hframes hhist hpage hout hfull with ⟨queue, mem, hstep, hfollows⟩
      exact ⟨_, hstep, hfollows, rfl⟩
    · rcases h.fill hpage hout hfull with ⟨queue, mem, hstep, hfollows⟩
      exact ⟨_, hstep, hfollows, rfl⟩
  · rw [if_neg hout]
    rcases h.hit hpage hout with ⟨hstep, hfollows⟩
    exact ⟨st, hstep, hfollows, rfl⟩

theorem Follows.run (hframes : 1 ≤ numFrames) {mem : τ}
    (hmem : ∀ page, dom page → R.look mem page = some 0) (refs : List Int)
    (hrefs : ∀ page ∈ refs, dom page) :
    ∃ st, fifoLoop R numFrames mem refs = some st ∧ Follows R dom numFrames refs st := by
  induction refs using List.reverseRecOn with
  | nil => exact ⟨_, rfl, rfl, by simp [loadsOf], by simpa using hmem⟩
  | append_singleton hist page ih =>
      have hhist : ∀ page ∈ hist, dom page := fun p hp => hrefs p (List.mem_append_left _ hp)
      rcases ih hhist with ⟨st, hrun, hfollows⟩
      rcases hfollows.step hframes hhist (hrefs page (by simp)) with ⟨st', hstep, hfollows', _⟩
      refine ⟨st', ?_, hfollows'⟩
      rw [fifoLoop_concat, hrun]
      exact hstep

end Follows

/-! ## The array -/

/-- A page with an entry in the array. -/
def InRange (numBlocks : Nat) (page : Int) : Prop :=
  0 ≤ page ∧ page < numBlocks

section Array

variable {numFrames numBlocks : Nat}

theorem look_replicate {page : Int} (hpage : InRange numBlocks page) :
    arrayTable.look (List.replicate numBlocks 0) page = some 0 := by
  rcases hpage with ⟨hpos, hlt⟩
  have hneg : ¬ page < 0 := Int.not_lt.2 hpos
  have hindex : page.toNat < numBlocks := by omega
  simp [arrayTable, hneg, hindex]

theorem fifoRun_follows (hframes : 1 ≤ numFrames) (refs : List Int)
    (hrefs : ∀ page ∈ refs, InRange numBlocks page) :
    ∃ st, fifoRun numFrames numBlocks refs = some st ∧
      Follows arrayTable (InRange numBlocks) numFrames refs st :=
  Follows.run hframes (fun _ => look_replicate) refs hrefs

theorem faults_eq (hframes : 1 ≤ numFrames) (refs : List Int)
    (hrefs : ∀ page ∈ refs, InRange numBlocks page) :
    faults numFrames numBlocks refs = some (loadsOf numFrames refs).length := by
  rcases fifoRun_follows hframes refs hrefs with ⟨st, hrun, hfollows⟩
  rw [faults, hrun, Option.map_some, hfollows.faults]

theorem loadedPages_concat (hist : List Int) (page : Int) :
    loadedPages numFrames numBlocks (hist ++ [page]) =
      loadedPages numFrames numBlocks hist ++
        if faults numFrames numBlocks (hist ++ [page]) = faults numFrames numBlocks hist then []
        else [page] := by
  have hearly : ∀ i ∈ List.range hist.length,
      (if faults numFrames numBlocks ((hist ++ [page]).take (i + 1)) =
          faults numFrames numBlocks ((hist ++ [page]).take i) then none
        else (hist ++ [page])[i]?) =
      if faults numFrames numBlocks (hist.take (i + 1)) =
          faults numFrames numBlocks (hist.take i) then none
        else hist[i]? := by
    intro i hi
    rw [List.mem_range] at hi
    rw [List.take_append_of_le_length hi, List.take_append_of_le_length (Nat.le_of_lt hi),
      List.getElem?_append_left hi]
  rw [loadedPages, List.length_append, List.length_singleton, List.range_succ,
    List.filterMap_append, List.filterMap_congr hearly]
  congr 1
  have htake : (hist ++ [page]).take (hist.length + 1) = hist ++ [page] :=
    List.take_of_length_le (by simp)
  have htake' : (hist ++ [page]).take hist.length = hist := List.take_left
  rw [List.filterMap_cons, List.filterMap_nil, htake, htake']
  by_cases hsame : faults numFrames numBlocks (hist ++ [page]) = faults numFrames numBlocks hist
  · simp [hsame]
  · simp [hsame]

/-- The pages at which the counter goes up are the loads of the specification. -/
theorem loadedPages_eq (hframes : 1 ≤ numFrames) (refs : List Int)
    (hrefs : ∀ page ∈ refs, InRange numBlocks page) :
    loadedPages numFrames numBlocks refs = loadsOf numFrames refs := by
  induction refs using List.reverseRecOn with
  | nil => rfl
  | append_singleton hist page ih =>
      have hhist : ∀ p ∈ hist, InRange numBlocks p := fun p hp =>
        hrefs p (List.mem_append_left _ hp)
      rw [loadedPages_concat, ih hhist, faults_eq hframes _ hrefs, faults_eq hframes _ hhist,
        loadsOf_concat, load]
      by_cases hfault : LoadFault numFrames (loadsOf numFrames hist) page
      · simp [hfault]
      · simp [hfault]

theorem length_put {mem mem' : List Int} {page v : Int} (h : arrayTable.put mem page v = some mem') :
    mem'.length = mem.length := by
  simp only [arrayTable] at h
  split at h
  · cases h
  · cases h
    exact List.length_set

/-- A turn that succeeds has found its page in the array, and keeps the length of the array. -/
theorem fifoStep_array {st st' : FifoState (List Int)} {page : Int}
    (h : fifoStep arrayTable numFrames st page = some st') :
    InRange st.inMemory.length page ∧ st'.inMemory.length = st.inMemory.length := by
  rcases Option.bind_eq_some_iff.1 h with ⟨hit, hlook, hrest⟩
  have hrange : InRange st.inMemory.length page := by
    simp only [arrayTable] at hlook
    split at hlook
    · cases hlook
    · rename_i hneg
      rcases List.getElem?_eq_some_iff.1 hlook with ⟨hlt, _⟩
      exact ⟨Int.not_lt.1 hneg, by omega⟩
  refine ⟨hrange, ?_⟩
  have hbring : ∀ {s : FifoState (List Int)}, bringIn arrayTable s page = some st' →
      st'.inMemory.length = s.inMemory.length := by
    intro s hs
    rcases Option.map_eq_some_iff.1 hs with ⟨mem, hput, rfl⟩
    exact length_put hput
  split at hrest
  · cases hrest
    rfl
  · dsimp only at hrest
    split at hrest
    · cases hqueue : st.fifoQueue with
      | nil =>
          simp only [hqueue] at hrest
          cases hrest
      | cons victimPage rest =>
          simp only [hqueue] at hrest
          rcases Option.bind_eq_some_iff.1 hrest with ⟨mem, hput, hlast⟩
          exact (hbring hlast).trans (length_put hput)
    · have hkeep := hbring hrest
      exact hkeep

theorem inRange_of_fifoRun (refs : List Int) {st : FifoState (List Int)}
    (h : fifoRun numFrames numBlocks refs = some st) :
    (∀ page ∈ refs, InRange numBlocks page) ∧ st.inMemory.length = numBlocks := by
  induction refs using List.reverseRecOn generalizing st with
  | nil =>
      cases h
      exact ⟨by simp, List.length_replicate⟩
  | append_singleton hist page ih =>
      rw [fifoRun, fifoLoop_concat, ← fifoRun] at h
      rcases Option.bind_eq_some_iff.1 h with ⟨st₁, hrun, hstep⟩
      rcases ih hrun with ⟨hhist, hlength⟩
      rcases fifoStep_array hstep with ⟨hpage, hkeep⟩
      rw [hlength] at hpage hkeep
      refine ⟨?_, hkeep⟩
      intro p hp
      rcases List.mem_append.1 hp with hp | hp
      · exact hhist p hp
      · rw [List.mem_singleton.1 hp]
        exact hpage

end Array

/-! ## Main results -/

/-- The FIFO loop is the load order definition: the `i`-th reference is counted as a fault exactly
when its page was never loaded or at least `numFrames` faults came after its last load; and after
every reference the queue holds the pages of the last faults, in load order and without repetition,
and the array is 1 at these pages. -/
theorem fifo_load_order (numFrames numBlocks : Nat) (hframes : 1 ≤ numFrames)
    (pageReferences : List Int)
    (hpages : ∀ page ∈ pageReferences, 0 ≤ page ∧ page < (numBlocks : Int)) :
    ∀ i (hi : i < pageReferences.length), ∃ st st',
      fifoRun numFrames numBlocks (pageReferences.take i) = some st ∧
      fifoRun numFrames numBlocks (pageReferences.take (i + 1)) = some st' ∧
      st'.pageFaults =
        (if LoadFault numFrames (loadedPages numFrames numBlocks (pageReferences.take i))
            pageReferences[i]
          then st.pageFaults + 1 else st.pageFaults) ∧
      st'.fifoQueue =
        (loadedPages numFrames numBlocks (pageReferences.take (i + 1))).rtake
          (min numFrames st'.pageFaults) ∧
      st'.fifoQueue.Nodup ∧
      ∀ page, 0 ≤ page → page < (numBlocks : Int) →
        (st'.inMemory[page.toNat]? = some 1 ↔ page ∈ st'.fifoQueue) := by
  intro i hi
  have hbefore : ∀ page ∈ pageReferences.take i, InRange numBlocks page := fun p hp =>
    hpages p (List.mem_of_mem_take hp)
  have hafter : ∀ page ∈ pageReferences.take (i + 1), InRange numBlocks page := fun p hp =>
    hpages p (List.mem_of_mem_take hp)
  have htake : pageReferences.take (i + 1) = pageReferences.take i ++ [pageReferences[i]] :=
    List.take_succ_eq_append_getElem hi
  rcases fifoRun_follows hframes _ hbefore with ⟨st, hrun, hfollows⟩
  rcases hfollows.step hframes hbefore (hpages _ (List.getElem_mem hi)) with
    ⟨st', hstep, hfollows', hcount⟩
  rw [← htake] at hfollows'
  refine ⟨st, st', hrun, ?_, ?_, ?_, ?_, ?_⟩
  · rw [htake, fifoRun, fifoLoop_concat, ← fifoRun, hrun]
    exact hstep
  · rw [loadedPages_eq hframes _ hbefore]
    exact hcount
  · rw [loadedPages_eq hframes _ hafter, hfollows'.queue, hfollows'.faults, rtake_min]
  · rw [hfollows'.queue]
    exact nodup_rtake_loadsOf hframes _
  · intro page hpos hlt
    have htable := hfollows'.table page ⟨hpos, hlt⟩
    have hneg : ¬ page < 0 := Int.not_lt.2 hpos
    have hlook : st'.inMemory[page.toNat]? = some (if page ∈ st'.fifoQueue then 1 else 0) := by
      simpa [arrayTable, hneg] using htable
    rw [hlook]
    by_cases hmem : page ∈ st'.fifoQueue
    · simp [hmem]
    · simp [hmem]

/-- Two frames and the string `1 2 1 3 1`: the hit does not keep page 1 in memory. -/
theorem fifo_load_order_two_frames :
    (∃ st st', fifoRun 2 4 [1, 2, 1, 3] = some st ∧ fifoRun 2 4 [1, 2, 1, 3, 1] = some st' ∧
      st'.pageFaults =
        (if LoadFault 2 (loadedPages 2 4 [1, 2, 1, 3]) 1 then st.pageFaults + 1
          else st.pageFaults) ∧
      st'.fifoQueue = (loadedPages 2 4 [1, 2, 1, 3, 1]).rtake (min 2 st'.pageFaults) ∧
      st'.fifoQueue.Nodup ∧
      ∀ page, 0 ≤ page → page < ((4 : Nat) : Int) →
        (st'.inMemory[page.toNat]? = some 1 ↔ page ∈ st'.fifoQueue)) ∧
    LoadFault 2 (loadedPages 2 4 [1, 2, 1, 3]) 1 :=
  ⟨fifo_load_order 2 4 (by decide) [1, 2, 1, 3, 1] (by decide) 4 (by decide), by decide⟩

/-- References to at most `numFrames` distinct pages, after any references, cause at most one fault
for each of these pages. -/
theorem fifo_conservative (numFrames numBlocks : Nat) (hframes : 1 ≤ numFrames)
    (pageReferences pre seg post : List Int) (hsplit : pageReferences = pre ++ seg ++ post)
    (hpages : ∀ page ∈ pageReferences, 0 ≤ page ∧ page < (numBlocks : Int))
    (hfew : seg.toFinset.card ≤ numFrames) :
    ∃ st st', fifoRun numFrames numBlocks pre = some st ∧
      fifoRun numFrames numBlocks (pre ++ seg) = some st' ∧
      st'.pageFaults - st.pageFaults ≤ seg.toFinset.card ∧ st.pageFaults ≤ st'.pageFaults := by
  have hboth : ∀ page ∈ pre ++ seg, InRange numBlocks page := fun p hp =>
    hpages p (by rw [hsplit]; exact List.mem_append_left _ hp)
  have hpre : ∀ page ∈ pre, InRange numBlocks page := fun p hp =>
    hboth p (List.mem_append_left _ hp)
  rcases fifoRun_follows hframes pre hpre with ⟨st, hrun, hfollows⟩
  rcases fifoRun_follows hframes (pre ++ seg) hboth with ⟨st', hrun', hfollows'⟩
  rcases loadsOf_append numFrames pre seg with ⟨fresh, heq, hmem, hnodup⟩
  have hlength : st'.pageFaults = st.pageFaults + fresh.length := by
    rw [hfollows'.faults, heq, List.length_append, hfollows.faults]
  -- Each fault of the segment loads another one of its pages.
  have hcard : fresh.length ≤ seg.toFinset.card := by
    rw [← List.toFinset_card_of_nodup (hnodup hfew)]
    refine Finset.card_le_card ?_
    intro page hp
    exact List.mem_toFinset.2 (hmem page (List.mem_toFinset.1 hp))
  exact ⟨st, st', hrun, hrun', by omega, by omega⟩

/-- Three references to two pages in the middle of a string. -/
theorem fifo_conservative_two_pages :
    ∃ st st', fifoRun 2 4 [1, 2] = some st ∧ fifoRun 2 4 ([1, 2] ++ [3, 1, 3]) = some st' ∧
      st'.pageFaults - st.pageFaults ≤ [(3 : Int), 1, 3].toFinset.card ∧
      st.pageFaults ≤ st'.pageFaults :=
  fifo_conservative 2 4 (by decide) [1, 2, 3, 1, 3, 0] [1, 2] [3, 1, 3] [0] rfl (by decide)
    (by decide)

/-- For a file with pages from 0 to `numPages`, every access to the array is in range, and the faults
are counted as with a map, if and only if every page of the file is below `numBlocks`. -/
theorem residency_in_range_iff (numPages : Int) (numFrames numBlocks : Nat) (hframes : 1 ≤ numFrames)
    (text : List Char) (haccepted : ∀ page ∈ readReferences text, 0 ≤ page ∧ page ≤ numPages) :
    (∃ st st', fifoRun numFrames numBlocks (readReferences text) = some st ∧
      fifoMapRun numFrames (readReferences text) = some st' ∧ st.pageFaults = st'.pageFaults) ↔
      ∀ page ∈ readReferences text, page < numBlocks := by
  constructor
  · rintro ⟨st, _, hrun, _, _⟩ page hpage
    exact ((inRange_of_fifoRun _ hrun).1 page hpage).2
  · intro hbelow
    have hrefs : ∀ page ∈ readReferences text, InRange numBlocks page := fun p hp =>
      ⟨(haccepted p hp).1, hbelow p hp⟩
    rcases fifoRun_follows hframes _ hrefs with ⟨st, hrun, hfollows⟩
    -- A map has an entry for every page, so nothing is asked of the references there.
    have hmap : ∃ st', fifoMapRun numFrames (readReferences text) = some st' ∧
        Follows mapTable (fun _ => True) numFrames (readReferences text) st' :=
      Follows.run hframes (fun _ _ => rfl) _ fun _ _ => trivial
    rcases hmap with ⟨st', hrun', hfollows'⟩
    exact ⟨st, st', hrun, hrun', by rw [hfollows.faults, hfollows'.faults]⟩

/-- The first pages of `req1.dat`, with 60 pages, 20 frames and 60 blocks. -/
theorem residency_in_range_iff_req1 :
    (∃ st st', fifoRun 20 60 (readReferences "1 10 32 2".toList) = some st ∧
      fifoMapRun 20 (readReferences "1 10 32 2".toList) = some st' ∧
      st.pageFaults = st'.pageFaults) ↔
      ∀ page ∈ readReferences "1 10 32 2".toList, page < ((60 : Nat) : Int) :=
  residency_in_range_iff 60 20 60 (by decide) "1 10 32 2".toList (by decide)

/-- Page 60 of `req1.dat` has no entry in an array of 60 blocks. -/
theorem page_sixty_out_of_range :
    (∀ page ∈ readReferences "56 60 57".toList, 0 ≤ page ∧ page ≤ (60 : Int)) ∧
      ¬ ∃ st st', fifoRun 20 60 (readReferences "56 60 57".toList) = some st ∧
        fifoMapRun 20 (readReferences "56 60 57".toList) = some st' ∧
        st.pageFaults = st'.pageFaults := by
  have hout : fifoRun 20 60 (readReferences "56 60 57".toList) = none := by decide
  refine ⟨by decide, ?_⟩
  rintro ⟨st, st', hrun, _, _⟩
  rw [hout] at hrun
  cases hrun

end Paging
end OsLab
