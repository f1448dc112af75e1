import Mathlib.Data.List.Nodup
import Mathlib.Logic.Function.Basic

/-!
# Chains — queues threaded through their members

Every queue has a head pointer and every member a link to the next one, as kernels keep processes.
`unlink` is the usual loop with a pointer to a pointer: it walks from the head of a queue and takes a
member out by overwriting the pointer that leads to it.

`Queues c members` says that the queues hold the members given, in order, and that no member is in two
queues.  `Queues.unlink` is the rule for the loop.
-/

namespace OsLab
namespace Lib

universe u v

variable {ι : Type u} {α : Type v}

/-- The head of each queue and the link of each member. -/
structure Chains (ι : Type u) (α : Type v) where
  head : ι → Option α
  link : α → Option α

/-- A place that holds a pointer. -/
inductive Cell (ι : Type u) (α : Type v)
  | head (q : ι)
  | link (a : α)

namespace Chains

def get (c : Chains ι α) : Cell ι α → Option α
  | .head q => c.head q
  | .link a => c.link a

variable [DecidableEq ι] [DecidableEq α]

def set (c : Chains ι α) (cell : Cell ι α) (p : Option α) : Chains ι α :=
  match cell with
  | .head q => { c with head := Function.update c.head q p }
  | .link a => { c with link := Function.update c.link a p }

theorem get_set (c : Chains ι α) (cell : Cell ι α) (p : Option α) : (c.set cell p).get cell = p := by
  cases cell with
  | head q => exact Function.update_self _ _ _
  | link a => exact Function.update_self _ _ _

theorem set_link (c : Chains ι α) {cell : Cell ι α} (p : Option α) {a : α} (h : cell ≠ .link a) :
    (c.set cell p).link a = c.link a := by
  cases cell with
  | head q => rfl
  | link b =>
      refine Function.update_of_ne ?_ _ _
      rintro rfl
      exact h rfl

theorem set_head (c : Chains ι α) {cell : Cell ι α} (p : Option α) {q : ι} (h : cell ≠ .head q) :
    (c.set cell p).head q = c.head q := by
  cases cell with
  | head q' =>
      refine Function.update_of_ne ?_ _ _
      rintro rfl
      exact h rfl
  | link b => rfl

/-- Walk from `cell` to the pointer that leads to `a`, and make it lead to what follows `a`. -/
def unlink (c : Chains ι α) (a : α) : Nat → Cell ι α → Option (Chains ι α)
  | 0, _ => none
  | fuel + 1, cell =>
    match c.get cell with
    | none => some c
    | some b => if b = a then some (c.set cell (c.link a)) else unlink c a fuel (.link b)

end Chains

/-! ## Paths -/

/-- Following the links from a pointer gives the members of a list. -/
def Threaded (link : α → Option α) : Option α → List α → Prop
  | p, [] => p = none
  | p, a :: l => p = some a ∧ Threaded link (link a) l

theorem Threaded.congr {link link' : α → Option α} :
    ∀ {l : List α} {p : Option α}, (∀ a ∈ l, link' a = link a) → Threaded link p l → Threaded link' p l
  | [], _, _, hp => hp
  | a :: l, _, h, hp => by
      refine ⟨hp.1, ?_⟩
      rw [h a (List.mem_cons_self ..)]
      exact Threaded.congr (fun b hb => h b (List.mem_cons_of_mem _ hb)) hp.2

section Unlink

variable [DecidableEq ι] [DecidableEq α] {c : Chains ι α} {a : α}

/-- What the walk leaves alone: links of members outside the list, and heads of other queues. -/
structure Unlinked (c : Chains ι α) (cell : Cell ι α) (l : List α) (c' : Chains ι α) : Prop where
  link : ∀ b, b ∉ l → cell ≠ .link b → c'.link b = c.link b
  head : ∀ q, cell ≠ .head q → c'.head q = c.head q

theorem unlink_path :
    ∀ (l : List α) (fuel : Nat) (cell : Cell ι α), Threaded c.link (c.get cell) l → l.Nodup →
      (∀ b ∈ l, cell ≠ .link b) → l.length < fuel →
      ∃ c', c.unlink a fuel cell = some c' ∧ Threaded c'.link (c'.get cell) (l.erase a) ∧
        Unlinked c cell l c'
  | [], fuel + 1, cell, hpath, _, _, _ => by
      have hget : c.get cell = none := hpath
      refine ⟨c, by simp [Chains.unlink, hget], ?_, ⟨fun _ _ _ => rfl, fun _ _ => rfl⟩⟩
      rw [List.erase_nil]
      exact hpath
  | b :: l, fuel + 1, cell, hpath, hnodup, hcell, hfuel => by
      have hget : c.get cell = some b := hpath.1
      by_cases hba : b = a
      · -- The pointer is found and overwritten.
        subst hba
        refine ⟨c.set cell (c.link b), by simp [Chains.unlink, hget], ?_, ?_⟩
        · rw [List.erase_cons_head, c.get_set]
          refine hpath.2.congr ?_
          intro x hx
          exact c.set_link _ (hcell x (List.mem_cons_of_mem _ hx))
        · exact ⟨fun x _ hx => c.set_link _ hx, fun q hq => c.set_head _ hq⟩
      · have hnext : ∀ x ∈ l, (Cell.link b : Cell ι α) ≠ .link x := by
          intro x hx heq
          cases heq
          exact (List.nodup_cons.1 hnodup).1 hx
        rcases unlink_path l fuel (.link b) hpath.2 (List.nodup_cons.1 hnodup).2 hnext
          (by simpa using hfuel) with ⟨c', hrun, hpath', hframe⟩
        refine ⟨c', ?_, ?_, ?_⟩
        · simp [Chains.unlink, hget, hba, hrun]
        · rw [List.erase_cons_tail (by simpa using hba)]
          refine ⟨?_, hpath'⟩
          -- The walk goes on behind `b`, so the pointer to `b` stays.
          have hsame : c'.get cell = c.get cell := by
            cases cell with
            | head q => exact hframe.head q (by simp)
            | link y =>
                refine hframe.link y ?_ ?_
                · intro hy
                  exact hcell y (List.mem_cons_of_mem _ hy) rfl
                · intro heq
                  cases heq
                  exact hcell b (List.mem_cons_self ..) rfl
          rw [hsame, hget]
        · constructor
          · intro x hx hcx
            refine hframe.link x (fun hmem => hx (List.mem_cons_of_mem _ hmem)) ?_
            intro heq
            cases heq
            exact hx (List.mem_cons_self ..)
          · intro q hq
            exact hframe.head q (by simp)

end Unlink

/-! ## Queues -/

/-- The queues hold these members, and no member is in two of them. -/
structure Queues (c : Chains ι α) (members : ι → List α) : Prop where
  path : ∀ q, Threaded c.link (c.head q) (members q)
  nodup : ∀ q, (members q).Nodup
  once : ∀ q q' a, a ∈ members q → a ∈ members q' → q = q'

variable [DecidableEq ι] [DecidableEq α]

/-- Taking `a` out of queue `q` leaves the other queues alone. -/
theorem Queues.unlink {c : Chains ι α} {members : ι → List α} (h : Queues c members) (a : α) (q : ι)
    {fuel : Nat} (hfuel : (members q).length < fuel) :
    ∃ c', c.unlink a fuel (.head q) = some c' ∧
      Queues c' (Function.update members q ((members q).erase a)) := by
  rcases unlink_path (a := a) (members q) fuel (.head q) (h.path q) (h.nodup q) (by simp) hfuel with
    ⟨c', hrun, hpath, hframe⟩
  have hmem : ∀ q' b, b ∈ Function.update members q ((members q).erase a) q' → b ∈ members q' := by
    intro q' b hb
    by_cases hq : q' = q
    · subst hq
      rw [Function.update_self] at hb
      exact List.mem_of_mem_erase hb
    · rw [Function.update_of_ne hq] at hb
      exact hb
  refine ⟨c', hrun, ?_, ?_, ?_⟩
  · intro q'
    by_cases hq : q' = q
    · subst hq
      rw [Function.update_self]
      exact hpath
    · rw [Function.update_of_ne hq, hframe.head q' (by simpa using Ne.symm hq)]
      refine (h.path q').congr ?_
      intro b hb
      exact hframe.link b (fun hb' => hq (h.once q' q b hb hb')) (by simp)
  · intro q'
    by_cases hq : q' = q
    · subst hq
      rw [Function.update_self]
      exact (h.nodup q').erase a
    · rw [Function.update_of_ne hq]
      exact h.nodup q'
  · intro q₁ q₂ b h₁ h₂
    exact h.once q₁ q₂ b (hmem q₁ b h₁) (hmem q₂ b h₂)

end Lib
end OsLab
