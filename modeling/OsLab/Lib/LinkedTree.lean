import Mathlib.Data.List.Nodup
import Mathlib.Data.List.Perm.Basic
import Mathlib.Data.List.Perm.Lattice
import Mathlib.Data.List.Range

/-!
# LinkedTree — binary trees stored as linked cells of a heap

A heap maps pointers to cells, and a cell carries `left`, `right` and `parent` pointers.  This file
relates such a heap to a `Tree`, the finite tree of the pointers met when the child pointers are
followed from a root:

* `Stored h par t` — the cells of `h` are linked exactly as `t` says, the root's parent being `par`;
* `readTree` — the executable traversal, which recovers `t` from a heap that stores it;
* `plug` — one-hole contexts (lists of `Frame`s, innermost first).  A parent walk from a node to
  the root is an induction over the context around that node.
-/

namespace OsLab
namespace Lib

abbrev Ptr := Nat

/-- The three pointers of a tree cell. -/
class Links (C : Type) where
  left : C → Option Ptr
  right : C → Option Ptr
  parent : C → Option Ptr

/-- The tree of pointers below some root. -/
inductive Tree
  | leaf (p : Ptr)
  | node (p : Ptr) (l r : Tree)
  deriving DecidableEq, Repr

namespace Tree

def root : Tree → Ptr
  | leaf p => p
  | node p _ _ => p

/-- The leaves, read left to right. -/
def leaves : Tree → List Ptr
  | leaf p => [p]
  | node _ l r => l.leaves ++ r.leaves

/-- The internal nodes. -/
def inner : Tree → List Ptr
  | leaf _ => []
  | node p l r => p :: (l.inner ++ r.inner)

def ptrs : Tree → List Ptr
  | leaf p => [p]
  | node p l r => p :: (l.ptrs ++ r.ptrs)

def depth : Tree → Nat
  | leaf _ => 0
  | node _ l r => max l.depth r.depth + 1

@[simp] theorem root_leaf (p : Ptr) : (leaf p).root = p := rfl
@[simp] theorem root_node (p : Ptr) (l r : Tree) : (node p l r).root = p := rfl
@[simp] theorem leaves_leaf (p : Ptr) : (leaf p).leaves = [p] := rfl
@[simp] theorem leaves_node (p : Ptr) (l r : Tree) :
    (node p l r).leaves = l.leaves ++ r.leaves := rfl
@[simp] theorem inner_leaf (p : Ptr) : (leaf p).inner = [] := rfl
@[simp] theorem inner_node (p : Ptr) (l r : Tree) :
    (node p l r).inner = p :: (l.inner ++ r.inner) := rfl
@[simp] theorem ptrs_leaf (p : Ptr) : (leaf p).ptrs = [p] := rfl
@[simp] theorem ptrs_node (p : Ptr) (l r : Tree) :
    (node p l r).ptrs = p :: (l.ptrs ++ r.ptrs) := rfl

theorem root_mem_ptrs (t : Tree) : t.root ∈ t.ptrs := by
  cases t <;> simp

theorem mem_ptrs_iff {p : Ptr} (t : Tree) : p ∈ t.ptrs ↔ p ∈ t.inner ∨ p ∈ t.leaves := by
  induction t with
  | leaf q => simp
  | node q l r ihl ihr =>
      simp only [ptrs_node, inner_node, leaves_node, List.mem_cons, List.mem_append, ihl, ihr]
      tauto

theorem mem_ptrs_of_mem_leaves {t : Tree} {p : Ptr} (h : p ∈ t.leaves) : p ∈ t.ptrs :=
  (mem_ptrs_iff t).2 (Or.inr h)

theorem mem_ptrs_of_mem_inner {t : Tree} {p : Ptr} (h : p ∈ t.inner) : p ∈ t.ptrs :=
  (mem_ptrs_iff t).2 (Or.inl h)

theorem leaves_sublist_ptrs (t : Tree) : t.leaves.Sublist t.ptrs := by
  induction t with
  | leaf q => simp
  | node q l r ihl ihr =>
      exact (ihl.append ihr).trans (List.sublist_cons_self q _)

theorem leaves_nodup {t : Tree} (h : t.ptrs.Nodup) : t.leaves.Nodup :=
  h.sublist (leaves_sublist_ptrs t)

/-- A leaf of a tree without repeated pointers is not an internal node of it. -/
theorem not_mem_inner_of_mem_leaves {p : Ptr} :
    ∀ {t : Tree}, t.ptrs.Nodup → p ∈ t.leaves → p ∉ t.inner
  | leaf q, _, _ => by simp
  | node q l r, hnd, hp => by
      simp only [ptrs_node, List.nodup_cons, List.mem_append, not_or, List.nodup_append] at hnd
      rcases hnd with ⟨⟨hql, hqr⟩, hl, hr, hlr⟩
      simp only [leaves_node, List.mem_append] at hp
      simp only [inner_node, List.mem_cons, List.mem_append, not_or]
      rcases hp with hp | hp
      · have hpl : p ∈ l.ptrs := mem_ptrs_of_mem_leaves hp
        refine ⟨fun hpq => hql (hpq ▸ hpl), not_mem_inner_of_mem_leaves hl hp, ?_⟩
        intro hpr
        exact hlr p hpl p (mem_ptrs_of_mem_inner hpr) rfl
      · have hpr : p ∈ r.ptrs := mem_ptrs_of_mem_leaves hp
        refine ⟨fun hpq => hqr (hpq ▸ hpr), ?_, not_mem_inner_of_mem_leaves hr hp⟩
        intro hpl
        exact hlr p (mem_ptrs_of_mem_inner hpl) p hpr rfl

theorem depth_lt_length_ptrs (t : Tree) : t.depth < t.ptrs.length := by
  induction t with
  | leaf q => simp [depth]
  | node q l r ihl ihr =>
      simp only [depth, ptrs_node, List.length_cons, List.length_append]
      omega

/-- Pairwise distinct pointers below `n` make a tree of depth below `n`. -/
theorem depth_lt_of_nodup {t : Tree} {n : Nat} (hnd : t.ptrs.Nodup) (hlt : ∀ p ∈ t.ptrs, p < n) :
    t.depth < n := by
  have hsub : t.ptrs ⊆ List.range n := fun p hp => List.mem_range.2 (hlt p hp)
  have hlen : t.ptrs.length ≤ n := by
    simpa using (List.subperm_of_subset hnd hsub).length_le
  exact lt_of_lt_of_le (depth_lt_length_ptrs t) hlen

end Tree

/-! ## One-hole contexts -/

inductive Side
  | L
  | R
  deriving DecidableEq, Repr

/-- One step of a context: the hole is the `side` child of `top`, and `sib` is its sibling. -/
structure Frame where
  side : Side
  top : Ptr
  sib : Tree
  deriving DecidableEq, Repr

def Frame.fill (f : Frame) (t : Tree) : Tree :=
  match f.side with
  | .L => .node f.top t f.sib
  | .R => .node f.top f.sib t

/-- Fill the hole of a context; the head of the list is the innermost frame. -/
def plug : List Frame → Tree → Tree
  | [], t => t
  | f :: fs, t => plug fs (f.fill t)

def ctxLeaves (ctx : List Frame) : List Ptr :=
  ctx.flatMap fun f => f.sib.leaves

def ctxInner (ctx : List Frame) : List Ptr :=
  ctx.flatMap fun f => f.top :: f.sib.inner

def ctxPtrs (ctx : List Frame) : List Ptr :=
  ctx.flatMap fun f => f.top :: f.sib.ptrs

@[simp] theorem ctxLeaves_nil : ctxLeaves [] = [] := rfl
@[simp] theorem ctxLeaves_cons (f : Frame) (fs : List Frame) :
    ctxLeaves (f :: fs) = f.sib.leaves ++ ctxLeaves fs := by
  simp [ctxLeaves]
@[simp] theorem ctxInner_nil : ctxInner [] = [] := rfl
@[simp] theorem ctxInner_cons (f : Frame) (fs : List Frame) :
    ctxInner (f :: fs) = f.top :: f.sib.inner ++ ctxInner fs := by
  simp [ctxInner]
@[simp] theorem ctxPtrs_nil : ctxPtrs [] = [] := rfl
@[simp] theorem ctxPtrs_cons (f : Frame) (fs : List Frame) :
    ctxPtrs (f :: fs) = f.top :: f.sib.ptrs ++ ctxPtrs fs := by
  simp [ctxPtrs]

@[simp] theorem Frame.root_fill (f : Frame) (t : Tree) : (f.fill t).root = f.top := by
  rcases f with ⟨side, top, sib⟩
  cases side <;> rfl

theorem Frame.leaves_fill_perm (f : Frame) (t : Tree) :
    (f.fill t).leaves.Perm (t.leaves ++ f.sib.leaves) := by
  rcases f with ⟨side, top, sib⟩
  cases side
  · exact List.Perm.refl _
  · exact List.perm_append_comm

theorem Frame.inner_fill_perm (f : Frame) (t : Tree) :
    (f.fill t).inner.Perm (t.inner ++ f.top :: f.sib.inner) := by
  rcases f with ⟨side, top, sib⟩
  cases side
  · exact List.perm_middle.symm
  · exact (List.Perm.cons top List.perm_append_comm).trans List.perm_middle.symm

theorem Frame.ptrs_fill_perm (f : Frame) (t : Tree) :
    (f.fill t).ptrs.Perm (t.ptrs ++ f.top :: f.sib.ptrs) := by
  rcases f with ⟨side, top, sib⟩
  cases side
  · exact List.perm_middle.symm
  · exact (List.Perm.cons top List.perm_append_comm).trans List.perm_middle.symm

theorem leaves_plug_perm : ∀ (ctx : List Frame) (t : Tree),
    (plug ctx t).leaves.Perm (t.leaves ++ ctxLeaves ctx)
  | [], t => by simp [plug]
  | f :: fs, t => by
      have hrec := leaves_plug_perm fs (f.fill t)
      have hfill := (f.leaves_fill_perm t).append_right (ctxLeaves fs)
      simpa [plug] using hrec.trans hfill

theorem inner_plug_perm : ∀ (ctx : List Frame) (t : Tree),
    (plug ctx t).inner.Perm (t.inner ++ ctxInner ctx)
  | [], t => by simp [plug]
  | f :: fs, t => by
      have hrec := inner_plug_perm fs (f.fill t)
      have hfill := (f.inner_fill_perm t).append_right (ctxInner fs)
      simpa [plug] using hrec.trans hfill

theorem ptrs_plug_perm : ∀ (ctx : List Frame) (t : Tree),
    (plug ctx t).ptrs.Perm (t.ptrs ++ ctxPtrs ctx)
  | [], t => by simp [plug]
  | f :: fs, t => by
      have hrec := ptrs_plug_perm fs (f.fill t)
      have hfill := (f.ptrs_fill_perm t).append_right (ctxPtrs fs)
      simpa [plug] using hrec.trans hfill

theorem mem_ctxPtrs_of_mem_ctxLeaves {ctx : List Frame} {p : Ptr} (h : p ∈ ctxLeaves ctx) :
    p ∈ ctxPtrs ctx := by
  rcases List.mem_flatMap.1 h with ⟨f, hf, hp⟩
  exact List.mem_flatMap.2 ⟨f, hf, List.mem_cons_of_mem _ (Tree.mem_ptrs_of_mem_leaves hp)⟩

theorem mem_ctxPtrs_of_mem_ctxInner {ctx : List Frame} {p : Ptr} (h : p ∈ ctxInner ctx) :
    p ∈ ctxPtrs ctx := by
  rcases List.mem_flatMap.1 h with ⟨f, hf, hp⟩
  refine List.mem_flatMap.2 ⟨f, hf, ?_⟩
  rcases List.mem_cons.1 hp with hp | hp
  · exact hp ▸ List.mem_cons_self
  · exact List.mem_cons_of_mem _ (Tree.mem_ptrs_of_mem_inner hp)

theorem plug_append (ctx ctx' : List Frame) (t : Tree) :
    plug (ctx ++ ctx') t = plug ctx' (plug ctx t) := by
  induction ctx generalizing t with
  | nil => rfl
  | cons f fs ih => exact ih (f.fill t)

@[simp] theorem root_plug_eq {t u : Tree} (h : t.root = u.root) (ctx : List Frame) :
    (plug ctx t).root = (plug ctx u).root := by
  induction ctx generalizing t u with
  | nil => exact h
  | cons f fs ih => exact ih (by simp)

/-- Every leaf sits in the hole of some context. -/
theorem exists_plug_of_mem_leaves {p : Ptr} :
    ∀ {t : Tree}, p ∈ t.leaves → ∃ ctx, t = plug ctx (.leaf p)
  | .leaf q, h => by
      have hq : p = q := by simpa using h
      exact ⟨[], by simp [plug, hq]⟩
  | .node q l r, h => by
      rcases List.mem_append.1 h with h | h
      · rcases exists_plug_of_mem_leaves h with ⟨ctx, hctx⟩
        refine ⟨ctx ++ [⟨.L, q, r⟩], ?_⟩
        rw [plug_append, ← hctx]
        rfl
      · rcases exists_plug_of_mem_leaves h with ⟨ctx, hctx⟩
        refine ⟨ctx ++ [⟨.R, q, l⟩], ?_⟩
        rw [plug_append, ← hctx]
        rfl

/-! ## Trees stored in a heap -/

section Stored

variable {C : Type} [Links C]

open Links

/-- The cells of `h` are linked as `t` says, and the parent pointer of `t`'s root is `par`. -/
def Stored (h : Ptr → C) : Option Ptr → Tree → Prop
  | par, .leaf p => left (h p) = none ∧ right (h p) = none ∧ parent (h p) = par
  | par, .node p l r =>
      left (h p) = some l.root ∧ right (h p) = some r.root ∧ parent (h p) = par ∧
        Stored h (some p) l ∧ Stored h (some p) r

/-- Two cells with the same three pointers. -/
def SameLinks (c d : C) : Prop :=
  left c = left d ∧ right c = right d ∧ parent c = parent d

theorem SameLinks.rfl' (c : C) : SameLinks c c := ⟨rfl, rfl, rfl⟩

theorem Stored.congr {h h' : Ptr → C} :
    ∀ {t : Tree} {par : Option Ptr}, (∀ p ∈ t.ptrs, SameLinks (h' p) (h p)) →
      Stored h par t → Stored h' par t
  | .leaf p, par, hsame, hst => by
      rcases hsame p (by simp) with ⟨hl, hr, hp⟩
      exact ⟨hl.trans hst.1, hr.trans hst.2.1, hp.trans hst.2.2⟩
  | .node p l r, par, hsame, hst => by
      rcases hsame p (by simp) with ⟨hl, hr, hp⟩
      rcases hst with ⟨hsl, hsr, hsp, hstl, hstr⟩
      refine ⟨hl.trans hsl, hr.trans hsr, hp.trans hsp, ?_, ?_⟩
      · exact hstl.congr fun q hq => hsame q (by simp [hq])
      · exact hstr.congr fun q hq => hsame q (by simp [hq])

/-- The parent of the hole of a context whose outermost parent is `par`. -/
def holeParent (par : Option Ptr) : List Frame → Option Ptr
  | [] => par
  | f :: _ => some f.top

/-- The cells around a hole are linked as the context says, the hole's own root being `hole`. -/
def StoredCtx (h : Ptr → C) (par : Option Ptr) : List Frame → Ptr → Prop
  | [], _ => True
  | f :: fs, hole =>
      (match f.side with
        | .L => left (h f.top) = some hole ∧ right (h f.top) = some f.sib.root
        | .R => left (h f.top) = some f.sib.root ∧ right (h f.top) = some hole) ∧
      parent (h f.top) = holeParent par fs ∧ Stored h (some f.top) f.sib ∧
        StoredCtx h par fs f.top

/-- A filled context is stored exactly when the context and the filling are. -/
theorem stored_plug (h : Ptr → C) (par : Option Ptr) :
    ∀ (ctx : List Frame) (t : Tree),
      Stored h par (plug ctx t) ↔ StoredCtx h par ctx t.root ∧ Stored h (holeParent par ctx) t
  | [], t => by simp [plug, StoredCtx, holeParent]
  | f :: fs, t => by
      have hrec := stored_plug h par fs (f.fill t)
      rw [plug, hrec]
      -- The links of the frame move from the filling to the context.
      rcases f with ⟨side, top, sib⟩
      cases side
      · simp only [Frame.fill, Tree.root_node, Stored, StoredCtx, holeParent]
        tauto
      · simp only [Frame.fill, Tree.root_node, Stored, StoredCtx, holeParent]
        tauto

theorem StoredCtx.congr {h h' : Ptr → C} {par : Option Ptr} :
    ∀ {ctx : List Frame} {hole : Ptr}, (∀ p ∈ ctxPtrs ctx, SameLinks (h' p) (h p)) →
      StoredCtx h par ctx hole → StoredCtx h' par ctx hole
  | [], _, _, _ => trivial
  | f :: fs, hole, hsame, hst => by
      rcases hst with ⟨hkids, hpar, hsib, hrest⟩
      rcases hsame f.top (by simp) with ⟨hl, hr, hp⟩
      refine ⟨?_, hp.trans hpar, ?_, ?_⟩
      · rcases f with ⟨side, top, sib⟩
        cases side
        · exact ⟨hl.trans hkids.1, hr.trans hkids.2⟩
        · exact ⟨hl.trans hkids.1, hr.trans hkids.2⟩
      · exact hsib.congr fun q hq => hsame q (by simp [hq])
      · exact hrest.congr fun q hq => hsame q (by simp [hq])

/-! ## Reading a tree back from the heap -/

/-- Follow the child pointers from `p`.  `none` when a cell has exactly one child or the fuel is
used up. -/
def readTree (h : Ptr → C) : Nat → Ptr → Option Tree
  | 0, _ => none
  | fuel + 1, p =>
      match left (h p), right (h p) with
      | none, none => some (.leaf p)
      | some l, some r =>
          match readTree h fuel l, readTree h fuel r with
          | some tl, some tr => some (.node p tl tr)
          | _, _ => none
      | _, _ => none

theorem readTree_of_stored {h : Ptr → C} :
    ∀ {t : Tree} {par : Option Ptr} {fuel : Nat}, Stored h par t → t.depth < fuel →
      readTree h fuel t.root = some t
  | .leaf p, par, fuel, hst, hd => by
      rcases fuel with _ | fuel
      · exact absurd hd (Nat.not_lt_zero _)
      · simp [readTree, hst.1, hst.2.1]
  | .node p l r, par, fuel, hst, hd => by
      rcases fuel with _ | fuel
      · exact absurd hd (Nat.not_lt_zero _)
      · rcases hst with ⟨hl, hr, _, hstl, hstr⟩
        have hd' : max l.depth r.depth < fuel := Nat.lt_of_succ_lt_succ hd
        have hreadl := readTree_of_stored hstl (lt_of_le_of_lt (le_max_left _ _) hd')
        have hreadr := readTree_of_stored hstr (lt_of_le_of_lt (le_max_right _ _) hd')
        simp [readTree, hl, hr, hreadl, hreadr]

end Stored

end Lib
end OsLab
