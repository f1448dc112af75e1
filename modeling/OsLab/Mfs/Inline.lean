import OsLab.Mfs.FailedWrite

/-!
# Inline — writes on the immediate path

`fs_readwrite` serves a write that stays within 32 bytes of an immediate file with one copy to
`i_zone + position`.  Nothing on the way looks at the sign of the position.
-/

namespace OsLab
namespace Mfs

open OsLab.Lib

/-- A write that passes the tests, takes the immediate path, and whose bytes the kernel copies. -/
def ServedInline (sb : SuperBlock) (grant : Grant) (c : Core) (req : Request) : Prop :=
  req.rwFlag = .writing ∧ c.rip.type = I_IMMEDIATE ∧
    checkWrite sb c req (c.rip.i_size : Int) false = some OK ∧
    req.position + req.nbytes ≤ 32 ∧ grant 0 req.nbytes = OK

instance (sb : SuperBlock) (grant : Grant) (c : Core) (req : Request) :
    Decidable (ServedInline sb grant c req) :=
  inferInstanceAs (Decidable (_ ∧ _ ∧ _ ∧ _ ∧ _))

/-- The indices of `i_zone` that the copy of `nbytes` bytes to `zone + position` stores to. -/
def storedBytes (req : Request) : List Int :=
  (List.range req.nbytes).map fun k : Nat => req.position + k

theorem mem_storedBytes {req : Request} {i : Int} :
    i ∈ storedBytes req ↔ req.position ≤ i ∧ i < req.position + req.nbytes := by
  simp only [storedBytes, List.mem_map, List.mem_range]
  constructor
  · rintro ⟨k, hk, rfl⟩
    omega
  · rintro ⟨hlow, hhigh⟩
    exact ⟨(i - req.position).toNat, by omega, by omega⟩

section Inline

variable {env : Env} {sb : SuperBlock} {grant : Grant} {w : World} {req : Request}

/-- What is left of `fs_readwrite` for a request that is served inline. -/
theorem readwriteInode_inline (h : ServedInline sb grant w.core req) :
    readwriteInode env sb grant w req =
      (immediateTransfer grant .writing w.core.rip.i_size (loopStart w req)).bind
        (transfer env sb grant .writing sb.s_block_size (w.core.rip.i_size : Int) true) := by
  rcases h with ⟨hreq, htype, hcheck, hend, _⟩
  have hspec : (I_IMMEDIATE == I_BLOCK_SPECIAL) = false := by decide
  simp only [readwriteInode, htype, hspec, Bool.false_eq_true, if_false, if_true, growing_immediate,
    hreq, hcheck, Option.bind_some, ne_eq, not_true, Int.not_lt.2 hend]
  rfl

/-- In front of the data area the store has no meaning in the model. -/
theorem readwriteInode_inline_negative (h : ServedInline sb grant w.core req)
    (hneg : req.position < 0) : readwriteInode env sb grant w req = none := by
  rw [readwriteInode_inline h]
  have hgrant := h.2.2.2.2
  simp [immediateTransfer, loopStart, hgrant, hneg]

/-- From 0 on the write succeeds and stores to the bytes `storedBytes` and to no other ones. -/
theorem readwriteInode_inline_stores (env : Env) (h : ServedInline sb grant w.core req)
    (hpos : 0 ≤ req.position) :
    ∃ reply w', readwriteInode env sb grant w req = some (reply, w') ∧ reply.r = OK ∧
      ∀ i : Nat, w'.core.rip.i_zone i =
        if (i : Int) ∈ storedBytes req then w.user (i - req.position.toNat)
        else w.core.rip.i_zone i := by
  have hend := h.2.2.2.1
  have hgrant := h.2.2.2.2
  have hinside : ¬ (req.position < 0 ∨ (I_ZONE_BYTES : Int) < req.position + req.nbytes) := by
    simp only [I_ZONE_BYTES]
    omega
  rw [readwriteInode_inline h]
  simp only [immediateTransfer, loopStart, reduceCtorEq, if_false, hgrant, if_true, hinside,
    Option.bind_some, transfer]
  rw [chunkLoop_done rfl]
  refine ⟨_, _, rfl, rfl, ?_⟩
  intro i
  have hmem : (i : Int) ∈ storedBytes req ↔
      req.position.toNat ≤ i ∧ i < req.position.toNat + req.nbytes := by
    rw [mem_storedBytes]
    omega
  simp only [hmem]
  -- The size may grow as well, but that is another field.
  by_cases hgrows : (w.core.rip.i_size : Int) < req.position + req.nbytes
  · simp only [hgrows, and_self, if_true, copyBytes, Nat.zero_add]
  · simp only [hgrows, and_false, if_false, copyBytes, Nat.zero_add]

end Inline

end Mfs

end OsLab
