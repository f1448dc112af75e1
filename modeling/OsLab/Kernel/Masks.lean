import OsLab.Kernel.Queues
import OsLab.Lib.Runs

/-!
# Masks — who may send to whom

A process that may send a request must be able to get a reply.  `Masks` says so of the send masks, with
what keeps it alive while privilege structures are handed out: a structure without a process has no bits,
neither its own nor in the masks of others, and nobody may send to itself.

* The masks need not be symmetric.  `set_sendto_bit` leaves out the reply bit where the trap mask of the
  target allows nothing but `RECEIVE`, and `Masks.reply` leaves out these targets.
-/

namespace OsLab
namespace Kernel

open OsLab.Lib

variable {env : Env} {k k' : State}

/-- The bit `j` in the send mask of the privilege structure `i`. -/
def State.ipcTo (k : State) (i j : Nat) : Bool :=
  (k.priv i).s_ipc_to j

/-- The privilege structure `i` belongs to a process. -/
def State.taken (k : State) (i : Nat) : Bool :=
  (k.priv i).s_proc_nr.isSome

structure Masks (k : State) : Prop where
  /-- Who gets a message may reply, unless its trap mask allows nothing but `RECEIVE`. -/
  reply : ∀ i j, k.ipcTo i j = true → canReply (k.priv j) = true → k.ipcTo j i = true
  source : ∀ i j, k.ipcTo i j = true → k.taken i = true
  target : ∀ i j, k.ipcTo i j = true → k.taken j = true
  self : ∀ i, k.ipcTo i i = false

/-! ## One bit -/

theorem setIpcTo_ipcTo (k : State) (i j : Nat) (b : Bool) (x y : Nat) :
    (k.setIpcTo i j b).ipcTo x y = if x = i ∧ y = j then b else k.ipcTo x y := by
  unfold State.setIpcTo State.setPriv State.ipcTo
  by_cases hx : x = i
  · subst hx
    by_cases hy : y = j
    · simp [hy]
    · simp [hy]
  · simp [hx]

/-- Changing a mask changes nothing else. -/
structure SameRest (k k' : State) : Prop where
  proc : k'.proc = k.proc
  procNr : ∀ i, (k'.priv i).s_proc_nr = (k.priv i).s_proc_nr
  trapMask : ∀ i, (k'.priv i).s_trap_mask = (k.priv i).s_trap_mask

theorem SameRest.refl (k : State) : SameRest k k :=
  ⟨rfl, fun _ => rfl, fun _ => rfl⟩

theorem SameRest.trans {a b c : State} (hab : SameRest a b) (hbc : SameRest b c) : SameRest a c :=
  ⟨hbc.proc.trans hab.proc, fun i => (hbc.procNr i).trans (hab.procNr i),
    fun i => (hbc.trapMask i).trans (hab.trapMask i)⟩

theorem SameRest.taken (h : SameRest k k') (i : Nat) : k'.taken i = k.taken i := by
  unfold State.taken
  rw [h.procNr i]

theorem SameRest.canReply (h : SameRest k k') (i : Nat) :
    canReply (k'.priv i) = canReply (k.priv i) := by
  unfold Kernel.canReply
  rw [h.trapMask i]

theorem setIpcTo_rest (k : State) (i j : Nat) (b : Bool) : SameRest k (k.setIpcTo i j b) := by
  refine ⟨rfl, ?_, ?_⟩
  · intro x
    unfold State.setIpcTo State.setPriv
    by_cases hx : x = i
    · simp [hx]
    · simp [hx]
  · intro x
    unfold State.setIpcTo State.setPriv
    by_cases hx : x = i
    · simp [hx]
    · simp [hx]

/-! ## set_sendto_bit and unset_sendto_bit -/

section Bits

variable (k : State) (rp id : Nat)

theorem setSendtoBit_rest : SameRest k (setSendtoBit k rp id) := by
  unfold setSendtoBit
  dsimp only
  split
  · exact setIpcTo_rest _ _ _ _
  · split
    · exact (setIpcTo_rest _ _ _ _).trans (setIpcTo_rest _ _ _ _)
    · exact setIpcTo_rest _ _ _ _

theorem unsetSendtoBit_rest : SameRest k (unsetSendtoBit k rp id) :=
  (setIpcTo_rest _ _ _ _).trans (setIpcTo_rest _ _ _ _)

/-- The masks after `set_sendto_bit`: the bit itself, and the bit of the other direction. -/
theorem setSendtoBit_ipcTo (x y : Nat) :
    (setSendtoBit k rp id).ipcTo x y =
      if x = (k.proc rp).p_priv ∧ y = id then k.taken id && id != (k.proc rp).p_priv
      else if x = id ∧ y = (k.proc rp).p_priv then
        k.ipcTo x y || (k.taken id && canReply (k.priv id))
      else k.ipcTo x y := by
  unfold setSendtoBit
  dsimp only
  have hreply := (setIpcTo_rest k (k.proc rp).p_priv id true).canReply id
  by_cases hnone : k.taken id = false
  · rw [if_pos (Or.inl (by simpa [State.taken] using hnone)), setIpcTo_ipcTo]
    simp [hnone]
  · by_cases hself : (k.proc rp).p_priv = id
    · rw [if_pos (Or.inr hself), setIpcTo_ipcTo]
      by_cases hx : x = (k.proc rp).p_priv ∧ y = id
      · simp [hx, hself]
      · rw [if_neg hx, if_neg hx, if_neg]
        rintro ⟨rfl, rfl⟩
        exact hx ⟨hself.symm, hself⟩
    · have htaken : k.taken id = true := by simpa using hnone
      rw [if_neg, hreply]
      · by_cases hx : x = (k.proc rp).p_priv ∧ y = id
        · have hne : ¬ (x = id ∧ y = (k.proc rp).p_priv) := by
            rintro ⟨rfl, -⟩
            exact hself hx.1.symm
          split
          · rw [setIpcTo_ipcTo, if_neg hne, setIpcTo_ipcTo, if_pos hx, htaken]
            simpa using Ne.symm hself
          · rw [setIpcTo_ipcTo, if_pos hx, htaken]
            simpa using Ne.symm hself
        · split
          · rename_i hcan
            rw [setIpcTo_ipcTo, setIpcTo_ipcTo, if_neg hx, htaken, hcan]
            simp
          · rename_i hcan
            rw [setIpcTo_ipcTo, if_neg hx, htaken]
            simp [hcan]
      · simpa [hself] using Option.isSome_iff_ne_none.1 htaken

theorem unsetSendtoBit_ipcTo (x y : Nat) :
    (unsetSendtoBit k rp id).ipcTo x y =
      if x = (k.proc rp).p_priv ∧ y = id ∨ x = id ∧ y = (k.proc rp).p_priv then false
      else k.ipcTo x y := by
  unfold unsetSendtoBit
  dsimp only
  rw [setIpcTo_ipcTo, setIpcTo_ipcTo]
  by_cases h₁ : x = id ∧ y = (k.proc rp).p_priv
  · simp [h₁]
  · by_cases h₂ : x = (k.proc rp).p_priv ∧ y = id
    · simp [h₂]
    · simp [h₁, h₂]

end Bits

/-! ## fill_sendto_mask -/

/-- One turn of the loop in `fill_sendto_mask`. -/
def fillStep (rp : Nat) (map : Nat → Bool) (k : State) (i : Nat) : State :=
  if map i then setSendtoBit k rp i else unsetSendtoBit k rp i

theorem fillStep_rest (rp : Nat) (map : Nat → Bool) (k : State) (i : Nat) :
    SameRest k (fillStep rp map k i) := by
  unfold fillStep
  split
  · exact setSendtoBit_rest k rp i
  · exact unsetSendtoBit_rest k rp i

/-- What the loop over the ids `js` makes of the bit `x`, `y`. -/
def filled (k : State) (i : Nat) (map : Nat → Bool) (js : List Nat) (x y : Nat) : Bool :=
  if x = i ∧ y ∈ js then map y && k.taken y && y != i
  else if y = i ∧ x ∈ js then
    map x && (k.ipcTo x y || (k.taken x && canReply (k.priv x)))
  else k.ipcTo x y

theorem fillStep_ipcTo (rp : Nat) (map : Nat → Bool) (k : State) (j x y : Nat) :
    (fillStep rp map k j).ipcTo x y = filled k (k.proc rp).p_priv map [j] x y := by
  unfold fillStep filled
  by_cases hmap : map j = true
  · rw [if_pos hmap, setSendtoBit_ipcTo]
    by_cases h₁ : x = (k.proc rp).p_priv ∧ y = j
    · simp [h₁, hmap]
    · by_cases h₂ : x = j ∧ y = (k.proc rp).p_priv
      · rcases h₂ with ⟨rfl, rfl⟩
        simp [h₁, hmap]
      · simp [h₁, h₂, and_comm]
  · rw [if_neg hmap, unsetSendtoBit_ipcTo]
    by_cases h₁ : x = (k.proc rp).p_priv ∧ y = j
    · simp [h₁, hmap]
    · by_cases h₂ : x = j ∧ y = (k.proc rp).p_priv
      · rcases h₂ with ⟨rfl, rfl⟩
        simp [h₁, hmap]
      · simp [h₁, h₂, and_comm]

theorem fillLoop_rest (rp : Nat) (map : Nat → Bool) :
    ∀ (js : List Nat) (k : State), SameRest k (js.foldl (fillStep rp map) k)
  | [], k => SameRest.refl k
  | j :: js, k => (fillStep_rest rp map k j).trans (fillLoop_rest rp map js _)

theorem fillLoop_ipcTo (rp : Nat) (map : Nat → Bool) (x y : Nat) :
    ∀ (js : List Nat) (k : State), js.Nodup →
      (js.foldl (fillStep rp map) k).ipcTo x y = filled k (k.proc rp).p_priv map js x y
  | [], k, _ => by simp [filled]
  | j :: js, k, hnodup => by
      rcases List.nodup_cons.1 hnodup with ⟨hj, hjs⟩
      have hrest := fillStep_rest rp map k j
      rw [List.foldl_cons, fillLoop_ipcTo rp map x y js _ hjs]
      unfold filled
      rw [hrest.proc, hrest.taken, hrest.taken, hrest.canReply, fillStep_ipcTo]
      unfold filled
      simp only [List.mem_cons, List.not_mem_nil, or_false]
      by_cases hx : x = (k.proc rp).p_priv ∧ (y = j ∨ y ∈ js)
      · grind
      · grind

theorem fillSendtoMask_ipcTo (env : Env) (k : State) (rp : Nat) (map : Nat → Bool) (x y : Nat) :
    (fillSendtoMask env k rp map).ipcTo x y =
      filled k (k.proc rp).p_priv map (List.range env.NR_SYS_PROCS) x y :=
  fillLoop_ipcTo rp map x y _ k List.nodup_range

/-! ## The invariant -/

theorem masks_setSendtoBit (h : Masks k) {rp : Nat} (htaken : k.taken (k.proc rp).p_priv = true)
    (id : Nat) : Masks (setSendtoBit k rp id) := by
  have hrest := setSendtoBit_rest k rp id
  refine ⟨?_, ?_, ?_, ?_⟩
  · intro x y hxy hreply
    rw [hrest.canReply] at hreply
    have hold := h.reply x y
    have hsource := h.source x y
    rw [setSendtoBit_ipcTo] at hxy ⊢
    grind
  · intro x y hxy
    rw [hrest.taken]
    have hold := h.source x y
    rw [setSendtoBit_ipcTo] at hxy
    grind
  · intro x y hxy
    rw [hrest.taken]
    have hold := h.target x y
    rw [setSendtoBit_ipcTo] at hxy
    grind
  · intro x
    have hold := h.self x
    rw [setSendtoBit_ipcTo]
    grind

theorem masks_unsetSendtoBit (h : Masks k) (rp id : Nat) : Masks (unsetSendtoBit k rp id) := by
  have hrest := unsetSendtoBit_rest k rp id
  refine ⟨?_, ?_, ?_, ?_⟩
  · intro x y hxy hreply
    rw [hrest.canReply] at hreply
    have hold := h.reply x y
    rw [unsetSendtoBit_ipcTo] at hxy ⊢
    grind
  · intro x y hxy
    rw [hrest.taken]
    have hold := h.source x y
    rw [unsetSendtoBit_ipcTo] at hxy
    grind
  · intro x y hxy
    rw [hrest.taken]
    have hold := h.target x y
    rw [unsetSendtoBit_ipcTo] at hxy
    grind
  · intro x
    have hold := h.self x
    rw [unsetSendtoBit_ipcTo]
    grind

theorem masks_fillLoop (rp : Nat) (map : Nat → Bool) :
    ∀ (js : List Nat) {k : State}, Masks k → k.taken (k.proc rp).p_priv = true →
      Masks (js.foldl (fillStep rp map) k)
  | [], _, h, _ => h
  | j :: js, k, h, htaken => by
      have hrest := fillStep_rest rp map k j
      refine masks_fillLoop rp map js ?_ ?_
      · unfold fillStep
        split
        · exact masks_setSendtoBit h htaken j
        · exact masks_unsetSendtoBit h rp j
      · rw [hrest.taken, hrest.proc]
        exact htaken

/-- A structure that belongs to nobody is handed out. -/
theorem masks_assignPriv (h : Masks k) (rc id : Nat) : Masks (assignPriv k rc id) := by
  have hpriv : ∀ i, (assignPriv k rc id).ipcTo i = k.ipcTo i ∧
      canReply ((assignPriv k rc id).priv i) = canReply (k.priv i) ∧
      (k.taken i = true → (assignPriv k rc id).taken i = true) := by
    intro i
    unfold assignPriv State.setPriv State.setProc State.ipcTo State.taken
    by_cases hi : i = id
    · simp [hi, canReply]
    · simp [hi]
  refine ⟨?_, ?_, ?_, ?_⟩
  · intro x y hxy hreply
    rw [(hpriv x).1] at hxy
    rw [(hpriv y).2.1] at hreply
    rw [(hpriv y).1]
    exact h.reply x y hxy hreply
  · intro x y hxy
    rw [(hpriv x).1] at hxy
    exact (hpriv x).2.2 (h.source x y hxy)
  · intro x y hxy
    rw [(hpriv x).1] at hxy
    exact (hpriv y).2.2 (h.target x y hxy)
  · intro x
    rw [(hpriv x).1]
    exact h.self x

/-- `get_priv` hands out a structure that belongs to nobody. -/
theorem getPriv_ok {rc : Nat} {privId : Int} (h : getPriv env k rc privId = .ok k') :
    ∃ id, k.taken id = false ∧ k' = assignPriv k rc id := by
  unfold getPriv at h
  split at h
  · cases hfree : freeDynamic env k with
    | none =>
        rw [hfree] at h
        simp at h
    | some id =>
        rw [hfree] at h
        cases h
        refine ⟨id, ?_, rfl⟩
        have hnone := List.find?_some hfree
        simpa [State.taken] using hnone
  · split at h
    · simp at h
    · split at h
      · simp at h
      · rename_i hsome
        cases h
        exact ⟨privId.toNat, by simpa [State.taken] using hsome, rfl⟩

/-! ## Runs -/

inductive MaskOp
  | getPriv (rc : Nat) (privId : Int)
  | setSendtoBit (rp id : Nat)
  | unsetSendtoBit (rp id : Nat)
  | fillSendtoMask (rp : Nat) (map : Nat → Bool)

/-- One operation.  A request that `get_priv` refuses changes nothing. -/
def maskStep (env : Env) (k : State) : MaskOp → Option State
  | .getPriv rc privId =>
    match getPriv env k rc privId with
    | .ok k' => some k'
    | .error _ => some k
  | .setSendtoBit rp id => some (setSendtoBit k rp id)
  | .unsetSendtoBit rp id => some (unsetSendtoBit k rp id)
  | .fillSendtoMask rp map => some (fillSendtoMask env k rp map)

/-- Masks are changed for processes that have a privilege structure. -/
def MaskOp.Allowed (k : State) : MaskOp → Prop
  | .getPriv _ _ => True
  | .setSendtoBit rp _ => k.taken (k.proc rp).p_priv = true
  | .unsetSendtoBit rp _ => k.taken (k.proc rp).p_priv = true
  | .fillSendtoMask rp _ => k.taken (k.proc rp).p_priv = true

/-- What one operation keeps: the symmetry, and who has which structure. -/
theorem maskStep_keeps {op : MaskOp} (h : Masks k) (hop : op.Allowed k)
    (hstep : maskStep env k op = some k') :
    Masks k' ∧ ∀ i p, (k.priv i).s_proc_nr = some p → (k'.priv i).s_proc_nr = some p := by
  cases op with
  | getPriv rc privId =>
      unfold maskStep at hstep
      dsimp only at hstep
      cases hget : getPriv env k rc privId with
      | error r =>
          rw [hget] at hstep
          cases hstep
          exact ⟨h, fun _ _ hp => hp⟩
      | ok k₁ =>
          rw [hget] at hstep
          cases hstep
          rcases getPriv_ok hget with ⟨id, hfree, rfl⟩
          refine ⟨masks_assignPriv h rc id, ?_⟩
          intro i p hp
          have hne : i ≠ id := by
            rintro rfl
            simp [State.taken, hp] at hfree
          simpa [assignPriv, State.setPriv, State.setProc, hne] using hp
  | setSendtoBit rp id =>
      cases hstep
      refine ⟨masks_setSendtoBit h hop id, ?_⟩
      intro i p hp
      rw [(setSendtoBit_rest k rp id).procNr]
      exact hp
  | unsetSendtoBit rp id =>
      cases hstep
      refine ⟨masks_unsetSendtoBit h rp id, ?_⟩
      intro i p hp
      rw [(unsetSendtoBit_rest k rp id).procNr]
      exact hp
  | fillSendtoMask rp map =>
      cases hstep
      refine ⟨masks_fillLoop rp map _ h hop, ?_⟩
      intro i p hp
      have hrest := fillLoop_rest rp map (List.range env.NR_SYS_PROCS) k
      exact (hrest.procNr i).trans hp

theorem maskRun_keeps :
    ∀ (ops : List MaskOp) {k k' : State}, Masks k → Guarded (maskStep env) MaskOp.Allowed k ops →
      ops.foldlM (maskStep env) k = some k' →
      Masks k' ∧ ∀ i p, (k.priv i).s_proc_nr = some p → (k'.priv i).s_proc_nr = some p
  | [], k, k', h, _, hrun => by
      cases hrun
      exact ⟨h, fun _ _ hp => hp⟩
  | op :: ops, k, k', h, hguard, hrun => by
      rcases foldlM_cons_eq_some.1 hrun with ⟨k₁, hstep, hrest⟩
      rcases maskStep_keeps h hguard.1 hstep with ⟨h₁, hkeep₁⟩
      rcases maskRun_keeps ops h₁ (hguard.2 k₁ hstep) hrest with ⟨h', hkeep'⟩
      exact ⟨h', fun i p hp => hkeep' i p (hkeep₁ i p hp)⟩

/-- The masks after `fill_sendto_mask`, in both directions. -/
structure FilledMask (env : Env) (k k' : State) (i : Nat) (map : Nat → Bool) : Prop where
  own : ∀ j, j < env.NR_SYS_PROCS → k'.ipcTo i j = (map j && k.taken j && j != i)
  back : ∀ j, j < env.NR_SYS_PROCS → j ≠ i → k.taken j = true → canReply (k.priv j) = true →
    k'.ipcTo j i = map j
  rest : ∀ x y, x ≠ i → y ≠ i → k'.ipcTo x y = k.ipcTo x y

theorem fillSendtoMask_filled (env : Env) (k : State) (rp : Nat) (map : Nat → Bool) :
    FilledMask env k (fillSendtoMask env k rp map) (k.proc rp).p_priv map := by
  refine ⟨?_, ?_, ?_⟩
  · intro j hj
    rw [fillSendtoMask_ipcTo, filled, if_pos ⟨rfl, List.mem_range.2 hj⟩]
  · intro j hj hne htaken hreply
    rw [fillSendtoMask_ipcTo, filled, if_neg (fun h => hne h.1), if_pos ⟨rfl, List.mem_range.2 hj⟩,
      htaken, hreply]
    simp
  · intro x y hx hy
    rw [fillSendtoMask_ipcTo, filled, if_neg (fun h => hx h.1), if_neg (fun h => hy h.1)]

/-- **A request can be answered.**  Whatever privilege structures are handed out and whatever bits are
set, unset and filled in, who may be sent a message may reply unless it can only receive, structures
without a process take no part, nobody may send to itself, and no structure changes its owner; and filling
the mask of a process gives it exactly the targets asked for, and of the others that can reply exactly
these may send back. -/
theorem sendto_mask_run (env : Env) (ops : List MaskOp) (k k' : State) (h : Masks k)
    (hguard : Guarded (maskStep env) MaskOp.Allowed k ops)
    (hrun : ops.foldlM (maskStep env) k = some k') :
    Masks k' ∧ (∀ i p, (k.priv i).s_proc_nr = some p → (k'.priv i).s_proc_nr = some p) ∧
      ∀ rp map, k'.taken (k'.proc rp).p_priv = true →
        Masks (fillSendtoMask env k' rp map) ∧
          FilledMask env k' (fillSendtoMask env k' rp map) (k'.proc rp).p_priv map := by
  rcases maskRun_keeps ops h hguard hrun with ⟨h', hkeep⟩
  refine ⟨h', hkeep, ?_⟩
  intro rp map htaken
  exact ⟨masks_fillLoop rp map _ h' htaken, fillSendtoMask_filled env k' rp map⟩

/-- Process 5 gets the first free structure, process 0 may send to process 1, and process 2 to all. -/
def smallOps : List MaskOp :=
  [.getPriv 5 NULL_PRIV_ID, .setSendtoBit 0 1, .fillSendtoMask 2 fun _ => true]

theorem sendto_mask_run_small :
    ∃ k', smallOps.foldlM (maskStep smallEnv) smallState = some k' ∧ Masks k' ∧
      k'.taken (k'.proc 2).p_priv = true ∧
      FilledMask smallEnv k' (fillSendtoMask smallEnv k' 2 fun j => j == 6) (k'.proc 2).p_priv
        (fun j => j == 6) := by
  have hmasks : Masks smallState :=
    ⟨fun _ _ h => Bool.noConfusion h, fun _ _ h => Bool.noConfusion h, fun _ _ h => Bool.noConfusion h,
      fun _ => rfl⟩
  have hguard : Guarded (maskStep smallEnv) MaskOp.Allowed smallState smallOps :=
    Guarded.cons _ rfl trivial (Guarded.cons _ rfl rfl (Guarded.cons _ rfl rfl trivial))
  rcases sendto_mask_run smallEnv smallOps smallState _ hmasks hguard rfl with ⟨h', -, hfill⟩
  exact ⟨_, rfl, h', rfl, (hfill 2 _ rfl).2⟩

end Kernel
end OsLab
