import Mathlib.Data.Finset.Card
import Mathlib.Data.List.Perm.Subperm
import OsLab.Kernel.Model

/-!
# Queues — nobody waits for a dead endpoint

The caller queue of a slot holds the processes that are sending to it.  `clear_endpoint` keeps this, and
afterwards nobody is blocked on the endpoint: the processes that were have been taken out of the queues
and see `EDEADSRCDST`; the others wait as before.
-/

namespace OsLab
namespace Kernel

open OsLab.Lib

variable {env : Env} {k k' : State} {members : Nat → List Nat} {p rc : Nat}

/-! ## The invariant -/

/-- Slot `p` of the table is in use. -/
def InUse (env : Env) (k : State) (p : Nat) : Prop :=
  p < env.slots ∧ k.live p

structure Inv (env : Env) (k : State) (members : Nat → List Nat) : Prop where
  queues : Queues k.queues members
  /-- A queue holds those that are sending to its slot. -/
  member : ∀ d p, p ∈ members d ↔ InUse env k d ∧ InUse env k p ∧ (k.proc p).sending = true ∧
    (k.proc p).p_sendto_e = (k.proc d).p_endpoint
  /-- A destination is alive. -/
  target : ∀ p, InUse env k p → (k.proc p).sending = true →
    ∃ d, InUse env k d ∧ (k.proc p).p_sendto_e = (k.proc d).p_endpoint
  endpoint : ∀ p, InUse env k p → env.slotOf (k.proc p).p_endpoint = p
  proper : ∀ p, InUse env k p → (k.proc p).p_endpoint ≠ env.NONE ∧ (k.proc p).p_endpoint ≠ env.ANY

theorem Inv.length_le (h : Inv env k members) (d : Nat) : (members d).length ≤ env.slots := by
  have hsub : members d ⊆ List.range env.slots := by
    intro p hp
    exact List.mem_range.2 ((h.member d p).1 hp).2.1.1
  have hle := (List.subperm_of_subset (h.queues.nodup d) hsub).length_le
  rw [List.length_range] at hle
  exact hle

theorem Inv.endpoint_inj (h : Inv env k members) {d d' : Nat} (hd : InUse env k d)
    (hd' : InUse env k d') (heq : (k.proc d).p_endpoint = (k.proc d').p_endpoint) : d = d' := by
  rw [← h.endpoint d hd, heq, h.endpoint d' hd']

theorem Inv.okendpt (h : Inv env k members) {d : Nat} (hd : InUse env k d) :
    okendpt env k (k.proc d).p_endpoint = some d := by
  unfold Kernel.okendpt
  dsimp only
  rw [h.endpoint d hd, if_pos ⟨hd.1, hd.2, rfl⟩]

/-! ## clear_ipc -/

/-- A process that waits for nobody. -/
def idle (pr : Proc) : Proc :=
  { pr with sending := false, receiving := false }

theorem clearIpc_spec (h : Inv env k members) (hp : InUse env k p) :
    ∃ queues, clearIpc env k p = some { k.setProc p (idle (k.proc p)) with queues := queues } ∧
      Queues queues (fun d => (members d).erase p) := by
  unfold clearIpc dequeue
  by_cases hsending : (k.proc p).sending = true
  · rcases h.target p hp hsending with ⟨d, hd, hto⟩
    rw [if_pos hsending, hto, h.okendpt hd, Option.bind_some]
    rcases h.queues.unlink p d (Nat.lt_succ_of_le (h.length_le d)) with ⟨queues, hunlink, hqueues⟩
    refine ⟨queues, ?_, ?_⟩
    · rw [hunlink]
      rfl
    · have hmembers : (fun d' => (members d').erase p) =
          Function.update members d ((members d).erase p) := by
        funext d'
        by_cases hdd : d' = d
        · rw [hdd, Function.update_self]
        · -- A process sends to one slot only.
          rw [Function.update_of_ne hdd, List.erase_of_not_mem]
          intro hmem
          rcases (h.member d' p).1 hmem with ⟨hd', -, -, hto'⟩
          exact hdd (h.endpoint_inj hd' hd (hto'.symm.trans hto))
      rw [hmembers]
      exact hqueues
  · rw [if_neg hsending]
    refine ⟨k.queues, rfl, ?_⟩
    have hmembers : (fun d => (members d).erase p) = members := by
      funext d
      refine List.erase_of_not_mem ?_
      intro hmem
      exact hsending ((h.member d p).1 hmem).2.2.1
    rw [hmembers]
    exact h.queues

/-- What stays the same about every process: its slot, its endpoint and whom it sends to. -/
structure Same (pr pr' : Proc) : Prop where
  slotFree : pr'.slotFree = pr.slotFree
  endpoint : pr'.p_endpoint = pr.p_endpoint
  sendto : pr'.p_sendto_e = pr.p_sendto_e
  priv : pr'.p_priv = pr.p_priv

theorem Same.rfl' (pr : Proc) : Same pr pr :=
  ⟨rfl, rfl, rfl, rfl⟩

theorem Same.trans {a b c : Proc} (hab : Same a b) (hbc : Same b c) : Same a c :=
  ⟨hbc.slotFree.trans hab.slotFree, hbc.endpoint.trans hab.endpoint, hbc.sendto.trans hab.sendto,
    hbc.priv.trans hab.priv⟩

/-- The invariant depends on the processes and the queues only, and of the processes on who is
sending. -/
theorem Inv.transfer (h : Inv env k members) {members' : Nat → List Nat}
    (hqueues : Queues k'.queues members') (hsame : ∀ p, Same (k.proc p) (k'.proc p))
    (hmember : ∀ d p, p ∈ members' d ↔ p ∈ members d ∧ (k'.proc p).sending = true)
    (hsending : ∀ p, (k'.proc p).sending = true → (k.proc p).sending = true) :
    Inv env k' members' := by
  have hinUse : ∀ p, InUse env k' p ↔ InUse env k p := by
    intro p
    unfold InUse State.live
    rw [(hsame p).slotFree]
  refine ⟨hqueues, ?_, ?_, ?_, ?_⟩
  · intro d p
    rw [hmember, h.member, hinUse, hinUse, (hsame p).sendto, (hsame d).endpoint]
    constructor
    · rintro ⟨⟨hd, hp, -, hto⟩, hs⟩
      exact ⟨hd, hp, hs, hto⟩
    · rintro ⟨hd, hp, hs, hto⟩
      exact ⟨⟨hd, hp, hsending p hs, hto⟩, hs⟩
  · intro p hp hs
    rcases h.target p ((hinUse p).1 hp) (hsending p hs) with ⟨d, hd, hto⟩
    exact ⟨d, (hinUse d).2 hd, by rw [(hsame p).sendto, (hsame d).endpoint, hto]⟩
  · intro p hp
    rw [(hsame p).endpoint]
    exact h.endpoint p ((hinUse p).1 hp)
  · intro p hp
    rw [(hsame p).endpoint]
    exact h.proper p ((hinUse p).1 hp)

/-- Nothing changes for the queues when nobody starts or stops sending. -/
theorem Inv.frame (h : Inv env k members) (hqueues : k'.queues = k.queues)
    (hsame : ∀ p, Same (k.proc p) (k'.proc p) ∧ (k'.proc p).sending = (k.proc p).sending) :
    Inv env k' members := by
  refine h.transfer ?_ (fun p => (hsame p).1) ?_ ?_
  · rw [hqueues]
    exact h.queues
  · intro d p
    rw [(hsame p).2]
    constructor
    · intro hmem
      exact ⟨hmem, ((h.member d p).1 hmem).2.2.1⟩
    · exact fun hmem => hmem.1
  · intro p hp
    rw [(hsame p).2] at hp
    exact hp

theorem clearIpc_ok (h : Inv env k members) (hp : InUse env k p) :
    ∃ k', clearIpc env k p = some k' ∧ Inv env k' (fun d => (members d).erase p) ∧
      k'.proc = Function.update k.proc p (idle (k.proc p)) ∧ k'.priv = k.priv := by
  rcases clearIpc_spec h hp with ⟨queues, hclear, hqueues⟩
  refine ⟨_, hclear, h.transfer hqueues ?_ ?_ ?_, rfl, rfl⟩
  · intro q
    by_cases hq : q = p
    · subst hq
      simp only [State.setProc, Function.update_self]
      exact ⟨rfl, rfl, rfl, rfl⟩
    · simp only [State.setProc, Function.update_of_ne hq]
      exact Same.rfl' _
  · intro d q
    rw [(h.queues.nodup d).mem_erase_iff]
    by_cases hq : q = p
    · subst hq
      simp [State.setProc, idle]
    · simp only [State.setProc, Function.update_of_ne hq]
      constructor
      · rintro ⟨-, hmem⟩
        exact ⟨hmem, ((h.member d q).1 hmem).2.2.1⟩
      · rintro ⟨hmem, -⟩
        exact ⟨hq, hmem⟩
  · intro q hs
    by_cases hq : q = p
    · subst hq
      simp [State.setProc, idle] at hs
    · simp only [State.setProc, Function.update_of_ne hq] at hs
      exact hs

/-! ## The loop over all processes -/

/-- A process that learns that its partner is dead. -/
def bereaved (ret : Int) (pr : Proc) : Proc :=
  { idle pr with retreg := ret }

/-- What the loop does to a process: it wakes those that are blocked on `e`. -/
def release (env : Env) (ret e : Int) (pr : Proc) : Proc :=
  if blockedOn env pr = e then bereaved ret pr else pr

theorem release_same (env : Env) (ret e : Int) (pr : Proc) : Same pr (release env ret e pr) := by
  unfold release
  split
  · exact ⟨rfl, rfl, rfl, rfl⟩
  · exact Same.rfl' pr

theorem clearRefs_spec (h : Inv env k members) (rc : Nat) (ret : Int) {rp : Nat} (hrp : InUse env k rp) :
    ∃ k' members', clearRefs env rc ret k rp = some k' ∧ Inv env k' members' ∧
      (∀ d, (members' d).Sublist (members d)) ∧
      k'.proc = Function.update k.proc rp (release env ret (k.proc rc).p_endpoint (k.proc rp)) ∧
      k'.priv = (unsetPending k rc rp).priv := by
  have hlive : (k.proc rp).slotFree = false := hrp.2
  have hproc : (unsetPending k rc rp).proc = k.proc := rfl
  unfold clearRefs release
  rw [if_neg (by rw [hlive]; decide)]
  dsimp only
  by_cases hblocked : blockedOn env (k.proc rp) = (k.proc rc).p_endpoint
  · rw [hproc, if_pos hblocked, if_pos hblocked]
    -- The return value is set before the process is taken out of the queue.
    have hset : Inv env ((unsetPending k rc rp).setProc rp { k.proc rp with retreg := ret }) members := by
      refine h.frame rfl ?_
      intro p
      by_cases hp : p = rp
      · subst hp
        simp only [State.setProc, Function.update_self]
        exact ⟨⟨rfl, rfl, rfl, rfl⟩, trivial⟩
      · simp only [State.setProc, Function.update_of_ne hp]
        exact ⟨Same.rfl' _, rfl⟩
    have hinUse : InUse env ((unsetPending k rc rp).setProc rp { k.proc rp with retreg := ret }) rp := by
      refine ⟨hrp.1, ?_⟩
      simp only [State.live, State.setProc, Function.update_self]
      exact hlive
    rcases clearIpc_ok hset hinUse with ⟨k', hclear, hinv, hproc', hpriv'⟩
    refine ⟨k', _, hclear, hinv, fun d => List.erase_sublist, ?_, hpriv'⟩
    rw [hproc']
    simp only [State.setProc, Function.update_self, Function.update_idem, hproc]
    rfl
  · rw [hproc, if_neg hblocked, if_neg hblocked]
    refine ⟨unsetPending k rc rp, members, rfl, ?_, fun d => List.Sublist.refl _, ?_, rfl⟩
    · exact h.frame rfl (fun p => ⟨Same.rfl' _, rfl⟩)
    · rw [Function.update_eq_self]
      rfl

/-- No notification and no asynchronous message from `id` is pending. -/
def Quiet (pv : Priv) (id : Nat) : Prop :=
  pv.s_notify_pending id = false ∧ pv.s_asyn_pending id = false

theorem unsetPending_quiet (k : State) (rc rp : Nat) :
    Quiet ((unsetPending k rc rp).priv (k.proc rp).p_priv) (k.proc rc).p_priv := by
  simp only [Quiet, unsetPending, State.setPriv, Function.update_self, and_self]

/-- Bits are unset only. -/
theorem unsetPending_keeps {pv id : Nat} (rp : Nat) (h : Quiet (k.priv pv) id) :
    Quiet ((unsetPending k rc rp).priv pv) id := by
  unfold unsetPending State.setPriv Quiet
  dsimp only
  by_cases hpv : pv = (k.proc rp).p_priv
  · rw [hpv, Function.update_self]
    dsimp only
    by_cases hid : id = (k.proc rc).p_priv
    · rw [hid, Function.update_self, Function.update_self]
      exact ⟨rfl, rfl⟩
    · rw [Function.update_of_ne hid, Function.update_of_ne hid, ← hpv]
      exact h
  · rw [Function.update_of_ne hpv]
    exact h

/-- What the loop over the slots `ps` leads to. -/
structure Refs (env : Env) (rc : Nat) (ret : Int) (ps : List Nat) (k k' : State) : Prop where
  released : ∀ p ∈ ps, k.live p → k'.proc p = release env ret (k.proc rc).p_endpoint (k.proc p)
  others : ∀ p, (p ∈ ps → ¬ k.live p) → k'.proc p = k.proc p
  quiet : ∀ p ∈ ps, k.live p → Quiet (k'.priv (k.proc p).p_priv) (k.proc rc).p_priv
  keeps : ∀ pv id, Quiet (k.priv pv) id → Quiet (k'.priv pv) id

theorem Refs.same {ret : Int} {ps : List Nat} (h : Refs env rc ret ps k k') (p : Nat) :
    Same (k.proc p) (k'.proc p) := by
  by_cases hp : p ∈ ps ∧ k.live p
  · rw [h.released p hp.1 hp.2]
    exact release_same env _ _ _
  · rw [h.others p (fun hmem hlive => hp ⟨hmem, hlive⟩)]
    exact Same.rfl' _

theorem refsLoop_spec (rc : Nat) (ret : Int) :
    ∀ (ps : List Nat) {k : State} {members : Nat → List Nat}, Inv env k members → ps.Nodup →
      (∀ p ∈ ps, p < env.slots) →
      ∃ k' members', ps.foldlM (clearRefs env rc ret) k = some k' ∧ Inv env k' members' ∧
        (∀ d, (members' d).Sublist (members d)) ∧ Refs env rc ret ps k k'
  | [], k, members, h, _, _ =>
      ⟨k, members, rfl, h, fun d => List.Sublist.refl _, by simp, fun _ _ => rfl, by simp,
        fun _ _ hq => hq⟩
  | rp :: ps, k, members, h, hnodup, hslots => by
      rcases List.nodup_cons.1 hnodup with ⟨hrp, hps⟩
      have hslots' : ∀ p ∈ ps, p < env.slots := fun p hp => hslots p (List.mem_cons_of_mem _ hp)
      by_cases hfree : k.live rp
      · -- The slot is in use.
        have hinUse : InUse env k rp := ⟨hslots rp (List.mem_cons_self ..), hfree⟩
        rcases clearRefs_spec h rc ret hinUse with ⟨k₁, members₁, hstep, h₁, hsub₁, hproc, hpriv⟩
        rcases refsLoop_spec rc ret ps h₁ hps hslots' with ⟨k', members', hloop, h', hsub', hrefs⟩
        have hsame₁ : ∀ p, Same (k.proc p) (k₁.proc p) := by
          intro p
          rw [hproc]
          by_cases hp : p = rp
          · rw [hp, Function.update_self]
            exact release_same env _ _ _
          · rw [Function.update_of_ne hp]
            exact Same.rfl' _
        have hlive : ∀ p, k₁.live p ↔ k.live p := by
          intro p
          unfold State.live
          rw [(hsame₁ p).slotFree]
        have hne : ∀ p ∈ ps, p ≠ rp := by
          rintro p hp rfl
          exact hrp hp
        refine ⟨k', members', ?_, h', fun d => (hsub' d).trans (hsub₁ d), ?_, ?_, ?_, ?_⟩
        · rw [List.foldlM_cons, hstep]
          exact hloop
        · intro p hp hplive
          rcases List.mem_cons.1 hp with rfl | hmem
          · rw [hrefs.others p (fun hmem => absurd hmem hrp), hproc, Function.update_self]
          · rw [hrefs.released p hmem ((hlive p).2 hplive), (hsame₁ rc).endpoint, hproc,
              Function.update_of_ne (hne p hmem)]
        · intro p hp
          have hnot : p ≠ rp := by
            rintro rfl
            exact hp (List.mem_cons_self ..) hfree
          rw [hrefs.others p, hproc, Function.update_of_ne hnot]
          intro hmem hplive
          exact hp (List.mem_cons_of_mem _ hmem) ((hlive p).1 hplive)
        · intro p hp hplive
          rcases List.mem_cons.1 hp with rfl | hmem
          · refine hrefs.keeps _ _ ?_
            rw [hpriv]
            exact unsetPending_quiet k rc p
          · have hquiet := hrefs.quiet p hmem ((hlive p).2 hplive)
            rw [(hsame₁ p).priv, (hsame₁ rc).priv] at hquiet
            exact hquiet
        · intro pv id hquiet
          refine hrefs.keeps pv id ?_
          rw [hpriv]
          exact unsetPending_keeps rp hquiet
      · have hstep : clearRefs env rc ret k rp = some k := by
          unfold clearRefs
          rw [if_pos (by simpa [State.live] using hfree)]
        rcases refsLoop_spec rc ret ps h hps hslots' with ⟨k', members', hloop, h', hsub', hrefs⟩
        refine ⟨k', members', ?_, h', hsub', ?_, ?_, ?_, hrefs.keeps⟩
        · rw [List.foldlM_cons, hstep]
          exact hloop
        · intro p hp hplive
          rcases List.mem_cons.1 hp with rfl | hmem
          · exact absurd hplive hfree
          · exact hrefs.released p hmem hplive
        · intro p hp
          exact hrefs.others p (fun hmem => hp (List.mem_cons_of_mem _ hmem))
        · intro p hp hplive
          rcases List.mem_cons.1 hp with rfl | hmem
          · exact absurd hplive hfree
          · exact hrefs.quiet p hmem hplive

/-! ## Asynchronous messages -/

theorem Notified.trans {any asyncm : Int} {a b c : Proc} (hab : Notified any asyncm a b)
    (hbc : Notified any asyncm b c) : Notified any asyncm a c := by
  rcases hab with rfl | ⟨hrecv, hsend, hfrom, rfl⟩
  · exact hbc
  · rcases hbc with rfl | ⟨hrecv', -⟩
    · exact Or.inr ⟨hrecv, hsend, hfrom, rfl⟩
    · -- A process is notified at most once.
      exact absurd hrecv' (by simp)

theorem Notified.same {any asyncm : Int} {a b : Proc} (h : Notified any asyncm a b) :
    Same a b ∧ b.sending = a.sending := by
  rcases h with rfl | ⟨-, -, -, rfl⟩
  · exact ⟨Same.rfl' _, rfl⟩
  · exact ⟨⟨rfl, rfl, rfl, rfl⟩, rfl⟩

/-- What cancelling messages does: processes are notified, and bits are unset. -/
structure Cancelled (env : Env) (k k' : State) : Prop where
  queues : k'.queues = k.queues
  proc : ∀ p, Notified env.ANY env.ASYNCM (k.proc p) (k'.proc p)
  quiet : ∀ pv id, id ≠ env.asyncmId → Quiet (k.priv pv) id → Quiet (k'.priv pv) id

/-- The loop that cancels asynchronous messages ends, since each turn unsets a bit. -/
theorem cancelLoop_spec (env : Env) (rc : Nat) (k : State) :
    ∃ k', loop (cancelStep env rc) (env.NR_SYS_PROCS + 1) k = some k' ∧ Cancelled env k k' := by
  refine loop_total (Cancelled env k)
    (fun s => ((Finset.range env.NR_SYS_PROCS).filter
      (fun i => (s.priv (k.proc rc).p_priv).s_asyn_pending i = true)).card)
    (Cancelled env k) ?_ (env.NR_SYS_PROCS + 1) k
    ⟨rfl, fun p => Or.inl rfl, fun _ _ _ hquiet => hquiet⟩ ?_
  · rintro s ⟨hqueues, hproc, hquiet⟩
    have hpriv : (s.proc rc).p_priv = (k.proc rc).p_priv := (hproc rc).same.1.priv
    unfold cancelStep
    cases hpending : hasPendingAsend env s rc with
    | none => exact Or.inr ⟨s, rfl, hqueues, hproc, hquiet⟩
    | some src =>
        refine Or.inl ⟨env.cancelAsync src rc s, rfl, ⟨?_, ?_, ?_⟩, ?_⟩
        · rw [env.cancel_queues, hqueues]
        · intro p
          exact (hproc p).trans (env.cancel_proc src rc s p)
        · intro pv id hid hk
          rcases hquiet pv id hid hk with ⟨hnotify, hasyn⟩
          refine ⟨?_, ?_⟩
          · rw [env.cancel_notify src rc s pv id hid]
            exact hnotify
          · rw [env.cancel_asyn, hasyn, ite_self]
        · have hbit := List.find?_some hpending
          have hrange := List.mem_range.1 (List.mem_of_find?_eq_some hpending)
          rw [hpriv] at hbit
          refine Finset.card_lt_card (Finset.ssubset_iff_subset_ne.2 ⟨?_, ?_⟩)
          · intro i hi
            rw [Finset.mem_filter] at hi ⊢
            refine ⟨hi.1, ?_⟩
            have hafter := hi.2
            rw [env.cancel_asyn] at hafter
            split at hafter
            · exact absurd hafter (by decide)
            · exact hafter
          · intro heq
            have hmem : src ∈ (Finset.range env.NR_SYS_PROCS).filter
                (fun i => (s.priv (k.proc rc).p_priv).s_asyn_pending i = true) :=
              Finset.mem_filter.2 ⟨Finset.mem_range.2 hrange, hbit⟩
            rw [← heq, Finset.mem_filter, env.cancel_asyn, if_pos ⟨hpriv.symm, rfl⟩] at hmem
            exact absurd hmem.2 (by decide)
  · refine Nat.lt_succ_of_le ?_
    exact (Finset.card_filter_le _ _).trans (Nat.le_of_eq (Finset.card_range _))

/-! ## clear_endpoint -/

/-- After `clear_endpoint`: `rc` waits for nobody, who waited for it is released, and the others wait
as before, except for a notification. -/
structure Cleared (env : Env) (rc : Nat) (k k' : State) : Prop where
  same : ∀ p, Same (k.proc p) (k'.proc p)
  self : (k'.proc rc).sending = false ∧ (k'.proc rc).receiving = false ∧
    (k'.proc rc).noEndpoint = true
  bereaved : ∀ p, p ≠ rc → InUse env k p → blockedOn env (k.proc p) = (k.proc rc).p_endpoint →
    k'.proc p = bereaved env.EDEADSRCDST (k.proc p)
  others : ∀ p, p ≠ rc → blockedOn env (k.proc p) ≠ (k.proc rc).p_endpoint →
    Notified env.ANY env.ASYNCM (k.proc p) (k'.proc p)
  quiet : ∀ p, InUse env k p → Quiet (k'.priv (k.proc p).p_priv) (k.proc rc).p_priv
  keeps : ∀ pv id, id ≠ env.asyncmId → Quiet (k.priv pv) id → Quiet (k'.priv pv) id

theorem unschedule_queues (k : State) (rc : Nat) : (unschedule k rc).queues = k.queues := by
  unfold unschedule
  dsimp only
  split
  · rfl
  · rfl

theorem unschedule_proc (k : State) (rc : Nat) :
    (unschedule k rc).proc = Function.update k.proc rc { k.proc rc with noEndpoint := true } := by
  unfold unschedule
  dsimp only
  split
  · rfl
  · rfl

theorem unschedule_same (k : State) (rc p : Nat) :
    Same (k.proc p) ((unschedule k rc).proc p) ∧
      ((unschedule k rc).proc p).sending = (k.proc p).sending := by
  rw [unschedule_proc]
  by_cases hp : p = rc
  · rw [hp, Function.update_self]
    exact ⟨⟨rfl, rfl, rfl, rfl⟩, rfl⟩
  · rw [Function.update_of_ne hp]
    exact ⟨Same.rfl' _, rfl⟩

theorem unschedule_quiet {pv id : Nat} (rc : Nat) (h : Quiet (k.priv pv) id) :
    Quiet ((unschedule k rc).priv pv) id := by
  unfold unschedule
  dsimp only
  split
  · unfold State.setPriv
    dsimp only
    by_cases hpv : pv = ((k.setProc rc { k.proc rc with noEndpoint := true }).proc rc).p_priv
    · rw [hpv] at h ⊢
      rw [Function.update_self]
      exact h
    · rw [Function.update_of_ne hpv]
      exact h
  · exact h

/-- A process that waits for `e` is not notified. -/
theorem Notified.eq_of_blocked {a b : Proc} (h : Notified env.ANY env.ASYNCM a b) {e : Int}
    (hany : e ≠ env.ANY) (hasyncm : e ≠ env.ASYNCM) (hblocked : blockedOn env a = e) : b = a := by
  rcases h with rfl | ⟨hrecv, hsend, hfrom, -⟩
  · rfl
  · have hgetfrom : a.p_getfrom_e = e := by
      rw [← hblocked]
      simp [blockedOn, hrecv, hsend]
    rcases hfrom with hfrom | hfrom
    · exact absurd (hgetfrom.symm.trans hfrom) hany
    · exact absurd (hgetfrom.symm.trans hfrom) hasyncm

/-- A process that waits for somebody else does not wait for `e` after a notification. -/
theorem Notified.not_blocked {a b : Proc} (h : Notified env.ANY env.ASYNCM a b) {e : Int}
    (hnone : e ≠ env.NONE) (hblocked : blockedOn env a ≠ e) : blockedOn env b ≠ e := by
  rcases h with rfl | ⟨-, hsend, -, rfl⟩
  · exact hblocked
  · have hidle : blockedOn env { a with receiving := false } = env.NONE := by
      simp [blockedOn, hsend]
    rw [hidle]
    exact hnone.symm

theorem clearEndpoint_ok (h : Inv env k members) (hrc : InUse env k rc)
    (hasyncm : (k.proc rc).p_endpoint ≠ env.ASYNCM) :
    ∃ k' members', clearEndpoint env k rc = some k' ∧ Inv env k' members' ∧
      (∀ d, (members' d).Sublist (members d)) ∧ Cleared env rc k k' := by
  rcases h.proper rc hrc with ⟨hnone, hany⟩
  have hlive : (k.proc rc).slotFree = false := hrc.2
  have h₀ : Inv env (unschedule k rc) members := h.frame (unschedule_queues k rc) (unschedule_same k rc)
  have hrc₀ : InUse env (unschedule k rc) rc := by
    refine ⟨hrc.1, ?_⟩
    rw [State.live, (unschedule_same k rc rc).1.slotFree]
    exact hlive
  rcases clearIpc_ok h₀ hrc₀ with ⟨k₁, hclear, h₁, hproc₁, hpriv₁⟩
  rcases cancelLoop_spec env rc k₁ with ⟨k₂, hcancel, hqueues₂, hnotified, hquiet₂⟩
  have h₂ := h₁.frame hqueues₂ (fun p => (hnotified p).same)
  rcases refsLoop_spec rc env.EDEADSRCDST (List.range env.slots) h₂ List.nodup_range
    (fun p hp => List.mem_range.1 hp) with ⟨k', members', hloop, h', hsub, hrefs⟩
  -- The state of `rc` and of the others in front of the loop over the table.
  have hself : k₁.proc rc = idle { k.proc rc with noEndpoint := true } := by
    rw [hproc₁, Function.update_self, unschedule_proc, Function.update_self]
  have hother : ∀ p, p ≠ rc → k₁.proc p = k.proc p := by
    intro p hp
    rw [hproc₁, Function.update_of_ne hp, unschedule_proc, Function.update_of_ne hp]
  have hself₂ : k₂.proc rc = k₁.proc rc := by
    rcases hnotified rc with heq | ⟨hrecv, -⟩
    · exact heq
    · rw [hself] at hrecv
      exact absurd hrecv (by simp [idle])
  have hsame₂ : ∀ p, Same (k.proc p) (k₂.proc p) := by
    intro p
    by_cases hp : p = rc
    · rw [hp, hself₂, hself]
      exact ⟨rfl, rfl, rfl, rfl⟩
    · have hsame := (hnotified p).same.1
      rw [hother p hp] at hsame
      exact hsame
  have hendpoint : (k₂.proc rc).p_endpoint = (k.proc rc).p_endpoint := (hsame₂ rc).endpoint
  have hfinal : ∀ p, blockedOn env (k₂.proc p) ≠ (k.proc rc).p_endpoint → k'.proc p = k₂.proc p := by
    intro p hp
    by_cases hslot : p ∈ List.range env.slots ∧ k₂.live p
    · rw [hrefs.released p hslot.1 hslot.2, hendpoint]
      exact if_neg hp
    · exact hrefs.others p (fun hmem hl => hslot ⟨hmem, hl⟩)
  have hlive₂ : ∀ p, InUse env k p → p ∈ List.range env.slots ∧ k₂.live p := by
    intro p hp
    refine ⟨List.mem_range.2 hp.1, ?_⟩
    rw [State.live, (hsame₂ p).slotFree]
    exact hp.2
  refine ⟨k', members', ?_, h', fun d => (hsub d).trans List.erase_sublist, ?_, ?_, ?_, ?_, ?_, ?_⟩
  · unfold clearEndpoint
    rw [if_neg (by rw [hlive]; decide)]
    rw [hclear, Option.bind_some]
    unfold clearIpcRefs
    rw [hcancel, Option.bind_some]
    exact hloop
  · exact fun p => (hsame₂ p).trans (hrefs.same p)
  · have hidle : blockedOn env (k₂.proc rc) ≠ (k.proc rc).p_endpoint := by
      rw [hself₂, hself]
      exact hnone.symm
    rw [hfinal rc hidle, hself₂, hself]
    exact ⟨rfl, rfl, rfl⟩
  · intro p hp hinUse hblocked
    have hnot := hnotified p
    rw [hother p hp] at hnot
    have heq := hnot.eq_of_blocked hany hasyncm hblocked
    rw [hrefs.released p (hlive₂ p hinUse).1 (hlive₂ p hinUse).2, hendpoint, heq]
    exact if_pos hblocked
  · intro p hp hblocked
    have hnot := hnotified p
    rw [hother p hp] at hnot
    rw [hfinal p (hnot.not_blocked hnone hblocked)]
    exact hnot
  · intro p hinUse
    have hquiet := hrefs.quiet p (hlive₂ p hinUse).1 (hlive₂ p hinUse).2
    rw [(hsame₂ p).priv, (hsame₂ rc).priv] at hquiet
    exact hquiet
  · intro pv id hid hquiet
    refine hrefs.keeps pv id (hquiet₂ pv id hid ?_)
    rw [hpriv₁]
    exact unschedule_quiet rc hquiet

/-! ## Any number of them -/

/-- A process other than `ASYNCM`. -/
structure Mortal (env : Env) (k : State) (rc : Nat) : Prop where
  inUse : InUse env k rc
  endpoint : (k.proc rc).p_endpoint ≠ env.ASYNCM
  priv : (k.proc rc).p_priv ≠ env.asyncmId

/-- The state after the endpoints of `rcs` have been cleared, one after the other. -/
structure Gone (env : Env) (rcs : List Nat) (k k' : State) : Prop where
  same : ∀ p, Same (k.proc p) (k'.proc p)
  /-- The dead wait for nobody. -/
  dead : ∀ rc ∈ rcs, (k'.proc rc).sending = false ∧ (k'.proc rc).receiving = false ∧
    (k'.proc rc).noEndpoint = true
  /-- Nobody waits for the dead. -/
  unblocked : ∀ rc ∈ rcs, ∀ p, InUse env k p →
    blockedOn env (k'.proc p) ≠ (k.proc rc).p_endpoint
  /-- Who did has been told. -/
  told : ∀ p, p ∉ rcs → InUse env k p → (∃ rc ∈ rcs, blockedOn env (k.proc p) = (k.proc rc).p_endpoint) →
    k'.proc p = bereaved env.EDEADSRCDST (k.proc p)
  /-- The others wait as before. -/
  others : ∀ p, p ∉ rcs → (∀ rc ∈ rcs, blockedOn env (k.proc p) ≠ (k.proc rc).p_endpoint) →
    Notified env.ANY env.ASYNCM (k.proc p) (k'.proc p)
  /-- Nothing from the dead is pending. -/
  quiet : ∀ rc ∈ rcs, ∀ p, InUse env k p → Quiet (k'.priv (k.proc p).p_priv) (k.proc rc).p_priv
  keeps : ∀ pv id, id ≠ env.asyncmId → Quiet (k.priv pv) id → Quiet (k'.priv pv) id

theorem blockedOn_idle {pr : Proc} (hsending : pr.sending = false) (hreceiving : pr.receiving = false) :
    blockedOn env pr = env.NONE := by
  simp [blockedOn, hsending, hreceiving]

/-- An idle process is not notified. -/
theorem Notified.eq_of_idle {any asyncm : Int} {a b : Proc} (h : Notified any asyncm a b)
    (hreceiving : a.receiving = false) : b = a := by
  rcases h with rfl | ⟨hrecv, -⟩
  · rfl
  · exact absurd (hreceiving.symm.trans hrecv) (by decide)

/-- Nobody begins to wait for `e`. -/
theorem Cleared.stays (h : Cleared env rc k k') {e : Int} (he : e ≠ env.NONE) (hp : InUse env k p)
    (hblocked : blockedOn env (k.proc p) ≠ e) : blockedOn env (k'.proc p) ≠ e := by
  by_cases hrc : p = rc
  · rw [hrc, blockedOn_idle h.self.1 h.self.2.1]
    exact he.symm
  · by_cases hdead : blockedOn env (k.proc p) = (k.proc rc).p_endpoint
    · rw [h.bereaved p hrc hp hdead]
      exact he.symm
    · exact (h.others p hrc hdead).not_blocked he hblocked

theorem Cleared.unblocked (h : Cleared env rc k k') (he : (k.proc rc).p_endpoint ≠ env.NONE)
    (hp : InUse env k p) : blockedOn env (k'.proc p) ≠ (k.proc rc).p_endpoint := by
  by_cases hdead : blockedOn env (k.proc p) = (k.proc rc).p_endpoint
  · by_cases hrc : p = rc
    · rw [hrc, blockedOn_idle h.self.1 h.self.2.1]
      exact he.symm
    · rw [h.bereaved p hrc hp hdead]
      exact he.symm
  · exact h.stays he hp hdead

variable {rcs : List Nat}

theorem Gone.stays (h : Gone env rcs k k') {e : Int} (he : e ≠ env.NONE) (hp : InUse env k p)
    (hblocked : blockedOn env (k.proc p) ≠ e) : blockedOn env (k'.proc p) ≠ e := by
  by_cases hrcs : p ∈ rcs
  · rw [blockedOn_idle (h.dead p hrcs).1 (h.dead p hrcs).2.1]
    exact he.symm
  · by_cases hdead : ∃ rc ∈ rcs, blockedOn env (k.proc p) = (k.proc rc).p_endpoint
    · rw [h.told p hrcs hp hdead]
      exact he.symm
    · refine (h.others p hrcs ?_).not_blocked he hblocked
      intro rc hrc heq
      exact hdead ⟨rc, hrc, heq⟩

/-- A process that waits for nobody is left alone. -/
theorem Gone.idle_eq (h : Gone env rcs k k') (hproper : ∀ rc ∈ rcs, (k.proc rc).p_endpoint ≠ env.NONE)
    (hp : p ∉ rcs) (hsending : (k.proc p).sending = false) (hreceiving : (k.proc p).receiving = false) :
    k'.proc p = k.proc p := by
  refine (h.others p hp ?_).eq_of_idle hreceiving
  intro rc hrc
  rw [blockedOn_idle hsending hreceiving]
  exact (hproper rc hrc).symm

theorem Cleared.inUse_iff (h : Cleared env rc k k') (p : Nat) : InUse env k' p ↔ InUse env k p := by
  unfold InUse State.live
  rw [(h.same p).slotFree]

theorem Cleared.mortal (h : Cleared env rc k k') {rc' : Nat} (hrc' : Mortal env k rc') :
    Mortal env k' rc' := by
  refine ⟨(h.inUse_iff rc').2 hrc'.inUse, ?_, ?_⟩
  · rw [(h.same rc').endpoint]
    exact hrc'.endpoint
  · rw [(h.same rc').priv]
    exact hrc'.priv

section Cons

variable {k₁ : State} (hproper : ∀ rc' ∈ rc :: rcs, (k.proc rc').p_endpoint ≠ env.NONE ∧
  (k.proc rc').p_endpoint ≠ env.ANY) (hmortal : ∀ rc' ∈ rc :: rcs, Mortal env k rc')
  (hcleared : Cleared env rc k k₁) (hgone : Gone env rcs k₁ k')

include hproper hcleared in
theorem proper_later : ∀ rc' ∈ rcs, (k₁.proc rc').p_endpoint ≠ env.NONE := by
  intro rc' hrc'
  rw [(hcleared.same rc').endpoint]
  exact (hproper rc' (List.mem_cons_of_mem _ hrc')).1

include hproper hmortal hcleared hgone in
/-- Who waits for the first is told at once and then left alone; who waits for a later one still waits
when its turn comes. -/
theorem told_cons {p rc' : Nat} (hp : p ∉ rc :: rcs) (huse : InUse env k p) (hrc' : rc' ∈ rc :: rcs)
    (hblocked : blockedOn env (k.proc p) = (k.proc rc').p_endpoint) :
    k'.proc p = bereaved env.EDEADSRCDST (k.proc p) := by
  rcases not_or.1 (fun h => hp (List.mem_cons.2 h)) with ⟨hpne, hp'⟩
  by_cases hfirst : blockedOn env (k.proc p) = (k.proc rc).p_endpoint
  · have hbereaved := hcleared.bereaved p hpne huse hfirst
    rw [← hbereaved]
    refine hgone.idle_eq (proper_later hproper hcleared) hp' ?_ ?_
    · rw [hbereaved]
      rfl
    · rw [hbereaved]
      rfl
  · have hlater : rc' ∈ rcs := by
      rcases List.mem_cons.1 hrc' with rfl | hmem
      · exact absurd hblocked hfirst
      · exact hmem
    have heq := (hcleared.others p hpne hfirst).eq_of_blocked (hproper rc' hrc').2
      (hmortal rc' hrc').endpoint hblocked
    rw [← heq]
    refine hgone.told p hp' ((hcleared.inUse_iff p).2 huse) ⟨rc', hlater, ?_⟩
    rw [heq, (hcleared.same rc').endpoint]
    exact hblocked

include hproper hmortal hcleared hgone in
theorem Gone.cons : Gone env (rc :: rcs) k k' where
  same := fun p => (hcleared.same p).trans (hgone.same p)
  dead := by
    intro rc' hrc'
    by_cases hlater : rc' ∈ rcs
    · exact hgone.dead rc' hlater
    · rcases List.mem_cons.1 hrc' with rfl | hmem
      · rw [hgone.idle_eq (proper_later hproper hcleared) hlater hcleared.self.1 hcleared.self.2.1]
        exact hcleared.self
      · exact absurd hmem hlater
  unblocked := by
    intro rc' hrc' p hp
    have hp₁ := (hcleared.inUse_iff p).2 hp
    rcases List.mem_cons.1 hrc' with rfl | hmem
    · have hnone := (hproper rc' hrc').1
      exact hgone.stays hnone hp₁ (hcleared.unblocked hnone hp)
    · have hlater := hgone.unblocked rc' hmem p hp₁
      rw [(hcleared.same rc').endpoint] at hlater
      exact hlater
  told := by
    rintro p hp huse ⟨rc', hrc', hblocked⟩
    exact told_cons hproper hmortal hcleared hgone hp huse hrc' hblocked
  others := by
    intro p hp hblocked
    rcases not_or.1 (fun h => hp (List.mem_cons.2 h)) with ⟨hpne, hp'⟩
    have hfirst := hcleared.others p hpne (hblocked rc (List.mem_cons_self ..))
    refine hfirst.trans (hgone.others p hp' ?_)
    intro rc' hrc'
    have hmem := List.mem_cons_of_mem rc hrc'
    rw [(hcleared.same rc').endpoint]
    exact hfirst.not_blocked (hproper rc' hmem).1 (hblocked rc' hmem)
  quiet := by
    intro rc' hrc' p hp
    rcases List.mem_cons.1 hrc' with rfl | hmem
    · exact hgone.keeps _ _ (hmortal rc' hrc').priv (hcleared.quiet p hp)
    · have hlater := hgone.quiet rc' hmem p ((hcleared.inUse_iff p).2 hp)
      rw [(hcleared.same p).priv, (hcleared.same rc').priv] at hlater
      exact hlater
  keeps := fun pv id hid hquiet => hgone.keeps pv id hid (hcleared.keeps pv id hid hquiet)

end Cons

theorem clearEndpoints_gone :
    ∀ (rcs : List Nat) {k : State} {members : Nat → List Nat}, Inv env k members →
      (∀ rc ∈ rcs, Mortal env k rc) →
      ∃ k' members', rcs.foldlM (clearEndpoint env) k = some k' ∧ Inv env k' members' ∧
        (∀ d, (members' d).Sublist (members d)) ∧ Gone env rcs k k'
  | [], k, members, h, _ =>
      ⟨k, members, rfl, h, fun d => List.Sublist.refl _, fun _ => Same.rfl' _, by simp, by simp,
        by simp, fun _ _ _ => Or.inl rfl, by simp, fun _ _ _ hquiet => hquiet⟩
  | rc :: rcs, k, members, h, hmortal => by
      have hrc := hmortal rc (List.mem_cons_self ..)
      rcases clearEndpoint_ok h hrc.inUse hrc.endpoint with ⟨k₁, members₁, hstep, h₁, hsub₁, hcleared⟩
      rcases clearEndpoints_gone rcs h₁
        (fun rc' hrc' => hcleared.mortal (hmortal rc' (List.mem_cons_of_mem _ hrc'))) with
        ⟨k', members', hrun, h', hsub', hgone⟩
      have hproper := fun rc' hrc' => h.proper rc' (hmortal rc' hrc').inUse
      refine ⟨k', members', ?_, h', fun d => (hsub' d).trans (hsub₁ d),
        Gone.cons hproper hmortal hcleared hgone⟩
      rw [List.foldlM_cons, hstep]
      exact hrun

/-- **Nobody waits for a dead endpoint.**  From a table whose caller queues hold exactly the senders,
`clear_endpoint` on any processes in any order does not panic and ends, and keeps the queues so.  Then
the queues of the dead are empty, nobody is blocked on them, everybody who was has been told, everybody
else waits as before and in the same order, and nothing from the dead is pending anywhere. -/
theorem clear_endpoint_run (env : Env) (k : State) (members : Nat → List Nat) (rcs : List Nat)
    (h : Inv env k members) (hmortal : ∀ rc ∈ rcs, Mortal env k rc) :
    ∃ k' members', rcs.foldlM (clearEndpoint env) k = some k' ∧ Inv env k' members' ∧
      (∀ d, (members' d).Sublist (members d)) ∧ (∀ rc ∈ rcs, k'.queues.head rc = none) ∧
      Gone env rcs k k' := by
  rcases clearEndpoints_gone rcs h hmortal with ⟨k', members', hrun, h', hsub, hgone⟩
  refine ⟨k', members', hrun, h', hsub, ?_, hgone⟩
  intro rc hrc
  have hempty : members' rc = [] := by
    refine List.eq_nil_iff_forall_not_mem.2 ?_
    intro p hp
    rcases (h'.member rc p).1 hp with ⟨-, huse, hsending, hto⟩
    have huse' : InUse env k p := by
      rw [InUse, State.live, ← (hgone.same p).slotFree]
      exact huse
    refine hgone.unblocked rc hrc p huse' ?_
    rw [blockedOn, if_pos hsending, hto, (hgone.same rc).endpoint]
  have hpath := h'.queues.path rc
  rw [hempty] at hpath
  exact hpath

/-! ## A small table -/

/-- `cancel_async` on a table where nobody waits for `ASYNCM`. -/
def smallCancel (src dst : Nat) (k : State) : State :=
  let pv := k.priv (k.proc dst).p_priv
  k.setPriv (k.proc dst).p_priv { pv with s_asyn_pending := Function.update pv.s_asyn_pending src false }

def smallEnv : Env where
  slots := 4
  NR_SYS_PROCS := 8
  NR_STATIC_PRIV_IDS := 4
  slotOf := fun e => (e - 100).toNat
  NONE := -1
  ANY := -2
  ASYNCM := -3
  asyncmId := 7
  EDEADSRCDST := -215
  cancelAsync := smallCancel
  cancel_proc := fun _ _ _ _ => Or.inl rfl
  cancel_queues := fun _ _ _ => rfl
  cancel_asyn := by
    intro src dst k id i
    unfold smallCancel State.setPriv
    dsimp only
    by_cases hid : id = (k.proc dst).p_priv
    · rw [hid, Function.update_self]
      by_cases hi : i = src
      · simp [hi]
      · simp [hi]
    · simp [hid]
  cancel_notify := by
    intro src dst k id i _
    unfold smallCancel State.setPriv
    dsimp only
    by_cases hid : id = (k.proc dst).p_priv
    · rw [hid, Function.update_self]
    · rw [Function.update_of_ne hid]

/-- Processes 0 and 2 are sending to process 1, and process 3 is waiting for a message from it. -/
def smallState : State where
  proc := fun p =>
    { slotFree := false
      sending := p == 0 || p == 2
      receiving := p == 3
      noEndpoint := false
      p_endpoint := 100 + p
      p_sendto_e := 101
      p_getfrom_e := 101
      retreg := 0
      p_priv := p }
  priv := fun id =>
    { s_proc_nr := if id < 6 then some id else none
      s_trap_mask := 0x3f
      s_ipc_to := fun _ => false
      sysProc := true
      s_asynsize := 0
      s_notify_pending := fun i => i == 1
      s_asyn_pending := fun i => i == 3 }
  queues :=
    { head := fun q => if q = 1 then some 0 else none
      link := fun a => if a = 0 then some 2 else none }

theorem smallState_inv : Inv smallEnv smallState (fun d => if d = 1 then [0, 2] else []) := by
  refine ⟨⟨?_, ?_, ?_⟩, ?_, ?_, ?_, ?_⟩
  · intro q
    by_cases hq : q = 1
    · simp [hq, smallState, Threaded]
    · simp [hq, smallState, Threaded]
  · intro q
    by_cases hq : q = 1
    · simp [hq]
    · simp [hq]
  · intro q q' a hq hq'
    by_cases h1 : q = 1
    · by_cases h2 : q' = 1
      · rw [h1, h2]
      · simp [h2] at hq'
    · simp [h1] at hq
  · intro d p
    by_cases hd : d = 1
    · subst hd
      simp only [InUse, smallEnv, State.live, smallState]
      simp
      omega
    · simp only [InUse, smallEnv, State.live, smallState, if_neg hd]
      simp
      omega
  · intro p _ _
    exact ⟨1, ⟨by decide, rfl⟩, rfl⟩
  · intro p _
    simp only [smallEnv, smallState]
    omega
  · intro p _
    simp only [smallEnv, smallState]
    omega

theorem clear_endpoint_run_small :
    ∃ k' members', [1].foldlM (clearEndpoint smallEnv) smallState = some k' ∧
      Inv smallEnv k' members' ∧
      (∀ d, (members' d).Sublist (if d = 1 then [0, 2] else [])) ∧
      (∀ rc ∈ [1], k'.queues.head rc = none) ∧ Gone smallEnv [1] smallState k' := by
  refine clear_endpoint_run smallEnv smallState _ [1] smallState_inv ?_
  intro rc hrc
  rw [List.mem_singleton.1 hrc]
  exact ⟨⟨by decide, rfl⟩, by decide, by decide⟩

end Kernel
end OsLab
