import OsLab.Pm.Invariant

/-!
# Reports — telling tracers and parents about an exit

`tell_parent`, `tell_tracer`, `check_parent`, `zombify` and `cleanup` find the table in order: none of
their panics is reached, and they keep the invariant.  `Later` says what else may have happened to the
table, whatever is called.
-/

namespace OsLab
namespace Pm

variable {n : Nat} {env : Env n} {D X : Set (Fin n)} {s s' s'' : Table n} {c : Fin n}

/-! ## What may happen during a call -/

/-- No slot is filled, parents only change to INIT, tracers only to processes that were alive, and an
exiting process that VFS still has stays where it is. -/
structure Later (env : Env n) (s s' : Table n) : Prop where
  in_use : ∀ d, (s'.flags d).IN_USE = true → (s.flags d).IN_USE = true
  exiting : ∀ d, (s'.flags d).IN_USE = true → (s.flags d).EXITING = true →
    (s'.flags d).EXITING = true
  parent : ∀ d, (s'.flags d).IN_USE = true →
    (s'.mproc d).mp_parent = (s.mproc d).mp_parent ∨ (s'.mproc d).mp_parent = env.INIT_PROC_NR
  tracer : ∀ d t, (s'.flags d).IN_USE = true → (s'.mproc d).mp_tracer = some t →
    (s.mproc d).mp_tracer = some t ∨ (s.mproc t).alive = true
  kept : ∀ d, (s.flags d).IN_USE = true → (s.flags d).EXITING = true → s.vfs d ≠ none →
    (s'.flags d).IN_USE = true ∧ s'.vfs d = s.vfs d

theorem Later.refl (env : Env n) (s : Table n) : Later env s s :=
  ⟨fun _ h => h, fun _ _ h => h, fun _ _ => Or.inl rfl, fun _ _ _ h => Or.inl h,
    fun _ h _ _ => ⟨h, rfl⟩⟩

theorem Later.alive (h : Later env s s') {d : Fin n} (hd : (s'.mproc d).alive = true) :
    (s.mproc d).alive = true := by
  rcases alive_iff.1 hd with ⟨hu, hex⟩
  refine alive_iff.2 ⟨h.in_use d hu, ?_⟩
  cases hex' : (s.mproc d).mp_flags.EXITING with
  | false => rfl
  | true =>
      have hbad : (s'.flags d).EXITING = true := h.exiting d hu hex'
      simp [Table.flags, hex] at hbad

theorem Later.trans (h : Later env s s') (h' : Later env s' s'') : Later env s s'' where
  in_use := fun d hd => h.in_use d (h'.in_use d hd)
  exiting := fun d hd hex => h'.exiting d hd (h.exiting d (h'.in_use d hd) hex)
  parent := by
    intro d hd
    rcases h'.parent d hd with heq | heq
    · rw [heq]
      exact h.parent d (h'.in_use d hd)
    · exact Or.inr heq
  tracer := by
    intro d t hd ht
    rcases h'.tracer d t hd ht with hold | ha
    · exact h.tracer d t (h'.in_use d hd) hold
    · exact Or.inr (h.alive ha)
  kept := by
    intro d hu hex hv
    rcases h.kept d hu hex hv with ⟨hu', hv'⟩
    rcases h'.kept d hu' (h.exiting d hu' hex) (hv' ▸ hv) with ⟨hu'', hv''⟩
    exact ⟨hu'', hv''.trans hv'⟩

theorem Tweak.later (h : Tweak s s') : Later env s s' where
  in_use := fun d hd => (h.slot d).in_use.symm.trans hd
  exiting := fun d _ hex => (h.slot d).exiting.trans hex
  parent := fun d _ => Or.inl (h.slot d).parent
  tracer := fun d _ _ ht => Or.inl ((h.slot d).tracer.symm.trans ht)
  kept := fun d hu _ _ => ⟨(h.slot d).in_use.trans hu, by rw [h.vfs]⟩

theorem Foreign.later (h : Foreign s s') : Later env s s' where
  in_use := fun d hd => (h.in_use d).symm.trans hd
  exiting := fun d _ hex => (h.exiting d).trans hex
  parent := fun d _ => Or.inl (h.parent d)
  tracer := by
    intro d t _ ht
    rcases h.tracer ht with hold | ⟨-, ha⟩
    · exact Or.inl hold
    · exact Or.inr ha
  kept := fun d hu hex _ => ⟨(h.in_use d).trans hu, (h.kept d (not_alive_of_exiting hex)).2⟩

theorem Change.later (h : Change s s' c)
    (hex : (s.flags c).EXITING = true → (s'.flags c).EXITING = true)
    (hparent : (s'.mproc c).mp_parent = (s.mproc c).mp_parent ∨
      (s'.mproc c).mp_parent = env.INIT_PROC_NR)
    (htracer : ∀ t, (s'.mproc c).mp_tracer = some t → (s.mproc c).mp_tracer = some t)
    (hvfs : (s.flags c).EXITING = true → s.vfs c ≠ none → s'.vfs c = s.vfs c) :
    Later env s s' where
  in_use := fun d hd => (h.in_use d).symm.trans hd
  exiting := by
    intro d _ hd
    by_cases hdc : d = c
    · subst hdc
      exact hex hd
    · rw [Table.flags, h.mproc d hdc]
      exact hd
  parent := by
    intro d _
    by_cases hdc : d = c
    · subst hdc
      exact hparent
    · rw [h.mproc d hdc]
      exact Or.inl rfl
  tracer := by
    intro d t _ ht
    by_cases hdc : d = c
    · subst hdc
      exact Or.inl (htracer t ht)
    · rw [h.mproc d hdc] at ht
      exact Or.inl ht
  kept := by
    intro d hu hd hv
    refine ⟨(h.in_use d).trans hu, ?_⟩
    by_cases hdc : d = c
    · subst hdc
      exact hvfs hd hv
    · exact h.vfs d hdc

theorem change_modify {f : Mproc n → Mproc n} (hu : (s.flags c).IN_USE = true)
    (hu' : (f (s.mproc c)).mp_flags.IN_USE = (s.flags c).IN_USE)
    (he : (f (s.mproc c)).mp_endpoint = (s.mproc c).mp_endpoint)
    (hw : (f (s.mproc c)).mp_flags.WAITING = true → (s.flags c).WAITING = true)
    (hwp : (f (s.mproc c)).mp_wpid = (s.mproc c).mp_wpid) : Change s (s.modify c f) c where
  procs := rfl
  mproc := fun _ hd => modify_of_ne s f hd
  vfs := fun _ _ => rfl
  before := hu
  after := by
    rw [Table.flags, modify_self, hu', hu]
  endpoint := by
    rw [modify_self, he]
  waiting := by
    rw [Table.flags, modify_self]
    exact hw
  wpid := by
    rw [modify_self, hwp]

/-! ## The sets of the invariant -/

theorem Inv.mono {X' : Set (Fin n)} (hs : Inv env D X s) (h : X ⊆ X') : Inv env D X' s :=
  { hs with settled := fun d hd hx => hs.settled d hd fun hin => hx (h hin) }

/-- A slot that is settled needs no exception. -/
theorem Inv.settle (hs : Inv env D (insert c X) s)
    (h : (s.flags c).IN_USE = true → Settled s c) : Inv env D X s := by
  refine { hs with settled := ?_ }
  intro d hd hx
  by_cases hdc : d = c
  · subst hdc
    exact h hd
  · refine hs.settled d hd ?_
    rintro (heq | hin)
    · exact hdc heq
    · exact hx hin

theorem Inv.ne_init_of_exiting (hs : Inv env D X s) (h : (s.flags c).EXITING = true) :
    c ≠ env.INIT_PROC_NR := by
  rintro rfl
  have hex := (alive_iff.1 hs.init.1).2
  rw [Table.flags, hex] at h
  simp at h

/-! ## Releasing a slot -/

section Cleanup

@[simp]
theorem cleanup_vfs : (cleanup s c).vfs = s.vfs :=
  rfl

theorem cleanup_of_ne {d : Fin n} (h : d ≠ c) : (cleanup s c).mproc d = s.mproc d := by
  simp [cleanup, modify_of_ne s _ h]

theorem cleanup_in_use : ((cleanup s c).flags c).IN_USE = false := by
  simp [cleanup, Table.flags]

theorem cleanup_ne (h : ((cleanup s c).flags d).IN_USE = true) : d ≠ c := by
  rintro rfl
  simp [cleanup_in_use] at h

theorem cleanup_used : (cleanup s c).used = s.used.erase c := by
  ext d
  by_cases hd : d = c
  · subst hd
    simp [Table.used, cleanup_in_use]
  · simp [Table.used, Table.flags, cleanup_of_ne hd, hd]

/-- The slot `c` is not in use afterwards and nobody points to it. -/
theorem Inv.without (hs : Inv env D X s) (hmproc : ∀ d, d ≠ c → s'.mproc d = s.mproc d)
    (hvfs : ∀ d, d ≠ c → s'.vfs d = s.vfs d) (hcount : s'.procs_in_use = (s'.used.card : Int))
    (hfree : (s'.flags c).IN_USE = false) (hnone : s'.vfs c = none)
    (hzombie : (s'.flags c).ZOMBIE = false) (hpoint : ∀ p, Present D s p → p ≠ c) (hnot : c ∉ D)
    (hinit : c ≠ env.INIT_PROC_NR) : Inv env D X s' := by
  have hne : ∀ d, (s'.flags d).IN_USE = true → d ≠ c := by
    rintro d hd rfl
    simp [hfree] at hd
  have hold : ∀ d, (s'.flags d).IN_USE = true → (s.flags d).IN_USE = true := by
    intro d hd
    rw [Table.flags, hmproc d (hne d hd)] at hd
    exact hd
  have hpresent : ∀ p, Present D s p → Present D s' p := by
    intro p hp
    refine ⟨hp.pos, ?_, ?_⟩
    · rw [Table.flags, hmproc p (hpoint p hp)]
      exact hp.in_use
    · rw [Table.flags, hmproc p (hpoint p hp)]
      exact hp.exiting
  refine ⟨hcount, ?_, ?_, ?_, ?_, ?_, ?_, ?_, ?_, ?_⟩
  · intro d hd
    by_cases hdc : d = c
    · subst hdc
      exact ⟨hnone, hzombie⟩
    · rw [Table.flags, hmproc d hdc] at hd ⊢
      rw [hvfs d hdc]
      exact hs.free d hd
  · rw [hmproc _ hinit.symm]
    exact hs.init
  · intro d hd he
    rw [hmproc d (hne d hd)] at he
    exact hs.endpoint d (hold d hd) he
  · intro d hd
    rw [hmproc d (hne d hd)]
    exact hpresent _ (hs.parent d (hold d hd))
  · intro d t hd ht
    rw [hmproc d (hne d hd)] at ht
    exact hpresent t (hs.tracer d t (hold d hd) ht)
  · intro d hd
    rw [hmproc d (hne d hd), hvfs d (hne d hd)]
    exact hs.slot d (hold d hd)
  · intro d hd
    have hdc : d ≠ c := by
      rintro rfl
      exact hnot hd
    rw [Table.flags, hmproc d hdc, hvfs d hdc]
    exact hs.dying d hd
  · intro d e pid hfork
    have hdc : d ≠ c := by
      rintro rfl
      simp [hnone] at hfork
    rw [hvfs d hdc] at hfork
    have hd : (s.flags d).IN_USE = true := by
      cases hd : (s.flags d).IN_USE with
      | true => rfl
      | false => simp [(hs.free d hd).1] at hfork
    rw [Table.flags, hmproc d hdc, hmproc _ (hpoint _ (hs.parent d hd))]
    exact hs.forking d e pid hfork
  · intro d hd hx
    have hdc := hne d hd
    have hset := hs.settled d (hold d hd) hx
    constructor
    · rw [Table.flags, hmproc d hdc, hvfs d hdc]
      exact hset.marked
    · rw [Table.flags, hmproc d hdc, hvfs d hdc]
      exact hset.told
    · rw [Table.flags, hmproc d hdc]
      exact hset.traced
    · rw [Table.flags, hmproc d hdc, hmproc _ (hpoint _ (hs.parent d (hold d hd)))]
      exact hset.parent
    · rw [Table.flags, hmproc d hdc]
      intro hz t ht
      rw [hmproc t (hpoint t (hs.tracer d t (hold d hd) ht))]
      exact hset.tracer hz t ht

/-- A process that nobody points to any more leaves the table. -/
theorem Inv.cleanup (hs : Inv env D X s) (hu : (s.flags c).IN_USE = true)
    (hex : (s.flags c).EXITING = true) (hv : s.vfs c = none) :
    Inv env D X (cleanup s c) ∧ Later env s (cleanup s c) := by
  have hnot : c ∉ D := fun hin => (hs.dying c hin).2.2 hv
  constructor
  · refine hs.without (fun d hd => cleanup_of_ne hd) (fun _ _ => rfl) ?_ cleanup_in_use hv ?_ ?_ hnot
      (hs.ne_init_of_exiting hex)
    · have hmem : c ∈ s.used := by
        simp [Table.used, hu]
      have hcard := Finset.card_erase_add_one hmem
      have hprocs : (Pm.cleanup s c).procs_in_use = s.procs_in_use - 1 := rfl
      rw [cleanup_used, hprocs, hs.count]
      omega
    · simp [Pm.cleanup, Table.flags]
    · rintro p hp rfl
      exact hnot (hp.exiting hex)
  · constructor
    · intro d hd
      rw [Table.flags, cleanup_of_ne (cleanup_ne hd)] at hd
      exact hd
    · intro d hd
      rw [Table.flags, Table.flags, cleanup_of_ne (cleanup_ne hd)]
      exact id
    · intro d hd
      rw [cleanup_of_ne (cleanup_ne hd)]
      exact Or.inl rfl
    · intro d t hd ht
      rw [cleanup_of_ne (cleanup_ne hd)] at ht
      exact Or.inl ht
    · intro d hd _ hvd
      have hdc : d ≠ c := by
        rintro rfl
        exact hvd hv
      rw [Table.flags, cleanup_of_ne hdc]
      exact ⟨hd, rfl⟩

end Cleanup

/-! ## The bits of an exiting process -/

/-- The bits that tell how far the report of an exit has come. -/
def exitBits (zombie traceZombie told : Bool) (f : Flags) : Flags :=
  { f with ZOMBIE := zombie, TRACE_ZOMBIE := traceZombie, TOLD_PARENT := told }

theorem setFlags_congr {f g : Flags → Flags} (h : f (s.flags c) = g (s.flags c)) :
    s.setFlags c f = s.setFlags c g := by
  have heq : f (s.mproc c).mp_flags = g (s.mproc c).mp_flags := h
  simp [Table.setFlags, Table.modify, heq]

@[simp]
theorem setFlags_vfs (f : Flags → Flags) : (s.setFlags c f).vfs = s.vfs :=
  rfl

theorem setFlags_self (f : Flags → Flags) : (s.setFlags c f).flags c = f (s.flags c) := by
  simp [Table.setFlags, Table.flags]

/-- At most one of the bits is set. -/
theorem Inv.setExitBits (hs : Inv env D X s) (z tz d : Bool) (hX : c ∈ X)
    (hu : (s.flags c).IN_USE = true) (hex : (s.flags c).EXITING = true)
    (hdump : s.vfs c ≠ some .dumpcore) (hz : z = true → tz = false ∧ d = false)
    (htz : tz = true → d = false) :
    Inv env D X (s.setFlags c (exitBits z tz d)) ∧
      Later env s (s.setFlags c (exitBits z tz d)) := by
  have hok := hs.slot c hu
  have hchange : Change s (s.setFlags c (exitBits z tz d)) c :=
    change_modify hu rfl rfl (fun h => h) rfl
  have hex' : ((s.setFlags c (exitBits z tz d)).flags c).EXITING = true := by
    rw [setFlags_self]
    exact hex
  constructor
  · refine hs.change hchange (fun _ _ => Iff.rfl) (fun _ _ hin => hin) ?_ ?_ ?_ ?_ ?_ ?_ ?_ ?_
    · intro hinit
      exact absurd hinit (hs.ne_init_of_exiting hex)
    · intro _
      exact Or.inl ⟨hex, id⟩
    · simp [Table.setFlags]
    · simp [Table.setFlags]
    · simp only [Table.setFlags, modify_self, modify_vfs]
      exact { hok with
        zombie := fun h => ⟨hex, hz h⟩
        trace_zombie := fun h => ⟨hex, htz h⟩
        told := fun _ => hex
        dumpcore := fun h => absurd h hdump }
    · intro hin
      exact ⟨hex', (hs.dying c hin).2.2⟩
    · intro e pid hfork
      have hcall := hok.exiting hex
      rw [setFlags_vfs] at hfork
      simp [hfork] at hcall
    · intro hx
      exact absurd hX hx
  · refine hchange.later ?_ ?_ ?_ ?_
    · intro _
      exact hex'
    · simp [Table.setFlags]
    · simp [Table.setFlags]
    · intro _ _
      rfl

/-! ## tell_parent and tell_tracer -/

/-- The exit of `c` has been reported to its parent. -/
structure Told (s : Table n) (c : Fin n) : Prop where
  in_use : (s.flags c).IN_USE = true
  exiting : (s.flags c).EXITING = true
  told : (s.flags c).TOLD_PARENT = true
  zombie : (s.flags c).ZOMBIE = false
  trace_zombie : (s.flags c).TRACE_ZOMBIE = false

theorem Told.settled (h : Told s c) (hv : s.vfs c ≠ none) : Settled s c := by
  constructor
  · intro _
    exact Or.inr (Or.inr (Or.inl h.told))
  · intro _
    exact hv
  · simp [h.trace_zombie]
  · simp [h.zombie]
  · simp [h.trace_zombie]

theorem tweak_wake (s : Table n) (p : Fin n) (e : Event n) :
    Tweak s ((s.record e).setFlags p fun f => { f with WAITING := false }) := by
  refine (Tweak.record s e).trans (Tweak.modify _ p ?_)
  constructor <;> simp

theorem Tweak.exit_bits (h : Tweak s s') (c : Fin n) :
    (s'.flags c).ZOMBIE = (s.flags c).ZOMBIE ∧ (s'.flags c).TRACE_ZOMBIE = (s.flags c).TRACE_ZOMBIE ∧
      (s'.flags c).TOLD_PARENT = (s.flags c).TOLD_PARENT := by
  have hf : s'.flags c = _ := (h.slot c).flags
  rw [hf]
  exact ⟨rfl, rfl, rfl⟩

theorem tellParent_ok (hs : Inv env D X s) (hX : c ∈ X) (hu : (s.flags c).IN_USE = true)
    (hz : (s.flags c).ZOMBIE = true) :
    ∃ s', tellParent s c = some s' ∧ Inv env D X s' ∧ Later env s s' ∧ Told s' c ∧
      s'.vfs = s.vfs := by
  have hok := hs.slot c hu
  rcases hok.zombie hz with ⟨hex, htz, htold⟩
  have hpos := (hs.parent c hu).pos
  have hz' : (s.mproc c).mp_flags.ZOMBIE = true := hz
  have htold' : (s.mproc c).mp_flags.TOLD_PARENT = false := htold
  have hdump : s.vfs c ≠ some .dumpcore := by
    intro hdump
    have hno := (hok.dumpcore hdump).1
    simp [hz'] at hno
  -- The parent is woken up, then the bits of the child change.
  have htweak := tweak_wake s (s.mproc c).mp_parent
    (.tells (s.mproc c).mp_parent c (s.mproc c).mp_pid
      ⟨(s.mproc c).mp_exitstatus, (s.mproc c).mp_sigstatus⟩)
  refine ⟨_, by simp only [tellParent, hpos, hz', htold', if_false, Bool.not_true,
    Bool.false_eq_true]; rfl, ?_⟩
  generalize ((s.record _).setFlags (s.mproc c).mp_parent fun f => { f with WAITING := false }) = s₁
    at htweak ⊢
  have hu₁ : (s₁.flags c).IN_USE = true := (htweak.slot c).in_use.trans hu
  have hex₁ : (s₁.flags c).EXITING = true := (htweak.slot c).exiting.trans hex
  have htz₁ : (s₁.flags c).TRACE_ZOMBIE = false := (htweak.exit_bits c).2.1.trans htz
  have hbits : s₁.setFlags c (fun f => { f with ZOMBIE := false, TOLD_PARENT := true }) =
      s₁.setFlags c (exitBits false false true) := by
    refine setFlags_congr ?_
    simp [exitBits, htz₁]
  rw [hbits]
  rcases (hs.tweak htweak).setExitBits false false true hX hu₁ hex₁ (htweak.vfs ▸ hdump)
    (by simp) (by simp) with ⟨hinv, hlater⟩
  refine ⟨hinv, htweak.later.trans hlater, ?_, htweak.vfs⟩
  constructor <;> rw [setFlags_self] <;> first | rfl | assumption

theorem tellTracer_ok {t : Fin n} (hs : Inv env D X s) (hX : c ∈ X)
    (hu : (s.flags c).IN_USE = true) (htz : (s.flags c).TRACE_ZOMBIE = true)
    (ht : (s.mproc c).mp_tracer = some t) :
    ∃ s', tellTracer s c = some s' ∧ Inv env D X s' ∧ Later env s s' ∧
      (s'.flags c).IN_USE = true ∧ (s'.flags c).ZOMBIE = true ∧ s'.vfs = s.vfs := by
  have hok := hs.slot c hu
  rcases hok.trace_zombie htz with ⟨hex, htold⟩
  have hpos := (hs.tracer c t hu ht).pos
  have htz' : (s.mproc c).mp_flags.TRACE_ZOMBIE = true := htz
  have hdump : s.vfs c ≠ some .dumpcore := by
    intro hdump
    have hno := (hok.dumpcore hdump).2.1
    simp [htz'] at hno
  have htweak := tweak_wake s t
    (.traces t c (s.mproc c).mp_pid ⟨(s.mproc c).mp_exitstatus, (s.mproc c).mp_sigstatus &&& 0o377⟩)
  refine ⟨_, by simp only [tellTracer, ht, hpos, htz', if_false, Bool.not_true,
    Bool.false_eq_true]; rfl, ?_⟩
  generalize ((s.record _).setFlags t fun f => { f with WAITING := false }) = s₁ at htweak ⊢
  have hu₁ : (s₁.flags c).IN_USE = true := (htweak.slot c).in_use.trans hu
  have hex₁ : (s₁.flags c).EXITING = true := (htweak.slot c).exiting.trans hex
  have htold₁ : (s₁.flags c).TOLD_PARENT = false := (htweak.exit_bits c).2.2.trans htold
  have hbits : s₁.setFlags c (fun f => { f with TRACE_ZOMBIE := false, ZOMBIE := true }) =
      s₁.setFlags c (exitBits true false false) := by
    refine setFlags_congr ?_
    simp [exitBits, htold₁]
  rw [hbits]
  rcases (hs.tweak htweak).setExitBits true false false hX hu₁ hex₁ (htweak.vfs ▸ hdump)
    (by simp) (by simp) with ⟨hinv, hlater⟩
  refine ⟨hinv, htweak.later.trans hlater, ?_, ?_, htweak.vfs⟩
  · rw [setFlags_self]
    exact hu₁
  · rw [setFlags_self]
    rfl

/-! ## check_parent -/

/-- A zombie whose parent is not waiting for it is settled. -/
theorem Inv.settled_zombie (hs : Inv env D X s) (hu : (s.flags c).IN_USE = true)
    (hz : (s.flags c).ZOMBIE = true)
    (hw : waitTest (s.mproc (s.mproc c).mp_parent) (s.mproc c) = false) : Settled s c := by
  rcases (hs.slot c hu).zombie hz with ⟨-, htz, htold⟩
  have htz' : (s.flags c).TRACE_ZOMBIE = false := htz
  have htold' : (s.flags c).TOLD_PARENT = false := htold
  constructor
  · intro _
    exact Or.inl hz
  · simp [htold']
  · simp [htz']
  · intro _
    exact hw
  · simp [htz']

/-- `check_parent` on a zombie.  Afterwards the zombie is settled, if its slot has been released when
that was due. -/
theorem checkParent_ok (hs : Inv env D X s) (hX : c ∈ X) (hu : (s.flags c).IN_USE = true)
    (hz : (s.flags c).ZOMBIE = true) (tryCleanup : Bool) :
    ∃ s', checkParent env s c tryCleanup = some s' ∧ Inv env D X s' ∧ Later env s s' ∧
      ((s'.flags c).IN_USE = true →
        ((s'.flags c).TOLD_PARENT = true → s'.vfs c ≠ none) → Settled s' c) ∧
      (tryCleanup = true → (s'.flags c).IN_USE = true → (s'.flags c).TOLD_PARENT = true →
        s'.vfs c ≠ none) ∧
      (tryCleanup = false → (s'.flags c).IN_USE = true ∧ s'.vfs c = s.vfs c) := by
  have hparent := hs.parent c hu
  have hztold : (s.flags c).TOLD_PARENT = false := ((hs.slot c hu).zombie hz).2.2
  unfold checkParent
  cases hpex : (s.mproc (s.mproc c).mp_parent).mp_flags.EXITING with
  | true =>
      refine ⟨s, by simp [hpex], hs, Later.refl env s, ?_, ?_, fun _ => ⟨hu, rfl⟩⟩
      · intro _ _
        refine hs.settled_zombie hu hz (waitTest_of_not_waiting ?_)
        exact (hs.slot _ hparent.in_use).waiting hpex
      · simp [hztold]
  | false =>
      cases hw : waitTest (s.mproc (s.mproc c).mp_parent) (s.mproc c) with
      | true =>
          rcases tellParent_ok hs hX hu hz with ⟨s₁, htell, hs₁, hlater, htold, hvfs⟩
          have hcall : (s₁.mproc c).mp_flags.VFS_CALL = (s₁.vfs c).isSome :=
            (hs₁.slot c htold.in_use).vfs_call
          simp only [hpex, hw, htell, Bool.false_eq_true, if_false, if_true, Option.map_some,
            Option.some.injEq, exists_eq_left']
          cases hv : s₁.vfs c with
          | none =>
              rw [hv] at hcall
              cases tryCleanup with
              | true =>
                  rcases hs₁.cleanup htold.in_use htold.exiting hv with ⟨hinv, hlater'⟩
                  simp only [hcall, Option.isSome_none, Bool.not_false, Bool.and_true, if_true]
                  refine ⟨hinv, hlater.trans hlater', ?_, ?_, by simp⟩
                  · intro huse
                    exact absurd rfl (cleanup_ne huse)
                  · intro _ huse
                    exact absurd rfl (cleanup_ne huse)
              | false =>
                  simp only [Bool.false_and, Bool.false_eq_true, if_false]
                  refine ⟨hs₁, hlater, ?_, by simp, fun _ => ⟨htold.in_use, by rw [hvfs]⟩⟩
                  intro _ hdone
                  exact htold.settled (hdone htold.told)
          | some call =>
              have hne : s₁.vfs c ≠ none := by simp [hv]
              rw [hv] at hcall
              simp only [hcall, Option.isSome_some, Bool.not_true, Bool.and_false,
                Bool.false_eq_true, if_false]
              refine ⟨hs₁, hlater, ?_, ?_, fun _ => ⟨htold.in_use, by rw [hvfs]⟩⟩
              · intro _ _
                exact htold.settled hne
              · intro _ _ _
                exact hne
      | false =>
          have halive : (s.mproc (s.mproc c).mp_parent).alive = true :=
            alive_iff.2 ⟨hparent.in_use, hpex⟩
          have hfor := env.notice_foreign s _ .SIGCHLD halive
          have hk := hfor.kept c (not_alive_of_exiting ((hs.slot c hu).zombie hz).1)
          refine ⟨_, by simp only [notify, hpex, hw, halive, Bool.false_eq_true, if_false, if_true],
            hs.foreign hfor, hfor.later, ?_, ?_, fun _ => ⟨(hfor.in_use c).trans hu, hk.2⟩⟩
          · intro huse _
            refine (hs.foreign hfor).settled_zombie huse (by rw [Table.flags, hk.1]; exact hz) ?_
            rw [hk.1]
            exact waitTest_mono (hfor.waiting _) (hfor.wpid _) rfl rfl hw
          · intro _ _ htold
            rw [Table.flags, hk.1] at htold
            rw [Table.flags, htold] at hztold
            simp at hztold

/-- Where the slot is released or VFS still has the process, `check_parent` settles the report. -/
theorem checkParent_settles (hs : Inv env D (insert c X) s) (hu : (s.flags c).IN_USE = true)
    (hz : (s.flags c).ZOMBIE = true) {tryCleanup : Bool}
    (h : tryCleanup = true ∨ s.vfs c ≠ none) :
    ∃ s', checkParent env s c tryCleanup = some s' ∧ Inv env D X s' ∧ Later env s s' := by
  have hex : (s.flags c).EXITING = true := ((hs.slot c hu).zombie hz).1
  rcases checkParent_ok hs (Set.mem_insert c X) hu hz tryCleanup with
    ⟨s', hcheck, hs', hlater, hsettle, htry, -⟩
  refine ⟨s', hcheck, hs'.settle ?_, hlater⟩
  intro hu'
  refine hsettle hu' ?_
  intro htold
  rcases h with h | h
  · exact htry h hu' htold
  · rw [(hlater.kept c hu hex h).2]
    exact h

/-! ## zombify -/

/-- The first report of an exit.  The slot is not released here. -/
theorem zombify_ok (hs : Inv env D X s) (hX : c ∈ X) (hu : (s.flags c).IN_USE = true)
    (hex : (s.flags c).EXITING = true) (hdump : s.vfs c ≠ some .dumpcore)
    (hz : (s.flags c).ZOMBIE = false) (htz : (s.flags c).TRACE_ZOMBIE = false)
    (htold : (s.flags c).TOLD_PARENT = false) :
    ∃ s', zombify env s c = some s' ∧ Inv env D X s' ∧ Later env s s' ∧
      (s'.flags c).IN_USE = true ∧ s'.vfs c = s.vfs c ∧
      (((s'.flags c).TOLD_PARENT = true → s'.vfs c ≠ none) → Settled s' c) := by
  have hz' : (s.mproc c).mp_flags.ZOMBIE = false := hz
  have htz' : (s.mproc c).mp_flags.TRACE_ZOMBIE = false := htz
  have hzombie : s.setFlags c (fun f => { f with ZOMBIE := true }) =
      s.setFlags c (exitBits true false false) := by
    refine setFlags_congr ?_
    simp [exitBits, htz, htold]
  have htraced : s.setFlags c (fun f => { f with TRACE_ZOMBIE := true }) =
      s.setFlags c (exitBits false true false) := by
    refine setFlags_congr ?_
    simp [exitBits, hz, htold]
  -- No tracer has to be told: the process is a zombie for its parent.
  have hplain : ∃ s', checkParent env (s.setFlags c fun f => { f with ZOMBIE := true }) c false =
        some s' ∧ Inv env D X s' ∧ Later env s s' ∧ (s'.flags c).IN_USE = true ∧ s'.vfs c = s.vfs c ∧
        (((s'.flags c).TOLD_PARENT = true → s'.vfs c ≠ none) → Settled s' c) := by
    rw [hzombie]
    rcases hs.setExitBits true false false hX hu hex hdump (by simp) (by simp) with ⟨hs₁, hlater₁⟩
    have hu₁ : ((s.setFlags c (exitBits true false false)).flags c).IN_USE = true := by
      rw [setFlags_self]
      exact hu
    have hz₁ : ((s.setFlags c (exitBits true false false)).flags c).ZOMBIE = true := by
      rw [setFlags_self]
      rfl
    rcases checkParent_ok hs₁ hX hu₁ hz₁ false with
      ⟨s', hcheck, hs', hlater, hsettle, -, hkeep⟩
    rcases hkeep rfl with ⟨hu', hv'⟩
    exact ⟨s', hcheck, hs', hlater₁.trans hlater, hu', hv', hsettle hu'⟩
  unfold zombify
  simp only [hz', htz', Bool.or_self, Bool.false_eq_true, if_false]
  cases htracer : (s.mproc c).mp_tracer with
  | none => exact hplain
  | some t =>
      by_cases htp : t = (s.mproc c).mp_parent
      · simp only [if_pos htp]
        exact hplain
      · simp only [if_neg htp, htraced]
        rcases hs.setExitBits false true false hX hu hex hdump (by simp) (by simp) with
          ⟨hs₁, hlater₁⟩
        have hv₁ : (s.setFlags c (exitBits false true false)).vfs = s.vfs := rfl
        have hu₁ : ((s.setFlags c (exitBits false true false)).flags c).IN_USE = true := by
          rw [setFlags_self]
          exact hu
        have hbits : ((s.setFlags c (exitBits false true false)).flags c).TRACE_ZOMBIE = true ∧
            ((s.setFlags c (exitBits false true false)).flags c).ZOMBIE = false ∧
            ((s.setFlags c (exitBits false true false)).flags c).TOLD_PARENT = false := by
          rw [setFlags_self]
          exact ⟨rfl, rfl, rfl⟩
        have ht₁ : ((s.setFlags c (exitBits false true false)).mproc c).mp_tracer = some t := by
          simp [Table.setFlags, htracer]
        generalize s.setFlags c (exitBits false true false) = s₁ at hs₁ hlater₁ hv₁ hu₁ hbits ht₁ ⊢
        cases hw : waitTest (s₁.mproc t) (s₁.mproc c) with
        | false =>
            refine ⟨s₁, by simp, hs₁, hlater₁, hu₁, by rw [hv₁], ?_⟩
            intro _
            constructor
            · intro _
              exact Or.inr (Or.inl hbits.1)
            · simp [hbits.2.2]
            · simp [ht₁]
            · simp [hbits.2.1]
            · intro _ t' ht'
              rw [ht₁] at ht'
              cases ht'
              exact hw
        | true =>
            rcases tellTracer_ok hs₁ hX hu₁ hbits.1 ht₁ with
              ⟨s₂, htell, hs₂, hlater₂, hu₂, hz₂, hv₂⟩
            rcases checkParent_ok hs₂ hX hu₂ hz₂ false with
              ⟨s', hcheck, hs', hlater, hsettle, -, hkeep⟩
            rcases hkeep rfl with ⟨hu', hv'⟩
            refine ⟨s', ?_, hs', (hlater₁.trans hlater₂).trans hlater, hu', ?_, hsettle hu'⟩
            · simp only [Bool.not_true, Bool.false_eq_true, if_false, htell, Option.bind_some,
                hcheck]
            · rw [hv', hv₂, hv₁]

end Pm
end OsLab
