import Glam.Coordinator.WakeInvariant

/-!
# Every step keeps the subscription invariant

The scheduler's changes to a record are `Ok.touch`, `Ok.remove` and `Ok.reserve`; what an operation
does to a source is `Ok.sources`. What is left is the block itself, which makes a registration, and
the delivery of a batch, after which the blocks of all its registrations are over. -/

namespace Glam.Coordinator.State

open Operation

variable {T D : Type} {s s' : State T D} {id : Nat} {record record' : WorkRecord D} {t : T} {d : D}
  {registration : WakeRegistration}

/-! ### Lists of registrations, and guards -/

variable {l : List WakeRegistration} {other : WakeRegistration}

theorem mem_of_mem_unsubscribe (h : other ∈ unsubscribe l registration) : other ∈ l := by
  unfold unsubscribe at h
  split at h
  · exact h
  · exact Gc.mem_of_mem_swapRemove h

/-- Unsubscribing loses no other registration. -/
theorem mem_unsubscribe (h : other ∈ l) (hne : other ≠ registration) :
    other ∈ unsubscribe l registration := by
  unfold unsubscribe
  split
  · exact h
  case h_2 index hindex =>
    obtain ⟨hlt, heq, -⟩ := List.idxOf?_eq_some_iff.mp hindex
    obtain hat | hmem := Gc.mem_swapRemove hlt h
    · exact absurd (hat.trans heq) hne
    · exact hmem

theorem Over.of_none (h : s.work registration.work = none) : s.Over registration := by
  intro record hrecord
  rw [h] at hrecord
  cases hrecord

theorem prior_of_obsolete {d : D} (h : State.obsolete record = some (d, registration)) :
    record.prior = some (d, registration) := by
  unfold State.obsolete at h
  split_ifs at h
  exact h

theorem whenIdle_eq_some {next : State T D} (h : s.whenIdle t next = some s') :
    s.operation t = .idle ∧ next = s' := by
  unfold whenIdle at h
  split at h
  case h_1 hidle => exact ⟨hidle, Option.some.inj h⟩
  case h_2 => cases h

theorem withWork_eq_some {f : WorkRecord D → Option (State T D)} (h : s.withWork id f = some s') :
    ∃ record, s.work id = some record ∧ f record = some s' :=
  Option.bind_eq_some_iff.mp h

/-- A change of a record that a guard allows. -/
theorem withWork_if_eq_some {guard : WorkRecord D → Prop}
    {decidable : ∀ record, Decidable (guard record)} {next : WorkRecord D → State T D}
    (h : (s.withWork id fun record => if guard record then some (next record) else none) =
      some s') : ∃ record, s.work id = some record ∧ guard record ∧ next record = s' := by
  obtain ⟨record, hrecord, hnext⟩ := withWork_eq_some h
  split_ifs at hnext with hguard
  exact ⟨record, hrecord, hguard, Option.some.inj hnext⟩

/-! ### Blocking -/

theorem Issued.pos (h : s.Issued d registration) : 0 < registration.subscriptionEpoch :=
  Nat.pos_of_ne_zero h.1

theorem Issued.le_length (h : s.Issued d registration) :
    registration.subscriptionEpoch ≤ (s.blocks registration.work).length := by
  have hlt : registration.subscriptionEpoch - 1 < (s.blocks registration.work).length := by
    by_contra hge
    rw [Issued, List.getElem?_eq_none (Nat.le_of_not_lt hge)] at h
    cases h.2
  have := h.pos
  omega

/-- Later blocks leave the registrations of earlier ones as they are. -/
theorem Issued.publishTaskBlock (h : s.Issued d registration) (id : Nat) (record : WorkRecord D)
    (dependency : Option D) (observedEpoch : Option Nat) :
    (s.publishTaskBlock id record dependency observedEpoch).Issued d registration := by
  refine ⟨h.1, ?_⟩
  show (Function.update s.blocks id (s.blocks id ++ [dependency]) registration.work)[_]? = _
  by_cases hid : registration.work = id
  · subst hid
    have := h.le_length
    have := h.pos
    rw [Function.update_self, List.getElem?_append_left (by omega)]
    exact h.2
  · rw [Function.update_of_ne hid]
    exact h.2

section Operations

variable [DecidableEq T]

/-- **A work blocks.** The operation that released it has the new registration in hand and drops at
most the one of the block before. -/
theorem Ok.block (h : s.Ok) (hrecord : s.work id = some record) (hidle : s.operation t = .idle)
    (dependency : Option D) (observedEpoch : Option Nat) (next : Operation D)
    (hcarries : ∀ d registration, next.Carries d registration ↔
      dependency = some d ∧ registration = ⟨id, record.subscriptionEpoch + 1⟩)
    (hdrops : ∀ d registration, next.Drops d registration → record.prior = some (d, registration))
    (hinspects : ∀ d registration, ¬next.Inspects d registration)
    (hinserts : ∀ d, ¬next.Inserts d) :
    ((s.publishTaskBlock id record dependency observedEpoch).setOperation t next).Ok := by
  have hlength := h.epoch id record hrecord
  let after := s.publishTaskBlock id record dependency observedEpoch
  have hcases : ∀ {other r}, after.work other = some r →
      (other = id ∧ r.subscriptionEpoch = record.subscriptionEpoch + 1 ∧ r.dependency = dependency ∧
        r.prior = none) ∨ other ≠ id ∧ s.work other = some r := by
    intro other r hr
    by_cases hid : other = id
    · subst hid
      simp only [after, publishTaskBlock, Function.update_self, Option.some.injEq] at hr
      subst hr
      exact .inl ⟨rfl, rfl, rfl, rfl⟩
    · simp only [after, publishTaskBlock, Function.update_of_ne hid] at hr
      exact .inr ⟨hid, hr⟩
  have hblocks : ∀ other, after.blocks other =
      if other = id then s.blocks id ++ [dependency] else s.blocks other :=
    fun other => Function.update_apply ..
  have hlast : (s.blocks id ++ [dependency])[record.subscriptionEpoch]? = some dependency := by
    rw [hlength]
    simp
  have hnew : ∀ d, dependency = some d →
      after.Issued d ⟨id, record.subscriptionEpoch + 1⟩ := by
    rintro d rfl
    exact ⟨Nat.succ_ne_zero _, by rw [hblocks, if_pos rfl]; exact hlast⟩
  have hold : ∀ {d registration}, s.Issued d registration →
      after.Issued d registration :=
    fun hissued => hissued.publishTaskBlock id record dependency observedEpoch
  -- a registration made before is not the one of the new block
  have hover : ∀ {d registration}, s.Issued d registration → s.Over registration →
      after.Over registration := by
    intro d registration hissued hover r hr hblocked
    obtain ⟨hid, hepoch, -⟩ | ⟨-, hr⟩ := hcases hr
    · have := hissued.le_length
      rw [hid, ← hlength] at this
      omega
    · exact hover r hr hblocked
  have hadmits : ∀ t', after.Admits (Function.update s.operation t next t') := by
    refine Admits.update ⟨?_, ?_, ?_⟩ fun t' => ⟨?_, ?_, ?_⟩
    · intro d registration hcarry
      obtain ⟨hd, rfl⟩ := (hcarries d registration).mp hcarry
      exact hnew d hd
    · intro d registration hdrop
      obtain ⟨rfl, hissued⟩ := h.prior _ _ _ _ hrecord (hdrops d registration hdrop)
      refine ⟨hold hissued, fun r hr hblocked => ?_⟩
      obtain ⟨-, hepoch, -⟩ | ⟨hid, -⟩ := hcases hr
      · rw [hepoch]
        exact Nat.succ_ne_self _
      · exact absurd rfl hid
    · exact fun d registration hinspect => absurd hinspect (hinspects d registration)
    · exact fun d registration hcarry => hold (h.carried t' d registration hcarry)
    · intro d registration hdrop
      obtain ⟨hissued, hover'⟩ := h.dropped t' d registration hdrop
      exact ⟨hold hissued, hover hissued hover'⟩
    · exact fun d registration hinspect => hold (h.inspected t' d registration hinspect)
  have hstay : ∀ (P : Operation D → Prop) {t'}, ¬P .idle → P (s.operation t') →
      P (Function.update s.operation t next t') := by
    intro P t' hidle' hP
    have ht : t' ≠ t := by
      rintro rfl
      rw [hidle] at hP
      exact hidle' hP
    rwa [Function.update_of_ne ht]
  constructor
  case fresh =>
    intro other hother
    have hid : other ≠ id := by
      rintro rfl
      rw [(h.fresh other hother).1] at hrecord
      cases hrecord
    refine ⟨?_, ?_⟩
    · show Function.update s.work id _ other = none
      rw [Function.update_of_ne hid]
      exact (h.fresh other hother).1
    · show after.blocks other = []
      rw [hblocks, if_neg hid]
      exact (h.fresh other hother).2
  case epoch =>
    intro other r hr
    show r.subscriptionEpoch = (after.blocks other).length
    rw [hblocks]
    obtain ⟨rfl, hepoch, -⟩ | ⟨hid, hr⟩ := hcases hr
    · rw [if_pos rfl, hepoch, hlength]
      simp
    · rw [if_neg hid]
      exact h.epoch _ _ hr
  case dependency =>
    intro other r d hr hd
    obtain ⟨rfl, hepoch, hdependency, -⟩ | ⟨hid, hr⟩ := hcases hr
    · rw [hepoch]
      exact hnew d (hdependency ▸ hd)
    · exact hold (h.dependency _ _ _ hr hd)
  case blocked =>
    intro other r hr hblocked
    show (after.blocks other)[_]? = _
    rw [hblocks]
    obtain ⟨rfl, hepoch, hdependency, -⟩ | ⟨hid, hr⟩ := hcases hr
    · rw [if_pos rfl, hepoch, Nat.add_sub_cancel, hdependency]
      exact hlast
    · rw [if_neg hid]
      exact h.blocked _ _ hr hblocked
  case prior =>
    intro other r d registration hr hd
    obtain ⟨rfl, -, -, hprior⟩ | ⟨hid, hr⟩ := hcases hr
    · rw [hprior] at hd
      cases hd
    · exact ⟨(h.prior _ _ _ _ hr hd).1, hold (h.prior _ _ _ _ hr hd).2⟩
  case stored =>
    exact fun d registration hmem => hold (h.stored d registration hmem)
  case carried => exact fun t' => (hadmits t').carried
  case dropped => exact fun t' => (hadmits t').dropped
  case inspected => exact fun t' => (hadmits t').inspected
  case waits =>
    intro other r d hr hblocked hd
    obtain ⟨rfl, hepoch, hdependency, -⟩ | ⟨-, hr⟩ := hcases hr
    · refine .inr ⟨t, ?_⟩
      show (Function.update s.operation t next t).Carries d _
      rw [Function.update_self, hepoch]
      exact (hcarries d _).mpr ⟨hdependency ▸ hd, rfl⟩
    · obtain hstored | ⟨t', hcarry⟩ := h.waits _ _ _ hr hblocked hd
      · exact .inl hstored
      · exact .inr ⟨t', hstay (·.Carries d _) (fun h => h) hcarry⟩
  case published =>
    intro d hterminal hleft
    obtain ⟨t', htakes⟩ := h.published d hterminal hleft
    exact ⟨t', hstay (·.Takes d) (fun h => h) htakes⟩
  case held =>
    exact h.held_update hidle fun d => ⟨fun h => absurd h (hinserts d), fun h => h.elim⟩

/-! ### An operation moves on -/

/-- A thread may go on if it carries on what it owed to the dependencies. -/
theorem Ok.setOperation (h : s.Ok) {current : Operation D} (hop : s.operation t = current)
    (next : Operation D) (hnext : s.Admits next)
    (hkept : ∀ d registration, current.Carries d registration →
      next.Carries d registration ∨ s.Over registration)
    (htakes : ∀ d, current.Takes d → next.Takes d)
    (hinserts : ∀ d, next.Inserts d ↔ current.Inserts d) : (s.setOperation t next).Ok := by
  refine h.sources hop next s.terminal s.registrations s.held h.stored hnext ?_ ?_
    (h.held_update hop hinserts)
  · rintro d registration (hstored | hcarry)
    · exact .inl hstored
    · exact .inr (hkept d registration hcarry)
  · intro d hterminal hleft
    by_cases htake : current.Takes d
    · exact .inl (htakes d htake)
    · exact .inr ⟨htake, hterminal, hleft⟩

theorem Ok.start (h : s.Ok) (hidle : s.operation t = .idle) (next : Operation D)
    (hnext : s.Admits next) (hinserts : ∀ d, ¬next.Inserts d) : (s.setOperation t next).Ok :=
  h.setOperation hidle next hnext nofun nofun
    fun d => ⟨fun h => absurd h (hinserts d), fun h => h.elim⟩

section

variable (obsolete : Option (D × WakeRegistration))
include obsolete

theorem not_carries_dropping : ¬(dropping obsolete).Carries d registration := by
  cases obsolete <;> exact fun h => h

theorem not_inspects_dropping : ¬(dropping obsolete).Inspects d registration := by
  cases obsolete <;> exact fun h => h

theorem not_inserts_dropping : ¬(dropping obsolete).Inserts d := by
  cases obsolete <;> exact fun h => h

end

theorem drops_dropping {obsolete : Option (D × WakeRegistration)}
    (h : (dropping obsolete).Drops d registration) : obsolete = some (d, registration) := by
  obtain _ | ⟨d', registration'⟩ := obsolete
  · exact h.elim
  · obtain ⟨rfl, rfl⟩ := h
    rfl

omit [DecidableEq T] in
theorem admits_dropping {obsolete : Option (D × WakeRegistration)}
    (h : ∀ d registration, obsolete = some (d, registration) →
      s.Issued d registration ∧ s.Over registration) : s.Admits (dropping obsolete) where
  carried _ _ hcarry := absurd hcarry (not_carries_dropping obsolete)
  dropped d registration hdrop := h d registration (drops_dropping hdrop)
  inspected _ _ hinspect := absurd hinspect (not_inspects_dropping obsolete)

/-! ### Steps that leave the sources alone -/

variable {obsolete : Option (D × WakeRegistration)}

theorem Ok.subscribe_terminal (h : s.Ok) (hop : s.operation t = .subscribing d registration obsolete) :
    (s.setOperation t (.waking d [registration] obsolete)).Ok := by
  have hissued := h.carried t d registration (by rw [hop]; exact ⟨rfl, rfl⟩)
  refine h.setOperation hop _ ⟨?_, (hop ▸ h.dropped t :), nofun⟩ ?_ nofun fun _ => Iff.rfl
  · rintro d' registration' ⟨rfl, hmem⟩
    rw [List.mem_singleton.mp hmem]
    exact hissued
  · rintro d' registration' ⟨rfl, rfl⟩
    exact .inl ⟨rfl, List.mem_singleton.mpr rfl⟩

theorem Ok.inspect_terminal {abandon : Bool} (h : s.Ok)
    (hop : s.operation t = .inspecting d registration abandon) :
    (s.setOperation t (.waking d [registration] none)).Ok := by
  have hissued := h.inspected t d registration (by rw [hop]; exact ⟨rfl, rfl⟩)
  refine h.setOperation hop _ ⟨?_, nofun, nofun⟩ nofun nofun fun _ => Iff.rfl
  rintro d' registration' ⟨rfl, hmem⟩
  rw [List.mem_singleton.mp hmem]
  exact hissued

theorem Ok.inspect_pending {abandon : Bool} (h : s.Ok)
    (hop : s.operation t = .inspecting d registration abandon) :
    (s.setOperation t (.abandoning d registration abandon)).Ok :=
  h.setOperation hop _ ⟨nofun, nofun, (hop ▸ h.inspected t :)⟩ nofun nofun fun _ => Iff.rfl

/-- A client abandons its demand, and then drops the subscription. -/
theorem Ok.abandon {abandon : Bool} (h : s.Ok)
    (hop : s.operation t = .abandoning d registration abandon) :
    (((s.setWork registration.work none).removeReady registration.work).setOperation t
      (.unsubscribing d registration)).Ok := by
  have hissued := h.inspected t d registration (by rw [hop]; exact ⟨rfl, rfl⟩)
  have hok := (h.remove registration.work).same (.removeReady _ registration.work)
  refine hok.setOperation hop _ ⟨nofun, ?_, nofun⟩ nofun nofun fun _ => Iff.rfl
  rintro d' registration' ⟨rfl, rfl⟩
  exact ⟨hissued, .of_none (by simp [removeReady, work_setWork])⟩

theorem Ok.setIdle {abandon : Bool} (h : s.Ok)
    (hop : s.operation t = .abandoning d registration abandon) : (s.setOperation t .idle).Ok :=
  h.setOperation hop _ ⟨nofun, nofun, nofun⟩ nofun nofun fun _ => Iff.rfl

/-- A work leaves its block for good, and a client drops the subscription that it had for it. -/
theorem Ok.leave {released : Option (WorkRecord D)} (epoch : Nat)
    (hidle : s.operation t = .idle) (hreleased : (s.setWork id released).Ok)
    (hstate : ∀ record ∈ released, record.state ≠ .blocked)
    (hsame : (s.setWork id released).SameWakes s') (obsolete : Option (D × WakeRegistration))
    (hobsolete : ∀ d registration, obsolete = some (d, registration) →
      registration = ⟨id, epoch⟩ ∧ s.Issued d registration) :
    (s'.setOperation t (dropping obsolete)).Ok := by
  refine (hreleased.same hsame).start ?_ _ (admits_dropping fun d registration hsome => ?_)
    fun _ => not_inserts_dropping obsolete
  · rw [hsame.operation]
    exact hidle
  · obtain ⟨rfl, hissued⟩ := hobsolete d registration hsome
    refine ⟨?_, fun record hrecord hblocked => ?_⟩
    · unfold Issued
      rw [hsame.blocks]
      exact hissued
    · rw [hsame.work, work_setWork, if_pos rfl] at hrecord
      exact absurd hblocked (hstate record hrecord)

/-- Work that is given back after a poll keeps the invariant, whatever the poll found. -/
theorem Ok.release (h : s.Ok) (hrecord : s.work id = some record)
    (hidle : s.operation t = .idle) (poll : Poll D) : (s.release t id record poll).Ok := by
  -- what is dropped at the end is the registration before the poll
  have hobsolete : ∀ d registration, State.obsolete record = some (d, registration) →
      registration = ⟨id, record.subscriptionEpoch⟩ ∧ s.Issued d registration :=
    fun d registration hsome => h.prior id record d registration hrecord (prior_of_obsolete hsome)
  cases poll with
  | runnable queued =>
    have htouched : (s.setWork id (some { record with
        state := if queued then .queued else .dormant
        dependency := none
        observedEpoch := none
        prior := none })).Ok := by
      refine h.touch hrecord rfl ?_ nofun nofun
      cases queued <;> simp
    cases queued with
    | false =>
      exact Ok.leave _ hidle htouched (by simp) (.removeObservationWaiter _ id) _ hobsolete
    | true =>
      exact Ok.leave _ hidle htouched (by simp)
        ((SameWakes.removeObservationWaiter _ id).trans (.queueByKind _ id record.kind)) _ hobsolete
  | blocked dependency observedEpoch =>
    cases dependency with
    | none =>
      refine h.block hrecord hidle none observedEpoch _ (fun d registration => ?_)
        (fun d registration hdrops => prior_of_obsolete (drops_dropping hdrops))
        (fun _ _ => not_inspects_dropping _) (fun _ => not_inserts_dropping _)
      exact ⟨fun hcarries => (not_carries_dropping _ hcarries).elim, fun h => nomatch h.1⟩
    | some d =>
      -- the thread carries the new registration until it is inserted
      refine h.block hrecord hidle (some d) observedEpoch _ (fun d' registration => ?_)
        (fun d' registration hdrops => prior_of_obsolete hdrops) (fun _ _ h => h) (fun _ h => h)
      rw [Option.some.injEq]
      exact and_congr_right fun _ => eq_comm
  | terminal =>
    unfold State.release
    split_ifs
    · exact Ok.leave _ hidle (h.remove id) nofun (.removeReady _ id) record.prior
        fun d registration hsome => h.prior id record d registration hrecord hsome
    · refine Ok.same ?_ (.removeObservationWaiter _ id)
      exact h.touch hrecord rfl (by simp) nofun nofun

/-- A producer publishes the terminal of its source, or notifies once more. -/
theorem Ok.publish (h : s.Ok) (hidle : s.operation t = .idle) (d : D) (terminal : D → Bool)
    (hterminal : ∀ d', terminal d' = true → d' = d ∨ s.terminal d' = true) :
    ({ s with terminal := terminal }.setOperation t (.taking d)).Ok := by
  refine h.sources hidle (.taking d) terminal s.registrations s.held h.stored
    ⟨nofun, nofun, nofun⟩ ?_ ?_ (h.held_update hidle fun _ => Iff.rfl)
  · exact fun d' registration hmem => .inl (hmem.resolve_right id)
  · intro d' hd' hleft
    obtain rfl | hbefore := hterminal d' hd'
    · exact .inl rfl
    · exact .inr ⟨fun h => h, hbefore, hleft⟩

end Operations

/-! ### Delivering registrations -/

/-- Some blocked works are queued; nothing else changes but the queues and observations. -/
structure Woken (s s' : State T D) : Prop where
  nextWork : s'.nextWork = s.nextWork
  work : ∀ id, s'.work id = s.work id ∨
    ∃ record, s.work id = some record ∧ record.state = .blocked ∧
      s'.work id = some { record with state := .queued }
  terminal : s'.terminal = s.terminal
  registrations : s'.registrations = s.registrations
  held : s'.held = s.held
  operation : s'.operation = s.operation
  blocks : s'.blocks = s.blocks

theorem Woken.refl (s : State T D) : s.Woken s :=
  ⟨rfl, fun _ => .inl rfl, rfl, rfl, rfl, rfl, rfl⟩

/-- Waking in turn is waking. -/
theorem Woken.trans {s₁ s₂ s₃ : State T D} (h : s₁.Woken s₂) (h' : s₂.Woken s₃) :
    s₁.Woken s₃ where
  nextWork := h'.nextWork.trans h.nextWork
  work id := by
    obtain hsame | ⟨record, hrecord, hblocked, hqueued⟩ := h.work id
    · rw [← hsame]
      exact h'.work id
    · obtain hsame' | ⟨record', hrecord', hblocked', -⟩ := h'.work id
      · exact .inr ⟨record, hrecord, hblocked, hsame'.trans hqueued⟩
      · -- a work that was queued is not blocked any more
        rw [hqueued, Option.some.injEq] at hrecord'
        subst hrecord'
        cases hblocked'
  terminal := h'.terminal.trans h.terminal
  registrations := h'.registrations.trans h.registrations
  held := h'.held.trans h.held
  operation := h'.operation.trans h.operation
  blocks := h'.blocks.trans h.blocks

theorem Woken.same {s₁ s₂ s₃ : State T D} (h : s₁.Woken s₂) (h' : s₂.SameWakes s₃) : s₁.Woken s₃ :=
  h.trans ⟨h'.nextWork, fun id => .inl (congrFun h'.work id), h'.terminal, h'.registrations, h'.held,
    h'.operation, h'.blocks⟩

theorem Woken.issued (h : s.Woken s') (hissued : s.Issued d registration) :
    s'.Issued d registration :=
  ⟨hissued.1, by rw [h.blocks]; exact hissued.2⟩

theorem Woken.over (h : s.Woken s') (hover : s.Over registration) : s'.Over registration := by
  intro record hrecord hblocked
  obtain hsame | ⟨record', -, -, hqueued⟩ := h.work registration.work
  · exact hover record (hsame ▸ hrecord) hblocked
  · rw [hqueued, Option.some.injEq] at hrecord
    subst hrecord
    cases hblocked

/-- Blocked work that is queued is woken. -/
theorem Woken.setWork (hrecord : s.work id = some record) (hblocked : record.state = .blocked) :
    s.Woken (s.setWork id (some { record with state := .queued })) where
  nextWork := rfl
  work other := by
    rw [work_setWork]
    split
    case isTrue hid => exact .inr ⟨record, hid ▸ hrecord, hblocked, rfl⟩
    case isFalse => exact .inl rfl
  terminal := rfl
  registrations := rfl
  held := rfl
  operation := rfl
  blocks := rfl

theorem Ok.setState (h : s.Ok) (hrecord : s.work id = some record) (state : WorkState)
    (hstate : state ≠ .blocked) : (s.setWork id (some { record with state := state })).Ok :=
  h.touch hrecord rfl hstate (fun d hd => h.dependency id record d hrecord hd)
    (fun d registration hd => h.prior id record d registration hrecord hd)

section Sources

variable [DecidableEq D]

/-- A registration of a blocked work's epoch is current, whatever its source. -/
theorem Ok.current (h : s.Ok) (hissued : s.Issued d registration)
    (hrecord : s.work registration.work = some record) (hblocked : record.state = .blocked)
    (hepoch : record.subscriptionEpoch = registration.subscriptionEpoch) :
    Current record registration (some d) := by
  refine ⟨hblocked, hepoch, ?_⟩
  have hlast := h.blocked _ _ hrecord hblocked
  rw [hepoch, hissued.2, Option.some.injEq] at hlast
  rintro _ ⟨⟩
  exact hlast.symm

/-- What `queue_current_registration` does: it queues the work of a current registration, and
nothing for any other. -/
theorem queueCurrentRegistration_cases (s : State T D) (registration : WakeRegistration)
    (source : Option D) :
    (∃ record, s.work registration.work = some record ∧ Current record registration source ∧
      (s.queueCurrentRegistration registration source).1 = true ∧
      (s.setWork registration.work (some { record with state := .queued })).SameWakes
        (s.queueCurrentRegistration registration source).2) ∨
    (∀ record, s.work registration.work = some record → ¬Current record registration source) ∧
      s.queueCurrentRegistration registration source = (false, s) := by
  unfold State.queueCurrentRegistration
  cases hrecord : s.work registration.work with
  | none => exact .inr ⟨nofun, rfl⟩
  | some record =>
    by_cases hcurrent : Current record registration source
    · refine .inl ⟨record, rfl, hcurrent, ?_⟩
      simp only [if_pos hcurrent, true_and]
      refine SameWakes.trans ?_ (.queueByKind ..)
      split
      · exact .refl _
      · exact .removeObservationWaiter ..
    · refine .inr ⟨?_, ?_⟩
      · rintro _ ⟨⟩
        exact hcurrent
      · simp only [if_neg hcurrent]

theorem Ok.queueCurrentRegistration (h : s.Ok) (registration : WakeRegistration)
    (source : Option D) : (s.queueCurrentRegistration registration source).2.Ok ∧
      s.Woken (s.queueCurrentRegistration registration source).2 := by
  obtain ⟨record, hrecord, hcurrent, -, hsame⟩ | ⟨-, heq⟩ :=
    queueCurrentRegistration_cases s registration source
  · exact ⟨(h.setState hrecord .queued nofun).same hsame, (Woken.setWork hrecord hcurrent.1).same hsame⟩
  · rw [heq]
    exact ⟨h, .refl s⟩

/-- A registration that was delivered has done its work. -/
theorem Ok.over_queueCurrentRegistration (h : s.Ok) (hissued : s.Issued d registration) :
    (s.queueCurrentRegistration registration (some d)).2.Over registration := by
  obtain ⟨record, -, -, -, hsame⟩ | ⟨hnone, heq⟩ :=
    queueCurrentRegistration_cases s registration (some d)
  · intro record' hrecord' hblocked'
    rw [hsame.work, work_setWork, if_pos rfl, Option.some.injEq] at hrecord'
    subst hrecord'
    cases hblocked'
  · rw [heq]
    intro record hrecord hblocked hepoch
    exact hnone record hrecord (h.current hissued hrecord hblocked hepoch)

/-- **A batch is delivered.** -/
theorem Ok.wakeDependencyBatch (h : s.Ok) (registrations : List WakeRegistration)
    (hissued : ∀ registration ∈ registrations, s.Issued d registration) :
    (s.wakeDependencyBatch d registrations).Ok ∧ s.Woken (s.wakeDependencyBatch d registrations) ∧
      ∀ registration ∈ registrations, (s.wakeDependencyBatch d registrations).Over registration := by
  induction registrations generalizing s with
  | nil => exact ⟨h, .refl s, nofun⟩
  | cons first rest ih =>
    obtain ⟨hok, hwoken⟩ := h.queueCurrentRegistration first (some d)
    obtain ⟨hok', hwoken', hover'⟩ := ih hok fun registration hmem =>
      hwoken.issued (hissued registration (.tail _ hmem))
    refine ⟨hok', hwoken.trans hwoken', fun registration hmem => ?_⟩
    obtain rfl | hmem := List.mem_cons.mp hmem
    · exact hwoken'.over (h.over_queueCurrentRegistration (hissued _ (.head _)))
    · exact hover' registration hmem

omit [DecidableEq D] in
/-- What `queue_current_observation` does: it queues the work of a current observation that has
become old, and nothing for any other. -/
theorem queueCurrentObservation_cases (s : State T D) (registration : ObservationRegistration)
    (currentEpoch : Nat) :
    s.SameWakes (s.queueCurrentObservation registration currentEpoch) ∨
    ∃ record, s.work registration.wake.work = some record ∧ record.state = .blocked ∧
      record.subscriptionEpoch = registration.wake.subscriptionEpoch ∧
      record.observedEpoch = some registration.observedEpoch ∧
      registration.observedEpoch < currentEpoch ∧
      (s.setWork registration.wake.work (some { record with state := .queued })).SameWakes
        (s.queueCurrentObservation registration currentEpoch) := by
  have hstale : s.SameWakes (if s.observationWaiters registration.wake.work = some registration then
      s.removeObservationWaiter registration.wake.work else s) := by
    split
    · exact .removeObservationWaiter ..
    · exact .refl s
  unfold State.queueCurrentObservation
  dsimp only
  split
  · exact .inl hstale
  case h_2 record hrecord =>
    split
    case isFalse => exact .inl hstale
    case isTrue hcurrent =>
      obtain ⟨hblocked, hepoch, hobserved⟩ := hcurrent
      split
      case isTrue => exact .inl (.refl s)
      case isFalse hold =>
        refine .inr ⟨record, hrecord, hblocked, hepoch, hobserved, not_le.mp hold, ?_⟩
        exact (SameWakes.removeObservationWaiter (s.setWork _ _) _).trans (.queueTask ..)

omit [DecidableEq D] in
/-- An observation queues a work as a registration does. -/
theorem Ok.queueCurrentObservation (h : s.Ok) (registration : ObservationRegistration)
    (currentEpoch : Nat) : (s.queueCurrentObservation registration currentEpoch).Ok := by
  obtain hsame | ⟨record, hrecord, -, -, -, -, hsame⟩ :=
    queueCurrentObservation_cases s registration currentEpoch
  · exact h.same hsame
  · exact (h.setState hrecord .queued nofun).same hsame

end Sources

/-! ### The steps of an operation -/

section Steps

variable [DecidableEq T] [DecidableEq D]

variable {obsolete : Option (D × WakeRegistration)} {registrations : List WakeRegistration}

/-- A subscriber finds its source not terminal and keeps hold of the registrations. -/
theorem Ok.subscribe_pending (h : s.Ok) (hop : s.operation t = .subscribing d registration obsolete)
    (hfree : s.held d = none) (hterminal : ¬s.terminal d = true) :
    ({ s with held := Function.update s.held d (some t) }.setOperation t
      (.inserting d registration obsolete)).Ok := by
  refine h.sources hop (.inserting d registration obsolete) s.terminal s.registrations
    (Function.update s.held d (some t)) h.stored
    ⟨(hop ▸ h.carried t :), (hop ▸ h.dropped t :), nofun⟩ ?_ ?_ ?_
  · rintro d' registration' (hstored | hcarry)
    · exact .inl hstored
    · exact .inr (.inl hcarry)
  · -- the source is not terminal, so nobody has to take its registrations
    intro d' hterminal' hleft
    have hd : d' ≠ d := by
      rintro rfl
      exact hterminal hterminal'
    rw [Function.update_of_ne hd] at hleft
    exact .inr ⟨fun h => h.elim, hterminal', hleft⟩
  · intro d' t'
    by_cases hd : d' = d
    · subst hd
      rw [Function.update_self, Option.some.injEq]
      constructor
      · rintro rfl
        rw [Function.update_self]
        rfl
      · intro hinserts
        by_contra ht
        rw [Function.update_of_ne (Ne.symm ht), ← h.held, hfree] at hinserts
        cases hinserts
    · rw [Function.update_of_ne hd, h.held]
      by_cases ht : t' = t
      · subst ht
        rw [Function.update_self, hop]
        exact ⟨fun h => h.elim, fun h => absurd h.symm hd⟩
      · rw [Function.update_of_ne ht]

/-- The registration is where the dependency's producer will find it. -/
theorem Ok.insert (h : s.Ok) (hop : s.operation t = .inserting d registration obsolete) :
    ({ s with
      held := Function.update s.held d none
      registrations := Function.update s.registrations d (s.registrations d ++ [registration])
      }.setOperation t (dropping obsolete)).Ok := by
  have hheld : s.held d = some t := (h.held d t).mpr (by rw [hop]; rfl)
  have hissued := h.carried t d registration (by rw [hop]; exact ⟨rfl, rfl⟩)
  refine h.sources hop (dropping obsolete) s.terminal
    (Function.update s.registrations d (s.registrations d ++ [registration]))
    (Function.update s.held d none) ?_ (admits_dropping (hop ▸ h.dropped t :)) ?_ ?_ ?_
  · intro d' registration' hmem
    by_cases hd : d' = d
    · subst hd
      rw [Function.update_self] at hmem
      obtain hmem | hmem := List.mem_append.mp hmem
      · exact h.stored d' registration' hmem
      · rw [List.mem_singleton.mp hmem]
        exact hissued
    · rw [Function.update_of_ne hd] at hmem
      exact h.stored d' registration' hmem
  · rintro d' registration' hhad
    refine .inl ?_
    by_cases hd : d' = d
    · subst hd
      rw [Function.update_self, List.mem_append, List.mem_singleton]
      obtain hmem | ⟨-, rfl⟩ := hhad
      · exact .inl hmem
      · exact .inr rfl
    · rw [Function.update_of_ne hd]
      obtain hmem | ⟨rfl, -⟩ := hhad
      · exact hmem
      · exact absurd rfl hd
  · -- a producer that wrote the cell meanwhile waits for the registrations
    intro d' hterminal hleft
    refine .inr ⟨fun h => h.elim, hterminal, ?_⟩
    by_cases hd : d' = d
    · subst hd
      exact .inr (by rw [hheld]; exact Option.some_ne_none t)
    · rwa [Function.update_of_ne hd, Function.update_of_ne hd] at hleft
  · intro d' t'
    by_cases ht : t' = t
    · subst ht
      rw [Function.update_self]
      refine ⟨fun hsome => ?_, fun hinserts => absurd hinserts (not_inserts_dropping obsolete)⟩
      by_cases hd : d' = d
      · subst hd
        rw [Function.update_self] at hsome
        cases hsome
      · rw [Function.update_of_ne hd, h.held, hop] at hsome
        exact absurd hsome.symm hd
    · rw [Function.update_of_ne ht, ← h.held]
      by_cases hd : d' = d
      · subst hd
        rw [Function.update_self, hheld, Option.some.injEq]
        exact ⟨nofun, fun h => absurd h.symm ht⟩
      · rw [Function.update_of_ne hd]

theorem Ok.deliver (h : s.Ok) (hop : s.operation t = .waking d registrations obsolete) :
    ((s.wakeDependencyBatch d registrations).setOperation t (dropping obsolete)).Ok := by
  have hissued : ∀ registration ∈ registrations, s.Issued d registration := fun registration hmem =>
    h.carried t d registration (by rw [hop]; exact ⟨rfl, hmem⟩)
  obtain ⟨hok, hwoken, hover⟩ := h.wakeDependencyBatch registrations hissued
  have hop' : (s.wakeDependencyBatch d registrations).operation t =
      .waking d registrations obsolete := by rw [hwoken.operation, hop]
  refine hok.setOperation hop' _ (admits_dropping (hop' ▸ hok.dropped t :)) ?_ nofun ?_
  · rintro d' registration' ⟨rfl, hmem⟩
    exact .inr (hover registration' hmem)
  · exact fun _ => ⟨fun h => absurd h (not_inserts_dropping obsolete), fun h => h.elim⟩

/-- What is unsubscribed was obsolete. -/
theorem Ok.unsubscribe (h : s.Ok) (hop : s.operation t = .unsubscribing d registration) :
    ({ s with
      registrations := Function.update s.registrations d
        (unsubscribe (s.registrations d) registration) }.setOperation t .idle).Ok := by
  obtain ⟨-, hover⟩ := h.dropped t d registration (by rw [hop]; exact ⟨rfl, rfl⟩)
  have hsubset : ∀ {d' other}, other ∈ Function.update s.registrations d
      (State.unsubscribe (s.registrations d) registration) d' → other ∈ s.registrations d' := by
    intro d' other hmem
    by_cases hd : d' = d
    · subst hd
      rw [Function.update_self] at hmem
      exact mem_of_mem_unsubscribe hmem
    · rwa [Function.update_of_ne hd] at hmem
  refine h.sources hop .idle s.terminal (Function.update s.registrations d
      (State.unsubscribe (s.registrations d) registration)) s.held
    (fun d' other hmem => h.stored d' other (hsubset hmem)) ⟨nofun, nofun, nofun⟩ ?_ ?_
    (h.held_update hop fun _ => Iff.rfl)
  · rintro d' other (hmem | hcarry)
    · by_cases hd : d' = d
      · subst hd
        rw [Function.update_self]
        by_cases hother : other = registration
        · exact .inr (.inr (hother ▸ hover))
        · exact .inl (mem_unsubscribe hmem hother)
      · rw [Function.update_of_ne hd]
        exact .inl hmem
    · exact hcarry.elim
  · intro d' hterminal hleft
    refine .inr ⟨fun h => h.elim, hterminal, hleft.imp_left fun hne hnil => hne ?_⟩
    exact List.eq_nil_iff_forall_not_mem.mpr fun other hmem =>
      List.not_mem_nil (hnil ▸ hsubset hmem)

/-- The producer carries the registrations it takes until each has been woken. -/
theorem Ok.take (h : s.Ok) (hop : s.operation t = .taking d) (hfree : s.held d = none) :
    ({ s with registrations := Function.update s.registrations d [] }.setOperation t
      (.waking d (s.registrations d) none)).Ok := by
  refine h.sources hop (.waking d (s.registrations d) none) s.terminal
    (Function.update s.registrations d []) s.held ?_ ⟨?_, nofun, nofun⟩ ?_ ?_
    (h.held_update hop fun _ => Iff.rfl)
  · intro d' registration' hmem
    by_cases hd : d' = d
    · subst hd
      rw [Function.update_self] at hmem
      cases hmem
    · rw [Function.update_of_ne hd] at hmem
      exact h.stored d' registration' hmem
  · rintro d' registration' ⟨rfl, hmem⟩
    exact h.stored d registration' hmem
  · rintro d' registration' (hmem | hcarry)
    · by_cases hd : d' = d
      · subst hd
        exact .inr (.inl ⟨rfl, hmem⟩)
      · rw [Function.update_of_ne hd]
        exact .inl hmem
    · exact hcarry.elim
  · intro d' hterminal hleft
    by_cases hd : d' = d
    · subst hd
      rw [Function.update_self, hfree] at hleft
      simp at hleft
    · rw [Function.update_of_ne hd] at hleft
      exact .inr ⟨fun htake => hd htake.symm, hterminal, hleft⟩

/-- **What the next step of an operation can be.** -/
inductive Proceeded (s : State T D) (t : T) : State T D → Prop
  | subscribeTerminal {d : D} {registration : WakeRegistration}
      {obsolete : Option (D × WakeRegistration)}
      (hop : s.operation t = .subscribing d registration obsolete) (hterminal : s.terminal d) :
      Proceeded s t (s.setOperation t (.waking d [registration] obsolete))
  | subscribePending {d : D} {registration : WakeRegistration}
      {obsolete : Option (D × WakeRegistration)}
      (hop : s.operation t = .subscribing d registration obsolete) (hfree : s.held d = none)
      (hterminal : ¬ s.terminal d) :
      Proceeded s t ({ s with held := Function.update s.held d (some t) }.setOperation t
        (.inserting d registration obsolete))
  | insert {d : D} {registration : WakeRegistration}
      {obsolete : Option (D × WakeRegistration)}
      (hop : s.operation t = .inserting d registration obsolete) :
      Proceeded s t ({ s with
        held := Function.update s.held d none
        registrations := Function.update s.registrations d (s.registrations d ++ [registration])
        }.setOperation t (dropping obsolete))
  | deliver {d : D} {registrations : List WakeRegistration}
      {obsolete : Option (D × WakeRegistration)} (hop : s.operation t = .waking d registrations obsolete) :
      Proceeded s t ((s.wakeDependencyBatch d registrations).setOperation t (dropping obsolete))
  | unsubscribe {d : D} {registration : WakeRegistration}
      (hop : s.operation t = .unsubscribing d registration) :
      Proceeded s t ({ s with
        registrations := Function.update s.registrations d
          (State.unsubscribe (s.registrations d) registration) }.setOperation t .idle)
  | take {d : D} (hop : s.operation t = .taking d) (hfree : s.held d = none) :
      Proceeded s t ({ s with registrations := Function.update s.registrations d [] }.setOperation t
        (.waking d (s.registrations d) none))
  | inspectTerminal {d : D} {registration : WakeRegistration} {abandon : Bool}
      (hop : s.operation t = .inspecting d registration abandon) (hterminal : s.terminal d) :
      Proceeded s t (s.setOperation t (.waking d [registration] none))
  | inspectPending {d : D} {registration : WakeRegistration} {abandon : Bool}
      (hop : s.operation t = .inspecting d registration abandon) :
      Proceeded s t (s.setOperation t (.abandoning d registration abandon))
  /-- the demand is gone, or waits for something else by now, or is not to be abandoned -/
  | keep {d : D} {registration : WakeRegistration} {abandon : Bool}
      (hop : s.operation t = .abandoning d registration abandon) :
      Proceeded s t (s.setOperation t .idle)
  | abandon {d : D} {registration : WakeRegistration} {abandon : Bool}
      (hop : s.operation t = .abandoning d registration abandon) :
      Proceeded s t (((s.setWork registration.work none).removeReady registration.work).setOperation
        t (.unsubscribing d registration))

/-- The steps of an operation that is under way. -/
theorem proceed_cases (hstep : s.proceed t = some s') : s.Proceeded t s' := by
  unfold State.proceed at hstep
  generalize hop : s.operation t = operation at hstep
  cases operation with
  | idle => cases hstep
  | subscribing =>
    dsimp only at hstep
    -- a terminal dependency is not subscribed to, since nobody would notify
    split_ifs at hstep with hfree hterminal <;> cases hstep
    · exact .subscribeTerminal hop hterminal
    · exact .subscribePending hop hfree hterminal
  | inserting =>
    cases hstep
    exact .insert hop
  | waking =>
    cases hstep
    exact .deliver hop
  | unsubscribing =>
    dsimp only at hstep
    split_ifs at hstep with hfree
    cases hstep
    exact .unsubscribe hop
  | taking =>
    dsimp only at hstep
    split_ifs at hstep with hfree
    cases hstep
    exact .take hop hfree
  | inspecting =>
    dsimp only at hstep
    split_ifs at hstep with hterminal <;> cases hstep
    · exact .inspectTerminal hop hterminal
    · exact .inspectPending hop
  | abandoning d registration abandon =>
    dsimp only at hstep
    generalize s.work registration.work = record at hstep
    cases record with
    | none =>
      cases hstep
      exact .keep hop
    | some =>
      dsimp only at hstep
      split_ifs at hstep <;> cases hstep
      · exact .abandon hop
      · exact .keep hop

/-- An operation that goes on keeps the invariant. -/
theorem Ok.proceed (h : s.Ok) (hstep : s.proceed t = some s') : s'.Ok := by
  cases proceed_cases hstep with
  | subscribeTerminal hop _ => exact h.subscribe_terminal hop
  | subscribePending hop hfree hterminal => exact h.subscribe_pending hop hfree hterminal
  | insert hop => exact h.insert hop
  | deliver hop => exact h.deliver hop
  | unsubscribe hop => exact h.unsubscribe hop
  | take hop hfree => exact h.take hop hfree
  | inspectTerminal hop _ => exact h.inspect_terminal hop
  | inspectPending hop => exact h.inspect_pending hop
  | keep hop => exact h.setIdle hop
  | abandon hop => exact h.abandon hop

/-! ### The steps of the scheduler -/

/-- **Every step keeps the invariant.** -/
theorem Ok.step {a : Action T D} (h : s.Ok) (hstep : s.step a = some s') : s'.Ok := by
  cases a with
  | reserve kind state =>
    simp only [State.step] at hstep
    split_ifs at hstep with hstate hqueued
    · exact Option.some.inj hstep ▸ (h.reserve kind (by simp [hqueued])).same (.queueByKind _ _ kind)
    · refine Option.some.inj hstep ▸ h.reserve kind ?_
      rintro rfl
      simp at hstate
  | activate id =>
    obtain ⟨record, hrecord, hstate, rfl⟩ := withWork_if_eq_some hstep
    exact (h.setState hrecord .queued nofun).same (.queueByKind _ id record.kind)
  | releaseInline id =>
    obtain ⟨record, hrecord, hstate, rfl⟩ := withWork_if_eq_some hstep
    exact h.setState hrecord .dormant nofun
  | claim id =>
    obtain ⟨record, hrecord, hstate, rfl⟩ := withWork_if_eq_some hstep
    refine Ok.same ?_ ((SameWakes.removeObservationWaiter _ id).trans (.removeReady _ id))
    refine h.touch hrecord rfl (by simp) nofun ?_
    -- the dependency becomes the registration to be dropped later
    intro d registration hprior
    obtain ⟨d', hd', heq⟩ := Option.map_eq_some_iff.mp hprior
    cases heq
    exact ⟨rfl, h.dependency id record d hrecord hd'⟩
  | requeueUnpolled id =>
    obtain ⟨record, hrecord, hstate, rfl⟩ := withWork_if_eq_some hstep
    refine Ok.same ?_ (.queueByKind _ id record.kind)
    refine h.touch hrecord rfl (by simp) ?_ nofun
    -- and back: work that was not polled keeps its dependency
    intro d hd
    obtain ⟨⟨d', registration⟩, hprior, rfl⟩ := Option.map_eq_some_iff.mp hd
    obtain ⟨rfl, hissued⟩ := h.prior id record d' registration hrecord hprior
    exact hissued
  | release t id poll =>
    obtain ⟨record, hrecord, hstep⟩ := withWork_eq_some hstep
    split_ifs at hstep with hstate
    obtain ⟨hidle, rfl⟩ := whenIdle_eq_some hstep
    exact h.release hrecord hidle poll
  | terminalize id =>
    obtain ⟨record, hrecord, hstep⟩ := withWork_eq_some hstep
    split_ifs at hstep with hstate
    cases hstep
    refine Ok.same ?_ ((SameWakes.removeObservationWaiter _ id).trans (.removeReady _ id))
    refine h.touch hrecord rfl (by simp) nofun ?_
    exact fun d registration hprior => h.prior id record d registration hrecord hprior
  | retire t id =>
    obtain ⟨record, hrecord, hstep⟩ := withWork_eq_some hstep
    by_cases hstate : record.state = .running
    · rw [if_pos hstate] at hstep
      cases hstep
    · rw [if_neg hstate] at hstep
      obtain ⟨hidle, rfl⟩ := whenIdle_eq_some hstep
      -- the record goes, and its registration with it
      refine Ok.leave record.subscriptionEpoch hidle (h.remove id) nofun
        ((SameWakes.removeObservationWaiter _ id).trans (.removeReady _ id)) _ ?_
      intro d registration hsome
      split_ifs at hsome with hkind
      obtain ⟨d', hd', heq⟩ := Option.map_eq_some_iff.mp hsome
      cases heq
      exact ⟨rfl, h.dependency id record d hrecord hd'⟩
  | publish t d =>
    obtain ⟨hidle, rfl⟩ := whenIdle_eq_some hstep
    refine h.publish hidle d _ fun d' hd' => ?_
    by_cases hd : d' = d
    · exact .inl hd
    · exact .inr (by rwa [Function.update_of_ne hd] at hd')
  | notifyPublished t d =>
    simp only [State.step] at hstep
    split_ifs at hstep with hterminal
    obtain ⟨hidle, rfl⟩ := whenIdle_eq_some hstep
    exact h.publish hidle d s.terminal fun _ hd' => .inr hd'
  | observe registration currentEpoch =>
    simp only [State.step] at hstep
    split_ifs at hstep with hmem
    exact Option.some.inj hstep ▸ h.queueCurrentObservation registration currentEpoch
  | inspect t id abandon =>
    obtain ⟨record, hrecord, hstep⟩ := withWork_eq_some hstep
    split at hstep
    case h_2 => cases hstep
    case h_1 d _ _ hd =>
      obtain ⟨hidle, rfl⟩ := whenIdle_eq_some hstep
      refine h.start hidle _ ⟨nofun, nofun, ?_⟩ (fun _ h => h)
      rintro d' registration ⟨rfl, rfl⟩
      exact h.dependency id record d hrecord hd
  | proceed => exact h.proceed hstep

theorem Reachable.ok (h : Reachable s) : s.Ok := by
  induction h with
  | initial => exact .initial
  | step _ hstep ih => exact ih.step hstep

end Steps

end Glam.Coordinator.State
