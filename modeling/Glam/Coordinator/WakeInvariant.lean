import Glam.Coordinator.Wake

/-!
# The subscription invariant

`State.Ok` is the invariant of the coordinator's wake-ups. Its two main clauses are about one
blocked work and about one source:

* the registration of a blocked work's current block is with its source, or an operation has it in
  hand (`waits`);
* a terminal source that still has registrations, or whose registrations are held for an insertion,
  has a producer that is yet to take them (`published`). The subscriber looked at the terminal cell
  while it held the registrations, so the producer, who wrote the cell first, comes after it.

The other clauses say what a registration is: the epoch counts the blocks of its work, and the block
it was made for was on the source that has it (`Issued`). A registration that is to be dropped
belongs to a block that is over (`dropped`). -/

namespace Glam.Coordinator

variable {T D : Type}

namespace Operation

/-- The operation has a registration of source `d` to insert or to deliver. -/
def Carries : Operation D → D → WakeRegistration → Prop
  | .subscribing d' registration' _, d, registration => d' = d ∧ registration' = registration
  | .inserting d' registration' _, d, registration => d' = d ∧ registration' = registration
  | .waking d' registrations _, d, registration => d' = d ∧ registration ∈ registrations
  | _, _, _ => False

/-- The operation drops a registration of source `d` at its end. -/
def Drops : Operation D → D → WakeRegistration → Prop
  | .subscribing _ _ obsolete, d, registration => obsolete = some (d, registration)
  | .inserting _ _ obsolete, d, registration => obsolete = some (d, registration)
  | .waking _ _ obsolete, d, registration => obsolete = some (d, registration)
  | .unsubscribing d' registration', d, registration => d' = d ∧ registration' = registration
  | _, _, _ => False

/-- The operation looks at a registration of source `d`. -/
def Inspects : Operation D → D → WakeRegistration → Prop
  | .inspecting d' registration' _, d, registration => d' = d ∧ registration' = registration
  | .abandoning d' registration' _, d, registration => d' = d ∧ registration' = registration
  | _, _, _ => False

/-- The operation holds the registrations of source `d`. -/
def Inserts : Operation D → D → Prop
  | .inserting d' _ _, d => d' = d
  | _, _ => False

/-- The operation is yet to take the registrations of source `d`. -/
def Takes : Operation D → D → Prop
  | .taking d', d => d' = d
  | _, _ => False

end Operation

namespace State

open Operation

/-- The registration was made for a block on `d`, the one its epoch counts. -/
def Issued (s : State T D) (d : D) (registration : WakeRegistration) : Prop :=
  registration.subscriptionEpoch ≠ 0 ∧
    (s.blocks registration.work)[registration.subscriptionEpoch - 1]? = some (some d)

/-- The block that the registration was made for is over. -/
def Over (s : State T D) (registration : WakeRegistration) : Prop :=
  ∀ record, s.work registration.work = some record → record.state = .blocked →
    record.subscriptionEpoch ≠ registration.subscriptionEpoch

/-- **The invariant.** -/
structure Ok (s : State T D) : Prop where
  fresh : ∀ id, s.nextWork ≤ id → s.work id = none ∧ s.blocks id = []
  epoch : ∀ id record, s.work id = some record →
    record.subscriptionEpoch = (s.blocks id).length
  dependency : ∀ id record d, s.work id = some record → record.dependency = some d →
    s.Issued d ⟨id, record.subscriptionEpoch⟩
  blocked : ∀ id record, s.work id = some record → record.state = .blocked →
    (s.blocks id)[record.subscriptionEpoch - 1]? = some record.dependency
  prior : ∀ id record d registration, s.work id = some record →
    record.prior = some (d, registration) →
    registration = ⟨id, record.subscriptionEpoch⟩ ∧ s.Issued d registration
  stored : ∀ d registration, registration ∈ s.registrations d → s.Issued d registration
  carried : ∀ t d registration, (s.operation t).Carries d registration → s.Issued d registration
  dropped : ∀ t d registration, (s.operation t).Drops d registration →
    s.Issued d registration ∧ s.Over registration
  inspected : ∀ t d registration, (s.operation t).Inspects d registration →
    s.Issued d registration
  waits : ∀ id record d, s.work id = some record → record.state = .blocked →
    record.dependency = some d →
    ⟨id, record.subscriptionEpoch⟩ ∈ s.registrations d ∨
      ∃ t, (s.operation t).Carries d ⟨id, record.subscriptionEpoch⟩
  published : ∀ d, s.terminal d = true → s.registrations d ≠ [] ∨ s.held d ≠ none →
    ∃ t, (s.operation t).Takes d
  held : ∀ d t, s.held d = some t ↔ (s.operation t).Inserts d

/-- The invariant holds at the start. -/
theorem Ok.initial : (State.initial : State T D).Ok where
  fresh _ _ := ⟨rfl, rfl⟩
  epoch _ _ h := nomatch h
  dependency _ _ _ h := nomatch h
  blocked _ _ h := nomatch h
  prior _ _ _ _ h := nomatch h
  stored _ _ h := nomatch h
  carried _ _ _ h := nomatch h
  dropped _ _ _ h := nomatch h
  inspected _ _ _ h := nomatch h
  waits _ _ _ h := nomatch h
  published _ h := nomatch h
  held _ _ := ⟨nofun, nofun⟩

/-! ### What the queues do not matter for -/

/-- The states differ in their queues and observations only. -/
structure SameWakes (s s' : State T D) : Prop where
  nextWork : s'.nextWork = s.nextWork
  work : s'.work = s.work
  terminal : s'.terminal = s.terminal
  registrations : s'.registrations = s.registrations
  held : s'.held = s.held
  operation : s'.operation = s.operation
  blocks : s'.blocks = s.blocks

variable {s s' : State T D} {id : Nat} {record record' : WorkRecord D} {t : T} {d : D}
  {registration : WakeRegistration}

theorem SameWakes.refl (s : State T D) : s.SameWakes s := ⟨rfl, rfl, rfl, rfl, rfl, rfl, rfl⟩

theorem SameWakes.trans {s₁ s₂ s₃ : State T D} (h : s₁.SameWakes s₂) (h' : s₂.SameWakes s₃) :
    s₁.SameWakes s₃ :=
  ⟨h'.1.trans h.1, h'.2.trans h.2, h'.3.trans h.3, h'.4.trans h.4, h'.5.trans h.5, h'.6.trans h.6,
    h'.7.trans h.7⟩

theorem SameWakes.queueTask (s : State T D) (id : Nat) : s.SameWakes (s.queueTask id) := by
  unfold State.queueTask
  split
  · exact .refl s
  · exact ⟨rfl, rfl, rfl, rfl, rfl, rfl, rfl⟩

theorem SameWakes.queueClientDemand (s : State T D) (id : Nat) :
    s.SameWakes (s.queueClientDemand id) := by
  unfold State.queueClientDemand
  split
  · exact .refl s
  · exact ⟨rfl, rfl, rfl, rfl, rfl, rfl, rfl⟩

theorem SameWakes.queueByKind (s : State T D) (id : Nat) (kind : WorkKind) :
    s.SameWakes (s.queueByKind id kind) := by
  cases kind with
  | spark => exact .refl s
  | clientDemand => exact .queueClientDemand s id
  | reflection | deferred | lazyRoute => exact .queueTask s id

theorem SameWakes.removeReady (s : State T D) (id : Nat) : s.SameWakes (s.removeReady id) :=
  ⟨rfl, rfl, rfl, rfl, rfl, rfl, rfl⟩

theorem SameWakes.removeObservationWaiter (s : State T D) (id : Nat) :
    s.SameWakes (s.removeObservationWaiter id) :=
  ⟨rfl, rfl, rfl, rfl, rfl, rfl, rfl⟩

theorem Ok.same (h : s.Ok) (hsame : s.SameWakes s') : s'.Ok := by
  obtain ⟨hn, hw, ht, hr, hh, ho, hb⟩ := hsame
  cases s
  cases s'
  subst hn hw ht hr hh ho hb
  exact ⟨h.1, h.2, h.3, h.4, h.5, h.6, h.7, h.8, h.9, h.10, h.11, h.12⟩

/-! ### Changes to a record -/

theorem work_setWork (s : State T D) (id other : Nat) (record : Option (WorkRecord D)) :
    (s.setWork id record).work other = if other = id then record else s.work other :=
  Function.update_apply ..

/-- What the invariant asks of a work that is not blocked. -/
structure Unblocked (s : State T D) (id : Nat) (record : WorkRecord D) : Prop where
  state : record.state ≠ .blocked
  epoch : record.subscriptionEpoch = (s.blocks id).length
  dependency : ∀ d, record.dependency = some d → s.Issued d ⟨id, record.subscriptionEpoch⟩
  prior : ∀ d registration, record.prior = some (d, registration) →
    registration = ⟨id, record.subscriptionEpoch⟩ ∧ s.Issued d registration

/-- **Works that are not blocked may come and go**: no other clause looks at them. -/
theorem Ok.works (h : s.Ok) {nextWork : Nat} {work : Nat → Option (WorkRecord D)}
    (hfresh : ∀ id, nextWork ≤ id → work id = none ∧ s.blocks id = [])
    (hwork : ∀ {id record}, work id = some record →
      s.work id = some record ∨ s.Unblocked id record) :
    Ok { s with nextWork := nextWork, work := work } := by
  -- a blocked work is an old one
  have hold : ∀ {id record}, work id = some record → record.state = .blocked →
      s.work id = some record :=
    fun hrecord hblocked => (hwork hrecord).resolve_right fun hnew => hnew.state hblocked
  exact
    { h with
      fresh := hfresh
      epoch := fun id record hrecord => (hwork hrecord).elim (h.epoch id record) (·.epoch)
      dependency := fun id record d hrecord =>
        (hwork hrecord).elim (h.dependency id record d) (·.dependency d)
      blocked := fun id record hrecord hblocked => h.blocked id record (hold hrecord hblocked) hblocked
      prior := fun id record d registration hrecord =>
        (hwork hrecord).elim (h.prior id record d registration) (·.prior d registration)
      dropped := fun t d registration hdrop => ⟨(h.dropped t d registration hdrop).1,
        fun record hrecord hblocked =>
          (h.dropped t d registration hdrop).2 record (hold hrecord hblocked) hblocked⟩
      waits := fun id record d hrecord hblocked =>
        h.waits id record d (hold hrecord hblocked) hblocked }

/-- A record that is not blocked afterwards may change, if it keeps its epoch. -/
theorem Ok.touch (h : s.Ok) (hrecord : s.work id = some record)
    (hepoch : record'.subscriptionEpoch = record.subscriptionEpoch)
    (hstate : record'.state ≠ .blocked)
    (hdependency : ∀ d, record'.dependency = some d → s.Issued d ⟨id, record.subscriptionEpoch⟩)
    (hprior : ∀ d registration, record'.prior = some (d, registration) →
      registration = ⟨id, record.subscriptionEpoch⟩ ∧ s.Issued d registration) :
    (s.setWork id (some record')).Ok := by
  refine h.works (fun other hother => ?_) fun {other r} hr => ?_
  · have hne : other ≠ id := by
      rintro rfl
      rw [(h.fresh other hother).1] at hrecord
      cases hrecord
    rw [Function.update_of_ne hne]
    exact h.fresh other hother
  · rw [Function.update_apply] at hr
    split at hr
    next hid =>
      cases hr
      subst hid
      exact .inr ⟨hstate, hepoch.trans (h.epoch _ _ hrecord), hepoch ▸ hdependency, hepoch ▸ hprior⟩
    next => exact .inl hr

theorem Ok.remove (h : s.Ok) (id : Nat) : (s.setWork id none).Ok := by
  refine h.works (fun other hother => ?_) fun {other r} hr => ?_
  · rw [Function.update_apply]
    split
    · exact ⟨rfl, (h.fresh other hother).2⟩
    · exact h.fresh other hother
  · rw [Function.update_apply] at hr
    split at hr
    · cases hr
    · exact .inl hr

/-- New work keeps the invariant. -/
theorem Ok.reserve (h : s.Ok) (kind : WorkKind) {state : WorkState} (hstate : state ≠ .blocked) :
    ({ s with nextWork := s.nextWork + 1 }.setWork s.nextWork
      (some ⟨kind, state, 0, none, none, none⟩)).Ok := by
  refine h.works (fun other hother => ?_) fun {other r} hr => ?_
  · have hless : s.nextWork < other := hother
    rw [Function.update_of_ne hless.ne']
    exact h.fresh other hless.le
  · rw [Function.update_apply] at hr
    split at hr
    next hid =>
      cases hr
      have hblocks := (h.fresh other hid.ge).2
      exact .inr ⟨hstate, (congrArg List.length hblocks).symm, nofun, nofun⟩
    next => exact .inl hr

/-! ### Steps of an operation -/

section Operations

variable [DecidableEq T]

/-- What the invariant asks of an operation. -/
structure Admits (s : State T D) (operation : Operation D) : Prop where
  carried : ∀ d registration, operation.Carries d registration → s.Issued d registration
  dropped : ∀ d registration, operation.Drops d registration →
    s.Issued d registration ∧ s.Over registration
  inspected : ∀ d registration, operation.Inspects d registration → s.Issued d registration

omit [DecidableEq T] in
theorem Ok.admits (h : s.Ok) (t : T) : s.Admits (s.operation t) :=
  ⟨h.carried t, h.dropped t, h.inspected t⟩

theorem Admits.update {next : Operation D} (hnext : s'.Admits next)
    (h : ∀ t', s'.Admits (s.operation t')) (t' : T) :
    s'.Admits (Function.update s.operation t next t') := by
  rw [Function.update_apply]
  split
  · exact hnext
  · exact h t'

/-- **An operation and the sources.** What one operation may do to the sources while the works stay
as they are: every registration it had in hand or took from a source is still with a source or in
its hands, unless its block is over. -/
theorem Ok.sources (h : s.Ok) {current : Operation D} (hop : s.operation t = current)
    (next : Operation D) (terminal : D → Bool)
    (registrations : D → List WakeRegistration) (held : D → Option T)
    (hstored : ∀ d registration, registration ∈ registrations d → s.Issued d registration)
    (hnext : s.Admits next)
    (hkept : ∀ d registration,
      registration ∈ s.registrations d ∨ current.Carries d registration →
      registration ∈ registrations d ∨ next.Carries d registration ∨ s.Over registration)
    (hpublished : ∀ d, terminal d = true → registrations d ≠ [] ∨ held d ≠ none →
      next.Takes d ∨ ¬current.Takes d ∧ s.terminal d = true ∧
        (s.registrations d ≠ [] ∨ s.held d ≠ none))
    (hheld : ∀ d t', held d = some t' ↔
      (Function.update s.operation t next t').Inserts d) :
    Ok { s with
      terminal := terminal
      registrations := registrations
      held := held
      operation := Function.update s.operation t next } := by
  subst hop
  have hadmits := hnext.update h.admits (t := t)
  refine { h with
    stored := hstored
    carried := fun t' => (hadmits t').carried
    dropped := fun t' => (hadmits t').dropped
    inspected := fun t' => (hadmits t').inspected
    waits := ?waits
    published := ?published
    held := hheld }
  case waits =>
    intro id record d hrecord hblocked hd
    -- what was with the source or in the operation's hands is kept, since the block is not over
    have hkeep : ⟨id, record.subscriptionEpoch⟩ ∈ s.registrations d ∨
        (s.operation t).Carries d ⟨id, record.subscriptionEpoch⟩ →
        ⟨id, record.subscriptionEpoch⟩ ∈ registrations d ∨
          ∃ t', (Function.update s.operation t next t').Carries d
            ⟨id, record.subscriptionEpoch⟩ := by
      intro hhad
      obtain hstored | hcarry | hover := hkept d _ hhad
      · exact .inl hstored
      · exact .inr ⟨t, by rwa [Function.update_self]⟩
      · exact absurd rfl (hover record hrecord hblocked)
    obtain hstored | ⟨t', hcarry⟩ := h.waits id record d hrecord hblocked hd
    · exact hkeep (.inl hstored)
    · by_cases ht : t' = t
      · subst ht
        exact hkeep (.inr hcarry)
      · refine .inr ⟨t', ?_⟩
        show (Function.update s.operation t next t').Carries d _
        rwa [Function.update_of_ne ht]
  case published =>
    intro d hterminal hleft
    obtain htakes | ⟨hnot, hterminal', hleft'⟩ := hpublished d hterminal hleft
    · refine ⟨t, ?_⟩
      show (Function.update s.operation t next t).Takes d
      rwa [Function.update_self]
    · obtain ⟨t', htakes⟩ := h.published d hterminal' hleft'
      have ht : t' ≠ t := by
        rintro rfl
        exact hnot htakes
      refine ⟨t', ?_⟩
      show (Function.update s.operation t next t').Takes d
      rwa [Function.update_of_ne ht]

/-- An operation that holds what it held. -/
theorem Ok.held_update (h : s.Ok) {current next : Operation D} (hop : s.operation t = current)
    (hinserts : ∀ d, next.Inserts d ↔ current.Inserts d) (d : D) (t' : T) :
    s.held d = some t' ↔ (Function.update s.operation t next t').Inserts d := by
  rw [h.held]
  by_cases ht : t' = t
  · subst ht
    rw [Function.update_self, hop, hinserts]
  · rw [Function.update_of_ne ht]

end Operations

end State
end Glam.Coordinator
