import Glam.Coordinator.WakeSteps
import Mathlib.Algebra.BigOperators.Group.Finset.Basic
import Mathlib.Algebra.Order.BigOperators.Group.Finset

/-!
# No lost and no spurious wake-ups

The subscription invariant says where the registration of a blocked work is. What is left is to see
that the operations in flight can always finish, and when they have, that nobody is blocked on a
terminal source (`Reachable.finish`, `Ok.not_terminal`). An operation waits only for the
registrations of a source, whose holder has but one step to go, so some operation can always take a
step, and each step leaves its operation less to do (`Operation.rank`).

In the other direction, `Queues` says what queues a blocked work: a batch of a terminal source that
has the registration of the work's latest block, or a later epoch of what the block observed. -/

namespace Glam.Coordinator

variable {T D : Type}

namespace Operation

/-- The operation is notifying the works that wait for source `d`. -/
def Notifies : Operation D → D → Prop
  | .taking d', d => d' = d
  | .waking d' _ _, d => d' = d
  | _, _ => False

/-- How many steps the operation has left, at most. -/
def rank : Operation D → Nat
  | .idle => 0
  | .unsubscribing _ _ => 1
  | .inserting _ _ _ | .waking _ _ _ | .abandoning _ _ _ => 2
  | .subscribing _ _ _ | .taking _ | .inspecting _ _ _ => 3

theorem rank_eq_zero {operation : Operation D} : operation.rank = 0 ↔ operation = .idle := by
  cases operation <;> simp [rank]

end Operation

namespace State

open Operation

variable {s s' : State T D} {id : Nat} {record : WorkRecord D} {t : T} {d : D}
  {registration : WakeRegistration}

theorem rank_dropping_le (obsolete : Option (D × WakeRegistration)) :
    (dropping obsolete).rank ≤ 1 := by
  unfold dropping
  split <;> simp [rank]

theorem not_notifies_dropping (obsolete : Option (D × WakeRegistration)) :
    ¬(dropping obsolete).Notifies d := by
  unfold dropping
  split <;> exact fun h => h

/-! ### The operation that moves -/

section Operations

variable [DecidableEq T]

/-- At most one operation moves, and what it starts to notify for is terminal. -/
structure Moves (s s' : State T D) : Prop where
  terminal : ∀ d, s.terminal d = true → s'.terminal d = true
  operation : s'.operation = s.operation ∨ ∃ t next,
    s'.operation = Function.update s.operation t next ∧
      ∀ d, next.Notifies d → (s.operation t).Notifies d ∨ s'.terminal d = true

/-- The operation `t` moves and has less to do than before. -/
structure Proceeds (s s' : State T D) (t : T) (next : Operation D) : Prop where
  terminal : s'.terminal = s.terminal
  operation : s'.operation = Function.update s.operation t next
  rank : next.rank < (s.operation t).rank
  notifies : ∀ d, next.Notifies d → (s.operation t).Notifies d ∨ s.terminal d = true

theorem Moves.stay (hterminal : s'.terminal = s.terminal) (hoperation : s'.operation = s.operation) :
    s.Moves s' :=
  ⟨fun _ h => hterminal ▸ h, .inl hoperation⟩

theorem Moves.same (hsame : s.SameWakes s') : s.Moves s' := .stay hsame.terminal hsame.operation

theorem Moves.go {next : Operation D} (hterminal : s'.terminal = s.terminal)
    (hoperation : s'.operation = s.operation) (hnext : ∀ d, ¬next.Notifies d) :
    s.Moves (s'.setOperation t next) where
  terminal _ h := hterminal ▸ h
  operation := by
    refine .inr ⟨t, next, ?_, fun d h => (hnext d h).elim⟩
    rw [State.setOperation, hoperation]

theorem Proceeds.moves {next : Operation D} (h : s.Proceeds s' t next) : s.Moves s' where
  terminal _ hd := h.terminal ▸ hd
  operation := .inr ⟨t, next, h.operation, fun d hd =>
    (h.notifies d hd).imp_right fun hterminal => h.terminal ▸ hterminal⟩

theorem Proceeds.dropping {changed : State T D} (hterminal : changed.terminal = s.terminal)
    (hoperation : changed.operation = s.operation) (hrank : 2 ≤ (s.operation t).rank)
    (obsolete : Option (D × WakeRegistration)) :
    s.Proceeds (changed.setOperation t (dropping obsolete)) t (State.dropping obsolete) where
  terminal := hterminal
  operation := by rw [State.setOperation, hoperation]
  rank := (rank_dropping_le obsolete).trans_lt hrank
  notifies _ h := (not_notifies_dropping _ h).elim

/-- Giving work back moves at most the operation of its own thread. -/
theorem Moves.release (poll : Poll D) : s.Moves (s.release t id record poll) := by
  cases poll with
  | runnable queued =>
    cases queued with
    | false => exact .go rfl rfl fun d => not_notifies_dropping _
    | true =>
      have hsame := SameWakes.queueByKind ((s.setWork id (some { record with
        state := .queued
        dependency := none
        observedEpoch := none
        prior := none })).removeObservationWaiter id) id record.kind
      exact .go hsame.terminal hsame.operation fun d => not_notifies_dropping _
  | blocked dependency observedEpoch =>
    cases dependency with
    | none => exact .go rfl rfl fun d => not_notifies_dropping _
    | some d => exact .go rfl rfl fun d h => h
  | terminal =>
    unfold State.release
    split_ifs
    · exact .go rfl rfl fun d => not_notifies_dropping _
    · exact .stay rfl rfl

variable [DecidableEq D]

/-- An operation that goes on has less to do than before. -/
theorem Ok.proceeds (hok : s.Ok) (hstep : s.proceed t = some s') :
    ∃ next, s.Proceeds s' t next := by
  cases proceed_cases hstep with
  | subscribeTerminal hop hterminal | inspectTerminal hop hterminal =>
    exact ⟨_, rfl, rfl, by simp [hop, rank], fun d' h => .inr (h ▸ hterminal)⟩
  | subscribePending hop | unsubscribe hop | inspectPending hop | keep hop | abandon hop =>
    exact ⟨_, rfl, rfl, by simp [hop, rank], fun d' h => h.elim⟩
  | @insert _ _ obsolete hop =>
    have hrank : 2 ≤ (s.operation t).rank := by simp [hop, rank]
    refine ⟨_, .dropping ?_ ?_ hrank obsolete⟩ <;> rfl
  | @deliver d registrations obsolete hop =>
    have hwoken := (hok.wakeDependencyBatch registrations fun registration hmem =>
      hok.carried t d registration (by rw [hop]; exact ⟨rfl, hmem⟩)).2.1
    exact ⟨_, .dropping hwoken.terminal hwoken.operation (by simp [hop, rank]) obsolete⟩
  | take hop => exact ⟨_, rfl, rfl, by simp [hop, rank], fun d' h => .inl (by rw [hop]; exact h)⟩

/-- Every step moves at most one operation. -/
theorem Ok.moves {a : Action T D} (hok : s.Ok) (hstep : s.step a = some s') : s.Moves s' := by
  cases a with
  | reserve kind state =>
    simp only [State.step] at hstep
    split_ifs at hstep with hstate hqueued
    · cases hstep
      exact .stay (SameWakes.queueByKind _ _ kind).terminal (SameWakes.queueByKind _ _ kind).operation
    · exact Option.some.inj hstep ▸ .stay rfl rfl
  | activate id | requeueUnpolled id =>
    obtain ⟨record, -, -, rfl⟩ := withWork_if_eq_some hstep
    exact .stay (SameWakes.queueByKind _ id record.kind).terminal
      (SameWakes.queueByKind _ id record.kind).operation
  | releaseInline | claim =>
    obtain ⟨record, -, -, rfl⟩ := withWork_if_eq_some hstep
    exact .stay rfl rfl
  | release t id poll =>
    obtain ⟨record, -, hstep⟩ := withWork_eq_some hstep
    split_ifs at hstep
    obtain ⟨-, rfl⟩ := whenIdle_eq_some hstep
    exact .release poll
  | terminalize =>
    obtain ⟨record, -, hstep⟩ := withWork_eq_some hstep
    split_ifs at hstep
    cases hstep
    exact .stay rfl rfl
  | retire =>
    obtain ⟨record, -, hstep⟩ := withWork_eq_some hstep
    split at hstep
    · cases hstep
    · obtain ⟨-, rfl⟩ := whenIdle_eq_some hstep
      exact .go rfl rfl fun d => not_notifies_dropping _
  | publish t d =>
    obtain ⟨-, rfl⟩ := whenIdle_eq_some hstep
    -- the thread that makes a dependency terminal notifies for it
    refine ⟨fun d' hd' => ?_, .inr ⟨t, .taking d, rfl, fun d' hd' => .inr ?_⟩⟩
    · exact (Function.update_apply ..).trans (by simp [hd'])
    · show Function.update s.terminal d true d' = true
      rw [show d = d' from hd', Function.update_self]
  | notifyPublished t d =>
    simp only [State.step] at hstep
    split_ifs at hstep with hterminal
    obtain ⟨-, rfl⟩ := whenIdle_eq_some hstep
    exact ⟨fun _ h => h, .inr ⟨t, .taking d, rfl, fun d' hd' => .inr (hd' ▸ hterminal)⟩⟩
  | observe registration currentEpoch =>
    simp only [State.step] at hstep
    split_ifs at hstep with hmem
    cases hstep
    obtain hsame | ⟨record, -, -, -, -, -, hsame⟩ :=
      queueCurrentObservation_cases s registration currentEpoch
    · exact .same hsame
    · exact .stay hsame.terminal hsame.operation
  | inspect =>
    obtain ⟨record, -, hstep⟩ := withWork_eq_some hstep
    split at hstep
    · obtain ⟨-, rfl⟩ := whenIdle_eq_some hstep
      exact .go rfl rfl fun d h => h
    · cases hstep
  | proceed =>
    obtain ⟨next, hproceeds⟩ := hok.proceeds hstep
    exact hproceeds.moves

/-- **A producer notifies only when its source is terminal.** -/
theorem Reachable.notifies (h : Reachable s) (hnotifies : (s.operation t).Notifies d) :
    s.terminal d = true := by
  induction h generalizing t d with
  | initial => exact hnotifies.elim
  | step hreach hstep ih =>
    have hmoves := hreach.ok.moves hstep
    obtain hsame | ⟨t', next, heq, hnext⟩ := hmoves.operation
    · exact hmoves.terminal d (ih (hsame ▸ hnotifies))
    · rw [heq, Function.update_apply] at hnotifies
      split_ifs at hnotifies
      · exact (hnext d hnotifies).elim (fun h => hmoves.terminal d (ih h)) (fun h => h)
      · exact hmoves.terminal d (ih hnotifies)

/-! ### The operations in flight finish -/

theorem Reachable.finite (h : Reachable s) :
    ∃ active : Finset T, ∀ t ∉ active, s.operation t = .idle := by
  induction h with
  | initial => exact ⟨∅, fun _ _ => rfl⟩
  | step hreach hstep ih =>
    obtain ⟨active, hactive⟩ := ih
    obtain hsame | ⟨t', next, heq, -⟩ := (hreach.ok.moves hstep).operation
    · exact ⟨active, fun t ht => by rw [hsame, hactive t ht]⟩
    · refine ⟨insert t' active, fun t ht => ?_⟩
      obtain ⟨hne, hnot⟩ := not_or.mp (Finset.mem_insert.not.mp ht)
      rw [heq, Function.update_of_ne hne, hactive t hnot]

/-- The operation that holds the registrations of a source can let go of them. -/
theorem Ok.holder_proceeds (hok : s.Ok) (hheld : s.held d = some t) :
    ∃ s', s.proceed t = some s' := by
  have hinserts := (hok.held d t).mp hheld
  unfold State.proceed
  cases hop : s.operation t <;> rw [hop] at hinserts <;> try exact hinserts.elim
  exact ⟨_, rfl⟩

/-- **Nobody waits for ever**: while an operation is in flight, one can take a step. -/
theorem Ok.exists_proceed (hok : s.Ok) (hactive : s.operation t ≠ .idle) :
    ∃ t' s', s.proceed t' = some s' := by
  have hwaits : ∀ {d : D}, (s.held d = none → ∃ s', s.proceed t = some s') →
      ∃ t' s', s.proceed t' = some s' := by
    intro d hfree
    cases hheld : s.held d with
    | none => exact ⟨t, hfree hheld⟩
    | some holder => exact ⟨holder, hok.holder_proceeds hheld⟩
  cases hop : s.operation t with
  | idle => exact absurd hop hactive
  | subscribing d registration obsolete =>
    refine hwaits (d := d) fun hfree => ?_
    simp only [State.proceed, hop, if_pos hfree]
    split_ifs <;> exact ⟨_, rfl⟩
  | inserting | waking => exact ⟨t, _, by simp only [State.proceed, hop]; rfl⟩
  | unsubscribing d registration | taking d =>
    refine hwaits (d := d) fun hfree => ?_
    simp only [State.proceed, hop, if_pos hfree]
    exact ⟨_, rfl⟩
  | inspecting =>
    refine ⟨t, ?_⟩
    simp only [State.proceed, hop]
    split_ifs <;> exact ⟨_, rfl⟩
  | abandoning d registration abandon =>
    refine ⟨t, ?_⟩
    simp only [State.proceed, hop]
    cases s.work registration.work with
    | none => exact ⟨_, rfl⟩
    | some =>
      dsimp only
      split_ifs <;> exact ⟨_, rfl⟩

/-- A step of an operation in flight. -/
def Runs (s' s : State T D) : Prop := ∃ t, s.proceed t = some s'

/-- **The operations in flight finish**, in whatever order they go on. -/
theorem Ok.acc_runs (hok : s.Ok) {active : Finset T} (hactive : ∀ t ∉ active, s.operation t = .idle) :
    Acc Runs s := by
  -- each step leaves the operations less to do in all
  induction hsum : ∑ t ∈ active, (s.operation t).rank using Nat.strong_induction_on generalizing s with
  | _ sum ih =>
    refine Acc.intro s fun s' ⟨t, hstep⟩ => ?_
    obtain ⟨next, hproceeds⟩ := hok.proceeds hstep
    have ht : t ∈ active := by
      by_contra hnot
      have hrank := hproceeds.rank
      rw [hactive t hnot] at hrank
      exact Nat.not_lt_zero _ hrank
    have hless : ∑ t' ∈ active, (s'.operation t').rank < sum := by
      rw [← hsum]
      refine Finset.sum_lt_sum (fun t' _ => ?_) ⟨t, ht, ?_⟩
      · rw [hproceeds.operation, Function.update_apply]
        split_ifs with heq
        · exact heq ▸ hproceeds.rank.le
        · exact le_rfl
      · rw [hproceeds.operation, Function.update_self]
        exact hproceeds.rank
    refine ih _ hless (hok.proceed hstep) (fun t' ht' => ?_) rfl
    rw [hproceeds.operation, Function.update_of_ne (ne_of_mem_of_not_mem ht ht').symm, hactive t' ht']

omit [DecidableEq T] [DecidableEq D] in
/-- **Nobody is left blocked on a terminal source** when no operation is in flight. -/
theorem Ok.not_terminal (hok : s.Ok) (hidle : ∀ t, s.operation t = .idle)
    (hrecord : s.work id = some record) (hblocked : record.state = .blocked)
    (hd : record.dependency = some d) : s.terminal d = false := by
  by_contra hterminal
  obtain hstored | ⟨t, hcarries⟩ := hok.waits id record d hrecord hblocked hd
  · obtain ⟨t, htakes⟩ := hok.published d (by simpa using hterminal) (.inl (List.ne_nil_of_mem hstored))
    rw [hidle t] at htakes
    exact htakes
  · rw [hidle t] at hcarries
    exact hcarries

end Operations

/-! ### What queues a blocked work -/

section Queues

variable [DecidableEq D]

/-- A batch queues a blocked work only if it has the registration of the work's block. -/
theorem Ok.queued_of_batch (hok : s.Ok) {registrations : List WakeRegistration}
    (hrecord : s.work id = some record) (hblocked : record.state = .blocked)
    (hchanged : (s.wakeDependencyBatch d registrations).work id ≠ some record) :
    ⟨id, record.subscriptionEpoch⟩ ∈ registrations ∧ record.dependency = some d := by
  induction registrations generalizing s with
  | nil => exact absurd hrecord hchanged
  | cons first rest ih =>
    have hok' := (hok.queueCurrentRegistration first (some d)).1
    obtain ⟨current, hfirst, hcurrent, -, hsame⟩ | hnone :=
      queueCurrentRegistration_cases s first (some d)
    · obtain ⟨-, hepoch, hsource⟩ := hcurrent
      by_cases hid : id = first.work
      · -- the first registration is current for this work
        rw [hid, hfirst, Option.some.injEq] at hrecord
        subst hrecord
        refine ⟨List.mem_cons.mpr (.inl ?_), hsource d rfl⟩
        rw [hid, hepoch]
      · have hkept : (s.queueCurrentRegistration first (some d)).2.work id = some record := by
          rw [hsame.work, work_setWork, if_neg hid, hrecord]
        exact (ih hok' hkept hchanged).imp_left (.tail _)
    · have hkept : (s.queueCurrentRegistration first (some d)).2.work id = some record := by
        rw [hnone.2, hrecord]
      exact (ih hok' hkept hchanged).imp_left (.tail _)

variable [DecidableEq T]

/-- How a step may take a work out of its block and queue it. -/
inductive Queues (s : State T D) (id : Nat) (record : WorkRecord D) : Action T D → Prop
  /-- a terminal source delivers the registration of the block, which is the last one of the work -/
  | registration {t : T} {d : D} {registrations : List WakeRegistration}
      {obsolete : Option (D × WakeRegistration)}
      (operation : s.operation t = .waking d registrations obsolete)
      (mem : ⟨id, record.subscriptionEpoch⟩ ∈ registrations)
      (last : (s.blocks id).getLast? = some (some d))
      (terminal : s.terminal d = true) : Queues s id record (.proceed t)
  /-- what the block observed has changed -/
  | observation {registration : ObservationRegistration} {currentEpoch : Nat}
      (wake : registration.wake = ⟨id, record.subscriptionEpoch⟩)
      (observed : record.observedEpoch = some registration.observedEpoch)
      (later : registration.observedEpoch < currentEpoch) :
      Queues s id record (.observe registration currentEpoch)

omit [DecidableEq T] [DecidableEq D] in
theorem work_queueByKind (s : State T D) (other : Nat) (kind : WorkKind) :
    (s.queueByKind other kind).work = s.work :=
  (SameWakes.queueByKind s other kind).work

variable {changing record' : WorkRecord D}

omit [DecidableEq T] [DecidableEq D] in
theorem ne_of_not_blocked {other : Nat} (hrecord : s.work id = some record)
    (hblocked : record.state = .blocked) (hother : s.work other = some changing)
    (hstate : changing.state ≠ .blocked) : id ≠ other := by
  rintro rfl
  rw [hother, Option.some.injEq] at hrecord
  exact hstate (hrecord ▸ hblocked)

omit [DecidableEq D] in
/-- Giving work back leaves other work alone. -/
theorem work_release {other : Nat} (hne : id ≠ other) (poll : Poll D) :
    (s.release t other changing poll).work id = s.work id := by
  cases poll with
  | runnable queued =>
    cases queued <;>
      simp [State.release, State.setOperation, work_queueByKind, removeObservationWaiter,
        work_setWork, hne]
  | blocked dependency observedEpoch =>
    cases dependency <;> exact Function.update_of_ne hne ..
  | terminal =>
    unfold State.release
    split_ifs <;> exact Function.update_of_ne hne ..

/-- The operations queue works only in batches. -/
theorem Reachable.queues_proceed (hreach : Reachable s) (hstep : s.proceed t = some s')
    (hrecord : s.work id = some record) (hblocked : record.state = .blocked)
    (hrecord' : s'.work id = some record') (hchanged : s'.work id ≠ s.work id) :
    s.Queues id record (.proceed t) := by
  have hok := hreach.ok
  cases proceed_cases hstep with
  | deliver hop =>
    obtain ⟨hmem, hd⟩ := hok.queued_of_batch hrecord hblocked (hrecord ▸ hchanged)
    refine .registration hop hmem ?_ (hreach.notifies (by rw [hop]; rfl))
    have hlast := hok.blocked id record hrecord hblocked
    rw [hok.epoch id record hrecord, hd] at hlast
    rw [List.getLast?_eq_getElem?, hlast]
  | @abandon _ registration _ _ =>
    -- an abandoned demand has no record
    by_cases hid : id = registration.work
    · simp [State.setOperation, removeReady, work_setWork, hid] at hrecord'
    · exact absurd (Function.update_of_ne hid ..) hchanged
  -- the other steps change no work
  | _ => exact absurd rfl hchanged

/-- **What queues a blocked work.** -/
theorem Reachable.queues {a : Action T D} (hreach : Reachable s) (hstep : s.step a = some s')
    (hrecord : s.work id = some record) (hblocked : record.state = .blocked)
    (hrecord' : s'.work id = some record') (hqueued : record'.state = .queued) :
    s.Queues id record a := by
  have hok := hreach.ok
  -- the step changed the record, and most steps cannot
  have hchanged : s'.work id ≠ s.work id := by
    rw [hrecord, hrecord', Ne, Option.some.injEq]
    rintro rfl
    simp [hblocked] at hqueued
  cases a with
  | reserve =>
    refine absurd ?_ hchanged
    have hne : id ≠ s.nextWork := by
      rintro rfl
      simp [(hok.fresh s.nextWork le_rfl).1] at hrecord
    simp only [State.step] at hstep
    split_ifs at hstep <;> obtain rfl := Option.some.inj hstep <;>
      simp [work_queueByKind, work_setWork, hne]
  | activate other | releaseInline other | claim other | requeueUnpolled other =>
    obtain ⟨changing, hother, hstate, rfl⟩ := withWork_if_eq_some hstep
    refine absurd ?_ hchanged
    -- these change work that is not blocked
    have hne : id ≠ other := ne_of_not_blocked hrecord hblocked hother (by rintro h; simp [h] at hstate)
    simp [removeReady, removeObservationWaiter, work_queueByKind, work_setWork, hne]
  | release t other poll =>
    obtain ⟨changing, hother, hstep⟩ := withWork_eq_some hstep
    split_ifs at hstep with hstate
    obtain ⟨-, rfl⟩ := whenIdle_eq_some hstep
    refine absurd ?_ hchanged
    exact work_release (ne_of_not_blocked hrecord hblocked hother (by simp [hstate])) poll
  | terminalize other =>
    obtain ⟨changing, hother, hstep⟩ := withWork_eq_some hstep
    split_ifs at hstep with hstate
    cases hstep
    by_cases hid : id = other
    · subst hid
      have hnew := (Function.update_self id _ s.work).symm.trans hrecord'
      rw [← Option.some.inj hnew] at hqueued
      cases hqueued
    · exact absurd (Function.update_of_ne hid ..) hchanged
  | retire t other =>
    obtain ⟨changing, hother, hstep⟩ := withWork_eq_some hstep
    split at hstep
    · cases hstep
    · obtain ⟨-, rfl⟩ := whenIdle_eq_some hstep
      by_cases hid : id = other
      · simp [State.setOperation, removeReady, removeObservationWaiter, work_setWork, hid] at hrecord'
      · exact absurd (Function.update_of_ne hid ..) hchanged
  | publish =>
    obtain ⟨-, rfl⟩ := whenIdle_eq_some hstep
    exact absurd rfl hchanged
  | notifyPublished =>
    simp only [State.step] at hstep
    split_ifs at hstep with hterminal
    obtain ⟨-, rfl⟩ := whenIdle_eq_some hstep
    exact absurd rfl hchanged
  | observe registration currentEpoch =>
    simp only [State.step] at hstep
    split_ifs at hstep with hmem
    cases hstep
    obtain hsame | ⟨changing, hother, -, hepoch, hobserved, hlater, hsame⟩ :=
      queueCurrentObservation_cases s registration currentEpoch
    · exact absurd (congrFun hsame.work id) hchanged
    · by_cases hid : id = registration.wake.work
      · subst hid
        rw [hother, Option.some.injEq] at hrecord
        subst hrecord
        -- the one change here is that of an observer whose epoch is past
        exact .observation (by rw [hepoch]) hobserved hlater
      · rw [hsame.work, work_setWork, if_neg hid] at hchanged
        exact absurd rfl hchanged
  | inspect =>
    obtain ⟨changing, hother, hstep⟩ := withWork_eq_some hstep
    split at hstep
    · obtain ⟨-, rfl⟩ := whenIdle_eq_some hstep
      exact absurd rfl hchanged
    · cases hstep
  | proceed => exact hreach.queues_proceed hstep hrecord hblocked hrecord' hchanged

end Queues

/-! ### The wake-up theorem -/

variable [DecidableEq T] [DecidableEq D]

/-- **No wake-up is lost and none is spurious.** In every state that works, clients and producers
get to by any interleaving of their steps:

* the operations in flight come to their end in whatever order they go on, and none of them is stuck
  before;
* when none is in flight, no work is blocked on a terminal dependency;
* a registration that was made for an earlier block of its work is not acted on, whatever source
  delivers it;
* a step queues a blocked work only if it delivers the registration of the work's last block, from the
  source of that block, which is terminal, or if what the block observed has changed. -/
theorem wakeups (h : Reachable s) :
    (Acc Runs s ∧ ((∀ t, s.proceed t = none) → ∀ t, s.operation t = .idle)) ∧
    ((∀ t, s.operation t = .idle) → ∀ id record d, s.work id = some record →
      record.state = .blocked → record.dependency = some d → s.terminal d = false) ∧
    (∀ registration source, registration.subscriptionEpoch < (s.blocks registration.work).length →
      s.queueCurrentRegistration registration source = (false, s)) ∧
    ∀ a s' id record record', s.step a = some s' → s.work id = some record →
      record.state = .blocked → s'.work id = some record' → record'.state = .queued →
      s.Queues id record a := by
  refine ⟨⟨?_, fun hstuck t => ?_⟩, ?_, ?_, ?_⟩
  · obtain ⟨active, hactive⟩ := h.finite
    exact h.ok.acc_runs hactive
  · by_contra hactive
    obtain ⟨t', s', hstep⟩ := h.ok.exists_proceed hactive
    rw [hstuck t'] at hstep
    cases hstep
  · exact fun hidle id record d => h.ok.not_terminal hidle
  · intro registration source hearlier
    obtain ⟨record, hrecord, ⟨-, hepoch, -⟩, -⟩ | ⟨-, hnone⟩ :=
      queueCurrentRegistration_cases s registration source
    · have hlength := h.ok.epoch registration.work record hrecord
      omega
    · exact hnone
  · exact fun a s' id record record' => h.queues

/-- **Subscriptions are exact.** In every state that interleavings get to, each registration that a
source keeps was made for a block of its work on that source, the block that its epoch counts. When
no operation is in flight, a blocked work is subscribed to the dependency it is blocked on, and a
source that is terminal keeps no registration. -/
theorem subscriptions (h : Reachable s) :
    (∀ d registration, registration ∈ s.registrations d → registration.subscriptionEpoch ≠ 0 ∧
      (s.blocks registration.work)[registration.subscriptionEpoch - 1]? = some (some d)) ∧
    ((∀ t, s.operation t = .idle) →
      (∀ id record d, s.work id = some record → record.state = .blocked →
        record.dependency = some d → ⟨id, record.subscriptionEpoch⟩ ∈ s.registrations d) ∧
      ∀ d, s.terminal d = true → s.registrations d = [] ∧ s.held d = none) := by
  refine ⟨h.ok.stored, fun hidle => ⟨?_, ?_⟩⟩
  · intro id record d hrecord hblocked hd
    refine (h.ok.waits id record d hrecord hblocked hd).resolve_right ?_
    rintro ⟨t, hcarries⟩
    rwa [hidle t] at hcarries
  · intro d hterminal
    by_contra hleft
    obtain ⟨t, htakes⟩ := h.ok.published d hterminal (not_and_or.mp hleft)
    rwa [hidle t] at htakes

/-- An interleaving: actions one after another. -/
def run (s : State T D) : List (Action T D) → Option (State T D)
  | [] => some s
  | a :: rest => (s.step a).bind fun s => s.run rest

theorem Reachable.of_run {actions : List (Action T D)} (h : Reachable s)
    (hrun : s.run actions = some s') : Reachable s' := by
  induction actions generalizing s with
  | nil => exact Option.some.inj hrun ▸ h
  | cons first rest ih =>
    obtain ⟨next, hstep, hrest⟩ := Option.bind_eq_some_iff.mp hrun
    exact ih (h.step hstep) hrest

/-- A work blocks on source `true` and is about to insert its registration when a producer
publishes; the producer then takes the registration and wakes the work. It blocks again, on source
`false`. -/
def blocksTwice : List (Action (Fin 2) Bool) :=
  [.reserve .deferred .queued, .claim 0, .release 0 0 (.blocked (some true) none), .proceed 0,
    .publish 1 true, .proceed 0, .proceed 1, .proceed 1, .claim 0,
    .release 0 0 (.blocked (some false) none), .proceed 0, .proceed 0]

/-- The work is blocked on `false`, and the registration of its first block does nothing to it. -/
theorem wakeups_blocksTwice : ∃ s : State (Fin 2) Bool, Reachable s ∧
    (∀ t, s.operation t = .idle) ∧ (s.work 0).map WorkRecord.state = some .blocked ∧
    s.terminal true = true ∧ s.terminal false = false ∧
    s.queueCurrentRegistration ⟨0, 1⟩ (some true) = (false, s) := by
  have hrun : ((State.initial.run blocksTwice).map fun s =>
      ((s.operation 0).rank, (s.operation 1).rank,
        (s.work 0).map fun record => (record.state, record.dependency),
        s.terminal true, (s.blocks 0).length)) =
      some (0, 0, some (.blocked, some false), true, 2) := by
    rfl
  obtain ⟨s, hs, heq⟩ := Option.map_eq_some_iff.mp hrun
  simp only [Prod.mk.injEq] at heq
  obtain ⟨hzero, hone, hwork, hterminal, hblocks⟩ := heq
  obtain ⟨record, hrecord, hpair⟩ := Option.map_eq_some_iff.mp hwork
  obtain ⟨hstate, hd⟩ := Prod.mk.inj hpair
  have hidle : ∀ t, s.operation t = .idle :=
    Fin.forall_fin_two.mpr ⟨rank_eq_zero.mp hzero, rank_eq_zero.mp hone⟩
  have hreach := Reachable.initial.of_run hs
  obtain ⟨-, hlost, hearlier, -⟩ := wakeups hreach
  refine ⟨s, hreach, hidle, by rw [hrecord, Option.map_some, hstate], hterminal,
    hlost hidle 0 record false hrecord hstate hd, hearlier ⟨0, 1⟩ (some true) ?_⟩
  rw [hblocks]
  exact Nat.one_lt_two

/-- The source that woke the work has no registration left. -/
theorem subscriptions_blocksTwice : ∃ s : State (Fin 2) Bool, Reachable s ∧
    (∀ t, s.operation t = .idle) ∧ s.terminal true = true ∧ s.registrations true = [] := by
  have hrun : ((State.initial.run blocksTwice).map fun s =>
      ((s.operation 0).rank, (s.operation 1).rank, s.terminal true)) = some (0, 0, true) := rfl
  obtain ⟨s, hs, heq⟩ := Option.map_eq_some_iff.mp hrun
  simp only [Prod.mk.injEq] at heq
  obtain ⟨hzero, hone, hterminal⟩ := heq
  have hidle : ∀ t, s.operation t = .idle :=
    Fin.forall_fin_two.mpr ⟨rank_eq_zero.mp hzero, rank_eq_zero.mp hone⟩
  have hreach := Reachable.initial.of_run hs
  exact ⟨s, hreach, hidle, hterminal, (((subscriptions hreach).2 hidle).2 true hterminal).1⟩

end State

end Glam.Coordinator
