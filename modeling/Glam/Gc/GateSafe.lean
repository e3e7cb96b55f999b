import Glam.Gc.GateSteps

/-!
# Exclusion and wake-ups at the admission gate

While the phase is `Exclusive` there is no outer mutator and no entry succeeds, and at most one
epoch is active (`GateState.gate_safe`). A thread that waits for the count to reach zero is not
forgotten: whenever the count is zero, some exit is on its way to the lock, and wakes every waiter
if it finds the count zero there. The exit that makes the count zero need not be the one that wakes:
an entry may be admitted before that exit has the lock (`GateState.exit_without_notification`). -/

namespace Glam.Gc

namespace GateState

variable {T : Type} [Fintype T] [DecidableEq T] {s s' : GateState T} {t : T}

/-- **What a step means for the threads that wait for zero.** -/
structure Wakes (s s' : GateState T) (t : T) : Prop where
  /-- whoever makes the count zero is on its way to the lock -/
  emptied : s.word.active ≠ 0 → s'.word.active = 0 → s.word.coordinated → (s'.pc t).exiting
  /-- an exit stays on its way until it has woken the waiters, or has found the count not zero -/
  exiting : (s.pc t).exiting →
    (s'.pc t).exiting ∨ s'.word.active ≠ 0 ∨ ∀ u, (s'.pc u).wantsZero = false
  /-- a thread begins to wait for zero only when the count is not zero -/
  waits : (s'.pc t).wantsZero → (s.pc t).wantsZero ∨ s'.word.active ≠ 0

omit [DecidableEq T] in
/-- A step of a thread that is not exiting, that keeps the admission it has and does not begin to
wait for zero while the count is zero. -/
theorem Wakes.plain (hm : Move s s' t) (hexiting : (s.pc t).exiting = false)
    (hkeeps : (s.pc t).admitted → (s'.pc t).admitted)
    (hwaits : (s'.pc t).wantsZero → (s.pc t).wantsZero ∨ s'.word.active ≠ 0) : Wakes s s' t where
  emptied := by
    intro hne hzero _
    have hcount := hm.count
    cases hwas : (s.pc t).admitted with
    | true =>
      rw [hwas, hkeeps hwas] at hcount
      omega
    | false =>
      rw [hwas] at hcount
      simp only [Bool.toNat_false, Nat.add_zero] at hcount
      omega
  exiting := fun hbad => nomatch hexiting.symm.trans hbad
  waits := hwaits

omit [DecidableEq T] in
/-- Such a step to where a thread does not wait for zero. -/
theorem Wakes.go {pc pc' : Pc} (hm : Move s s' t) (hpc : s.pc t = pc) (hpc' : s'.pc t = pc')
    (hexiting : pc.exiting = false) (hkeeps : pc.admitted → pc'.admitted)
    (hwants : pc'.wantsZero = false) : Wakes s s' t := by
  subst hpc hpc'
  exact .plain hm hexiting hkeeps fun hbad => nomatch hwants.symm.trans hbad

section Landing

omit [Fintype T]

@[simp] theorem wait_pc_self (s : GateState T) (t : T) (waiting : Waiting) (zero : Bool) :
    (s.wait t waiting zero).pc t = .parking waiting zero false := goto_pc_self ..

@[simp] theorem elect_pc_self (s : GateState T) (t : T) (back : Back) :
    (s.elect t back).pc t = .settling (.collector (s.completedEpoch + 1) back) := goto_pc_self ..

omit [DecidableEq T] in
@[simp] theorem fail_pc (s : GateState T) (t : T) : s.fail.pc t = s.pc t := rfl

end Landing

variable {sect : Section} {automatic : Bool}

omit [Fintype T] in
/-- What a thread has after a step under the lock, unless it is exiting or reads the count to wait.
-/
theorem hold_plain (automatic : Bool) (hpc : s.pc t = .holding sect)
    (hexiting : (Pc.holding sect).exiting = false)
    (hcollect : ∀ target, sect ≠ .start (.collect target)) :
    (sect.admitted → ((s.hold automatic t sect).pc t).admitted) ∧
      (((s.hold automatic t sect).pc t).wantsZero → (Pc.holding sect).wantsZero) := by
  cases sect with
  | start job =>
    cases job with
    | exit => cases hexiting
    | collect target => exact absurd rfl (hcollect target)
    | admission | target =>
      refine ⟨nofun, ?_⟩
      dsimp only [GateState.hold]
      split <;> try split
      all_goals simp [Pc.wantsZero, hpc]
    | finalize | complete | abandon =>
      dsimp only [GateState.hold]
      split <;> simp [Pc.wantsZero, hpc, Pc.admitted, Section.admitted, Job.admitted, Rest.admitted]
    | poison => simp [GateState.hold, Pc.wantsZero, Section.admitted, Job.admitted]
    | poisonHeld => simp [GateState.hold, Pc.wantsZero, Pc.admitted, Rest.admitted]
  | admitRead | admitCheck | exitRead | finalizeRead | finalizeCheck =>
    dsimp only [GateState.hold]
    split <;> simp [Pc.wantsZero, hpc, Section.admitted]
  | admitAdd | finalizeAdd => simp [GateState.hold, Pc.wantsZero, Section.admitted]
  | collectRead =>
    dsimp only [GateState.hold]
    split <;> simp_all [Pc.wantsZero, Section.admitted]

omit [Fintype T] in
/-- After all waiters have been woken by who has the lock, no thread waits for zero. -/
theorem Ok.notify_wantsZero [Fintype T] (h : s.Ok) (hpc : s.pc t = .holding sect) {rest : Rest}
    (u : T) : ((s.notify.goto t (.settling rest)).pc u).wantsZero = false := by
  by_cases hu : u = t
  · subst hu
    rw [goto_pc_self]
    rfl
  rw [goto_pc_of_ne _ _ hu]
  have hfree : (s.pc u).holds = false := by
    by_contra hbad
    have hholds := h.free_of_other hu (Bool.not_eq_false _ ▸ hbad)
    rw [hpc] at hholds
    cases hholds
  by_cases hw : s.waiters ≠ 0
  · unfold notify
    rw [if_pos hw]
    dsimp only
    cases hpcu : s.pc u with
    | holding | parking => rw [hpcu] at hfree; cases hfree
    | _ => rfl
  · unfold notify
    rw [if_neg hw]
    have hnone := tally_eq_zero.mp (h.waiters.symm.trans (Decidable.not_not.mp hw)) u
    cases hpcu : s.pc u with
    | holding | parking => rw [hpcu] at hfree; cases hfree
    | parked => rw [hpcu] at hnone; cases hnone
    | _ => rfl

/-- A section wakes whom its change concerns. -/
theorem Ok.hold_wakes (h : s.Ok) (automatic : Bool) (hpc : s.pc t = .holding sect) :
    Wakes s (s.hold automatic t sect) t := by
  have hm := h.hold automatic hpc
  by_cases hexiting : (Pc.holding sect).exiting = true
  · -- an exit, which reads the count and then wakes the waiters
    cases sect with
    | start job =>
      cases job with
      | exit after =>
        refine ⟨fun hne hzero _ => absurd ?_ hne, fun _ => ?_, fun hbad => ?_⟩
        · rw [← hzero]
          exact (Word.active_coordinate _).symm
        · by_cases hzero : s.word.active = 0
          · left
            show (((s.coordinate.goto t _).pc t).exiting : Prop)
            rw [goto_pc_self, hzero]
            rfl
          · right
            left
            show s.word.coordinate.active ≠ 0
            rw [Word.active_coordinate]
            exact hzero
        · rw [show (s.hold automatic t (.start (.exit after))).pc t = _ from goto_pc_self ..] at hbad
          cases hbad
      | _ => cases hexiting
    | exitRead after seen =>
      have hseen : seen = 0 := beq_iff_eq.mp hexiting
      have hall : ∀ u, ((s.hold automatic t (.exitRead after seen)).pc u).wantsZero = false := by
        intro u
        dsimp only [GateState.hold]
        rw [if_pos hseen]
        exact h.notify_wantsZero hpc u
      refine ⟨fun hne hzero _ => absurd ?_ hne, fun _ => .inr (.inr hall), fun hbad => ?_⟩
      · have hcount := hm.count
        rw [hpc] at hcount
        dsimp only [GateState.hold] at hcount hzero
        rw [if_pos hseen] at hcount hzero
        rw [goto_pc_self] at hcount
        have hout : (Pc.settling after.rest).admitted = false := after.rest_admitted
        have hwas : (Pc.holding (.exitRead after seen)).admitted = false := rfl
        rw [hout, hwas] at hcount
        omega
      · rw [hall t] at hbad
        cases hbad
    | _ => cases hexiting
  · have hexiting : (Pc.holding sect).exiting = false := Bool.not_eq_true _ ▸ hexiting
    by_cases hcollect : ∃ target, sect = .start (.collect target)
    · obtain ⟨target, rfl⟩ := hcollect
      refine Wakes.plain hm (by rw [hpc]; rfl) (by rw [hpc]; exact nofun) ?_
      intro hwants
      dsimp only [GateState.hold] at hwants ⊢
      split at hwants
      · rw [goto_pc_self] at hwants
        cases hwants
      · rename_i hgoing
        rw [if_neg hgoing]
        split at hwants
        · rw [wait_pc_self] at hwants
          cases hwants
        · rename_i hreads
          rw [if_neg hreads]
          rw [goto_pc_self] at hwants
          right
          show s.word.coordinate.active ≠ 0
          rw [Word.active_coordinate]
          exact bne_iff_ne.mp hwants
    · obtain ⟨hkeeps, hwaits⟩ := hold_plain automatic hpc hexiting fun target heq =>
        hcollect ⟨target, heq⟩
      exact Wakes.plain hm (by rw [hpc]; exact hexiting) (by rw [hpc]; exact hkeeps)
        (by rw [hpc]; exact fun hwants => .inl (hwaits hwants))

/-- A mutator that leaves wakes whom that concerns, at once or by way of the mutex. -/
theorem Ok.leave_wakes (h : s.Ok) {rest : Rest} {after : After} (hpc : s.pc t = .rest rest)
    (hadmitted : rest.admitted = true) : Wakes s (s.leave t after) t := by
  have hne : s.word.active ≠ 0 := h.active_ne_zero (by rw [hpc]; exact hadmitted)
  have hwants : ((s.leave t after).pc t).wantsZero = false := by
    unfold GateState.leave
    rw [if_neg hne]
    split <;> rw [goto_pc_self] <;> rfl
  refine ⟨fun _ _ hset => ?_, fun hbad => ?_, fun hbad => nomatch hwants.symm.trans hbad⟩
  · unfold GateState.leave
    rw [if_neg hne, if_pos hset, goto_pc_self]
    rfl
  · rw [hpc] at hbad
    cases hbad

/-- Every step wakes whom its change concerns. -/
theorem Ok.advance_wakes (h : s.Ok) {spurious : Bool}
    (hstep : s.advance automatic t spurious (s.pc t) = some s') : Wakes s s' t := by
  have hm := h.advance hstep
  generalize hpc : s.pc t = pc at hstep
  cases pc with
  | rest rest =>
    cases rest with
    | collecting =>
      cases hstep
      exact .go hm hpc (goto_pc_self ..) rfl nofun rfl
    | _ => cases hstep
  | trying =>
    unfold GateState.advance at hstep
    dsimp only at hstep
    split at hstep
    · cases hstep
      exact .go hm hpc (goto_pc_self ..) rfl nofun rfl
    · split at hstep <;>
        (obtain rfl := Option.some.inj hstep; exact .go hm hpc (goto_pc_self ..) rfl nofun rfl)
  | locking job =>
    unfold GateState.advance at hstep
    dsimp only at hstep
    split at hstep
    · cases hstep
      -- with the lock, an exit is still on its way to wake the waiters
      refine ⟨fun hne hzero => absurd hzero hne, fun hexiting => .inl ?_, fun hbad => ?_⟩
      · rw [hpc] at hexiting
        rw [goto_pc_self]
        cases job with
        | exit => rfl
        | _ => cases hexiting
      · rw [goto_pc_self] at hbad
        cases hbad
    · cases hstep
  | waking =>
    unfold GateState.advance at hstep
    dsimp only at hstep
    split at hstep
    · cases hstep
      exact .go hm hpc (goto_pc_self ..) rfl nofun rfl
    · cases hstep
  | holding =>
    cases hstep
    exact h.hold_wakes automatic hpc
  | parking waiting zero marked =>
    -- what it waits for was decided before it parked
    have hwants : (s'.pc t).wantsZero = zero := by
      cases marked <;> (obtain rfl := Option.some.inj hstep; rw [goto_pc_self]; rfl)
    refine Wakes.plain hm (by rw [hpc]; rfl) (by rw [hpc]; exact nofun) ?_
    rw [hwants, hpc]
    exact .inl
  | parked => cases hstep
  | settling rest =>
    have hlands : s'.pc t = .releasing rest := by
      unfold GateState.advance at hstep
      dsimp only at hstep
      split at hstep <;> (obtain rfl := Option.some.inj hstep; rw [goto_pc_self])
    exact .go hm hpc hlands rfl id rfl
  | releasing =>
    cases hstep
    exact .go hm hpc (goto_pc_self ..) rfl id rfl

/-- **Every step keeps an eye on the threads that wait for zero.** -/
theorem Ok.step_wakes (h : s.Ok) {action : GateAction} (hstep : s.step automatic t action = some s')
    : Wakes s s' t := by
  have hm := h.step hstep
  unfold GateState.step at hstep
  split at hstep
  case h_11 => exact h.advance_wakes hstep
  case h_13 =>
    cases hstep
    exact ⟨fun hne hzero => absurd hzero hne, .inl, .inl⟩
  case h_14 => cases hstep
  all_goals
    rename_i hpc
    cases hstep
  -- whatever is not an exit keeps the admission it has
  all_goals first
    | exact h.leave_wakes hpc rfl
    | exact .go hm hpc (goto_pc_self ..) rfl id rfl

omit [Fintype T] [DecidableEq T] in
theorem coordinated_of_wantsZero {pc : Pc} {word : Word} (hwants : pc.wantsZero = true)
    (hknows : pc.Knows word) : word.coordinated := by
  cases pc with
  | holding sect =>
    cases sect with
    | collectRead => exact hknows.1
    | _ => cases hwants
  | parking => exact hknows (.inl hwants)
  | parked => exact hknows
  | _ => cases hwants

omit [Fintype T] [DecidableEq T] in
theorem notified_exiting (pc : Pc) : pc.notified.exiting = pc.exiting := by
  cases pc <;> rfl

omit [Fintype T] [DecidableEq T] in
theorem wantsZero_of_notified {pc : Pc} (h : pc.notified.wantsZero) : pc.wantsZero := by
  cases pc with
  | parked => cases h
  | _ => exact h

omit [DecidableEq T] [Fintype T] in
/-- **No thread that waits for zero is forgotten**: while the count is zero, some exit is on its way
to the lock. -/
def Attended (s : GateState T) : Prop :=
  ∀ t, (s.pc t).wantsZero → s.word.active = 0 → ∃ u, (s.pc u).exiting

/-- No thread is left waiting for what has happened already. -/
theorem Ok.attended_step (h : s.Ok) (ha : s.Attended) {action : GateAction}
    (hstep : s.step automatic t action = some s') : s'.Attended := by
  have hm := h.step hstep
  have hw := h.step_wakes hstep
  intro u hu hzero
  have hwanted : (s.pc u).wantsZero := by
    by_cases heq : u = t
    · subst heq
      exact (hw.waits hu).resolve_right fun hne => hne hzero
    · rcases hm.others u heq with hsame | hwoken
      · rwa [hsame] at hu
      · rw [hwoken] at hu
        exact wantsZero_of_notified hu
  have hset := coordinated_of_wantsZero hwanted (h.knows u)
  by_cases hwas : s.word.active = 0
  · obtain ⟨v, hv⟩ := ha u hwanted hwas
    by_cases heq : v = t
    · subst heq
      rcases hw.exiting hv with hstill | hne | hall
      · exact ⟨v, hstill⟩
      · exact absurd hzero hne
      · exact nomatch (hall u).symm.trans hu
    · exact ⟨v, (hm.other heq notified_exiting).trans hv⟩
  · exact ⟨t, hw.emptied hwas hzero hset⟩

theorem Reachable.attended (h : Reachable automatic s) : s.Attended := by
  induction h with
  | initial => exact nofun
  | step hreach hstep ih => exact hreach.ok.attended_step ih hstep

/-- Whoever leaves while a thread waits for zero takes the lock, whether the mutator exits or fails
as it finalizes. -/
theorem Reachable.leave_locks (h : Reachable automatic s) {t u : T} (hwants : (s.pc u).wantsZero)
    (hadmitted : (s.pc t).admitted) (after : After) :
    (s.leave t after).pc t = .locking (.exit after) := by
  have hset := coordinated_of_wantsZero hwants (h.ok.knows u)
  unfold GateState.leave
  rw [if_neg (h.ok.active_ne_zero hadmitted), if_pos hset, goto_pc_self]

/-- **The gate excludes and wakes.** Along every interleaving: while the phase is `Exclusive` no
thread is an outer mutator and no step makes one; the epoch that a thread has been elected for is
the active one, and no other thread has one; and while the count is zero and a thread waits for
that, an exit is on its way to the lock. An exit takes the lock while a thread waits for zero, reads
the count there, and wakes every thread that waits for zero if it has read zero. A finalizing mutator
that fails leaves in the same way (`Reachable.leave_locks`), and from the lock on its exit is one
like any other, so that the fourth part names `.exit` only. -/
theorem gate_safe {automatic : Bool} (h : Reachable automatic s) :
    (s.phase = .exclusive → (∀ t, (s.pc t).admitted = false) ∧ s.word.active = 0 ∧
      ∀ t action s', s.step automatic t action = some s' → (s'.pc t).admitted = false) ∧
    (∀ t u epoch epoch', (s.pc t).epoch = some epoch → (s.pc u).epoch = some epoch' →
      t = u ∧ s.activeCollection = some epoch) ∧
    (∀ t, (s.pc t).wantsZero → s.word.active = 0 → ∃ u, (s.pc u).exiting) ∧
    (∀ t u back s', (s.pc u).wantsZero → s.pc t = .rest (.mutator back) →
      s.step automatic t .exit = some s' → s'.pc t = .locking (.exit (.back back))) ∧
    (∀ t after spurious s', s.pc t = .holding (.start (.exit after)) →
      s.step automatic t (.run spurious) = some s' →
      s'.pc t = .holding (.exitRead after s.word.active)) ∧
    (∀ t after spurious s', s.pc t = .holding (.exitRead after 0) →
      s.step automatic t (.run spurious) = some s' → ∀ u, (s'.pc u).wantsZero = false) := by
  have hok := h.ok
  refine ⟨fun hphase => ?_, ?_, h.attended, ?_, ?_, ?_⟩
  · have hzero := hok.exclusive hphase
    -- the word counts the admitted threads, and counts none
    have hnobody : ∀ t, (s.pc t).admitted = false := tally_eq_zero.mp (hok.counted ▸ hzero)
    refine ⟨hnobody, hzero, fun t action s' hstep => ?_⟩
    by_contra hin
    rcases (hok.step hstep).enters (Bool.not_eq_false _ ▸ hin) with hwas | hne
    · exact nomatch (hnobody t).symm.trans hwas
    · exact hne hphase
  · intro t u epoch epoch' ht hu
    exact ⟨hok.sole t u (Option.isSome_iff_exists.mpr ⟨_, ht⟩) (Option.isSome_iff_exists.mpr ⟨_, hu⟩),
      hok.own t epoch ht⟩
  · intro t u back s' hwants hpc hstep
    unfold GateState.step at hstep
    rw [hpc] at hstep
    cases hstep
    exact h.leave_locks hwants (by rw [hpc]; rfl) (.back back)
  · intro t after spurious s' hpc hstep
    unfold GateState.step at hstep
    rw [hpc] at hstep
    cases hstep
    exact goto_pc_self ..
  · intro t after spurious s' hpc hstep
    unfold GateState.step at hstep
    rw [hpc] at hstep
    cases hstep
    exact hok.notify_wantsZero hpc

/-- **The gate's books are right, and its lock gets on.** Along every interleaving no assertion has
failed; the word counts the outer mutators, and `waiters` the threads that wait; the bit is set
while one waits on the condition variable; a thread is under the lock if and only if it has it; and
while a thread is under the lock or on its way to it, some thread can go on. -/
theorem gate_orderly {automatic : Bool} (h : Reachable automatic s) :
    s.broken = false ∧ s.word.active = tally Pc.admitted s.pc ∧
    s.waiters = tally Pc.waiting s.pc ∧
    (∀ t waiting zero, s.pc t = .parked waiting zero → s.word.coordinated) ∧
    (∀ t, (s.pc t).holds ↔ s.holder = some t) ∧
    ∀ t, ((s.pc t).holds ∨ (∃ job, s.pc t = .locking job) ∨ ∃ waiting, s.pc t = .waking waiting) →
      ∃ u s', s.step automatic u (.run false) = some s' := by
  have hok := h.ok
  -- whoever has the lock is never kept waiting
  have hholder : ∀ u, (s.pc u).holds → ∃ s', s.step automatic u (.run false) = some s' := by
    intro u hu
    unfold GateState.step
    cases hpc : s.pc u with
    | holding | releasing => exact ⟨_, rfl⟩
    | parking _ _ marked => cases marked <;> exact ⟨_, rfl⟩
    | settling =>
      simp only [advance]
      split <;> exact ⟨_, rfl⟩
    | _ => rw [hpc] at hu; cases hu
  refine ⟨hok.sound, hok.counted, hok.waiters, fun t _ _ hpc => ?_, hok.holder, fun t ht => ?_⟩
  · have hknows := hok.knows t
    rwa [hpc] at hknows
  · cases hheld : s.holder with
    | some u => exact ⟨u, hholder u ((hok.holder u).mpr hheld)⟩
    | none =>
      refine ⟨t, ?_⟩
      rcases ht with ht | ⟨job, hpc⟩ | ⟨waiting, hpc⟩
      · exact hholder t ht
      all_goals
        unfold GateState.step
        simp only [hpc, advance, hheld, if_true]
        exact ⟨_, rfl⟩

omit [Fintype T] in
theorem Reachable.of_run (h : Reachable automatic s) {actions : List (T × GateAction)}
    (hrun : s.run automatic actions = some s') : Reachable automatic s' := by
  induction actions generalizing s with
  | nil => exact Option.some.inj hrun ▸ h
  | cons first rest ih =>
    obtain ⟨next, hstep, hrest⟩ := Option.bind_eq_some_iff.mp hrun
    exact ih (h.step hstep) hrest

/-- A mutator is inside while a thread asks for a collection, and waits. -/
def collectorWaits : List (Fin 3 × GateAction) :=
  [(1, .enter), (1, .run false), (0, .collectFull)] ++ List.replicate 10 (0, .run false)

theorem gate_safe_collectorWaits : ∃ s : GateState (Fin 3), Reachable false s ∧
    s.pc 0 = .parked (.collect 1) true ∧ s.word.active = 0 ∧ ∃ u, (s.pc u).exiting := by
  have hrun : ((GateState.initial.run false (collectorWaits ++ [(1, .exit)])).map fun s =>
      (s.pc 0, s.word.active)) = some (.parked (.collect 1) true, 0) := by
    decide +kernel
  obtain ⟨s, hs, heq⟩ := Option.map_eq_some_iff.mp hrun
  obtain ⟨hpc, hzero⟩ := Prod.mk.inj heq
  have hreach := Reachable.initial.of_run hs
  exact ⟨s, hreach, hpc, hzero, (gate_safe hreach).2.2.1 0 (by rw [hpc]; rfl) hzero⟩

/-- A collector waits for a mutator: one waiter, one mutator, and the bit is set. -/
theorem gate_orderly_collectorWaits : ∃ s : GateState (Fin 3), Reachable false s ∧
    s.pc 0 = .parked (.collect 1) true ∧ tally Pc.waiting s.pc = 1 ∧ s.word.coordinated := by
  have hrun : ((GateState.initial.run false collectorWaits).map fun s => (s.pc 0, s.waiters)) =
      some (.parked (.collect 1) true, 1) := by
    decide +kernel
  obtain ⟨s, hs, heq⟩ := Option.map_eq_some_iff.mp hrun
  obtain ⟨hpc, hone⟩ := Prod.mk.inj heq
  have hreach := Reachable.initial.of_run hs
  obtain ⟨-, -, hwaiters, hset, -⟩ := gate_orderly hreach
  exact ⟨s, hreach, hpc, hwaiters ▸ hone, hset 0 _ _ hpc⟩

/-- **The exit that makes the count zero may wake nobody.** Here thread 0 waits for the count to
reach zero. The exit of thread 1 takes the count from one to zero. Before it has the lock, thread 2
is admitted under the lock, as it is in a heap whose entries do not elect themselves. Thread 1 then
reads a count of one and is done, and thread 0 still waits. -/
theorem exit_without_notification :
    ((GateState.initial.run false collectorWaits).bind fun (before : GateState (Fin 3)) =>
      (before.step false 1 .exit).bind fun emptied =>
      (emptied.run false ([(2, .enter)] ++ List.replicate 7 (2, .run false) ++
        List.replicate 5 (1, .run false))).map fun after =>
      (before.pc 0, before.word.active, emptied.word.active, after.pc 1, after.pc 0)) =
    some (.parked (.collect 1) true, 1, 0, .rest .idle, .parked (.collect 1) true) := by
  decide +kernel

end GateState

end Glam.Gc
