import Glam.Gc.Gate

/-!
# The invariant of the admission gate

What holds in every state of the gate that some interleaving leads to (`GateState.Ok`). The count in
the word is the number of threads that have an admission. The bit is set while the phase is not
`Ordinary` and while a thread waits, and whoever reads the count under the lock sets it in the same
step, so that until it unlocks no thread can enter. The phase leaves `Ordinary` only after the count
has been read to be zero, and `Exclusive` only by the thread elected for the one active epoch.

Whatever one step of one thread does (`Move`), it is allowed by the facts about where that thread
is, and leaves the facts about every other thread alone (`Ok.move`): a thread that holds the lock
relies on no other thread holding it, and the collector on no other thread having its epoch. -/

namespace Glam.Gc

/-! ### What a thread has -/

/-- Whether a thread at rest counts as an active mutator. -/
def Rest.admitted : Rest → Bool
  | .finalizing _ _ => true
  | .mutator _ => true
  | _ => false

/-- Whether a thread keeps its admission up to this call. -/
def Job.admitted : Job → Bool
  | .complete _ _ => true
  | .poisonHeld _ => true
  | _ => false

/-- Whether a thread in a section still counts as an active mutator. -/
def Section.admitted : Section → Bool
  | .start job => job.admitted
  | _ => false

/-- The thread is an active outer mutator. -/
def Pc.admitted : Pc → Bool
  | .rest resting => resting.admitted
  | .locking job => job.admitted
  | .holding sect => sect.admitted
  | .settling resting => resting.admitted
  | .releasing resting => resting.admitted
  | _ => false

/-- The collection that a thread at rest runs. -/
def Rest.epoch : Rest → Option Nat
  | .collector epoch _ => some epoch
  | .finalizing epoch _ => some epoch
  | .failing epoch => some epoch
  | _ => none

/-- The collection that a thread goes back to after it left. -/
def After.epoch : After → Option Nat
  | .failing epoch => some epoch
  | .back _ => none

/-- The collection that a call is part of. -/
def Job.epoch : Job → Option Nat
  | .exit after => after.epoch
  | .finalize epoch _ => some epoch
  | .complete epoch _ => some epoch
  | .abandon epoch => some epoch
  | .poison epoch => some epoch
  | .poisonHeld epoch => some epoch
  | _ => none

/-- The collection that a section is part of. -/
def Section.epoch : Section → Option Nat
  | .start job => job.epoch
  | .exitRead after _ => after.epoch
  | .finalizeRead epoch _ _ => some epoch
  | .finalizeCheck epoch _ => some epoch
  | .finalizeAdd epoch _ => some epoch
  | _ => none

/-- The epoch that the thread has been elected for and has not ended. -/
def Pc.epoch : Pc → Option Nat
  | .rest resting => resting.epoch
  | .locking job => job.epoch
  | .holding sect => sect.epoch
  | .settling resting => resting.epoch
  | .releasing resting => resting.epoch
  | _ => none

/-- The thread has the mutex. -/
def Pc.holds : Pc → Bool
  | .holding _ => true
  | .parking _ _ _ => true
  | .settling _ => true
  | .releasing _ => true
  | _ => false

/-- The thread is counted among the waiters. -/
def Pc.waiting : Pc → Bool
  | .parking _ _ _ => true
  | .parked _ _ => true
  | .waking _ => true
  | _ => false

/-- The thread waits, or is about to, because it has read a count other than zero. -/
def Pc.wantsZero : Pc → Bool
  | .holding (.collectRead _ seen) => seen != 0
  | .parking _ zero _ => zero
  | .parked _ zero => zero
  | _ => false

/-- The thread has given up its admission, and will wake the waiters if it finds the count zero
under the lock. -/
def Pc.exiting : Pc → Bool
  | .locking (.exit _) => true
  | .holding (.start (.exit _)) => true
  | .holding (.exitRead _ seen) => seen == 0
  | _ => false

/-! ### What a thread relies on -/

/-- The phases in which a thread may be at rest like this. -/
def Rest.allows (phase : AdmissionPhase) : Rest → Bool
  | .collector _ _ => phase = .exclusive
  | .finalizing _ _ => phase = .finalizing
  | .failing _ => phase = .exclusive ∨ phase = .finalizing
  | _ => true

/-- The phases in which a thread may go back to this. -/
def After.allows (phase : AdmissionPhase) (after : After) : Bool := after.rest.allows phase

/-- The phases in which a call may be made. -/
def Job.allows (phase : AdmissionPhase) : Job → Bool
  | .exit after => after.allows phase
  | .finalize _ _ => phase = .exclusive
  | .complete _ _ => phase = .finalizing
  | .abandon _ => phase = .exclusive ∨ phase = .finalizing
  | .poison _ => phase = .exclusive ∨ phase = .finalizing
  | .poisonHeld _ => phase = .finalizing
  | _ => true

/-- The phases in which a thread may be in a section. -/
def Section.allows (phase : AdmissionPhase) : Section → Bool
  | .start job => job.allows phase
  | .admitRead _ => phase = .ordinary
  | .admitCheck => phase = .ordinary ∨ phase = .finalizing
  | .admitAdd => phase = .ordinary ∨ phase = .finalizing
  | .exitRead after _ => after.allows phase
  | .collectRead _ _ => phase = .ordinary
  | .finalizeRead _ _ _ => phase = .exclusive
  | .finalizeCheck _ _ => phase = .finalizing
  | .finalizeAdd _ _ => phase = .finalizing

/-- A thread can be here in this phase. -/
def Pc.allows (phase : AdmissionPhase) : Pc → Bool
  | .rest resting => resting.allows phase
  | .locking job => job.allows phase
  | .holding sect => sect.allows phase
  | .settling resting => resting.allows phase
  | .releasing resting => resting.allows phase
  | _ => true

/-- What a thread under the lock knows of the word. -/
def Section.Knows (word : Word) : Section → Prop
  | .admitRead seen => word.coordinated ∧ word.active ≤ seen
  | .admitAdd => word.coordinated ∧ word.active < Word.full
  | .collectRead _ seen => word.coordinated ∧ word.active ≤ seen
  | .finalizeRead _ _ seen => seen = 0
  | .finalizeCheck _ _ => word.coordinated ∧ word.active = 0
  | .finalizeAdd _ _ => word.coordinated ∧ word.active < Word.full
  | _ => True

/-- What a thread knows of the word: a waiting thread knows that the bit is set, from when it has
read the count. -/
def Pc.Knows (word : Word) : Pc → Prop
  | .holding sect => sect.Knows word
  | .parking _ zero marked => zero ∨ marked → word.coordinated
  | .parked _ _ => word.coordinated
  | .waking _ => word.coordinated
  | _ => True

/-! ### The invariant -/

variable {T : Type}

namespace GateState

/-- **The invariant of the gate.** -/
structure Ok [Fintype T] (s : GateState T) : Prop where
  /-- the count is the number of active outer mutators -/
  counted : s.word.active = tally Pc.admitted s.pc
  waiters : s.waiters = tally Pc.waiting s.pc
  holder : ∀ t, (s.pc t).holds = true ↔ s.holder = some t
  /-- the bit is set while the phase asks for it -/
  coordinated : s.phase ≠ .ordinary → s.word.coordinated
  /-- there is no outer mutator in the exclusive phase -/
  exclusive : s.phase = .exclusive → s.word.active = 0
  /-- an epoch is active while it is collected -/
  epoch : s.activeCollection.isSome ↔ s.phase = .exclusive ∨ s.phase = .finalizing
  own : ∀ t epoch, (s.pc t).epoch = some epoch → s.activeCollection = some epoch
  sole : ∀ t u, (s.pc t).epoch.isSome → (s.pc u).epoch.isSome → t = u
  allowed : ∀ t, (s.pc t).allows s.phase
  knows : ∀ t, (s.pc t).Knows s.word
  sound : s.broken = false

/-- **What one step of the thread `t` does.** -/
structure Move [Fintype T] (s s' : GateState T) (t : T) : Prop where
  /-- other threads are woken, if anything -/
  others : ∀ u, u ≠ t → s'.pc u = s.pc u ∨ s'.pc u = (s.pc u).notified
  count : s'.word.active + (s.pc t).admitted.toNat = s.word.active + (s'.pc t).admitted.toNat
  waiters : s'.waiters + (s.pc t).waiting.toNat = s.waiters + (s'.pc t).waiting.toNat
  holder : (s'.pc t).holds = true ∧ s'.holder = some t ∧ (s.holder = none ∨ s.holder = some t) ∨
    (s'.pc t).holds = false ∧ (s.pc t).holds = true ∧ s'.holder = none ∨
    (s'.pc t).holds = false ∧ (s.pc t).holds = false ∧ s'.holder = s.holder
  /-- without the lock, a thread changes neither the phase nor the bit, and adds to the count only
  while the bit is clear -/
  free : (s.pc t).holds = false → s'.phase = s.phase ∧ s'.activeCollection = s.activeCollection ∧
    s'.word.coordinated = s.word.coordinated ∧
    (s.word.coordinated → s'.word.active ≤ s.word.active)
  /-- the bit is cleared only while no thread waits -/
  cleared : s.word.coordinated → s'.word.coordinated = false →
    tally Pc.waiting s.pc = 0
  /-- the phase and the epoch are changed from `Ordinary` or by who has the epoch -/
  changed : s'.phase ≠ s.phase ∨ s'.activeCollection ≠ s.activeCollection →
    s.phase = .ordinary ∨ (s.pc t).epoch.isSome
  /-- nobody enters in the exclusive phase -/
  enters : (s'.pc t).admitted → (s.pc t).admitted ∨ s.phase ≠ .exclusive
  coordinated : s'.phase ≠ .ordinary → s'.word.coordinated
  exclusive : s'.phase = .exclusive → s'.word.active = 0
  epoch : s'.activeCollection.isSome ↔ s'.phase = .exclusive ∨ s'.phase = .finalizing
  own : ∀ epoch, (s'.pc t).epoch = some epoch → s'.activeCollection = some epoch
  sole : (s'.pc t).epoch.isSome → (s.pc t).epoch.isSome ∨ s.activeCollection = none
  allowed : (s'.pc t).allows s'.phase
  knows : (s'.pc t).Knows s'.word
  sound : s'.broken = false

end GateState

theorem After.rest_epoch (after : After) : after.rest.epoch = after.epoch := by
  cases after with
  | back back => cases back <;> rfl
  | failing => rfl

theorem After.rest_admitted (after : After) : after.rest.admitted = false := by
  cases after with
  | back back => cases back <;> rfl
  | failing => rfl

variable {word : Word} {pc : Pc}

section Notified

theorem Pc.notified_admitted (pc : Pc) : pc.notified.admitted = pc.admitted := by
  cases pc <;> rfl

theorem Pc.notified_waiting (pc : Pc) : pc.notified.waiting = pc.waiting := by
  cases pc <;> rfl

theorem Pc.notified_holds (pc : Pc) : pc.notified.holds = pc.holds := by
  cases pc <;> rfl

theorem Pc.notified_epoch (pc : Pc) : pc.notified.epoch = pc.epoch := by
  cases pc <;> rfl

theorem Pc.notified_allows (phase : AdmissionPhase) (pc : Pc) :
    pc.notified.allows phase = pc.allows phase := by
  cases pc <;> rfl

theorem Pc.notified_knows (h : pc.Knows word) : pc.notified.Knows word := by
  cases pc <;> exact h

end Notified

/-- A thread with neither the lock nor an epoch can be where it is in every phase. -/
theorem Pc.allows_of_free (hholds : pc.holds = false) (hepoch : pc.epoch = none)
    (phase : AdmissionPhase) : pc.allows phase := by
  have hafter : ∀ after : After, after.epoch = none → after.allows phase := by
    intro after h
    cases after with
    | failing => cases h
    | back back => cases back <;> rfl
  cases pc with
  | rest rest => cases rest <;> first | rfl | cases hepoch
  | locking job =>
    cases job with
    | exit after => exact hafter after hepoch
    | _ => first | rfl | cases hepoch
  | _ => first | rfl | cases hholds

section PhaseOfEpoch

variable {phase : AdmissionPhase}

theorem Rest.phase_of_epoch {rest : Rest} (hepoch : rest.epoch.isSome) (h : rest.allows phase) :
    phase = .exclusive ∨ phase = .finalizing := by
  cases rest with
  | collector => exact .inl (of_decide_eq_true h)
  | finalizing => exact .inr (of_decide_eq_true h)
  | failing => exact of_decide_eq_true h
  | _ => cases hepoch

theorem After.phase_of_epoch {after : After} (hepoch : after.epoch.isSome)
    (h : after.allows phase) : phase = .exclusive ∨ phase = .finalizing := by
  cases after with
  | back => cases hepoch
  | failing => exact of_decide_eq_true h

theorem Job.phase_of_epoch {job : Job} (hepoch : job.epoch.isSome) (h : job.allows phase) :
    phase = .exclusive ∨ phase = .finalizing := by
  cases job with
  | exit => exact After.phase_of_epoch hepoch h
  | finalize => exact .inl (of_decide_eq_true h)
  | complete | poisonHeld => exact .inr (of_decide_eq_true h)
  | abandon | poison => exact of_decide_eq_true h
  | _ => cases hepoch

theorem Section.phase_of_epoch {sect : Section} (hepoch : sect.epoch.isSome)
    (h : sect.allows phase) : phase = .exclusive ∨ phase = .finalizing := by
  cases sect with
  | start => exact Job.phase_of_epoch hepoch h
  | exitRead => exact After.phase_of_epoch hepoch h
  | finalizeRead => exact .inl (of_decide_eq_true h)
  | finalizeCheck | finalizeAdd => exact .inr (of_decide_eq_true h)
  | _ => cases hepoch

theorem Pc.phase_of_epoch (hepoch : pc.epoch.isSome) (h : pc.allows phase) :
    phase = .exclusive ∨ phase = .finalizing := by
  cases pc with
  | rest | settling | releasing => exact Rest.phase_of_epoch hepoch h
  | locking => exact Job.phase_of_epoch hepoch h
  | holding => exact Section.phase_of_epoch hepoch h
  | _ => cases hepoch

end PhaseOfEpoch

theorem Pc.knows_of_free (hholds : pc.holds = false) (h : pc.waiting → word.coordinated) :
    pc.Knows word := by
  cases pc with
  | parked => exact h rfl
  | waking => exact h rfl
  | _ => first | exact trivial | cases hholds

/-- What a thread under the lock knows stays true while the bit stays set and nobody enters. -/
theorem Pc.knows_mono {word' : Word} (h : pc.Knows word)
    (hbit : word'.coordinated = word.coordinated)
    (hle : word.coordinated → word'.active ≤ word.active) : pc.Knows word' := by
  cases pc with
  | holding sect =>
    cases sect with
    | admitRead | collectRead => exact ⟨hbit ▸ h.1, (hle h.1).trans h.2⟩
    | admitAdd | finalizeAdd => exact ⟨hbit ▸ h.1, Nat.lt_of_le_of_lt (hle h.1) h.2⟩
    | finalizeCheck =>
      exact ⟨hbit ▸ h.1, Nat.le_zero.mp ((hle h.1).trans (Nat.le_of_eq h.2))⟩
    | _ => exact h
  | parking => exact fun hmarked => hbit ▸ h hmarked
  | parked | waking => exact hbit.trans h
  | _ => exact h

namespace GateState

variable [Fintype T] {s s' : GateState T} {t : T}

/-- A thread that did not move keeps what a notification does not change. -/
theorem Move.other (hm : Move s s' t) {u : T} (hu : u ≠ t) {β : Type} {f : Pc → β}
    (hf : ∀ pc : Pc, f pc.notified = f pc) : f (s'.pc u) = f (s.pc u) := by
  rcases hm.others u hu with heq | heq
  · rw [heq]
  · rw [heq, hf]

theorem tally_move {p : Pc → Bool} (hm : Move s s' t) (hp : ∀ pc : Pc, p pc.notified = p pc) :
    tally p s'.pc + (p (s.pc t)).toNat = tally p s.pc + (p (s'.pc t)).toNat := by
  classical
  rw [← tally_update p s.pc t (s'.pc t)]
  congr 1
  refine tally_congr fun u => ?_
  by_cases hu : u = t
  · rw [hu, Function.update_self]
  · rw [Function.update_of_ne hu]
    exact hm.other hu hp

theorem Ok.free_of_other (h : s.Ok) {u : T} (hu : u ≠ t) (hholds : (s.pc u).holds = true) :
    (s.pc t).holds = false := by
  by_contra hbad
  have ht := (h.holder t).mp (Bool.not_eq_false _ ▸ hbad)
  exact hu (Option.some.inj (((h.holder u).mp hholds).symm.trans ht))

/-- Nobody takes the epoch from a thread, nor the phase of its collection. -/
theorem Ok.unchanged_of_other (h : s.Ok) (hm : Move s s' t) {u : T} (hu : u ≠ t)
    (hsome : (s.pc u).epoch.isSome) :
    s'.phase = s.phase ∧ s'.activeCollection = s.activeCollection := by
  by_contra hchanged
  rcases hm.changed (not_and_or.mp hchanged) with hordinary | howner
  · rcases Pc.phase_of_epoch hsome (h.allowed u) with hphase | hphase <;>
      exact nomatch hordinary.symm.trans hphase
  · exact hu (h.sole u t hsome howner)

/-- **A step keeps the invariant.** -/
theorem Ok.move (h : s.Ok) (hm : Move s s' t) : s'.Ok where
  counted := by
    have htally := tally_move hm Pc.notified_admitted
    have hcount := hm.count
    have hbefore := h.counted
    omega
  waiters := by
    have htally := tally_move hm Pc.notified_waiting
    have hcount := hm.waiters
    have hbefore := h.waiters
    omega
  holder := by
    intro u
    by_cases hu : u = t
    · subst hu
      rcases hm.holder with ⟨hholds, hholder, _⟩ | ⟨hholds, _, hholder⟩ | ⟨hholds, hwas, hholder⟩
      · exact ⟨fun _ => hholder, fun _ => hholds⟩
      · rw [hholds, hholder]
        exact ⟨nofun, nofun⟩
      · rw [hholds, hholder, ← h.holder, hwas]
    · rw [hm.other hu Pc.notified_holds, h.holder]
      have hne : t ≠ u := Ne.symm hu
      rcases hm.holder with ⟨_, hholder, hwas⟩ | ⟨_, hwas, hholder⟩ | ⟨_, _, hholder⟩
      · rw [hholder]
        rcases hwas with hwas | hwas <;> simp [hwas, hne]
      · rw [hholder, (h.holder t).mp hwas]
        simp [hne]
      · rw [hholder]
  coordinated := hm.coordinated
  exclusive := hm.exclusive
  epoch := hm.epoch
  own := by
    intro u epoch hepoch
    by_cases hu : u = t
    · subst hu
      exact hm.own epoch hepoch
    · rw [hm.other hu Pc.notified_epoch] at hepoch
      have hsame := h.unchanged_of_other hm hu (Option.isSome_iff_exists.mpr ⟨epoch, hepoch⟩)
      exact hsame.2.trans (h.own u epoch hepoch)
  sole := by
    -- a new epoch begins where none was active
    have hnew : ∀ u, u ≠ t → (s'.pc t).epoch.isSome → (s'.pc u).epoch.isSome → False := by
      intro u hu ht hsome
      rw [hm.other hu Pc.notified_epoch] at hsome
      rcases hm.sole ht with howner | hnone
      · exact hu (h.sole u t hsome howner)
      · obtain ⟨epoch, hepoch⟩ := Option.isSome_iff_exists.mp hsome
        exact nomatch hnone.symm.trans (h.own u epoch hepoch)
    intro u v hu hv
    by_cases hut : u = t
    · subst hut
      by_contra hne
      exact hnew v (Ne.symm hne) hu hv
    by_cases hvt : v = t
    · subst hvt
      exact absurd hu fun hu => hnew u hut hv hu
    · rw [hm.other hut Pc.notified_epoch] at hu
      rw [hm.other hvt Pc.notified_epoch] at hv
      exact h.sole u v hu hv
  allowed := by
    intro u
    by_cases hu : u = t
    · subst hu
      exact hm.allowed
    rw [hm.other hu (Pc.notified_allows s'.phase)]
    by_cases hsame : s'.phase = s.phase
    · rw [hsame]
      exact h.allowed u
    -- the phase has changed, so `t` has the lock, and the epoch if there is one
    have hfree : (s.pc u).holds = false := by
      by_contra hbad
      exact hsame (hm.free (h.free_of_other hu (Bool.not_eq_false _ ▸ hbad))).1
    refine Pc.allows_of_free hfree ?_ s'.phase
    by_contra hepoch
    exact hsame (h.unchanged_of_other hm hu (Option.isSome_iff_ne_none.mpr hepoch)).1
  knows := by
    intro u
    by_cases hu : u = t
    · subst hu
      exact hm.knows
    have hkept : (s.pc u).Knows s'.word := by
      by_cases hholds : (s.pc u).holds = true
      · obtain ⟨_, _, hbit, hle⟩ := hm.free (h.free_of_other hu hholds)
        exact Pc.knows_mono (h.knows u) hbit hle
      · refine Pc.knows_of_free (Bool.not_eq_true _ ▸ hholds) fun hwaiting => ?_
        -- the bit stays set while a thread waits
        have hbit : s.word.coordinated := by
          have hknows := h.knows u
          cases hpc : s.pc u with
          | parked | waking => rw [hpc] at hknows; exact hknows
          | parking => rw [hpc] at hholds; exact absurd rfl hholds
          | _ => rw [hpc] at hwaiting; cases hwaiting
        by_contra hclear
        have hnone := hm.cleared hbit (Bool.not_eq_true _ ▸ hclear)
        rw [tally_eq_zero.mp hnone u] at hwaiting
        cases hwaiting
    rcases hm.others u hu with heq | heq
    · rw [heq]
      exact hkept
    · rw [heq]
      exact Pc.notified_knows hkept
  sound := hm.sound

end GateState

end Glam.Gc
