import Glam.Gc.GateInvariant

/-!
# Every step of the gate is a move

The steps of the admission gate, one by one: each is a `GateState.Move`, so the invariant holds
along every interleaving (`GateState.Reachable.ok`). What a step needs of the state follows from
where its thread is. -/

namespace Glam.Gc

namespace GateState

variable {T : Type} [Fintype T] {s s' : GateState T} {t : T}

/-! ### The steps -/

variable [DecidableEq T]

omit [Fintype T] in
@[simp] theorem goto_pc_self (x : GateState T) (t : T) (pc : Pc) : (x.goto t pc).pc t = pc :=
  Function.update_self ..

omit [Fintype T] in
theorem goto_pc_of_ne (x : GateState T) {t u : T} (pc : Pc) (hu : u ≠ t) :
    (x.goto t pc).pc u = x.pc u :=
  Function.update_of_ne hu ..

omit [Fintype T] [DecidableEq T] in
theorem notify_pc (x : GateState T) (u : T) :
    x.notify.pc u = x.pc u ∨ x.notify.pc u = (x.pc u).notified := by
  unfold notify
  by_cases hw : x.waiters ≠ 0
  · rw [if_pos hw]
    exact .inr rfl
  · rw [if_neg hw]
    exact .inl rfl

omit [Fintype T] [DecidableEq T] in
theorem notify_eq (x : GateState T) : x.notify = { x with pc := x.notify.pc } := by
  unfold notify
  by_cases hw : x.waiters ≠ 0
  · rw [if_pos hw]
  · rw [if_neg hw]

variable {pc was : Pc} {x : GateState T} {rest : Rest} {automatic : Bool}

/-- Notifying moves no thread other than from waiting to waking. -/
theorem Move.notify (hsame : x.pc = s.pc) (h : Move s (x.goto t pc) t) :
    Move s (x.notify.goto t pc) t := by
  have hothers : ∀ u, u ≠ t → (x.notify.goto t pc).pc u = s.pc u ∨
      (x.notify.goto t pc).pc u = (s.pc u).notified := by
    intro u hu
    rw [goto_pc_of_ne _ pc hu, ← hsame]
    exact notify_pc x u
  have hself := (goto_pc_self x.notify t pc).trans (goto_pc_self x t pc).symm
  have heq := congrArg (GateState.goto · t pc) (notify_eq x)
  rw [heq] at hothers hself ⊢
  constructor
  case others => exact hothers
  all_goals try rw [hself]
  exacts [h.count, h.waiters, h.holder, h.free, h.cleared, h.changed, h.enters, h.coordinated,
    h.exclusive, h.epoch, h.own, h.sole, h.allowed, h.knows, h.sound]

section

variable (h : s.Ok) (hpc : s.pc t = was)
include h hpc

/-- A move that changes neither the phase nor the active epoch, of a thread that has no epoch but the
one it had. -/
theorem Ok.keep
    (hsame : x.phase = s.phase ∧ x.activeCollection = s.activeCollection ∧ x.broken = s.broken ∧
      x.pc = s.pc)
    (hcount : x.word.active + was.admitted.toNat = s.word.active + pc.admitted.toNat)
    (hwaiters : x.waiters + was.waiting.toNat = s.waiters + pc.waiting.toNat)
    (hholder : pc.holds = true ∧ x.holder = some t ∧ (s.holder = none ∨ s.holder = some t) ∨
      pc.holds = false ∧ was.holds = true ∧ x.holder = none ∨
      pc.holds = false ∧ was.holds = false ∧ x.holder = s.holder)
    (hfree : was.holds = false → x.word.coordinated = s.word.coordinated ∧
      (s.word.coordinated → x.word.active ≤ s.word.active))
    (hcleared : s.word.coordinated → x.word.coordinated = false → tally Pc.waiting s.pc = 0)
    (henters : pc.admitted → was.admitted ∨ s.phase ≠ .exclusive)
    (hcoordinated : s.phase ≠ .ordinary → x.word.coordinated)
    (hexclusive : s.phase = .exclusive → x.word.active = 0)
    (hepoch : ∀ epoch, pc.epoch = some epoch → was.epoch = some epoch)
    (hallows : pc.allows s.phase) (hknows : pc.Knows x.word) : Move s (x.goto t pc) t := by
  subst hpc
  obtain ⟨hphase, hactive, hbroken, hothers⟩ := hsame
  -- only the thread's own place, the word and the counts may differ
  have hself := goto_pc_self x t pc
  exact
    { others := fun u hu => .inl (by rw [goto_pc_of_ne _ pc hu, hothers])
      count := by rw [hself]; exact hcount
      waiters := by rw [hself]; exact hwaiters
      holder := by rw [hself]; exact hholder
      free := fun hout => ⟨hphase, hactive, hfree hout⟩
      cleared := hcleared
      changed := fun hbad => hbad.elim (absurd hphase) (absurd hactive)
      enters := by rw [hself]; exact henters
      coordinated := fun hne => hcoordinated (hphase ▸ hne)
      exclusive := fun heq => hexclusive (hphase ▸ heq)
      epoch := by
        show x.activeCollection.isSome ↔ x.phase = _ ∨ x.phase = _
        rw [hactive, hphase]
        exact h.epoch
      own := fun epoch hmem => hactive.trans (h.own t epoch (hepoch epoch (hself ▸ hmem)))
      sole := fun hsome => by
        rw [hself] at hsome
        obtain ⟨epoch, hmem⟩ := Option.isSome_iff_exists.mp hsome
        exact .inl (Option.isSome_iff_exists.mpr ⟨epoch, hepoch epoch hmem⟩)
      allowed := by
        rw [hself]
        show pc.allows x.phase
        rw [hphase]
        exact hallows
      knows := by rw [hself]; exact hknows
      sound := hbroken.trans h.sound }

omit [DecidableEq T] in
/-- A thread that has the mutex where it goes if and only if it had it leaves the mutex alone. -/
theorem Ok.same_holder (hholds : pc.holds = was.holds) :
    pc.holds = true ∧ s.holder = some t ∧ (s.holder = none ∨ s.holder = some t) ∨
      pc.holds = false ∧ was.holds = true ∧ s.holder = none ∨
      pc.holds = false ∧ was.holds = false ∧ s.holder = s.holder := by
  subst hpc
  rw [hholds]
  cases hwas : (s.pc t).holds with
  | true => exact .inl ⟨rfl, (h.holder t).mp hwas, .inr ((h.holder t).mp hwas)⟩
  | false => exact .inr (.inr ⟨rfl, rfl, rfl⟩)

/-- Going elsewhere, with nothing shared changed but the request for a collection. -/
theorem Ok.goto (requested : Bool) (hadmitted : pc.admitted = was.admitted)
    (hwaiting : pc.waiting = was.waiting) (hholds : pc.holds = was.holds)
    (hepoch : ∀ epoch, pc.epoch = some epoch → was.epoch = some epoch)
    (hallows : pc.allows s.phase) (hknows : pc.Knows s.word) :
    Move s ({ s with collectionRequested := requested }.goto t pc) t :=
  h.keep hpc ⟨rfl, rfl, rfl, rfl⟩ (by rw [hadmitted]) (by rw [hwaiting])
    (h.same_holder hpc hholds) (fun _ => ⟨rfl, fun _ => Nat.le_refl _⟩)
    (fun hset hclear => nomatch hset.symm.trans hclear) (fun hin => .inl (hadmitted ▸ hin))
    h.coordinated h.exclusive hepoch hallows hknows

/-- The bit is set, with the mutex held. -/
theorem Ok.coordinate (hadmitted : pc.admitted = was.admitted)
    (hwaiting : pc.waiting = was.waiting) (hholds : pc.holds = true) (hwas : was.holds = true)
    (hepoch : ∀ epoch, pc.epoch = some epoch → was.epoch = some epoch)
    (hallows : pc.allows s.phase) (hknows : pc.Knows s.word.coordinate) :
    Move s (s.coordinate.goto t pc) t := by
  have hbit := Word.coordinated_coordinate s.word
  have hcount := Word.active_coordinate s.word
  refine h.keep hpc ⟨rfl, rfl, rfl, rfl⟩ ?_ (by rw [hwaiting]; rfl)
    (h.same_holder hpc (hholds.trans hwas.symm)) (fun hbad => nomatch hwas.symm.trans hbad)
    (fun _ hclear => nomatch hbit.symm.trans hclear) (fun hin => .inl (hadmitted ▸ hin))
    (fun _ => hbit) (fun hphase => hcount.trans (h.exclusive hphase)) hepoch hallows hknows
  rw [hadmitted]
  exact congrArg (· + _) hcount

/-- A thread with the mutex changes what is under it. -/
theorem Ok.change (hwas : was.holds = true)
    (hsame : x.word = s.word ∧ x.holder = s.holder ∧ x.waiters = s.waiters ∧ x.broken = s.broken ∧
      x.pc = s.pc)
    (hadmitted : pc.admitted = was.admitted) (hwaiting : pc.waiting = was.waiting)
    (hholds : pc.holds = true)
    (hchanged : x.phase ≠ s.phase ∨ x.activeCollection ≠ s.activeCollection →
      s.phase = .ordinary ∨ was.epoch.isSome)
    (hcoordinated : x.phase ≠ .ordinary → s.word.coordinated)
    (hexclusive : x.phase = .exclusive → s.word.active = 0)
    (hepoch : x.activeCollection.isSome ↔ x.phase = .exclusive ∨ x.phase = .finalizing)
    (hown : ∀ epoch, pc.epoch = some epoch → x.activeCollection = some epoch)
    (hsole : pc.epoch.isSome → was.epoch.isSome ∨ s.activeCollection = none)
    (hallows : pc.allows x.phase) (hknows : pc.Knows s.word) : Move s (x.goto t pc) t := by
  subst hpc
  obtain ⟨hword, hholder, hwaiters, hbroken, hothers⟩ := hsame
  have hself := goto_pc_self x t pc
  have ht := (h.holder t).mp hwas
  rw [← hword] at hcoordinated hexclusive hknows
  exact
    { others := fun u hu => .inl (by rw [goto_pc_of_ne _ pc hu, hothers])
      count := by rw [hself, hadmitted]; exact congrArg (Word.active · + _) hword
      waiters := by rw [hself, hwaiting]; exact congrArg (· + _) hwaiters
      holder := by rw [hself]; exact .inl ⟨hholds, hholder.trans ht, .inr ht⟩
      free := fun hbad => nomatch hwas.symm.trans hbad
      cleared := fun hset hclear => nomatch (hword ▸ hset).symm.trans hclear
      changed := hchanged
      enters := fun hin => .inl (by rwa [hself, hadmitted] at hin)
      coordinated := hcoordinated
      exclusive := hexclusive
      epoch := hepoch
      own := by rw [hself]; exact hown
      sole := by rw [hself]; exact hsole
      allowed := by rw [hself]; exact hallows
      knows := by rw [hself]; exact hknows
      sound := hbroken.trans h.sound }

/-- Taking or giving back the mutex, or counting oneself among the waiters: nothing shared changes
but that. -/
theorem Ok.relock {holder : Option T} {waiters : Nat} (hadmitted : pc.admitted = was.admitted)
    (hwaiters : waiters + was.waiting.toNat = s.waiters + pc.waiting.toNat)
    (hholder : pc.holds = true ∧ holder = some t ∧ (s.holder = none ∨ s.holder = some t) ∨
      pc.holds = false ∧ was.holds = true ∧ holder = none)
    (hepoch : pc.epoch = was.epoch) (hallows : pc.allows s.phase) (hknows : pc.Knows s.word) :
    Move s ({ s with holder := holder, waiters := waiters }.goto t pc) t :=
  h.keep hpc ⟨rfl, rfl, rfl, rfl⟩ (by rw [hadmitted]) hwaiters (hholder.imp id .inl)
    (fun _ => ⟨rfl, fun _ => Nat.le_refl _⟩) (fun hset hclear => nomatch hset.symm.trans hclear)
    (fun hin => .inl (hadmitted ▸ hin)) h.coordinated h.exclusive (fun _ hmem => hepoch ▸ hmem)
    hallows hknows

end

omit [DecidableEq T] in
theorem Ok.active_ne_zero (h : s.Ok) (hadmitted : (s.pc t).admitted = true) :
    s.word.active ≠ 0 := by
  rw [h.counted]
  exact Nat.ne_of_gt (tally_pos hadmitted)

/-- A mutator leaves, at once or by way of the mutex. -/
theorem Ok.leave (h : s.Ok) {after : After} (hpc : s.pc t = .rest rest)
    (hadmitted : rest.admitted = true)
    (hepoch : ∀ epoch, after.epoch = some epoch → rest.epoch = some epoch)
    (hallows : after.allows s.phase) : Move s (s.leave t after) t := by
  have hzero : s.word.active ≠ 0 := h.active_ne_zero (by rw [hpc]; exact hadmitted)
  obtain ⟨hsub, hbit⟩ := Word.sub_one hzero
  have hgone : ∀ {pc : Pc}, pc.admitted = false → pc.waiting = false → pc.holds = false →
      pc.epoch = after.epoch → pc.allows s.phase → (∀ word, pc.Knows word) →
      Move s ({ s with word := s.word - 1 }.goto t pc) t := by
    intro pc hout hwaiting hholds hmem hallowed hknows
    refine h.keep hpc ⟨rfl, rfl, rfl, rfl⟩ ?_ (by rw [hwaiting]; rfl)
      (h.same_holder hpc hholds) (fun _ => ⟨hbit, fun _ => ?_⟩)
      (fun hset hclear => nomatch hset.symm.trans (hbit.symm.trans hclear))
      (fun hin => nomatch hout.symm.trans hin) (fun hphase => hbit.trans (h.coordinated hphase))
      (fun hphase => absurd (h.exclusive hphase) hzero) (fun epoch heq => hepoch epoch (hmem ▸ heq))
      hallowed (hknows _)
    · rw [hout]
      show (s.word - 1).active + rest.admitted.toNat = s.word.active + 0
      rw [hadmitted]
      exact hsub
    · show (s.word - 1).active ≤ s.word.active
      omega
  unfold GateState.leave
  rw [if_neg hzero]
  by_cases hset : s.word.coordinated = true
  · rw [if_pos hset]
    exact hgone rfl rfl rfl rfl hallows fun _ => trivial
  · rw [if_neg hset]
    exact hgone after.rest_admitted rfl rfl after.rest_epoch hallows fun _ => trivial

/-- Adding to the count: by an entry that finds the bit clear, or under the lock. -/
theorem Ok.add (h : s.Ok) (hpc : s.pc t = was) (hfull : s.word.active ≠ Word.full)
    (hsame : x.word = s.word + 1 ∧ x.holder = s.holder ∧ x.waiters = s.waiters ∧
      x.phase = s.phase ∧ x.activeCollection = s.activeCollection ∧ x.broken = s.broken ∧
      x.pc = s.pc)
    (hwas : was.admitted = false) (hadmitted : pc.admitted = true) (hwaiting : pc.waiting = was.waiting)
    (hholds : pc.holds = was.holds)
    (hfree : was.holds = false → s.word.coordinated = false) (hphase : s.phase ≠ .exclusive)
    (hepoch : pc.epoch = was.epoch) (hallows : pc.allows s.phase)
    (hknows : ∀ word, pc.Knows word) : Move s (x.goto t pc) t := by
  obtain ⟨hadd, hbit⟩ := Word.add_one hfull
  obtain ⟨hword, hholder, hwaiters, hsame⟩ := hsame
  have hbit' : x.word.coordinated = s.word.coordinated := by rw [hword, hbit]
  refine h.keep hpc hsame ?_ (by rw [hwaiters, hwaiting])
    (by rw [hholder]; exact h.same_holder hpc hholds)
    (fun hout => ⟨hbit', fun hset => nomatch hset.symm.trans (hfree hout)⟩)
    (fun hset hclear => nomatch hset.symm.trans (hbit'.symm.trans hclear)) (fun _ => .inr hphase)
    (fun hne => hbit'.trans (h.coordinated hne)) (fun heq => absurd heq hphase)
    (fun _ hmem => hepoch ▸ hmem) hallows (hknows _)
  rw [hwas, hadmitted, hword]
  exact hadd

theorem Ok.settle (h : s.Ok) (hpc : s.pc t = .settling rest) (hnone : s.waiters = 0)
    (hordinary : s.phase = .ordinary) :
    Move s ({ s with word := s.word.uncoordinate }.goto t (.releasing rest)) t := by
  have hallowed := h.allowed t
  rw [hpc] at hallowed
  exact h.keep hpc ⟨rfl, rfl, rfl, rfl⟩ (congrArg (· + _) (Word.active_uncoordinate s.word)) rfl
    (h.same_holder hpc rfl) nofun (fun _ _ => h.waiters ▸ hnone) .inl (absurd hordinary)
    (fun heq => nomatch hordinary.symm.trans heq) (fun _ hmem => hmem) hallowed trivial

section Hold

variable {sect : Section} {pc : Pc}

section

variable (h : s.Ok) (hpc : s.pc t = .holding sect)
include h hpc

theorem Ok.wait (hadmitted : sect.admitted = false) (hepoch : sect.epoch = none) (waiting : Waiting)
    {zero : Bool} (hbit : zero = true → s.word.coordinated) : Move s (s.wait t waiting zero) t := by
  have ht := (h.holder t).mp (by rw [hpc]; rfl)
  exact h.relock hpc hadmitted.symm rfl (.inl ⟨rfl, ht, .inr ht⟩) hepoch.symm rfl
    fun hset => hset.elim hbit nofun

theorem Ok.elect (hadmitted : sect.admitted = false) (hphase : s.phase = .ordinary)
    (hbit : s.word.coordinated) (hzero : s.word.active = 0) (back : Back) :
    Move s (s.elect t back) t := by
  have hnone : s.activeCollection = none := by
    have hiff := h.epoch
    rw [hphase] at hiff
    by_contra hsome
    rcases hiff.mp (Option.isSome_iff_ne_none.mpr hsome) with hbad | hbad <;> cases hbad
  exact .notify rfl (h.change hpc rfl ⟨rfl, rfl, rfl, rfl, rfl⟩ hadmitted.symm rfl rfl
    (fun _ => .inl hphase) (fun _ => hbit) (fun _ => hzero) ⟨fun _ => .inl rfl, fun _ => rfl⟩
    (fun _ hmem => hmem) (fun _ => .inr hnone) rfl trivial)

/-- Ending an epoch: it is no longer active, in the ordinary phase or in a poisoned heap. -/
theorem Ok.finish {epoch : Nat} (hmem : sect.epoch = some epoch)
    (hsame : x.word = s.word ∧ x.holder = s.holder ∧ x.waiters = s.waiters ∧ x.broken = s.broken ∧
      x.pc = s.pc)
    (hended : x.activeCollection = none) (hphase : x.phase = .ordinary ∨ x.phase = .poisoned)
    (hadmitted : rest.admitted = sect.admitted) (hnone : rest.epoch = none)
    (hallows : ∀ phase, rest.allows phase) : Move s (x.notify.goto t (.settling rest)) t := by
  have hsome : sect.epoch.isSome := Option.isSome_iff_exists.mpr ⟨epoch, hmem⟩
  have hcollecting : s.phase = .exclusive ∨ s.phase = .finalizing := by
    have hallowed := h.allowed t
    rw [hpc] at hallowed
    exact Section.phase_of_epoch hsome hallowed
  have hbit : s.word.coordinated := by
    refine h.coordinated ?_
    rcases hcollecting with heq | heq <;> rw [heq] <;> exact nofun
  refine .notify hsame.2.2.2.2 (h.change hpc rfl hsame hadmitted rfl rfl (fun _ => .inr hsome)
    (fun _ => hbit) ?_ ?_ ?_ ?_ (hallows _) trivial)
  · intro hbad
    rcases hphase with heq | heq <;> exact nomatch heq.symm.trans hbad
  · rw [hended]
    refine ⟨nofun, fun hbad => ?_⟩
    rcases hphase with heq | heq <;> rw [heq] at hbad <;>
      exact hbad.elim nofun nofun
  · intro epoch' hbad
    exact nomatch hnone.symm.trans hbad
  · intro hbad
    rw [show (Pc.settling rest).epoch = none from hnone] at hbad
    cases hbad

end

/-- The first section of each call. -/
theorem Ok.start (h : s.Ok) (automatic : Bool) {job : Job} (hpc : s.pc t = .holding (.start job)) :
    Move s (s.hold automatic t (.start job)) t := by
  have hallowed : job.allows s.phase := by
    have := h.allowed t
    rwa [hpc] at this
  have hown : ∀ epoch, job.epoch = some epoch → s.activeCollection = some epoch :=
    fun epoch hmem => h.own t epoch (by rw [hpc]; exact hmem)
  -- the bit is set by the read itself, which keeps the count
  have hread : (Word.coordinated s.word.coordinate : Prop) ∧
      s.word.coordinate.active ≤ s.word.active :=
    ⟨Word.coordinated_coordinate _, Nat.le_of_eq (Word.active_coordinate _)⟩
  cases job with
  | admission =>
    dsimp only [GateState.hold]
    cases hphase : s.phase with
    | ordinary =>
      dsimp only
      by_cases hask : automatic ∧ s.collectionRequested
      · rw [if_pos hask]
        exact h.coordinate hpc rfl rfl rfl rfl nofun (by rw [hphase]; rfl) hread
      · rw [if_neg hask]
        exact h.goto hpc _ rfl rfl rfl nofun (by rw [hphase]; rfl) trivial
    | finalizing =>
      exact h.goto hpc _ rfl rfl rfl nofun (by rw [hphase]; rfl) trivial
    | exclusive => exact h.wait hpc rfl rfl .admission nofun
    | poisoned => exact h.goto hpc _ rfl rfl rfl nofun rfl trivial
  | exit => exact h.coordinate hpc rfl rfl rfl rfl (fun _ hmem => hmem) hallowed trivial
  | target =>
    -- in every phase the thread only learns the epoch to wait for
    have hgo : ∀ {requested : Bool} {rest : Rest}, rest.admitted = false → rest.epoch = none →
        (∀ phase, rest.allows phase) →
        Move s ({ s with collectionRequested := requested }.goto t (.settling rest)) t :=
      fun hadmitted hnone hallows => h.goto hpc _ hadmitted rfl rfl
        (fun _ hbad => nomatch hnone.symm.trans hbad) (hallows _) trivial
    cases hphase : s.phase with
    | poisoned =>
      simp only [GateState.hold, hphase]
      exact hgo rfl rfl fun _ => rfl
    | ordinary =>
      simp only [GateState.hold, hphase]
      rw [← hphase]
      exact hgo rfl rfl fun _ => rfl
    | exclusive =>
      obtain ⟨epoch, hepoch⟩ := Option.isSome_iff_exists.mp (h.epoch.mpr (.inl hphase))
      simp only [GateState.hold, hphase, hepoch]
      exact hgo rfl rfl fun _ => rfl
    | finalizing =>
      obtain ⟨epoch, hepoch⟩ := Option.isSome_iff_exists.mp (h.epoch.mpr (.inr hphase))
      simp only [GateState.hold, hphase, hepoch]
      exact hgo rfl rfl fun _ => rfl
  | collect target =>
    dsimp only [GateState.hold]
    by_cases hdone : s.phase = .poisoned ∨ target ≤ s.completedEpoch
    · rw [if_pos hdone]
      exact h.goto hpc _ rfl rfl rfl nofun rfl trivial
    rw [if_neg hdone]
    by_cases hwait : s.phase ≠ .ordinary ∨ s.collectionRequested = false
    · rw [if_pos hwait]
      exact h.wait hpc rfl rfl (.collect target) nofun
    · rw [if_neg hwait]
      have hphase : s.phase = .ordinary := Decidable.not_not.mp fun hbad => hwait (.inl hbad)
      exact h.coordinate hpc rfl rfl rfl rfl nofun (by rw [hphase]; rfl) hread
  | finalize =>
    -- only the elected collector gets here, and its phase is its own
    have hphase : s.phase = .exclusive := of_decide_eq_true hallowed
    dsimp only [GateState.hold]
    rw [if_neg (fun hbad => hbad hphase)]
    exact h.coordinate hpc rfl rfl rfl rfl (fun _ hmem => hmem) (by rw [hphase]; rfl)
      (h.exclusive hphase)
  | complete epoch back =>
    have hphase : s.phase = .finalizing := of_decide_eq_true hallowed
    dsimp only [GateState.hold]
    rw [if_neg (fun hbad => hbad.elim (absurd hphase) (absurd (hown epoch rfl)))]
    refine h.finish hpc rfl ?_ ?_ ?_ ?_ ?_ ?_
    exacts [⟨rfl, rfl, rfl, rfl, rfl⟩, rfl, .inl rfl, rfl, rfl, fun _ => rfl]
  | abandon epoch =>
    dsimp only [GateState.hold]
    rw [if_pos (hown epoch rfl)]
    refine h.finish hpc rfl ?_ ?_ ?_ ?_ ?_ ?_
    exacts [⟨rfl, rfl, rfl, rfl, rfl⟩, rfl, .inl rfl, rfl, rfl, fun _ => rfl]
  | poison epoch | poisonHeld epoch =>
    dsimp only [GateState.hold]
    refine h.finish hpc rfl ?_ ?_ ?_ ?_ ?_ ?_
    exacts [⟨rfl, rfl, rfl, rfl, rfl⟩, if_pos (hown epoch rfl), .inr rfl, rfl, rfl, fun _ => rfl]

/-- **Every step under the lock is a move.** -/
theorem Ok.hold (h : s.Ok) (automatic : Bool) (hpc : s.pc t = .holding sect) :
    Move s (s.hold automatic t sect) t := by
  have hallowed : sect.allows s.phase := by
    have := h.allowed t
    rwa [hpc] at this
  have hknows : sect.Knows s.word := by
    have := h.knows t
    rwa [hpc] at this
  have hown : ∀ epoch, sect.epoch = some epoch → s.activeCollection = some epoch :=
    fun epoch hmem => h.own t epoch (by rw [hpc]; exact hmem)
  cases sect with
  | start => exact h.start automatic hpc
  | admitRead seen =>
    have hphase : s.phase = .ordinary := of_decide_eq_true hallowed
    dsimp only [GateState.hold]
    by_cases hseen : seen = 0
    · rw [if_pos hseen]
      -- the count it read bounds the count there is, so nobody is active
      exact h.elect hpc rfl hphase hknows.1 (Nat.le_zero.mp (hseen ▸ hknows.2)) .entry
    · rw [if_neg hseen]
      exact h.goto hpc _ rfl rfl rfl nofun (by rw [hphase]; rfl) trivial
  | admitCheck =>
    dsimp only [GateState.hold]
    by_cases hfull : s.word.active = Word.full
    · rw [if_pos hfull]
      exact h.coordinate hpc rfl rfl rfl rfl nofun rfl trivial
    · rw [if_neg hfull]
      refine h.coordinate hpc rfl rfl rfl rfl nofun hallowed
        ⟨Word.coordinated_coordinate _, ?_⟩
      rw [Word.active_coordinate]
      -- the count has room for one more
      exact Nat.lt_of_le_of_ne (Word.active_le _) hfull
  | admitAdd =>
    have hphase : s.phase = .ordinary ∨ s.phase = .finalizing := of_decide_eq_true hallowed
    refine h.add hpc (Nat.ne_of_lt hknows.2) ⟨rfl, rfl, rfl, rfl, rfl, rfl, rfl⟩ rfl rfl rfl rfl nofun
      (fun hbad => ?_) rfl rfl fun _ => trivial
    rcases hphase with heq | heq <;> exact nomatch heq.symm.trans hbad
  | exitRead after seen =>
    have hepoch : ∀ epoch, after.rest.epoch = some epoch → after.epoch = some epoch :=
      fun epoch hmem => after.rest_epoch ▸ hmem
    dsimp only [GateState.hold]
    by_cases hseen : seen = 0
    · rw [if_pos hseen]
      -- the last mutator wakes whoever waits for the count
      refine .notify rfl (h.change hpc rfl ⟨rfl, rfl, rfl, rfl, rfl⟩ after.rest_admitted rfl rfl
        (fun hbad => hbad.elim (absurd rfl) (absurd rfl)) h.coordinated h.exclusive h.epoch
        (fun epoch hmem => hown epoch (hepoch epoch hmem)) (fun hsome => .inl ?_) hallowed trivial)
      rwa [show (Pc.settling after.rest).epoch = after.epoch from after.rest_epoch] at hsome
    · rw [if_neg hseen]
      exact h.goto hpc _ after.rest_admitted rfl rfl hepoch hallowed trivial
  | collectRead target seen =>
    have hphase : s.phase = .ordinary := of_decide_eq_true hallowed
    dsimp only [GateState.hold]
    by_cases hseen : seen = 0
    · rw [if_pos hseen]
      exact h.elect hpc rfl hphase hknows.1 (Nat.le_zero.mp (hseen ▸ hknows.2)) (.maintenance target)
    · rw [if_neg hseen]
      exact h.wait hpc rfl rfl (.collect target) fun _ => hknows.1
  | finalizeRead epoch back seen =>
    have hphase : s.phase = .exclusive := of_decide_eq_true hallowed
    have hbit := h.coordinated (hphase ▸ nofun)
    dsimp only [GateState.hold]
    -- the assertions of the source hold: it read zero, in its own collection
    rw [if_neg (fun hbad => hbad.elim (absurd hknows) (absurd (hown epoch rfl)))]
    refine h.change hpc rfl ⟨rfl, rfl, rfl, rfl, rfl⟩ rfl rfl rfl (fun _ => .inr rfl) (fun _ => hbit)
      nofun ⟨fun _ => .inr rfl, fun _ => ?_⟩ hown (fun _ => .inl rfl) rfl
      ⟨hbit, h.exclusive hphase⟩
    rw [hown epoch rfl]
    rfl
  | finalizeCheck =>
    dsimp only [GateState.hold]
    rw [if_neg (by rw [hknows.2]; decide)]
    refine h.coordinate hpc rfl rfl rfl rfl (fun _ hmem => hmem) hallowed
      ⟨Word.coordinated_coordinate _, ?_⟩
    rw [Word.active_coordinate, hknows.2]
    decide
  | finalizeAdd =>
    have hphase : s.phase = .finalizing := of_decide_eq_true hallowed
    dsimp only [GateState.hold]
    exact .notify rfl (h.add hpc (Nat.ne_of_lt hknows.2) ⟨rfl, rfl, rfl, rfl, rfl, rfl, rfl⟩ rfl rfl
      rfl rfl nofun (fun hbad => nomatch hphase.symm.trans hbad) rfl hallowed fun _ => trivial)

end Hold

/-- **The next step of what a thread is doing is a move.** -/
theorem Ok.advance (h : s.Ok) {spurious : Bool}
    (hstep : s.advance automatic t spurious (s.pc t) = some s') : Move s s' t := by
  have hallowed := h.allowed t
  have hknows := h.knows t
  generalize hpc : s.pc t = pc at hstep hallowed hknows
  cases pc with
  | rest rest =>
    cases rest with
    | collecting =>
      cases hstep
      exact h.goto hpc s.collectionRequested rfl rfl rfl nofun rfl trivial
    | _ =>
      cases hstep
  | trying word =>
    unfold GateState.advance at hstep
    dsimp only at hstep
    split at hstep
    · cases hstep
      exact h.goto hpc s.collectionRequested rfl rfl rfl nofun rfl trivial
    · rename_i hopen
      split at hstep
      · -- the entry finds the bit clear, so the phase is the ordinary one
        rename_i hread
        cases hstep
        have hword := hread.1
        rw [← hword] at hopen
        have hbit : s.word.coordinated = false :=
          Bool.not_eq_true _ ▸ fun hset => hopen (.inl hset)
        have hphase : s.phase ≠ .exclusive := by
          intro heq
          rw [h.coordinated (by rw [heq]; exact nofun)] at hbit
          cases hbit
        refine h.add hpc (Word.active_ne_full hbit fun heq => hopen (.inr (.inl heq))) ?_
          rfl rfl rfl rfl (fun _ => hbit) hphase rfl rfl fun _ => trivial
        rw [hword]
        exact ⟨rfl, rfl, rfl, rfl, rfl, rfl, rfl⟩
      · cases hstep
        exact h.goto hpc s.collectionRequested rfl rfl rfl nofun rfl trivial
  | locking job =>
    unfold GateState.advance at hstep
    dsimp only at hstep
    split at hstep
    · rename_i hnone
      cases hstep
      refine h.relock hpc rfl rfl (.inl ⟨rfl, rfl, .inl hnone⟩) rfl hallowed ?_
      cases job <;> exact trivial
    · cases hstep
  | waking waiting =>
    unfold GateState.advance at hstep
    dsimp only at hstep
    split at hstep
    · rename_i hnone
      cases hstep
      have hpos : 0 < s.waiters := by
        rw [h.waiters]
        exact tally_pos (by rw [hpc]; rfl)
      cases waiting with
      | admission | collect =>
        exact h.relock hpc rfl (Nat.sub_add_cancel hpos) (.inl ⟨rfl, rfl, .inl hnone⟩) rfl rfl trivial
    · cases hstep
  | holding =>
    cases hstep
    exact h.hold automatic hpc
  | parking waiting zero marked =>
    cases marked with
    | false =>
      cases hstep
      exact h.coordinate hpc rfl rfl rfl rfl nofun rfl fun _ => Word.coordinated_coordinate _
    | true =>
      cases hstep
      exact h.relock hpc rfl rfl (.inr ⟨rfl, rfl, rfl⟩) rfl rfl (hknows (.inr rfl))
  | parked =>
    cases hstep
  | settling rest =>
    unfold GateState.advance at hstep
    dsimp only at hstep
    split at hstep
    · cases hstep
      exact h.coordinate hpc rfl rfl rfl rfl (fun _ hmem => hmem) hallowed trivial
    · rename_i hquiet
      cases hstep
      rw [not_or, Decidable.not_not, Decidable.not_not] at hquiet
      exact h.settle hpc hquiet.1 hquiet.2
  | releasing =>
    cases hstep
    exact h.relock hpc rfl rfl (.inr ⟨rfl, rfl, rfl⟩) rfl hallowed trivial

/-- **Every step is a move.** -/
theorem Ok.step (h : s.Ok) {action : GateAction} (hstep : s.step automatic t action = some s') :
    Move s s' t := by
  unfold GateState.step at hstep
  split at hstep
  case h_11 => exact h.advance hstep
  case h_13 =>
    -- a request
    cases hstep
    have hmove := h.goto rfl true rfl rfl rfl (fun _ hmem => hmem) (h.allowed t) (h.knows t)
    unfold GateState.goto at hmove
    rwa [Function.update_eq_self] at hmove
  case h_14 => cases hstep
  -- most of the other steps only go elsewhere
  all_goals
    rename_i hpc
    cases hstep
    have hallowed := h.allowed t
    rw [hpc] at hallowed
  -- an entry, and the beginning of `collect_full`
  iterate 2 exact h.goto hpc _ rfl rfl rfl nofun rfl trivial
  · rename_i back
    exact h.leave hpc rfl nofun (by cases back <;> rfl)
  -- what the collector does
  iterate 2 exact h.goto hpc _ rfl rfl rfl (fun _ hmem => hmem) hallowed trivial
  · exact h.goto hpc _ rfl rfl rfl (fun _ hmem => hmem)
      (decide_eq_true (.inl (of_decide_eq_true hallowed))) trivial
  · exact h.leave hpc rfl (fun _ hmem => hmem)
      (decide_eq_true (.inr (of_decide_eq_true hallowed)))
  iterate 3 exact h.goto hpc _ rfl rfl rfl (fun _ hmem => hmem) hallowed trivial
  -- a thread that wakes without a notification
  · have hknows := h.knows t
    rw [hpc] at hknows
    exact h.goto hpc _ rfl rfl rfl nofun rfl hknows

omit [DecidableEq T] in
/-- The invariant holds at the start. -/
theorem Ok.initial : Ok (GateState.initial : GateState T) where
  counted := (show (0 : Word).active = 0 from rfl).trans (tally_eq_zero.mpr fun _ => rfl).symm
  waiters := (tally_eq_zero.mpr fun _ => rfl).symm
  holder := fun _ => ⟨nofun, nofun⟩
  coordinated := fun hne => absurd rfl hne
  exclusive := nofun
  epoch := ⟨nofun, fun hbad => hbad.elim nofun nofun⟩
  own := nofun
  sole := nofun
  allowed := fun _ => rfl
  knows := fun _ => trivial
  sound := rfl

/-- **The invariant holds along every interleaving.** -/
theorem Reachable.ok (h : Reachable automatic s) : s.Ok := by
  induction h with
  | initial => exact Ok.initial
  | step _ hstep ih => exact ih.move (ih.step hstep)

end GateState

end Glam.Gc
