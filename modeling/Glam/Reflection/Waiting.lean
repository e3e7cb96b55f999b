import Glam.Reflection.Machine
import Mathlib.Data.List.TakeDrop

/-!
# Failing and waiting

A cut that fails is worth running again only where something it observed can change. So a task whose
outermost cut fails with no choice left should wait, if any branch of the attempt observed shared
state, and fail for good only if none did. What the branches observed is kept in two flags, the
`observed` of the running branch's transaction and the `observedFailure` of the cut frames.

The machine carries the flags over most exits of a cut, and loses them on three:

* a cut that succeeds after one of its branches failed drops its frame, and the flag with it;
* a fixpoint that is restarted starts from its entry, with the flag the entry had;
* a choice outside every cut falls back to its second operand, which has no transaction.

Besides, a fixpoint's restart outlives the cut it was made in, so a later failure may restart it in
a cut that it does not belong to. `Keeps` says that a step does none of these, and `Run` is a run
whose steps all keep what was observed. A step that fails with an error needs no condition: the flags
decide there too, whether the task waits (`Base.handleStepError`).

The invariant of such a run, `Ok`, says that once something has been observed in the attempt, the
running branch or a frame on the stack says so (`Carries`), and that every branch in play belongs to
the transaction of the attempt. The claim then follows from what `finishCutAttempt` does with the
flags.
-/

namespace Glam.Reflection

variable {L : Language}

namespace Task

/-! ### The condition -/

/-- The step that handles a failure keeps what was observed. -/
def KeepsFailure (s : Task L) (failed : Branch L) (scopeDepth : Nat) : Prop :=
  (∀ restart, failed.fixRestarts.head? = some restart →
    ∀ root, s.roots[restart.root]? = some root → root.scopeDepth = scopeDepth →
      (0 < scopeDepth →
        root.entry.transaction.map (·.id) = failed.transaction.map (·.id)) ∧
      (failed.observed = true →
        root.entry.observed = true ∨ ∃ frame ∈ s.cuts, frame.observedFailure = true)) ∧
  ∀ frame cuts, s.cuts = frame :: cuts → frame.fallback.isSome → frame.alternatives = [] →
    failed.fixRestarts = [] → (frame.observedFailure || failed.observed) = false

/-- **The step keeps what was observed.** A cut succeeds after a failure that observed something
only by a branch that has itself observed something, or within a cut that knows of such a failure; a
fixpoint is restarted in the attempt it was entered in, and after a failure that observed something
only from an entry that had; and no choice falls back after its first operand observed something. -/
def Keeps (s : Task L) : Prop :=
  match s.work with
  | .outcome (.complete _ completed) _ => ∀ frame cuts, s.cuts = frame :: cuts →
    (frame.ownsTransaction = false → frame.observedFailure = true →
      completed.observed = true ∨ ∃ outer ∈ cuts, outer.observedFailure = true) ∧
    (frame.fallback.isSome → ∀ t, completed.transaction = some t → s.conflicts t = false)
  | .outcome (.fail failed) scopeDepth => s.KeepsFailure failed scopeDepth
  | .outcome (.retry failed) scopeDepth => s.KeepsFailure failed scopeDepth
  | _ => True

/-- A cell of the shared store changes, by another task. -/
def publish (s : Task L) (address : L.Address) (edit : CellEdit L) : Task L :=
  s.applyEdit address edit

/-- The states of the runs whose steps all keep what was observed. -/
inductive Run (effect : L.Effect) (state : L.Local) (store : L.Address → Cell L) :
    Task L → Prop
  | start : Run effect state store (Task.start effect state store)
  | step {s : Task L} (answer : Answer L) :
    Run effect state store s → s.Keeps → Run effect state store (s.step answer)
  | publish {s : Task L} (address : L.Address) (edit : CellEdit L) :
    Run effect state store s → Run effect state store (s.publish address edit)

/-! ### The property -/

/-- The outermost cut has failed with no choice left: a branch of it has failed, the cut has no
alternative and no fallback, is no `.try`, and no fixpoint of the cut or around it has a choice to
make. -/
structure Exhausted (s : Task L) (frame : CutFrame L) : Prop where
  running : s.terminal = none ∧ s.blocked = none
  failed : ∃ failed : Branch L,
    (s.work = .outcome (.fail failed) frame.scopeDepth ∨
      s.work = .outcome (.retry failed) frame.scopeDepth) ∧
    ∀ restart, failed.fixRestarts.head? = some restart →
      frame.scopeDepth < restartScope s.roots restart
  cuts : s.cuts = [frame]
  alternatives : frame.alternatives = []
  fallback : frame.fallback = none
  trying : frame.trying = false

/-- The task waits to run its outermost cut again. -/
def WaitsOn (s : Task L) (frame : CutFrame L) (t : Transaction L) : Prop :=
  s.cuts.getLast? = some frame ∧ s.terminal = none ∧ ∃ generation,
    s.blocked = some ⟨generation, some t, .restartCut 0⟩

/-- Something that the branches of the attempt observed has changed since the attempt began. -/
def Changed (s : Task L) (t : Transaction L) : Prop :=
  ∃ address ∈ s.explored, (s.store address).revision ≠ (t.snapshot address).revision

/-- The cut runs again: its operation, in a transaction on the store as it is. -/
structure RunsAgain (s s' : Task L) (frame : CutFrame L) : Prop where
  running : s'.terminal = none ∧ s'.blocked = none
  work : ∃ branch, s'.work = .drive branch frame.scopeDepth ∧ branch.effect = frame.operation ∧
    branch.control.sequence = [] ∧
    branch.transaction = some ⟨s.nextTransaction, s.store, s.generation, false, []⟩
  cuts : ∃ frame', s'.cuts = [frame'] ∧ frame'.operation = frame.operation ∧
    frame'.outerSequence = frame.outerSequence

/-- **The task waits for what it observed**: it fails for good only if nothing was observed; its
outermost cut, failing with no choice left after a branch of the attempt observed something, blocks
the task; and the blocked task runs the cut again once something that was observed has changed, and
stays blocked until then. -/
structure Waits (s : Task L) : Prop where
  permanent : s.terminal = some (.failed .permanentFailure) → s.explored = []
  blocks : ∀ frame, s.Exhausted frame → s.explored ≠ [] → ∀ answer,
    ∃ frame' t, (s.step answer).WaitsOn frame' t ∧ frame'.operation = frame.operation ∧
      (s.step answer).explored = s.explored
  wakes : ∀ frame t, s.WaitsOn frame t → ∀ answer,
    (s.Changed t → RunsAgain s (s.step answer) frame) ∧
    (¬ s.Changed t → (s.step answer).WaitsOn frame t)

/-! ### The invariant -/

/-- The branch belongs to the transaction of the attempt, and its checkpoint to none. -/
def Fits (attempt : Option Nat) (branch : Branch L) : Prop :=
  branch.transaction.map (·.id) = attempt ∧
    ∀ generation checkpoint, branch.retry = some (generation, checkpoint) →
      checkpoint.transaction = none ∧ checkpoint.retry = none

/-- Each cut is one scope deeper than the next, and the outermost owns the transaction. -/
def Balanced : List (CutFrame L) → Prop
  | [] => True
  | frame :: cuts =>
    frame.scopeDepth = cuts.length + 1 ∧ frame.parentScopeDepth = cuts.length ∧
      (frame.ownsTransaction = true ↔ cuts = []) ∧ Balanced cuts

/-- The branches that a frame keeps belong to the attempt, apart from a fallback. -/
structure FrameOk (attempt : Option Nat) (frame : CutFrame L) : Prop where
  outer : Fits attempt frame.outer
  alternatives : ∀ branch ∈ frame.alternatives, Fits attempt branch
  retry : ∀ branch, frame.retry = some branch → Fits attempt branch
  fallback : ∀ branch, frame.fallback = some branch →
    frame.ownsTransaction = true ∧ Fits none branch

/-- A fixpoint outside every cut was entered with no transaction. -/
def RootOk (root : FixRoot L) : Prop :=
  ∃ attempt, Fits attempt root.entry ∧ (attempt = none ↔ root.scopeDepth = 0)

/-- What holds of a task apart from its work. -/
structure Base (s : Task L) (attempt : Option Nat) : Prop where
  balanced : Balanced s.cuts
  frames : ∀ frame ∈ s.cuts, FrameOk attempt frame
  roots : ∀ root ∈ s.roots, RootOk root
  attempt_none : attempt = none ↔ s.cuts = []
  observations : ∀ id, attempt = some id → s.observations id = s.explored
  fresh : ∀ id, attempt = some id → id < s.nextTransaction

/-- Once something has been observed in the attempt, the branch or a frame says so. -/
def Carries (s : Task L) (observed : Bool) : Prop :=
  s.explored ≠ [] → observed = true ∨ ∃ frame ∈ s.cuts, frame.observedFailure = true

/-- The branch runs in the innermost cut of the attempt. -/
def Drives (s : Task L) (attempt : Option Nat) (branch : Branch L) (scopeDepth : Nat) :
    Prop :=
  Fits attempt branch ∧ scopeDepth = s.cuts.length ∧ s.Carries branch.observed

/-- The outermost cut has failed into the restart of a fixpoint around it. -/
def Restarts (s : Task L) (failed : Branch L) (scopeDepth : Nat) : Prop :=
  scopeDepth = 0 ∧ s.cuts = [] ∧ s.Carries failed.observed ∧ (∃ attempt, Fits attempt failed) ∧
    ∃ restart, failed.fixRestarts.head? = some restart ∧ restartScope s.roots restart = 0

/-- The branch at hand is one that the attempt explores. -/
def WorkOk (s : Task L) (attempt : Option Nat) : MachineWork L → Prop
  | .drive branch scopeDepth => s.Drives attempt branch scopeDepth
  | .deliver _ branch scopeDepth => s.Drives attempt branch scopeDepth
  | .resume _ _ branch scopeDepth => s.Drives attempt branch scopeDepth
  | .specialize branch scopeDepth => s.Drives attempt branch scopeDepth
  | .outcome (.complete _ branch) scopeDepth => s.Drives attempt branch scopeDepth
  | .outcome (.pushback branch _) scopeDepth => s.Drives attempt branch scopeDepth
  | .outcome (.fail branch) scopeDepth =>
    s.Drives attempt branch scopeDepth ∧ branch.isRetryable = false
  | .outcome (.retry branch) scopeDepth =>
    s.Drives attempt branch scopeDepth ∨ s.Restarts branch scopeDepth

/-- A blocked task waits for what the attempt observed, or to go back to a branch outside every cut.
An error in a cut that has observed nothing may also leave it waiting for a transaction that nothing
can change. -/
def BlockedOk (s : Task L) (wake : RetryWake L) : Prop :=
  match wake.action with
  | .restartCut index => index = 0 ∧ s.cuts ≠ [] ∧ ∃ t, wake.validation = some t ∧
    s.observations t.id = s.explored
  | .replaceWork work =>
    (s.cuts = [] ∧ ∃ branch, work = .drive branch 0 ∧ Fits none branch) ∨
      ∃ t, wake.validation = some t ∧ s.observations t.id = []

/-- **The invariant of the runs.** -/
structure Ok (s : Task L) : Prop where
  permanent : s.terminal = some (.failed .permanentFailure) → s.explored = []
  live : s.terminal = none → ∃ attempt, s.Base attempt ∧
    (s.blocked = none → s.WorkOk attempt s.work) ∧
    ∀ wake, s.blocked = some wake → s.BlockedOk wake

variable {s s' : Task L} {attempt : Option Nat} {branch branch' : Branch L}
  {scopeDepth : Nat}

/-! ### Transfer -/

/-- The task is neither done nor blocked. -/
def Running (s : Task L) : Prop := s.terminal = none ∧ s.blocked = none

theorem ok_finish {error : TaskHalt} (h : error ≠ .permanentFailure) :
    (s.finish (.failed error)).Ok where
  permanent hp := absurd (TaskTerminal.failed.inj (Option.some.inj hp)) h
  live hnone := nomatch hnone

theorem ok_of_base (attempt : Option Nat) (h : s.Base attempt) (hs : s.Running)
    (hw : s.WorkOk attempt s.work) : s.Ok where
  permanent hp := nomatch hs.1.symm.trans hp
  live _ := ⟨attempt, h, fun _ => hw, fun _ hwake => nomatch hs.2.symm.trans hwake⟩

variable {wake : RetryWake L} {observed : Bool} {frame : CutFrame L} {cuts : List (CutFrame L)}
  {outcome : BranchOutcome L}

theorem ok_of_blocked (attempt : Option Nat) (h : s.Base attempt) (hterminal : s.terminal = none)
    (hblocked : s.blocked = some wake) (hwake : s.BlockedOk wake) : s.Ok where
  permanent hp := nomatch hterminal.symm.trans hp
  live _ := by
    refine ⟨attempt, h, fun hnone => (nomatch hblocked.symm.trans hnone), fun wake' hwake' => ?_⟩
    obtain rfl := Option.some.inj (hblocked.symm.trans hwake')
    exact hwake

/-- What the invariant reads of a task, apart from its work and whether it runs. -/
def kept (s : Task L) : List (CutFrame L) × List (FixRoot L) × (Nat → List L.Address) ×
    List L.Address × Nat :=
  (s.cuts, s.roots, s.observations, s.explored, s.nextTransaction)

theorem Base.same (h : s.Base attempt) (hkept : s'.kept = s.kept) : s'.Base attempt := by
  simp only [kept, Prod.mk.injEq] at hkept
  obtain ⟨hcuts, hroots, hobs, hexp, hnext⟩ := hkept
  exact
    { balanced := hcuts ▸ h.balanced
      frames := hcuts ▸ h.frames
      roots := hroots ▸ h.roots
      attempt_none := hcuts ▸ h.attempt_none
      observations := by rw [hobs, hexp]; exact h.observations
      fresh := hnext ▸ h.fresh }

theorem Carries.same (h : s.Carries observed) (hkept : s'.kept = s.kept) : s'.Carries observed := by
  simp only [kept, Prod.mk.injEq] at hkept
  unfold Carries
  rw [hkept.1, hkept.2.2.2.1]
  exact h

theorem Drives.same (h : s.Drives attempt branch scopeDepth) (hkept : s'.kept = s.kept)
    (ht : branch'.transaction = branch.transaction) (hr : branch'.retry = branch.retry) :
    s'.Drives attempt branch' scopeDepth := by
  have hcuts : s'.cuts = s.cuts := congrArg Prod.fst hkept
  refine ⟨⟨ht ▸ h.1.1, hr ▸ h.1.2⟩, hcuts ▸ h.2.1, ?_⟩
  have hobserved : branch'.observed = branch.observed := by
    unfold Branch.observed
    rw [ht]
  rw [hobserved]
  exact h.2.2.same hkept

/-- A step that only moves the running branch on, in place. -/
theorem Base.move (h : s.Base attempt) (hs : s'.Running) (hwork : s'.WorkOk attempt s'.work)
    (hkept : s'.kept = s.kept) : s'.Ok :=
  ok_of_base attempt (h.same hkept) hs hwork

theorem Fits.observed_eq_false (h : Fits none branch) : branch.observed = false := by
  have ht : branch.transaction = none := Option.map_eq_none_iff.mp h.1
  rw [Branch.observed, ht]
  rfl

theorem Fits.joinObserved (h : Fits attempt branch) (observed : Bool) :
    Fits attempt (branch.joinObserved observed) := by
  refine ⟨?_, h.2⟩
  rw [← h.1, Branch.joinObserved]
  cases branch.transaction <;> rfl

theorem Fits.observed_joinObserved {id : Nat} (h : Fits (some id) branch)
    (hobserved : observed = true) : (branch.joinObserved observed).observed = true := by
  obtain ⟨t, ht, -⟩ := Option.map_eq_some_iff.mp h.1
  rw [Branch.observed, Branch.joinObserved, ht, hobserved]
  exact Bool.or_true _

/-- In an attempt that has observed something, the branch, the innermost cut or one outside it says
so. -/
theorem Carries.cases_cons (h : s.Carries observed) (hcuts : s.cuts = frame :: cuts)
    (hexp : s.explored ≠ []) : observed = true ∨ frame.observedFailure = true ∨
      ∃ outer ∈ cuts, outer.observedFailure = true := by
  have := h hexp
  rwa [hcuts, List.exists_mem_cons_iff] at this

theorem Drives.explored_eq_nil (hd : s.Drives none branch scopeDepth) (hcuts : s.cuts = []) :
    s.explored = [] := by
  by_contra hne
  rcases hd.2.2 hne with hobs | ⟨frame, hmem, -⟩
  · rw [hd.1.observed_eq_false] at hobs
    cases hobs
  · rw [hcuts] at hmem
    cases hmem

theorem Drives.intoFailure (hd : s.Drives attempt branch scopeDepth) :
    s.WorkOk attempt (.outcome branch.intoFailure scopeDepth) := by
  unfold Branch.intoFailure
  split
  · exact .inl hd
  · rename_i hretry
    exact ⟨hd, eq_false_of_ne_true hretry⟩

/-! ### Observing -/

/-- An observation is noted in the branch and in what the attempt explored. -/
theorem observe_spec (h : s.Base attempt) (hd : s.Drives attempt branch scopeDepth)
    (address : L.Address) :
    (s.observe branch address).2.Base attempt ∧
      (s.observe branch address).2.Drives attempt (s.observe branch address).1 scopeDepth ∧
      (s.observe branch address).2.terminal = s.terminal ∧
      (s.observe branch address).2.blocked = s.blocked := by
  unfold observe
  split
  · rename_i t ht
    have hattempt : attempt = some t.id := by
      rw [← hd.1.1, ht]
      rfl
    refine ⟨{ h with observations := fun id hid => ?_ },
      ⟨⟨by rw [hattempt]; rfl, hd.1.2⟩, hd.2.1, fun _ => .inl rfl⟩, rfl, rfl⟩
    -- the clones of the attempt's transaction share what they observe
    obtain rfl : t.id = id := Option.some.inj (hattempt.symm.trans hid)
    show Function.update s.observations t.id (address :: s.observations t.id) t.id = _
    rw [Function.update_self, h.observations _ hattempt]
  · rename_i ht
    refine ⟨h, ?_, rfl, rfl⟩
    unfold Branch.checkpoint
    split
    · exact hd
    · rename_i hretry
      refine ⟨⟨hd.1.1, fun generation checkpoint hc => ?_⟩, hd.2⟩
      obtain ⟨-, rfl⟩ := Prod.mk.inj (Option.some.inj hc)
      exact ⟨ht, hretry⟩

theorem consult_spec (h : s.Base attempt) (hs : s.Running)
    (hd : s.Drives attempt branch scopeDepth) (address : Option L.Address) :
    (s.consult branch address).2.Base attempt ∧
      (s.consult branch address).2.Drives attempt (s.consult branch address).1 scopeDepth ∧
      (s.consult branch address).2.Running := by
  cases address with
  | none => exact ⟨h, hd, hs⟩
  | some address =>
    obtain ⟨hbase, hdrives, hterminal, hblocked⟩ := observe_spec h hd address
    exact ⟨hbase, hdrives, hterminal.trans hs.1, hblocked.trans hs.2⟩

/-! ### Cuts -/

/-- An outermost cut starts an attempt, with nothing explored. -/
theorem begin_outermost (hs : s.Running) (hroots : ∀ root ∈ s.roots, RootOk root)
    (howns : frame.ownsTransaction = true) (hscope : frame.scopeDepth = 1)
    (hparent : frame.parentScopeDepth = 0) {attempt : Option Nat}
    (houter : Fits attempt frame.outer)
    (hfallback : ∀ branch, frame.fallback = some branch → Fits none branch)
    (hexplored : s.explored = []) : (s.beginCutAttempt frame []).Ok := by
  have hfits : Fits (some s.nextTransaction)
      { frame.outer with
        transaction := some ⟨s.nextTransaction, s.store, s.generation, false, []⟩ } :=
    ⟨rfl, houter.2⟩
  unfold beginCutAttempt nextAlternative
  simp only [howns, if_true]
  refine ok_of_base (some s.nextTransaction) ⟨⟨hscope, hparent, iff_of_true rfl rfl, trivial⟩, ?_,
    hroots, iff_of_false nofun nofun, ?_, ?_⟩ hs ?_
  · exact List.forall_mem_singleton.mpr
      ⟨hfits, nofun, nofun, fun branch hb => ⟨rfl, hfallback branch hb⟩⟩
  · intro id hid
    cases hid
    show Function.update s.observations s.nextTransaction [] s.nextTransaction = s.explored
    rw [Function.update_self, hexplored]
  · intro id hid
    cases hid
    exact Nat.lt_succ_self _
  · exact ⟨hfits, hscope, fun hne => absurd hexplored hne⟩

/-- An inner cut goes on with the attempt of the outermost. -/
theorem Base.begin_inner (h : s.Base attempt) (hs : s.Running)
    (howns : frame.ownsTransaction = false) (hscope : frame.scopeDepth = s.cuts.length + 1)
    (hparent : frame.parentScopeDepth = s.cuts.length)
    (houter : s.Drives attempt frame.outer s.cuts.length) (hcuts : s.cuts ≠ [])
    (hfallback : frame.fallback = none) : (s.beginCutAttempt frame s.cuts).Ok := by
  unfold beginCutAttempt nextAlternative
  simp only [howns, Bool.false_eq_true, if_false]
  refine ok_of_base attempt ⟨⟨hscope, hparent, iff_of_false nofun hcuts,
    h.balanced⟩, ?_, h.roots,
    iff_of_false (fun hnone => hcuts (h.attempt_none.mp hnone)) nofun,
    h.observations, h.fresh⟩ hs ?_
  · refine List.forall_mem_cons.mpr ⟨⟨houter.1, nofun, nofun, ?_⟩, h.frames⟩
    exact fun branch hb => nomatch hfallback.symm.trans hb
  · refine ⟨houter.1, hscope, fun hne => (houter.2.2 hne).imp_right ?_⟩
    rintro ⟨frame', hmem, hobs⟩
    exact ⟨frame', .tail _ hmem, hobs⟩

/-- Entering a cut, at the top or within another. -/
theorem Base.enterCut (h : s.Base attempt) (hs : s.Running)
    (hd : s.Drives attempt branch scopeDepth) (operation : L.Effect) (trying : Bool)
    {fallback : Option (Branch L)}
    (hfallback : ∀ branch, fallback = some branch → scopeDepth = 0 ∧ Fits none branch) :
    (s.enterCut operation branch scopeDepth trying fallback).Ok := by
  have hdepth := hd.2.1
  unfold Task.enterCut
  cases hattempt : attempt with
  | none =>
    -- outside every cut, the cut owns its transaction
    subst hattempt
    have hcuts : s.cuts = [] := h.attempt_none.mp rfl
    have htransaction : branch.transaction = none := Option.map_eq_none_iff.mp hd.1.1
    have hzero : scopeDepth = 0 := by rw [hdepth, hcuts]; rfl
    rw [hcuts]
    have houter : Fits none { branch with control.sequence := [] } := hd.1
    refine begin_outermost hs h.roots ?_ ?_ hzero houter ?_ (hd.explored_eq_nil hcuts)
    · show branch.transaction.isNone = true
      rw [htransaction]
      rfl
    · show scopeDepth + 1 = 1
      rw [hzero]
    · exact fun b hb => (hfallback b hb).2
  | some =>
    subst hattempt
    have hcuts : s.cuts ≠ [] := fun hnil => nomatch h.attempt_none.mpr hnil
    have hfallback' : fallback = none := by
      cases hf : fallback with
      | none => rfl
      | some b =>
        have hzero := (hfallback b hf).1
        rw [hdepth] at hzero
        exact absurd (List.length_eq_zero_iff.mp hzero) hcuts
    refine h.begin_inner hs ?_ ?_ hdepth ?_ hcuts hfallback'
    · show branch.transaction.isNone = false
      cases ht : branch.transaction with
      | none =>
        have := hd.1.1
        rw [ht] at this
        cases this
      | some => rfl
    · show scopeDepth + 1 = _
      rw [hdepth]
    · exact hdepth ▸ hd

/-- What holds of a task whose innermost cut has just ended: `frame` has left the stack. -/
structure Leaves (s : Task L) (attempt : Option Nat) (frame : CutFrame L)
    (cuts : List (CutFrame L)) : Prop where
  running : s.Running
  balanced : Balanced (frame :: cuts)
  frame : FrameOk attempt frame
  frames : ∀ frame ∈ cuts, FrameOk attempt frame
  roots : ∀ root ∈ s.roots, RootOk root
  attempt : ∃ id, attempt = some id ∧ s.observations id = s.explored ∧ id < s.nextTransaction

theorem Balanced.suffix {inner : List (CutFrame L)} (h : Balanced (inner ++ cuts)) :
    Balanced cuts := by
  induction inner with
  | nil => exact h
  | cons frame inner ih => exact ih h.2.2.2

/-- A cut may end together with those inside it. -/
theorem Base.leaves_inner (h : s.Base attempt) (hs : s.Running) {inner : List (CutFrame L)}
    (hcuts : s.cuts = inner ++ frame :: cuts) : s.Leaves attempt frame cuts where
  running := hs
  balanced := (hcuts ▸ h.balanced).suffix
  frame := h.frames frame (hcuts ▸ List.mem_append_right _ (.head _))
  frames := fun f hf => h.frames f (hcuts ▸ List.mem_append_right _ (.tail _ hf))
  roots := h.roots
  attempt := by
    cases hattempt : attempt with
    | none => simp [h.attempt_none.mp hattempt] at hcuts
    | some id => exact ⟨id, rfl, h.observations id hattempt, h.fresh id hattempt⟩

theorem Base.leaves (h : s.Base attempt) (hs : s.Running) (hcuts : s.cuts = frame :: cuts) :
    s.Leaves attempt frame cuts :=
  h.leaves_inner hs (show s.cuts = [] ++ frame :: cuts from hcuts)

section Leaves

section

variable (h : s.Leaves attempt frame cuts)
include h

theorem Leaves.pop : Leaves { s with cuts := cuts } attempt frame cuts :=
  { h with }

/-- The frame keeps the branch that has failed last. -/
theorem Leaves.retry (hbranch : Fits attempt branch) (observed : Bool) (pushback : Option Nat) :
    s.Leaves attempt
      { frame with
        observedFailure := observed
        pushback := pushback
        retry := some branch } cuts :=
  { h with frame := { h.frame with retry := fun _ hretry => Option.some.inj hretry ▸ hbranch } }

theorem Leaves.length_eq : frame.parentScopeDepth = cuts.length :=
  h.balanced.2.1

theorem Leaves.owns_iff : frame.ownsTransaction = true ↔ cuts = [] :=
  h.balanced.2.2.1

theorem Leaves.inner (hcuts : cuts ≠ []) (hs' : s'.Running)
    (hkept : s'.kept = kept { s with cuts := cuts }) (hwork : s'.WorkOk attempt s'.work) : s'.Ok := by
  obtain ⟨id, rfl, hid, hfresh⟩ := h.attempt
  have hbase : Base { s with cuts := cuts } (some id) := by
    refine ⟨h.balanced.2.2.2, h.frames, h.roots, iff_of_false nofun hcuts, ?_, ?_⟩
    · rintro _ ⟨⟩
      exact hid
    · rintro _ ⟨⟩
      exact hfresh
  exact ok_of_base (some id) (hbase.same hkept) hs' hwork

theorem Leaves.outermost (hs' : s'.Running) (hcuts' : s'.cuts = []) (hroots : s'.roots = s.roots)
    (hwork : s'.WorkOk none s'.work) : s'.Ok := by
  refine ok_of_base none ⟨?_, ?_, ?_, iff_of_true rfl hcuts', nofun,
    nofun⟩ hs' hwork
  · rw [hcuts']
    trivial
  · rw [hcuts']
    exact nofun
  · rw [hroots]
    exact h.roots

end

theorem FrameOk.failed (h : FrameOk attempt frame) :
    Fits attempt (frame.retry.getD frame.outer) := by
  cases hretry : frame.retry with
  | none => exact h.outer
  | some failed => exact h.retry failed hretry

theorem fits_failedBranch (h : FrameOk attempt frame) : Fits attempt (failedBranch frame) :=
  h.failed.joinObserved frame.observedFailure

theorem observed_failedBranch {id : Nat} (h : FrameOk (some id) frame)
    (hobserved : frame.observedFailure = true) : (failedBranch frame).observed = true :=
  h.failed.observed_joinObserved hobserved

/-- A `try` that has no value goes on with its outcome. -/
theorem Leaves.deliverTry (h : s.Leaves attempt frame cuts) (hcuts : s.cuts = cuts)
    (outcome : TryOutcome) (hcarries : frame.ownsTransaction = false → s.Carries observed) :
    (s.deliverTry frame outcome observed).Ok := by
  unfold Task.deliverTry
  by_cases howns : frame.ownsTransaction = true
  · -- the outermost cut: the attempt is over
    have hnil := h.owns_iff.mp howns
    simp only [howns, if_true]
    refine h.outermost h.running (hcuts.trans hnil) rfl ⟨⟨rfl, h.frame.outer.2⟩, ?_,
      fun hne => absurd rfl hne⟩
    show frame.parentScopeDepth = s.cuts.length
    rw [hcuts]
    exact h.length_eq
  · have hne : cuts ≠ [] := fun hnil => howns (h.owns_iff.mpr hnil)
    simp only [howns, Bool.false_eq_true, if_false]
    obtain ⟨id, rfl, -⟩ := h.attempt
    have houter : Fits (some id) { frame.outer with control.sequence := frame.outerSequence } :=
      h.frame.outer
    refine h.inner hne h.running (by rw [kept, hcuts]; rfl) ⟨houter.joinObserved observed, ?_, ?_⟩
    · show frame.parentScopeDepth = s.cuts.length
      rw [hcuts]
      exact h.length_eq
    · exact fun hexp =>
        (hcarries (eq_false_of_ne_true howns) hexp).imp_left houter.observed_joinObserved

/-- **The end of a failed attempt**: the attempt's observations go on to the parent, or block the
task. -/
theorem Leaves.finishCutAttempt (h : s.Leaves attempt frame cuts)
    (hcarries : s.explored ≠ [] → frame.observedFailure = true ∨
      ∃ outer ∈ cuts, outer.observedFailure = true)
    (hfallback : frame.pushback = none → frame.fallback.isSome →
      (failedBranch frame).fixRestarts.head?.any (restartScope s.roots · < frame.scopeDepth) = false →
      s.explored = []) :
    (s.finishCutAttempt frame cuts).Ok := by
  obtain ⟨id, rfl, hid, hfresh⟩ := h.attempt
  have hfits := fits_failedBranch h.frame
  have hdepth := h.length_eq
  have hobserved : ∀ hexp : s.explored ≠ [],
      (failedBranch frame).observed = true ∨ ∃ outer ∈ cuts, outer.observedFailure = true :=
    fun hexp => (hcarries hexp).imp_left (observed_failedBranch h.frame)
  unfold Task.finishCutAttempt
  dsimp only
  by_cases hrestart :
      (failedBranch frame).fixRestarts.head?.any (restartScope s.roots · < frame.scopeDepth) = true
  · rw [if_pos hrestart]
    by_cases hnil : cuts = []
    · subst hnil
      refine h.outermost h.running rfl rfl (.inr ⟨hdepth, rfl, hobserved, ⟨_, hfits⟩, ?_⟩)
      cases hhead : (failedBranch frame).fixRestarts.head? with
      | none =>
        rw [hhead] at hrestart
        cases hrestart
      | some restart =>
        rw [hhead, h.balanced.1] at hrestart
        exact ⟨restart, rfl, Nat.lt_one_iff.mp (of_decide_eq_true hrestart)⟩
    · exact h.inner hnil h.running rfl (.inl ⟨hfits, hdepth, hobserved⟩)
  · rw [if_neg hrestart]
    split
    · refine h.pop.deliverTry rfl _ fun _ hexp => ?_
      exact (hcarries hexp).imp_left fun hobs => by rw [hobs]; rfl
    · split
      · rename_i hpush
        have hne : cuts ≠ [] := by
          intro hnil
          rw [h.owns_iff.mpr hnil, Bool.not_true, Bool.and_false] at hpush
          cases hpush
        exact h.inner hne h.running rfl ⟨hfits, hdepth, hobserved⟩
      · split
        · -- the choice falls back, after nothing was observed
          rename_i fallback hpush hfall
          obtain ⟨howns, hfits'⟩ := h.frame.fallback fallback hfall
          obtain rfl := h.owns_iff.mp howns
          have hnone := hfallback hpush (by rw [hfall]; rfl) (eq_false_of_ne_true hrestart)
          exact h.outermost h.running rfl rfl ⟨hfits', hdepth, fun hexp => absurd hnone hexp⟩
        · by_cases howns : frame.ownsTransaction = true
          · obtain rfl := h.owns_iff.mp howns
            rw [howns, Bool.not_true, if_neg Bool.false_ne_true]
            by_cases hobs : frame.observedFailure = true
            · rw [hobs, Bool.not_true, if_neg Bool.false_ne_true]
              -- the task waits
              refine ok_of_blocked (some id) ⟨⟨h.balanced.1, hdepth, iff_of_true rfl rfl, trivial⟩,
                ?_, h.roots, iff_of_false nofun nofun, ?_, ?_⟩ h.running.1 rfl ⟨rfl, ?_⟩
              · refine List.forall_mem_singleton.mpr ⟨h.frame.outer, h.frame.alternatives, ?_,
                  fun b hb => ⟨rfl, (h.frame.fallback b hb).2⟩⟩
                exact fun b hb => Option.some.inj hb ▸ hfits
              · intro id' hid'
                cases hid'
                exact hid
              · intro id' hid'
                cases hid'
                exact hfresh
              · obtain ⟨t, ht, htid⟩ := Option.map_eq_some_iff.mp hfits.1
                exact ⟨nofun, t, ht, htid ▸ hid⟩
            · have hnone : s.explored = [] := by
                by_contra hexp
                rcases hcarries hexp with hobs' | ⟨_, hmem, -⟩
                · exact hobs hobs'
                · cases hmem
              rw [eq_false_of_ne_true hobs, Bool.not_false, if_pos rfl]
              refine h.outermost h.running rfl rfl (Drives.intoFailure ⟨⟨rfl, hfits.2⟩, hdepth, ?_⟩)
              exact fun hexp => absurd hnone hexp
          · have hne : cuts ≠ [] := fun hnil => howns (h.owns_iff.mpr hnil)
            rw [eq_false_of_ne_true howns, Bool.not_false, if_pos rfl]
            exact h.inner hne h.running rfl
              (Drives.intoFailure ⟨hfits, hdepth, hobserved⟩)

end Leaves

/-! ### Errors -/

/-- The outermost cut is the innermost one that owns a transaction. -/
theorem Balanced.exists_owner (h : Balanced cuts) (hne : cuts ≠ []) :
    ∃ frame inner, cuts.dropWhile (fun frame => !frame.ownsTransaction) = [frame] ∧
      cuts.takeWhile (fun frame => !frame.ownsTransaction) = inner ∧ cuts = inner ++ [frame] := by
  induction cuts with
  | nil => exact absurd rfl hne
  | cons frame cuts ih =>
    cases howns : frame.ownsTransaction with
    | true =>
      obtain rfl := h.2.2.1.mp howns
      exact ⟨frame, [], by simp [howns]⟩
    | false =>
      have hcuts : cuts ≠ [] := fun hnil => nomatch (h.2.2.1.mpr hnil).symm.trans howns
      obtain ⟨owner, inner, hdrop, htake, hall⟩ := ih h.2.2.2 hcuts
      refine ⟨owner, frame :: inner, ?_, ?_, ?_⟩
      · rw [List.dropWhile_cons, howns]
        exact hdrop
      · rw [List.takeWhile_cons, howns, ← htake]
        rfl
      · rw [hall, List.cons_append]

/-- What was observed shows in the flags up to a cut, or in those outside it. -/
theorem Carries.split (h : s.Carries observed) {inner : List (CutFrame L)}
    (hcuts : s.cuts = inner ++ frame :: cuts) (hexp : s.explored ≠ []) :
    ((frame :: inner).any (·.observedFailure) || observed) = true ∨
      ∃ outer ∈ cuts, outer.observedFailure = true := by
  rcases h hexp with hobs | ⟨outer, hmem, hobs⟩
  · exact .inl (by rw [hobs, Bool.or_true])
  · have hflags (hinner : outer ∈ frame :: inner) :
        ((frame :: inner).any (·.observedFailure) || observed) = true := by
      rw [List.any_eq_true.mpr ⟨outer, hinner, hobs⟩, Bool.true_or]
    rcases List.mem_append.mp (hcuts ▸ hmem) with hmem | hmem
    · exact .inl (hflags (.tail _ hmem))
    · rcases List.mem_cons.mp hmem with rfl | hmem
      · exact .inl (hflags (.head _))
      · exact .inr ⟨outer, hmem, hobs⟩

/-- What the invariant says of the branch at hand, also of one whose cut has failed into a restart. -/
structure AtHand (s : Task L) (attempt : Option Nat) (branch : Branch L) (scopeDepth : Nat) :
    Prop where
  fits : ∃ attempt', Fits attempt' branch ∧ (s.cuts ≠ [] → attempt' = attempt)
  depth : scopeDepth = s.cuts.length
  carries : s.Carries branch.observed

theorem Drives.atHand (h : s.Drives attempt branch scopeDepth) :
    s.AtHand attempt branch scopeDepth :=
  ⟨⟨attempt, h.1, fun _ => rfl⟩, h.2.1, h.2.2⟩

/-- What the invariant says of the branch that the work is about. -/
theorem WorkOk.atHand {work : MachineWork L} (h : s.WorkOk attempt work) :
    s.AtHand attempt work.branch work.scopeDepth := by
  cases work with
  | drive | deliver | resume | specialize => exact Drives.atHand h
  | outcome outcome scopeDepth =>
    cases outcome with
    | complete | pushback => exact Drives.atHand h
    | fail => exact h.1.atHand
    | retry =>
      rcases h with hd | ⟨hzero, hcuts, hcarries, ⟨attempt', hfits⟩, -⟩
      · exact hd.atHand
      · exact ⟨⟨attempt', hfits, fun hne => absurd hcuts hne⟩,
          hzero.trans (congrArg List.length hcuts).symm, hcarries⟩

section

variable (h : s.Base attempt) (hwork : s.WorkOk attempt s.work)
include h hwork

/-- In a cut, the branch at hand has the transaction of the attempt. -/
theorem Base.exists_transaction (hcuts : s.cuts ≠ []) :
    ∃ t, s.work.branch.transaction = some t ∧ s.observations t.id = s.explored := by
  obtain ⟨attempt', hfits, hsame⟩ := hwork.atHand.fits
  obtain rfl := hsame hcuts
  cases attempt' with
  | none => exact absurd (h.attempt_none.mp rfl) hcuts
  | some id =>
    obtain ⟨t, ht, rfl⟩ := Option.map_eq_some_iff.mp hfits.1
    exact ⟨t, ht, h.observations t.id rfl⟩

/-- What a checkpoint waits for is what the branch observed. -/
theorem Base.checkpointWake (hexp : s.cuts ≠ [] → s.explored = [])
    (hwake : s.checkpointWake = some wake) : s.BlockedOk wake := by
  obtain ⟨⟨generation, checkpoint⟩, hretry, rfl⟩ := Option.map_eq_some_iff.mp hwake
  obtain ⟨⟨attempt', hfits, -⟩, hdepth, -⟩ := hwork.atHand
  obtain ⟨htransaction, hnoretry⟩ := hfits.2 generation checkpoint hretry
  by_cases hcuts : s.cuts = []
  · refine .inl ⟨hcuts, checkpoint, ?_, ?_, fun _ _ hc => ?_⟩
    · rw [hdepth, hcuts]
      rfl
    · rw [htransaction]
      rfl
    · rw [hnoretry] at hc
      cases hc
  · obtain ⟨t, ht, hobs⟩ := h.exists_transaction hwork hcuts
    exact .inr ⟨t, ht, hobs.trans (hexp hcuts)⟩

/-- What an error waits for. The flags of the frames and of the branch tell whether the attempt has
observed something. -/
theorem Base.retryWake (hwake : s.retryWake = some wake) : s.BlockedOk wake := by
  unfold Task.retryWake at hwake
  by_cases hcuts : s.cuts = []
  · rw [hcuts] at hwake
    exact h.checkpointWake hwork (fun hne => absurd hcuts hne) hwake
  · obtain ⟨frame, inner, hdrop, htake, hall⟩ := h.balanced.exists_owner hcuts
    rw [hdrop, htake] at hwake
    dsimp only at hwake
    obtain ⟨t, ht, hobs⟩ := h.exists_transaction hwork hcuts
    split at hwake
    next =>
      rw [ht, Option.some_or] at hwake
      cases hwake
      exact ⟨rfl, hcuts, t, rfl, hobs⟩
    next hflags =>
      refine h.checkpointWake hwork (fun _ => ?_) hwake
      by_contra hexp
      rcases hwork.atHand.carries.split hall hexp with hflagged | ⟨_, hmem, -⟩
      · exact hflags hflagged
      · cases hmem

/-- **An error keeps the invariant**: what was observed goes on with the branch around the `.try` that
answers, or is what the task waits for. -/
theorem Base.handleStepError (hs : s.Running) {error : TaskHalt}
    (herror : error ≠ .permanentFailure) : (s.handleStepError error).Ok := by
  unfold Task.handleStepError
  split
  next frame cuts hdrop =>
    have hall : s.cuts = s.cuts.takeWhile (fun frame => !frame.trying) ++ frame :: cuts := by
      rw [← hdrop, List.takeWhile_append_dropWhile]
    exact (h.leaves_inner hs hall).pop.deliverTry rfl _ fun _ => hwork.atHand.carries.split hall
  next =>
    split
    next wake hwake =>
      exact ok_of_blocked attempt (h.same rfl) hs.1 rfl (h.retryWake hwork hwake)
    next => exact ok_finish herror

end

/-! ### Fixpoints -/

/-- A fixpoint starts from a branch that the attempt explores. -/
theorem Base.startFixpoint (h : s.Base attempt) (hs : s.Running)
    (hwork : s.WorkOk attempt s.work) {root : Nat}
    (hroot : ∀ fixRoot, s.roots[root]? = some fixRoot →
      s.Drives attempt fixRoot.entry fixRoot.scopeDepth)
    (choices : List FixChoice) (restarts : List FixRestart) :
    (s.startFixpoint root choices restarts).Ok := by
  unfold Task.startFixpoint
  split
  · exact h.handleStepError hwork hs nofun
  · rename_i fixRoot hfix
    dsimp only
    split
    · exact h.handleStepError hwork hs nofun
    · exact h.move hs (hroot fixRoot hfix) rfl

/-- A fixpoint that is restarted in its own scope and attempt drives its entry again. -/
theorem Base.restart (h : s.Base attempt) (hs : s.Running)
    (hwork : s.WorkOk attempt s.work) {failed : Branch L}
    {restart : FixRestart} (hkeeps : s.KeepsFailure failed s.cuts.length)
    (hhead : failed.fixRestarts.head? = some restart)
    (hscope : restartScope s.roots restart = s.cuts.length)
    (hfits : 0 < s.cuts.length → Fits attempt failed) (hcarries : s.Carries failed.observed)
    (choices : List FixChoice) (restarts : List FixRestart) :
    (s.startFixpoint restart.root choices restarts).Ok := by
  refine h.startFixpoint hs hwork (fun fixRoot hroot => ?_) choices restarts
  have hdepth : fixRoot.scopeDepth = s.cuts.length := by
    rw [restartScope, hroot] at hscope
    exact hscope
  obtain ⟨attempt', hentry, hzero⟩ := h.roots fixRoot (List.mem_of_getElem? hroot)
  obtain ⟨hsame, hobserved⟩ := hkeeps.1 restart hhead fixRoot hroot hdepth
  refine ⟨?_, hdepth, fun hexp => ?_⟩
  · by_cases hpos : 0 < s.cuts.length
    · exact ⟨(hsame hpos).trans (hfits hpos).1, hentry.2⟩
    · have hnil : s.cuts.length = 0 := Nat.eq_zero_of_not_pos hpos
      have hattempt := h.attempt_none.mpr (List.length_eq_zero_iff.mp hnil)
      rw [hattempt, ← hzero.mpr (hdepth.trans hnil)]
      exact hentry
  · rcases hcarries hexp with hobs | hframe
    · exact hobserved hobs
    · exact .inr hframe

/-! ### Outcomes -/

section

variable (h : s.Base attempt) (hs : s.Running) (hok : s.WorkOk attempt s.work)
include h hs hok

/-- A branch that ends outside of every cut ends the task, or blocks it. -/
theorem Base.handleTopLevelOutcome (hcuts : s.cuts = [])
    (hwork : s.WorkOk attempt (.outcome outcome scopeDepth))
    (hkeeps : ∀ failed, outcome = .retry failed → s.KeepsFailure failed scopeDepth) :
    (s.handleTopLevelOutcome outcome scopeDepth).Ok := by
  obtain rfl := h.attempt_none.mpr hcuts
  cases outcome with
  | complete => exact ⟨nofun, nofun⟩
  | fail => exact ⟨fun _ => hwork.1.explored_eq_nil hcuts, nofun⟩
  | pushback branch generation =>
    have hd : s.Drives none branch scopeDepth := hwork
    have hzero : scopeDepth = 0 := by rw [hd.2.1, hcuts]; rfl
    exact ok_of_blocked none (h.same rfl) hs.1 rfl
      (.inl ⟨hcuts, branch, by rw [hzero], hd.1⟩)
  | retry failed =>
    have hkeeps := hkeeps failed rfl
    have hzero : scopeDepth = 0 := by
      rcases hwork with hd | hr
      · rw [hd.2.1, hcuts]
        rfl
      · exact hr.1
    have hlen : s.cuts.length = 0 := by rw [hcuts]; rfl
    have hcarries : s.Carries failed.observed := by
      rcases hwork with hd | hr
      · exact hd.2.2
      · exact hr.2.2.1
    subst hzero
    unfold Task.handleTopLevelOutcome
    dsimp only
    rcases restartFixpoint_cases s failed 0 with
      ⟨hnone, hall⟩ | ⟨restart, hhead, ⟨-, heq⟩ | ⟨hscope, choices, restarts, heq⟩⟩
    · -- no restart: the branch goes back to its checkpoint
      rw [hnone]
      have hd : s.Drives none failed 0 := by
        rcases hwork with hd | ⟨-, -, -, -, restart, hhead, -⟩
        · exact hd
        · exact absurd (hall restart hhead) (Nat.not_lt_zero _)
      dsimp only
      split
      · exact h.handleStepError hok hs nofun
      · rename_i generation checkpoint hretry
        obtain ⟨htransaction, hnoretry⟩ := hd.1.2 generation checkpoint hretry
        refine ok_of_blocked none (h.same rfl) hs.1 rfl
          (.inl ⟨hcuts, checkpoint, rfl, ?_, fun _ _ hc => ?_⟩)
        · rw [htransaction]
          rfl
        · rw [hnoretry] at hc
          cases hc
    · rw [heq]
      exact h.handleStepError hok hs nofun
    · rw [heq]
      refine h.restart hs hok (hlen ▸ hkeeps) hhead (hlen ▸ hscope) (fun hpos => ?_) hcarries choices
        restarts
      rw [hlen] at hpos
      exact absurd hpos (Nat.lt_irrefl 0)

section

variable (hcuts : s.cuts = frame :: cuts) (hd : s.Drives attempt branch scopeDepth)
include hcuts hd

omit hok in
/-- A cut whose branch completes commits, or passes on what it observed. -/
theorem Base.completeCut (value : L.Value)
    (hkeeps : frame.ownsTransaction = false → frame.observedFailure = true →
      branch.observed = true ∨ ∃ outer ∈ cuts, outer.observedFailure = true)
    (hfallback : frame.fallback.isSome → ∀ t, branch.transaction = some t →
      s.conflicts t = false) :
    (s.completeCut frame cuts value branch).Ok := by
  have hleaves := h.leaves hs hcuts
  have hdepth := hleaves.length_eq
  unfold Task.completeCut
  dsimp only
  split
  · rename_i t howns ht
    obtain rfl := hleaves.owns_iff.mp howns
    split
    · rename_i hconflict
      split
      · -- a `.try` answers that its commit conflicts
        exact hleaves.pop.deliverTry rfl _ fun hinner => nomatch howns.symm.trans hinner
      · exact (hleaves.retry hd.1 true frame.pushback).finishCutAttempt (fun _ => .inl rfl)
          fun _ hfall _ => nomatch (hfallback hfall t ht).symm.trans hconflict
    · obtain ⟨store, generation, heq⟩ := applyEdits_eq { s with cuts := [] } t.edits
      rw [heq]
      exact hleaves.outermost hs rfl rfl ⟨⟨rfl, hd.1.2⟩, hdepth, fun hexp => absurd rfl hexp⟩
  · exact ok_finish nofun
  · rename_i hinner
    have hne : cuts ≠ [] := fun hnil => by
      rw [hleaves.owns_iff.mpr hnil] at hinner
      cases hinner
    refine hleaves.inner hne hs rfl ⟨hd.1, hdepth, fun hexp => ?_⟩
    rcases hd.2.2.cases_cons hcuts hexp with hobs | hobs | houter
    · exact .inl hobs
    · exact hkeeps hinner hobs
    · exact .inr houter

/-- A cut whose branches have all failed passes the failure on. -/
theorem Base.failCut (hkeeps : s.KeepsFailure branch scopeDepth) :
    (s.failCut frame cuts branch scopeDepth).Ok := by
  have hleaves := h.leaves hs hcuts
  have hdepth := hd.2.1
  unfold Task.failCut
  rcases restartFixpoint_cases s branch scopeDepth with
    ⟨hnone, hall⟩ | ⟨restart, hhead, ⟨-, heq⟩ | ⟨hscope, choices, restarts, heq⟩⟩
  · rw [hnone]
    dsimp only
    have hfailed := hleaves.retry hd.1 (frame.observedFailure || branch.observed) frame.pushback
    -- what the branch observed joins the frame
    have hcarries : s.explored ≠ [] → (frame.observedFailure || branch.observed) = true ∨
        ∃ outer ∈ cuts, outer.observedFailure = true := by
      intro hexp
      rcases hd.2.2.cases_cons hcuts hexp with hobs | hobs | houter
      · exact .inl (by rw [hobs, Bool.or_true])
      · exact .inl (by rw [hobs, Bool.true_or])
      · exact .inr houter
    split
    · rename_i next alternatives halt
      have halt' : frame.alternatives = next :: alternatives := halt
      have hnext := hleaves.frame.alternatives next (halt' ▸ (.head _))
      refine ok_of_base attempt ⟨hleaves.balanced, ?_, h.roots, ?_, h.observations, h.fresh⟩ hs
        ⟨hnext, hleaves.balanced.1, fun hexp => .inr ?_⟩
      · refine List.forall_mem_cons.mpr ⟨{ hfailed.frame with alternatives := ?_ }, hleaves.frames⟩
        exact fun b hb => hleaves.frame.alternatives b (halt'.symm ▸ .tail _ hb)
      · exact iff_of_false (fun hnone => nomatch hcuts.symm.trans (h.attempt_none.mp hnone))
          nofun
      · exact (List.exists_mem_cons_iff ..).mpr (hcarries hexp)
    · rename_i halt
      refine hfailed.finishCutAttempt hcarries fun _ hfallback hnot => ?_
      have hnorestart : branch.fixRestarts = [] := by
        cases hr : branch.fixRestarts with
        | nil => rfl
        | cons restart restarts =>
          have hlt := hall restart (by rw [hr]; rfl)
          have hscope : frame.scopeDepth = scopeDepth := by
            rw [hleaves.balanced.1, hdepth, hcuts]
            rfl
          have hany : branch.fixRestarts.head?.any
              (restartScope s.roots · < frame.scopeDepth) = false := hnot
          rw [hr, hscope] at hany
          exact absurd hlt (of_decide_eq_false hany)
      by_contra hexp
      have hobs := hkeeps.2 frame cuts hcuts hfallback halt hnorestart
      rcases hcarries hexp with hobs' | ⟨outer, hmem, -⟩
      · rw [hobs] at hobs'
        exact nomatch hobs'
      · -- a choice with a fallback is outside every cut
        obtain ⟨b, hb⟩ := Option.isSome_iff_exists.mp hfallback
        have hnil := hleaves.owns_iff.mp (hleaves.frame.fallback b hb).1
        rw [hnil] at hmem
        cases hmem
  · rw [heq]
    exact h.handleStepError hok hs nofun
  · rw [heq]
    subst hdepth
    exact h.restart hs hok hkeeps hhead hscope (fun _ => hd.1) hd.2.2 choices restarts

end

/-- The four outcomes of a branch, by the innermost cut. -/
theorem Base.handleOutcome (hwork : s.work = .outcome outcome scopeDepth) (hkeeps : s.Keeps) :
    (s.handleOutcome outcome scopeDepth).Ok := by
  have houtcome : s.WorkOk attempt (.outcome outcome scopeDepth) := hwork ▸ hok
  unfold Keeps at hkeeps
  rw [hwork] at hkeeps
  unfold Task.handleOutcome
  split
  · rename_i hcuts
    refine h.handleTopLevelOutcome hs hok hcuts houtcome ?_
    rintro failed rfl
    exact hkeeps
  · rename_i frame cuts hcuts
    split
    · exact h.handleStepError hok hs nofun
    · cases outcome with
      | complete value completed =>
        obtain ⟨hkeeps, hfallback⟩ := hkeeps frame cuts hcuts
        exact h.completeCut hs hcuts houtcome value hkeeps hfallback
      | fail => exact h.failCut hs hok hcuts houtcome.1 hkeeps
      | retry =>
        rcases houtcome with hd | hr
        · exact h.failCut hs hok hcuts hd hkeeps
        · exact nomatch hcuts.symm.trans hr.2.1
      | pushback failed generation =>
        have hd : s.Drives attempt failed scopeDepth := houtcome
        exact ((h.leaves hs hcuts).retry hd.1 true (some generation)).finishCutAttempt
          (fun _ => .inl rfl) nofun

end

/-! ### Delimited control and delivery -/

section

variable (h : s.Base attempt) (hs : s.Running) (hd : s.Drives attempt branch scopeDepth)
include h hs hd

theorem Base.applyCallee (callee : Callee L) (value : L.Value) :
    (s.applyCallee callee value branch scopeDepth).Ok := by
  cases callee with
  | function | captured =>
    exact h.move hs hd rfl

variable (hok : s.WorkOk attempt s.work)
include hok

theorem Base.reset (key : L.Key) (operation : L.Effect) :
    (s.reset key operation branch scopeDepth).Ok := by
  unfold Task.reset
  split
  · exact h.handleStepError hok hs nofun
  · exact h.move hs hd rfl

theorem Base.shift (key : L.Key) (function : L.Function) :
    (s.shift key function branch scopeDepth).Ok := by
  unfold Task.shift
  split
  · exact h.handleStepError hok hs nofun
  · split
    · exact h.handleStepError hok hs nofun
    · exact h.move hs hd rfl

theorem Base.resume (id : Nat) (value : L.Value) : (s.resume id value branch scopeDepth).Ok := by
  unfold Task.resume
  split
  · exact h.handleStepError hok hs nofun
  · exact h.handleStepError hok hs nofun
  · exact h.move hs hd rfl

/-- A value for the innermost reset or delimiter. -/
theorem Base.deliverToLayer (value : L.Value) : (s.deliverToLayer value branch scopeDepth).Ok := by
  unfold Task.deliverToLayer
  split
  · exact h.handleStepError hok hs nofun
  · dsimp only
    split
    · split
      · exact h.handleStepError hok hs nofun
      · rename_i frame outer _ _
        have hd' : s.Drives attempt { branch with state := L.withResets branch.state outer }
            scopeDepth := hd
        exact h.applyCallee hs hd' _ _
    · split
      · exact h.move hs hd rfl
      · exact h.move hs hd rfl
      · exact h.move hs hd rfl

/-- A value for the innermost continuation. -/
theorem Base.deliverStep (value : L.Value) : (s.deliverStep value branch scopeDepth).Ok := by
  unfold Task.deliverStep
  split
  · exact h.deliverToLayer hs hd hok value
  · rename_i continuation sequence hsequence
    have hd' : s.Drives attempt { branch with control.sequence := sequence } scopeDepth := hd
    dsimp only
    split
    · exact h.applyCallee hs hd' _ value
    · unfold finishFixpoint
      split
      · exact h.handleStepError hok hs nofun
      · split
        · exact h.handleStepError hok hs nofun
        · split
          · exact h.handleStepError hok hs nofun
          · split
            · exact h.handleStepError hok hs nofun
            · exact h.move hs hd rfl
    · exact h.move hs hd rfl
    · split
      · exact h.move hs hd rfl
      · exact h.handleStepError hok hs nofun

end

/-! ### Requests -/

section

variable (h : s.Base attempt) (hs : s.Running) (hd : s.Drives attempt branch scopeDepth)
include h hs hd

/-- An alternative is kept for when the branch fails. -/
theorem Base.alt (hok : s.WorkOk attempt s.work) (left right : L.Effect) :
    (s.alt left right branch scopeDepth).Ok := by
  unfold Task.alt
  split
  · split
    · rename_i active rest _
      obtain ⟨-, -, ht, hr⟩ := fixChoice_fields branch active rest
      split
      all_goals
        rename_i heq
        rw [heq] at ht hr
      · exact h.enterCut hs (hd.same rfl ht hr) left false nofun
      · exact h.move hs (hd.same rfl ht hr) rfl
    · split
      · exact h.handleStepError hok hs nofun
      · -- the second operand stays with the frame
        rename_i frame cuts hcuts
        have hleaves := h.leaves hs hcuts
        have hbase : Base { s with
            cuts := { frame with
              alternatives := { branch with effect := right } :: frame.alternatives } :: cuts }
            attempt := by
          refine ⟨hleaves.balanced, ?_, h.roots, ?_, h.observations, h.fresh⟩
          · refine List.forall_mem_cons.mpr ⟨{ hleaves.frame with alternatives := ?_ }, hleaves.frames⟩
            exact List.forall_mem_cons.mpr ⟨hd.1, hleaves.frame.alternatives⟩
          · exact iff_of_false (fun hnone => nomatch hcuts.symm.trans (h.attempt_none.mp hnone))
              nofun
        refine hbase.enterCut hs ⟨hd.1, ?_, fun hexp => ?_⟩ left false nofun
        · rw [hd.2.1, hcuts]
          rfl
        · have hcarries := hd.2.2.cases_cons hcuts hexp
          rwa [List.exists_mem_cons_iff]
  · rename_i hzero
    refine h.enterCut hs hd left false fun b hb => ?_
    cases hb
    have hscope : scopeDepth = 0 := Nat.eq_zero_of_not_pos hzero
    have hattempt : attempt = none :=
      h.attempt_none.mpr (List.length_eq_zero_iff.mp (hd.2.1.symm.trans hscope))
    exact ⟨hscope, hattempt ▸ hd.1⟩

/-- A read observes its cell. -/
theorem Base.read (address : L.Address) (trying : Bool) :
    (s.read address trying branch scopeDepth).Ok := by
  unfold Task.read
  dsimp only
  obtain ⟨hbase, hdrives, hrunning⟩ := consult_spec h hs hd
    (if branch.transaction.any (fun t => dependsOnSnapshot address t.edits) = true
      then some address else none)
  split
  · exact hbase.move hrunning hdrives rfl
  · split
    · exact hbase.move hrunning hdrives.intoFailure rfl
    · exact hbase.move hrunning hdrives rfl

/-- An edit is staged, or made at once outside of a transaction. -/
theorem Base.edit (address : L.Address) (edit : CellEdit L) :
    (s.edit address edit branch scopeDepth).Ok := by
  unfold Task.edit
  split
  · rename_i t ht
    refine h.move hs ⟨⟨?_, hd.1.2⟩, hd.2.1, fun hexp => (hd.2.2 hexp).imp_left fun hobs => ?_⟩
      rfl
    · rw [← hd.1.1, ht]
      rfl
    · rw [Branch.observed, ht] at hobs
      exact hobs
  · refine h.move hs ⟨⟨hd.1.1, nofun⟩, hd.2⟩ rfl

/-- Every request of the program. -/
theorem Base.interpretRequest (hwork : s.work = .drive branch scopeDepth) (request : Request L) :
    (s.interpretRequest request branch scopeDepth).Ok := by
  have hok : s.WorkOk attempt s.work := hwork ▸ hd
  cases request with
  | ret | seq | resume | specialized => exact h.move hs hd rfl
  | alt left right => exact h.alt hs hd hok left right
  | fail => exact h.move hs hd.intoFailure rfl
  | retry =>
    unfold Task.interpretRequest
    dsimp only
    split
    · split
      · exact h.move hs hd rfl
      · exact h.handleStepError hok hs nofun
    · exact h.handleStepError hok hs nofun
  | cut operation => exact h.enterCut hs hd operation false nofun
  | tryCut operation => exact h.enterCut hs hd operation true nofun
  | fix function =>
    -- the new root is entered by the running branch
    have hroot : RootOk (⟨function, branch, scopeDepth⟩ : FixRoot L) := by
      refine ⟨attempt, hd.1, h.attempt_none.trans ?_⟩
      rw [hd.2.1]
      exact List.length_eq_zero_iff.symm
    have hbase : Base { s with roots := s.roots ++ [⟨function, branch, scopeDepth⟩] } attempt :=
      { h with
        roots := List.forall_mem_append.mpr ⟨h.roots, List.forall_mem_singleton.mpr hroot⟩ }
    have hok' : WorkOk { s with roots := s.roots ++ [⟨function, branch, scopeDepth⟩] } attempt
        s.work := hwork ▸ hd
    refine hbase.startFixpoint hs hok' (fun fixRoot hfix => ?_) [] []
    have heq : (s.roots ++ [⟨function, branch, scopeDepth⟩])[s.roots.length]? = some fixRoot := hfix
    rw [List.getElem?_concat_length] at heq
    cases heq
    exact hd
  | onState =>
    unfold Task.interpretRequest
    dsimp only
    split
    · exact h.move hs hd rfl
    · exact h.move hs hd.intoFailure rfl
  | read address trying => exact h.read hs hd address trying
  | edit address edit => exact h.edit hs hd address edit
  | reset key operation => exact h.reset hs hd hok key operation
  | shift key function => exact h.shift hs hd hok key function
  | malformed => exact h.handleStepError hok hs nofun

theorem Base.completeSpecializationRequest (result : RequestResult L) :
    (s.completeSpecializationRequest result branch scopeDepth).Ok := by
  cases result with
  | ret | drive | «scoped» operation close | pushback => exact h.move hs hd rfl
  | fail => exact h.move hs hd.intoFailure rfl

theorem Base.specializationStep (answer : Answer L) :
    (s.specializationStep answer branch scopeDepth).Ok := by
  obtain ⟨hbase, hdrives, hrunning⟩ := consult_spec h hs hd answer.observed
  refine hbase.completeSpecializationRequest hrunning ?_ answer.result
  split
  · exact ⟨⟨hdrives.1.1, nofun⟩, hdrives.2⟩
  · exact hdrives

end

/-! ### Runs -/

theorem Base.restartCut (h : s.Base attempt) (hs : s.Running) (hcuts : s.cuts ≠ []) :
    (s.restartCut 0).Ok := by
  have hlast := List.dropLast_append_getLast hcuts
  have hleaves := h.leaves_inner hs hlast.symm
  have howns := hleaves.owns_iff.mpr rfl
  unfold Task.restartCut
  rw [List.drop_length_sub_one hcuts]
  have houter : Fits none { (s.cuts.getLast hcuts).outer with transaction := none } :=
    ⟨rfl, hleaves.frame.outer.2⟩
  exact begin_outermost hs h.roots howns hleaves.balanced.1 hleaves.balanced.2.1 houter
    (fun b hb => (hleaves.frame.fallback b hb).2) rfl

/-- A task that is woken starts with nothing explored. -/
theorem Base.applyWake (h : s.Base attempt) (hterminal : s.terminal = none)
    (hwake : s.BlockedOk wake) (hchanged : ∀ t, wake.validation = some t → s.conflicts t = true) :
    (s.applyWake wake.action).Ok := by
  have hbase : Base { s with blocked := none } attempt := h.same rfl
  unfold BlockedOk at hwake
  unfold Task.applyWake
  cases haction : wake.action with
  | restartCut =>
    rw [haction] at hwake
    obtain ⟨rfl, hcuts, -⟩ := hwake
    exact hbase.restartCut ⟨hterminal, rfl⟩ hcuts
  | replaceWork =>
    rw [haction] at hwake
    rcases hwake with ⟨hcuts, branch, rfl, hfits⟩ | ⟨t, ht, hnone⟩
    · obtain rfl := h.attempt_none.mpr hcuts
      refine ok_of_base none ⟨h.balanced, h.frames, h.roots, h.attempt_none, nofun, nofun⟩
        ⟨hterminal, rfl⟩ ⟨hfits, ?_, fun hne => absurd rfl hne⟩
      show 0 = s.cuts.length
      rw [hcuts]
      rfl
    · -- nothing that was not observed can change
      have := hchanged t ht
      rw [conflicts, hnone] at this
      cases this

/-- A blocked task is woken only by a change of what it observed. -/
theorem Ok.pollBlocked (h : s.Ok) (hterminal : s.terminal = none) (hblocked : s.blocked = some wake)
    :
    (s.pollBlocked wake).Ok := by
  obtain ⟨attempt, hbase, -, hwake⟩ := h.live hterminal
  replace hwake := hwake wake hblocked
  unfold Task.pollBlocked
  split
  next t ht =>
    split
    next hconflicts =>
      refine hbase.applyWake hterminal hwake fun t' ht' => ?_
      rwa [← Option.some.inj (ht.symm.trans ht')]
    next => exact ok_of_blocked attempt (hbase.same rfl) hterminal rfl hwake
  next hnone =>
    split
    · exact hbase.applyWake hterminal hwake fun t ht => nomatch hnone.symm.trans ht
    · exact h

/-- **Every step keeps the invariant.** -/
theorem Ok.step (h : s.Ok) (hkeeps : s.Keeps) (answer : Answer L) :
    (s.step answer).Ok := by
  unfold Task.step
  split
  · exact h
  · rename_i wake hterminal hblocked
    exact h.pollBlocked hterminal hblocked
  · rename_i hterminal hblocked
    obtain ⟨attempt, hbase, hwork, -⟩ := h.live hterminal
    replace hwork := hwork hblocked
    have hs : s.Running := ⟨hterminal, hblocked⟩
    split
    all_goals rename_i heq
    · exact hbase.interpretRequest hs (heq ▸ hwork :) heq _
    · exact hbase.deliverStep hs (heq ▸ hwork :) hwork _
    · exact hbase.resume hs (heq ▸ hwork :) hwork _ _
    · exact hbase.specializationStep hs (heq ▸ hwork :) answer
    · exact hbase.handleOutcome hs hwork heq hkeeps

/-- Work depends on the task only by what `kept` says. -/
theorem WorkOk.same {work : MachineWork L} (h : s.WorkOk attempt work) (hkept : s'.kept = s.kept) :
    s'.WorkOk attempt work := by
  have hdrives : ∀ {branch : Branch L} {scopeDepth : Nat},
      s.Drives attempt branch scopeDepth → s'.Drives attempt branch scopeDepth :=
    fun hd => hd.same hkept rfl rfl
  cases work with
  | outcome outcome scopeDepth =>
    cases outcome with
    | complete | pushback => exact hdrives h
    | fail => exact ⟨hdrives h.1, h.2⟩
    | retry =>
      refine h.imp hdrives fun hr => ⟨hr.1, (congrArg Prod.fst hkept).trans hr.2.1,
        hr.2.2.1.same hkept, ?_⟩
      rw [show s'.roots = s.roots from congrArg (·.2.1) hkept]
      exact hr.2.2.2
  | drive | deliver | resume | specialize => exact hdrives h

theorem Ok.publish (h : s.Ok) (address : L.Address) (edit : CellEdit L) :
    (s.publish address edit).Ok where
  permanent := h.permanent
  live hterminal := by
    obtain ⟨attempt, hbase, hwork, hwake⟩ := h.live hterminal
    exact ⟨attempt, hbase.same rfl,
      fun hblocked => (hwork hblocked).same rfl, hwake⟩

theorem Run.ok {effect : L.Effect} {state : L.Local} {store : L.Address → Cell L}
    (h : Run effect state store s) : s.Ok := by
  induction h with
  | start =>
    refine ok_of_base none ⟨trivial, nofun, nofun,
      iff_of_true rfl rfl, nofun, nofun⟩ ⟨rfl, rfl⟩
      ⟨⟨rfl, nofun⟩, rfl, fun hexp => absurd rfl hexp⟩
  | step answer _ hkeeps ih => exact ih.step hkeeps answer
  | publish address edit _ ih => exact ih.publish address edit

/-! ### The property of the runs -/

/-- An error in the outermost cut, after a branch of the attempt observed something: the task waits. -/
theorem Base.handleStepError_waits (h : s.Base attempt) (hs : s.Running)
    (hwork : s.WorkOk attempt s.work) (hcuts : s.cuts = [frame]) (htrying : frame.trying = false)
    (hexp : s.explored ≠ []) (error : TaskHalt) :
    ∃ t, (s.handleStepError error).WaitsOn frame t ∧
      (s.handleStepError error).explored = s.explored := by
  have howns := (h.leaves hs hcuts).owns_iff.mpr rfl
  obtain ⟨t, ht, -⟩ := h.exists_transaction hwork (by simp [hcuts])
  have hflags : ([frame].any (·.observedFailure) || s.work.branch.observed) = true := by
    have hall : s.cuts = [] ++ frame :: [] := hcuts
    rcases hwork.atHand.carries.split hall hexp with hflags | ⟨_, hmem, -⟩
    · exact hflags
    · cases hmem
  have hwake : s.retryWake = some ⟨t.generation, some t, .restartCut 0⟩ := by
    unfold Task.retryWake
    simp only [hcuts, List.dropWhile_cons, List.takeWhile_cons, howns, Bool.not_true,
      Bool.false_eq_true, if_false, hflags, if_true, ht, Option.some_or, List.length_nil]
  have hblocked : s.handleStepError error =
      { s with blocked := some ⟨t.generation, some t, .restartCut 0⟩ } := by
    unfold Task.handleStepError
    simp only [hcuts, List.dropWhile_cons, List.dropWhile_nil, htrying, Bool.not_false, if_true,
      hwake]
  rw [hblocked]
  exact ⟨t, ⟨by rw [hcuts]; rfl, hs.1, _, rfl⟩, rfl⟩

/-- A failed branch of the outermost cut that leaves no choice ends the attempt, and the task waits.
-/
theorem Base.failCut_waits (h : s.Base attempt) (hs : s.Running) (hcuts : s.cuts = [frame])
    (halternatives : frame.alternatives = []) (hfallback : frame.fallback = none)
    (htrying : frame.trying = false) (hd : s.Drives attempt branch frame.scopeDepth)
    (hrestarts : branch.fixRestarts = []) (hexp : s.explored ≠ []) :
    ∃ frame' t, (s.failCut frame [] branch frame.scopeDepth).WaitsOn frame' t ∧
      frame'.operation = frame.operation ∧
      (s.failCut frame [] branch frame.scopeDepth).explored = s.explored := by
  have hleaves := h.leaves hs hcuts
  obtain ⟨id, rfl, -⟩ := hleaves.attempt
  have howns := hleaves.owns_iff.mpr rfl
  have hobserved : (frame.observedFailure || branch.observed) = true := by
    rcases hd.2.2.cases_cons hcuts hexp with hobs | hobs | ⟨_, hmem, -⟩
    · rw [hobs, Bool.or_true]
    · rw [hobs, Bool.true_or]
    · cases hmem
  obtain ⟨t, ht, -⟩ := Option.map_eq_some_iff.mp (hd.1.joinObserved true).1
  have hnorestart : s.restartFixpointAtScope branch frame.scopeDepth = none := by
    unfold restartFixpointAtScope
    rw [hrestarts]
  have hnone : (branch.joinObserved true).fixRestarts.head? = none := by
    show branch.fixRestarts.head? = none
    rw [hrestarts]
    rfl
  unfold Task.failCut
  rw [hnorestart]
  simp only [halternatives]
  unfold Task.finishCutAttempt failedBranch
  simp only [Option.getD_some, hobserved, hnone, Option.any_none, htrying, hfallback, howns,
    Bool.not_true, Bool.and_false, Bool.false_eq_true, if_false]
  cases hpush : frame.pushback with
  | none | some => exact ⟨_, t, ⟨rfl, hs.1, _, by rw [← ht]; rfl⟩, rfl, rfl⟩

/-- A conflict of the blocked transaction is a change of something that the attempt observed. -/
theorem conflicts_iff_changed {t : Transaction L}
    (h : s.observations t.id = s.explored) : s.conflicts t = true ↔ s.Changed t := by
  unfold conflicts Changed
  rw [h, List.any_eq_true]
  simp only [bne_iff_ne]

/-- A cut that is run again starts from the branch that entered it. -/
theorem Base.restartCut_runsAgain (h : s.Base attempt) (hterminal : s.terminal = none)
    (hlast : s.cuts.getLast? = some frame) :
    RunsAgain s (s.applyWake (.restartCut 0)) frame := by
  obtain ⟨inner, hcuts⟩ := List.getLast?_eq_some_iff.mp hlast
  have howns : frame.ownsTransaction = true := (hcuts ▸ h.balanced).suffix.2.2.1.mpr rfl
  have hdrop : s.cuts.drop (s.cuts.length - (0 + 1)) = [frame] := by
    simp [hcuts]
  unfold Task.applyWake Task.restartCut
  dsimp only
  rw [hdrop]
  show RunsAgain s (beginCutAttempt _ _ _) frame
  unfold beginCutAttempt nextAlternative
  simp only [howns, if_true]
  exact ⟨⟨hterminal, rfl⟩, ⟨_, rfl, rfl, rfl, rfl⟩, ⟨_, rfl, rfl, rfl⟩⟩

/-- The invariant says what a task waits for. -/
theorem Ok.waits (h : s.Ok) : s.Waits where
  permanent := h.permanent
  blocks := by
    intro frame hexhausted hexp answer
    obtain ⟨failed, hwork, hrestart⟩ := hexhausted.failed
    obtain ⟨hterminal, hblocked⟩ := hexhausted.running
    obtain ⟨attempt, hbase, hok, -⟩ := h.live hterminal
    have hs : s.Running := ⟨hterminal, hblocked⟩
    have hcuts := hexhausted.cuts
    replace hok := hok hblocked
    -- the failing branch and its step
    have hdrives : s.Drives attempt failed frame.scopeDepth ∧
        s.step answer = s.failCut frame [] failed frame.scopeDepth := by
      unfold Task.step Task.handleOutcome
      rw [hterminal, hblocked, hcuts]
      rcases hwork with heq | heq
      · rw [heq] at hok ⊢
        exact ⟨hok.1, if_neg fun hne => hne rfl⟩
      · rw [heq] at hok ⊢
        refine ⟨hok.resolve_right ?_, if_neg fun hne => hne rfl⟩
        exact fun hr => nomatch hcuts.symm.trans hr.2.1
    obtain ⟨hd, hstep⟩ := hdrives
    rw [hstep]
    rcases restartFixpoint_cases s failed frame.scopeDepth with
      ⟨-, hall⟩ | ⟨restart, hhead, ⟨-, heq⟩ | ⟨hscope, -⟩⟩
    · have hnone : failed.fixRestarts = [] := by
        cases hr : failed.fixRestarts with
        | nil => rfl
        | cons restart restarts =>
          have hhead : failed.fixRestarts.head? = some restart := by rw [hr]; rfl
          exact absurd (hrestart restart hhead) (hall restart hhead).not_gt
      exact hbase.failCut_waits hs hcuts hexhausted.alternatives hexhausted.fallback
        hexhausted.trying hd hnone hexp
    · -- a restart from a cut that has ended is an error, and the error waits
      obtain ⟨t, hwaits, hexplored⟩ := hbase.handleStepError_waits hs hok hcuts hexhausted.trying
        hexp .escapedRestart
      have hfail : s.failCut frame [] failed frame.scopeDepth =
          s.handleStepError .escapedRestart := by
        unfold Task.failCut
        rw [heq]
      rw [hfail]
      exact ⟨frame, t, hwaits, rfl, hexplored⟩
    · exact absurd hscope (hrestart restart hhead).ne'
  wakes := by
    rintro frame t ⟨hcuts, hterminal, generation, hblocked⟩ answer
    obtain ⟨attempt, hbase, -, hwake⟩ := h.live hterminal
    obtain ⟨-, -, t', ht', hobs⟩ := hwake _ hblocked
    obtain rfl := Option.some.inj ht'
    have hiff := conflicts_iff_changed hobs
    have hstep : s.step answer = s.pollBlocked ⟨generation, some t, .restartCut 0⟩ := by
      unfold Task.step
      rw [hterminal, hblocked]
    rw [hstep]
    unfold Task.pollBlocked
    refine ⟨fun hchanged => ?_, fun hchanged => ?_⟩
    · simp only [hiff.mpr hchanged, if_true]
      exact hbase.restartCut_runsAgain hterminal hcuts
    · simp only [mt hiff.mp hchanged]
      exact ⟨hcuts, hterminal, s.generation, rfl⟩

/-- **A task waits for what it observed**, in every run whose steps all keep what was observed. -/
theorem Run.waits_for_explored {effect : L.Effect} {state : L.Local} {store : L.Address → Cell L}
    (h : Run effect state store s) : s.Waits :=
  h.ok.waits

end Task

/-! ### Runs that lose what they observed -/

namespace Sample

/-- Reads the cell and fails. -/
def readAndFail : Effect := .seq .read (.const .fail)

/-- A cut whose inner cut succeeds by its second alternative, and which then fails. -/
def recovers : Effect := .cut (.seq (.cut (.alt readAndFail (.ret (.number 0)))) (.const .fail))

/-- A choice outside every cut, of operands that both fail. -/
def fallsBack : Effect := .alt readAndFail .fail

/-- A cut around a fixpoint that makes a choice of operands that both fail. -/
def restartsFixpoint : Effect := .cut (.fix (.const (.alt readAndFail .fail)))

theorem not_waits_of_permanent {L : Language} {s : Task L}
    (hterminal : s.terminal = some (.failed .permanentFailure)) (hexp : s.explored ≠ []) :
    ¬ s.Waits :=
  fun h => hexp (h.permanent hterminal)

/-- The three programs fail for good although they have read the cell. -/
theorem loses_observations :
    ¬ (run recovers 17).Waits ∧ ¬ (run fallsBack 8).Waits ∧ ¬ (run restartsFixpoint 13).Waits :=
  ⟨not_waits_of_permanent rfl nofun, not_waits_of_permanent rfl nofun,
    not_waits_of_permanent rfl nofun⟩

/-- The states of the runs of a program that keep what was observed. -/
def Reaches (effect : Effect) (s : Task language) : Prop :=
  Task.Run (L := language) effect [] (fun _ => ⟨some (.number 0), 0⟩) s

/-- A cut that reads the cell and fails: the task blocks, and nothing is lost on the way. -/
theorem readAndFail_waits :
    (run (.cut readAndFail) 5).Waits ∧ (run (.cut readAndFail) 5).explored = [()] ∧
      (run (.cut readAndFail) 6).blocked.isSome = true := by
  have h₁ : Reaches (.cut readAndFail) (run (.cut readAndFail) 1) := .step answer .start trivial
  have h₂ : Reaches (.cut readAndFail) (run (.cut readAndFail) 2) := .step answer h₁ trivial
  have h₃ : Reaches (.cut readAndFail) (run (.cut readAndFail) 3) := .step answer h₂ trivial
  have h₄ : Reaches (.cut readAndFail) (run (.cut readAndFail) 4) := .step answer h₃ trivial
  have h₅ : Reaches (.cut readAndFail) (run (.cut readAndFail) 5) := .step answer h₄ trivial
  exact ⟨Task.Run.waits_for_explored h₅, rfl, rfl⟩

end Sample

end Glam.Reflection
