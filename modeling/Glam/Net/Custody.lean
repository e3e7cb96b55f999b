import Glam.Net.Runtime

/-!
# Who holds a callable checkpoint

A call whose callable has to wait leaves a checkpoint in the net: a node with the state of its
evaluation. An evaluator that claims the pair takes the state out of the node, works on it without
the net, and comes back to put it in again, to put a successor in its place, to complete the call or
to fail it (`interaction_net/runtime.rs`). Between two of its visits anybody else may use the net,
with tokens that are current or stale.

`perform` is one use of the net by anyone, with a token of any generation, and tells what the caller
is told. `Run` is any sequence of uses, with whatever else happens to the net in between.

What the state is for is said apart from the net, by `Place`: the state is in the node, with a
claimant, or with nobody, under a generation that each successor of the state raises by one. Each
success is reported with the generation of the token it was asked for with, and moves the state in
one way, only under that generation (`Place.Moves`). The net follows that machine (`Follows.step`),
and what the machine cannot do, no sequence of uses does: a claim is opened by taking the state, and
one success at most ends it, the next one after the taking and with the token of the taking.

A token names a checkpoint and its generation, not who holds it. After a state was put back, the
same token serves the next claim; after it was replaced, no older token serves at all.
-/

namespace Glam.Net

variable {S : NetSpecialization}

/-! ### Where the state is -/

/-- The successes that the uses of a callable report, each with the generation of the token it was
made with. -/
inductive Report (P : Type)
  | installed (payload : P)
  /-- a reduction of the pair claimed it -/
  | claimed
  | taken (generation : Nat) (payload : P)
  | restored (generation : Nat) (payload : P)
  | replaced (generation : Nat) (payload : P)
  | blocked (generation : Nat)
  | retried (generation : Nat)
  /-- a blocked checkpoint failed, and its state was handed out to be dropped -/
  | failedBlocked (generation : Nat) (payload : P)
  | failedPublished (generation : Nat)
  | failedClaimed (generation : Nat)
  | completed (generation : Nat)

/-- Who holds the state of a callable's evaluation, and its generation. -/
inductive Place (P : Type)
  /-- there is none yet -/
  | nowhere
  | node (generation : Nat) (payload : P)
  | claimant (generation : Nat) (payload : P)
  /-- the call was completed or has failed -/
  | nobody

section Place

variable {P : Type}

/-- What each reported success does with the state. -/
inductive Place.Moves : Place P → Report P → Place P → Prop
  | install {p} : Moves .nowhere (.installed p) (.node 0 p)
  | claim {g p} : Moves (.node g p) .claimed (.node g p)
  | take {g p} : Moves (.node g p) (.taken g p) (.claimant g p)
  | restore {g p back} : Moves (.claimant g p) (.restored g back) (.node g back)
  -- a successor makes every token of the state before it stale
  | replace {g p next} : Moves (.claimant g p) (.replaced g next) (.node (g + 1) next)
  | block {g p} : Moves (.node g p) (.blocked g) (.node g p)
  | retry {g p} : Moves (.node g p) (.retried g) (.node g p)
  | failBlocked {g p} : Moves (.node g p) (.failedBlocked g p) .nobody
  | failPublished {g p} : Moves (.node g p) (.failedPublished g) .nobody
  | failClaimed {g p} : Moves (.claimant g p) (.failedClaimed g) .nobody
  | complete {g p} : Moves (.claimant g p) (.completed g) .nobody

/-- What a list of reports does with the state. -/
inductive Place.Runs : Place P → List (Report P) → Place P → Prop
  | nil {place} : Runs place [] place
  | cons {place mid last report reports} :
    Place.Moves place report mid → Runs mid reports last → Runs place (report :: reports) last

namespace Report

/-- The generation of the token that the success was reported for. -/
def generation : Report P → Option Nat
  | .installed _ | .claimed => none
  | .taken g _ | .restored g _ | .replaced g _ | .blocked g | .retried g | .failedBlocked g _
  | .failedPublished g | .failedClaimed g | .completed g => some g

/-- The success ends the claim of whoever took the state. -/
def Settles : Report P → Prop
  | .restored _ _ | .replaced _ _ | .failedClaimed _ | .completed _ => True
  | _ => False

/-- The success ends the callable. -/
def Ends : Report P → Prop
  | .failedBlocked _ _ | .failedPublished _ | .failedClaimed _ | .completed _ => True
  | _ => False

end Report

/-- The state's generation is `g` or a later one, while there is a state. -/
def Place.Since (g : Nat) : Place P → Prop
  | .nowhere => False
  | .node h _ | .claimant h _ => g ≤ h
  | .nobody => True

namespace Place

variable {place mid last : Place P} {report : Report P} {reports : List (Report P)} {g : Nat}

theorem Moves.unique {other : Place P} (h : Moves place report mid)
    (h' : Moves place report other) : mid = other := by
  cases h <;> cases h' <;> rfl

theorem Runs.unique {other : Place P} (h : Runs place reports last)
    (h' : Runs place reports other) : last = other := by
  induction h with
  | nil => cases h'; rfl
  | cons hmove _ ih =>
    cases h' with
    | cons hmove' hrest' =>
      cases hmove.unique hmove'
      exact ih hrest'

theorem Runs.append {more : List (Report P)} (h : Runs place reports mid)
    (h' : Runs mid more last) : Runs place (reports ++ more) last := by
  induction h with
  | nil => exact h'
  | cons hmove _ ih => exact .cons hmove (ih h')

theorem Runs.split {before after : List (Report P)} (h : Runs place (before ++ after) last) :
    ∃ mid, Runs place before mid ∧ Runs mid after last := by
  induction before generalizing place with
  | nil => exact ⟨place, .nil, h⟩
  | cons report before ih =>
    cases h with
    | cons hmove hrest =>
      obtain ⟨mid, hbefore, hafter⟩ := ih hrest
      exact ⟨mid, .cons hmove hbefore, hafter⟩

/-- A claim is settled from its claimant, with a token of the claim's generation. -/
theorem Moves.settles (h : Moves place report mid) (hsettles : report.Settles) :
    ∃ g payload, place = .claimant g payload ∧ report.generation = some g := by
  cases h <;> first | exact ⟨_, _, rfl, rfl⟩ | exact hsettles.elim

theorem Moves.ends (h : Moves place report mid) (hends : report.Ends) : mid = .nobody := by
  cases h <;> first | rfl | exact hends.elim

/-- A claimant has just taken the state: no other success comes between. -/
theorem Runs.just_taken {payload : P} (h : Runs .nowhere reports (.claimant g payload)) :
    ∃ earlier, reports = earlier ++ [.taken g payload] := by
  cases reports using List.reverseRecOn with
  | nil => cases h
  | append_singleton earlier last =>
    obtain ⟨mid, -, hlast⟩ := h.split
    -- the only move to a claimant is the taking
    cases hlast with
    | cons hmove hrest =>
      cases hrest
      cases hmove
      exact ⟨earlier, rfl⟩

theorem Moves.since (h : Moves place report mid) (hplace : place.Since g) :
    mid.Since g ∧ ∀ h ∈ report.generation, g ≤ h := by
  cases h with
  | install => exact hplace.elim
  | claim => exact ⟨hplace, nofun⟩
  | take | restore | block | retry =>
    exact ⟨hplace, fun _ hg => Option.mem_some.mp hg ▸ hplace⟩
  | replace => exact ⟨Nat.le_succ_of_le hplace, fun _ hg => Option.mem_some.mp hg ▸ hplace⟩
  | failBlocked | failPublished | failClaimed | complete =>
    exact ⟨trivial, fun _ hg => Option.mem_some.mp hg ▸ hplace⟩

/-- Generations only grow: no success is reported for a token of an earlier one. -/
theorem Runs.since (h : Runs place reports last) (hplace : place.Since g) :
    ∀ report ∈ reports, ∀ h ∈ report.generation, g ≤ h := by
  induction h with
  | nil => exact nofun
  | cons hmove _ ih =>
    obtain ⟨hmid, hreport⟩ := hmove.since hplace
    exact List.forall_mem_cons.mpr ⟨hreport, ih hmid⟩

theorem Runs.of_nobody (h : Runs .nobody reports last) : reports = [] := by
  cases h with
  | nil => rfl
  | cons hmove _ => cases hmove

end Place

end Place

/-! ### Uses of a callable -/

/-- A callable: the pair of an application and what it calls, which a checkpoint may replace. -/
structure Callable where
  pair : ActivePairKey
  bind : NodeId
  checkpoint : NodeId

namespace Callable

/-- The call that a callable is for. -/
def call (callable : Callable) : Call := ⟨callable.pair, callable.bind, callable.checkpoint⟩

/-- The token of a generation of the checkpoint. -/
def token (callable : Callable) (generation : Nat) : CallableCheckpointCall :=
  ⟨callable.pair, callable.bind, callable.checkpoint, generation⟩

end Callable

/-- The uses of a callable, each with the generation of the token it is made with. -/
inductive CallableUse (S : NetSpecialization)
  | claim
  | install (payload : S.CallableCheckpoint)
  | take (generation : Nat)
  | restore (generation : Nat) (payload : S.CallableCheckpoint)
  | replace (generation : Nat) (payload : S.CallableCheckpoint)
  | block (generation : Nat) (wait : S.WaitToken)
  | retry (generation : Nat) (wait : S.WaitToken)
  | failBlocked (generation : Nat) (wait : S.WaitToken) (reason : S.StuckReason)
  | failClaimed (generation : Nat) (reason : S.StuckReason)
  | failPublished (generation : Nat) (reason : S.StuckReason)
  | completeWithCopy (generation : Nat) (source : PreparedCopySource S)
  | completeWithOperator (generation : Nat) (operator : S.Operator)

/-- What a caller is told, and the net after: a refused use changes nothing. -/
def answer {α : Type} (net : RuntimeNet S) (report : α → Report S.CallableCheckpoint) :
    Option (α × RuntimeNet S) → Option (Report S.CallableCheckpoint) × RuntimeNet S
  | some (a, after) => (some (report a), after)
  | none => (none, net)

/-- Reduces the pair of the callable, where it is that of a bind and a checkpoint. -/
def claimCallable (callable : Callable) (net : RuntimeNet S) :
    Except Panic (Option (ReductionKind × RuntimeNet S)) :=
  match net.callableCheckpoint callable.pair with
  | some call =>
    if call.bind = callable.bind ∧ call.checkpoint = callable.checkpoint then
      net.reducePair callable.pair
    else .ok none
  | none => .ok none

variable {reports : List (Report S.CallableCheckpoint)} {made : NodeId × RuntimeNet S}
  {source : PreparedCopySource S} {reduced : ReductionKind × RuntimeNet S}
  {state : ActivePairState S}

section Perform

variable [DecidableEq S.WaitToken]

/-- One use of a callable: what the caller is told, and the net after. -/
def perform (callable : Callable) (net : RuntimeNet S) :
    CallableUse S → Except Panic (Option (Report S.CallableCheckpoint) × RuntimeNet S)
  | .claim => do
    let reduced ← claimCallable callable net
    .ok (answer net (fun _ => .claimed) reduced)
  | .install payload =>
    .ok (answer net (fun _ => .installed payload)
      (net.installClaimedCallCheckpoint callable.call payload))
  | .take generation => do
    let taken ← net.takeClaimedCallableCheckpoint (callable.token generation)
    .ok (answer net (.taken generation) taken)
  | .restore generation payload =>
    .ok (answer net (fun _ => .restored generation payload)
      (net.restoreClaimedCallableCheckpoint (callable.token generation) payload))
  | .replace generation payload =>
    .ok (answer net (fun _ => .replaced generation payload)
      (net.replaceClaimedCallableCheckpoint (callable.token generation) payload))
  | .block generation wait =>
    .ok (answer net (fun _ => .blocked generation)
      ((net.blockCallableCheckpoint (callable.token generation) wait).map ((), ·)))
  | .retry generation wait =>
    .ok (answer net (fun _ => .retried generation)
      ((net.retryBlockedCallableCheckpoint ⟨callable.token generation, wait⟩).map ((), ·)))
  | .failBlocked generation wait reason =>
    .ok (answer net (.failedBlocked generation)
      (net.failBlockedCallableCheckpoint ⟨callable.token generation, wait⟩ reason))
  | .failClaimed generation reason =>
    .ok (answer net (fun _ => .failedClaimed generation)
      ((net.failClaimedCallableCheckpoint (callable.token generation) reason).map ((), ·)))
  | .failPublished generation reason =>
    .ok (answer net (fun _ => .failedPublished generation)
      ((net.failPublishedCallableCheckpoint (callable.token generation) reason).map ((), ·)))
  -- the source asserts that a completed claim is current
  | .completeWithCopy generation source => do
    let (_, after) ← net.resumeClaimedCheckpointWithCopy (callable.token generation) source
    .ok (some (.completed generation), after)
  | .completeWithOperator generation operator => do
    let (_, after) ← net.resumeClaimedCheckpointWithOperator (callable.token generation) operator
    .ok (some (.completed generation), after)

/-- What else happens to a net, as far as a callable can tell: node numbers are not used again, only
an installation makes a checkpoint, and the node and the pair of a checkpoint are left to its
uses. -/
structure Untouched (callable : Callable) (net after : RuntimeNet S) : Prop where
  grown : net.nextNodeId ≤ after.nextNodeId
  gone : net.nodes.get callable.checkpoint = none → after.nodes.get callable.checkpoint = none
  made : ∀ generation payload,
    after.nodes.get callable.checkpoint = some (.callableCheckpoint generation payload) →
    net.nodes.get callable.checkpoint = some (.callableCheckpoint generation payload)
  kept : ∀ generation payload,
    net.nodes.get callable.checkpoint = some (.callableCheckpoint generation payload) →
    after.nodes.get callable.checkpoint = some (.callableCheckpoint generation payload) ∧
      after.active.get callable.pair = net.active.get callable.pair

/-- **Any sequence of uses of a callable**, by anyone and with any tokens, with whatever else
happens to the net in between. The list is what was reported. -/
inductive Run (callable : Callable) (net : RuntimeNet S) :
    List (Report S.CallableCheckpoint) → RuntimeNet S → Prop
  | start : Run callable net [] net
  | use {reports mid after report} {use : CallableUse S} : Run callable net reports mid →
    perform callable mid use = .ok (report, after) →
    Run callable net (reports ++ report.toList) after
  | elsewhere {reports mid after} : Run callable net reports mid → Untouched callable mid after →
    Run callable net reports after

/-- Uses one after the other: what was reported, and the net after. -/
def performAll (callable : Callable) (net : RuntimeNet S) :
    List (CallableUse S) → Except Panic (List (Report S.CallableCheckpoint) × RuntimeNet S)
  | [] => .ok ([], net)
  | use :: uses => do
    let (report, mid) ← perform callable net use
    let (reports, after) ← performAll callable mid uses
    .ok (report.toList ++ reports, after)

/-- A run goes on. -/
theorem Run.performAll {callable : Callable} {net mid after : RuntimeNet S}
    {more : List (Report S.CallableCheckpoint)} {uses : List (CallableUse S)}
    (h : Run callable net reports mid)
    (huses : Net.performAll callable mid uses = .ok (more, after)) :
    Run callable net (reports ++ more) after := by
  induction uses generalizing reports mid more with
  | nil =>
    cases huses
    rw [List.append_nil]
    exact h
  | cons use uses ih =>
    obtain ⟨first, hfirst, huses⟩ := Except.bind_eq_ok huses
    obtain ⟨rest, hrest, huses⟩ := Except.bind_eq_ok huses
    cases huses
    rw [← List.append_assoc]
    exact ih (h.use hfirst) hrest

end Perform

/-! ### The net follows -/

namespace RuntimeNet

/-- A number that was a node's, and is no node's now. -/
def Retired (id : NodeId) (net : RuntimeNet S) : Prop :=
  id < net.nextNodeId ∧ net.nodes.get id = none

variable {cut : Option Port × RuntimeNet S}

namespace Retired

variable {id : NodeId} {net after : RuntimeNet S}

section

variable (h : Retired id net)
include h

theorem addNode {node : RuntimeNode S} (hadd : net.addNode node = .ok made) :
    Retired id made.2 := by
  obtain ⟨-, hmade⟩ := of_check_bind hadd
  cases hmade
  refine ⟨Nat.lt_succ_of_lt h.1, ?_⟩
  -- the new node's number is not below the next one
  rw [Table.get_set_of_ne _ _ (Nat.ne_of_lt h.1)]
  exact h.2

/-- Removing a node brings none back. -/
theorem removeNode {other : NodeId} {removed : RuntimeNode S × RuntimeNet S}
    (hremove : net.removeNode other = .ok removed) : Retired id removed.2 := by
  unfold RuntimeNet.removeNode at hremove
  split at hremove
  · cases hremove
  · obtain ⟨-, hremoved⟩ := of_check_bind hremove
    cases hremoved
    refine ⟨h.1, ?_⟩
    rw [Table.get_remove]
    split
    · rfl
    · exact h.2

theorem removeKind {other : NodeId} {kind : RuntimeNode S → Bool}
    (hremove : net.removeKind kind other = .ok after) : Retired id after := by
  obtain ⟨removed, hremoved, hafter⟩ := Except.bind_eq_ok hremove
  obtain ⟨-, hafter⟩ := of_check_bind hafter
  cases hafter
  exact h.removeNode hremoved

theorem disconnect {port : Port} (hcut : net.disconnect port = .ok cut) :
    Retired id cut.2 := by
  unfold RuntimeNet.disconnect at hcut
  split at hcut
  · cases hcut; exact h
  · obtain ⟨-, hcut⟩ := of_check_bind hcut
    cases hcut
    exact h

theorem disconnectAll {ports : List Port} (hcut : net.disconnectAll ports = .ok after) :
    Retired id after := by
  induction ports generalizing net with
  | nil => cases hcut; exact h
  | cons port ports ih =>
    obtain ⟨cut, hfirst, hrest⟩ := Except.bind_eq_ok hcut
    exact ih (h.disconnect hfirst) hrest

theorem detachBoundary {ports : List Port} {detached : RewriteBoundary × RuntimeNet S}
    (hdetach : net.detachBoundary ports = .ok detached) : Retired id detached.2 := by
  obtain ⟨links, -, hdetach⟩ := Except.bind_eq_ok hdetach
  obtain ⟨cut, hcut, hdetach⟩ := Except.bind_eq_ok hdetach
  cases hdetach
  exact h.disconnectAll hcut

theorem schedule {pair : ActivePairKey} {transferred : Option (ActivePairState S)}
    (hschedule : net.schedule pair transferred = .ok after) : Retired id after := by
  unfold RuntimeNet.schedule at hschedule
  split at hschedule
  · cases hschedule; exact h
  · split at hschedule
    · cases hschedule; exact h
    · cases hschedule

theorem transfer {left right : Port} {moved : Option (ActivePairState S) × RuntimeNet S}
    (htransfer : net.transfer left right = .ok moved) : Retired id moved.2 := by
  obtain ⟨-, htransfer⟩ := of_check_bind htransfer
  split at htransfer
  · cases htransfer; exact h
  · split at htransfer
    · cases htransfer; exact h
    · obtain ⟨state, -, hmoved⟩ := Except.bind_eq_ok htransfer
      cases hmoved
      exact h

theorem wire {left right : SignedPort} (hwire : net.wire left right = .ok after) :
    Retired id after := by
  obtain ⟨-, hwire⟩ := of_check_bind hwire
  obtain ⟨-, hwire⟩ := of_check_bind hwire
  obtain ⟨-, hwire⟩ := of_check_bind hwire
  split at hwire
  -- a wire between principal ports also enters their pair, which changes no node
  · obtain ⟨moved, hmoved, hwire⟩ := Except.bind_eq_ok hwire
    exact @schedule _ _ (moved.2.link left right) _ (h.transfer hmoved) _ _ hwire
  · cases hwire; exact h

/-- Joining ends brings no node back. -/
theorem joinBoundaryEndpoints {one other : BoundaryEndpoint}
    (hjoin : net.joinBoundaryEndpoints one other = .ok after) : Retired id after := by
  have heraser : ∀ port, (net.addNode .erase >>= fun made =>
      made.2.bindReference (.principal made.1) port) = .ok after → Retired id after := by
    intro port hjoin
    obtain ⟨made, hmade, hwire⟩ := Except.bind_eq_ok hjoin
    exact (h.addNode hmade).wire hwire
  cases one with
  | port first =>
    cases other with
    | port => exact h.wire hjoin
    | erase => exact heraser first hjoin
  | erase =>
    cases other with
    | port last => exact heraser last hjoin
    | erase => cases hjoin; exact h

theorem joinPaths {leave : Bool → Nat → BoundaryEndpoint ⊕ Nat}
    {paths : List (Alternating.Half Nat × Alternating.Half Nat)}
    (hjoin : RuntimeNet.joinPaths leave net paths = .ok after) : Retired id after := by
  induction paths generalizing net with
  | nil => cases hjoin; exact h
  | cons path paths ih =>
    unfold RuntimeNet.joinPaths at hjoin
    split at hjoin
    · obtain ⟨mid, hfirst, hrest⟩ := Except.bind_eq_ok hjoin
      exact ih (h.joinBoundaryEndpoints hfirst) hrest
    · cases hjoin

theorem attachBoundary {boundary : RewriteBoundary} {replacements : List BoundaryReplacement}
    (hattach : net.attachBoundary boundary replacements = .ok after) : Retired id after := by
  obtain ⟨-, hattach⟩ := of_check_bind hattach
  split at hattach
  · cases hattach
  · exact h.joinPaths hattach

/-- The copied nodes have new numbers. -/
theorem addCopiedNodes {sites : Table FanSite FanSite} {entries : List (WholeCopyNode S)}
    {made : List NodeId × RuntimeNet S} (hadd : net.addCopiedNodes sites entries = .ok made) :
    Retired id made.2 := by
  induction entries generalizing net sites made with
  | nil => cases hadd; exact h
  | cons entry entries ih =>
    obtain ⟨first, hfirst, hadd⟩ := Except.bind_eq_ok hadd
    obtain ⟨rest, hrest, hmade⟩ := Except.bind_eq_ok hadd
    cases hmade
    have hsited : Retired id
        { net with nextFanSite := (translateNode sites net.nextFanSite entry.node).2.2 } := h
    exact (ih (hsited.addNode hfirst) hrest : Retired id rest.2)

theorem wireCopied {ids : List NodeId} {wires : List ((Nat × Nat) × WholeCopyLink)}
    (hwires : net.wireCopied ids wires = .ok after) : Retired id after := by
  induction wires generalizing net with
  | nil => cases hwires; exact h
  | cons wire wires ih =>
    obtain ⟨mid, hwire, hrest⟩ := Except.bind_eq_ok hwires
    exact ih (h.wire hwire) hrest

theorem beginCursorCopy {source : S.RuntimeSource} {remote : Port}
    (hbegin : net.beginCursorCopy source remote = .ok made) : Retired id made.2 := by
  obtain ⟨-, hbegin⟩ := of_check_bind hbegin
  obtain ⟨added, hadded, hbegin⟩ := Except.bind_eq_ok hbegin
  cases hbegin
  exact (h.addNode hadded : Retired id added.2)

/-- Installing a copy brings no node back. -/
theorem installCopy {reference : SignedPort}
    (hinstall : net.installCopy source reference = .ok made) : Retired id made.2 := by
  cases source with
  | cursor =>
    obtain ⟨begun, hbegun, hinstall⟩ := Except.bind_eq_ok hinstall
    obtain ⟨wired, hwired, hmade⟩ := Except.bind_eq_ok hinstall
    cases hmade
    exact (h.beginCursorCopy hbegun).wire hwired
  | whole =>
    obtain ⟨added, hadded, hinstall⟩ := Except.bind_eq_ok hinstall
    obtain ⟨mid, hmid, hinstall⟩ := Except.bind_eq_ok hinstall
    obtain ⟨wired, hwired, hmade⟩ := Except.bind_eq_ok hinstall
    cases hmade
    exact ((h.addCopiedNodes hadded).wireCopied hmid).wire hwired

end

end Retired

variable {net after : RuntimeNet S} {call : CallableCheckpointCall}

theorem eq_of_disconnect {port : Port} (h : net.disconnect port = .ok cut) :
    cut.2.nodes = net.nodes ∧ cut.2.nextNodeId = net.nextNodeId := by
  unfold disconnect at h
  split at h
  · cases h; exact ⟨rfl, rfl⟩
  · obtain ⟨-, h⟩ := of_check_bind h
    cases h
    exact ⟨rfl, rfl⟩

/-- A completion needs a claimed checkpoint whose state was taken, and takes its node out. -/
theorem of_takeEmptyClaimedCheckpoint (hknown : call.checkpoint < net.nextNodeId)
    (h : net.takeEmptyClaimedCheckpoint call = .ok after) :
    net.nodes.get call.checkpoint = some (.callableCheckpoint call.generation none) ∧
      net.pairIsClaimed call.pair = true ∧ Retired call.checkpoint after := by
  unfold takeEmptyClaimedCheckpoint at h
  split at h
  · next held hheld =>
    obtain ⟨⟨hclaimed, -, hcurrent⟩, h⟩ := of_check_bind h
    obtain ⟨cut, hcut, h⟩ := Except.bind_eq_ok h
    obtain ⟨removed, hremoved, h⟩ := Except.bind_eq_ok h
    cases h
    obtain ⟨made, hmade, hcut⟩ := Except.bind_eq_ok hcut
    obtain ⟨-, hcut⟩ := of_check_bind hcut
    cases hcut
    -- cutting the wire leaves the numbers of nodes, and the removal leaves none at this one
    have hnext := (eq_of_disconnect hmade).2
    refine ⟨hcurrent ▸ hheld, hclaimed, ?_⟩
    unfold removeNode at hremoved
    split at hremoved
    · cases hremoved
    · obtain ⟨-, hremoved⟩ := of_check_bind hremoved
      cases hremoved
      exact ⟨hnext ▸ hknown, Table.get_remove_self _ _⟩
  · cases h

theorem pairIsClaimed_iff {pair : ActivePairKey} :
    net.pairIsClaimed pair = true ↔ net.active.get pair = some .claimed := by
  unfold pairIsClaimed
  cases net.active.get pair with
  | none => simp
  | some state => cases state <;> simp [ActivePairState.isClaimed]

theorem of_callableCheckpoint {pair : ActivePairKey} (h : net.callableCheckpoint pair = some call) :
    net.nodes.get call.bind = some .bind ∧
      ∃ payload, net.nodes.get call.checkpoint =
        some (.callableCheckpoint call.generation payload) := by
  unfold callableCheckpoint at h
  split at h
  · cases h
  · split at h
    · next hbind hcheckpoint => cases h; exact ⟨hbind, _, hcheckpoint⟩
    · next hcheckpoint hbind => cases h; exact ⟨hbind, _, hcheckpoint⟩
    · cases h

/-- Reducing the pair of a bind and a checkpoint only claims it, if it is ready. -/
theorem of_reducePair_callable {pair : ActivePairKey}
    (hcall : net.callableCheckpoint pair = some call) (h : net.reducePair pair = .ok (some reduced))
    :
    net.active.get pair = some .ready ∧
      reduced.2 = { net with active := net.active.set pair .claimed } := by
  unfold reducePair at h
  split at h
  · next hready =>
    unfold callableCheckpoint at hcall
    refine ⟨hready, ?_⟩
    dsimp only at h
    rw [show ({ net with active := net.active.set pair .claimed } : RuntimeNet S).pairNodes pair =
      net.pairNodes pair from rfl] at h
    cases hnodes : net.pairNodes pair with
    | none => rw [hnodes] at hcall; cases hcall
    | some nodes =>
      rw [hnodes] at hcall h
      obtain ⟨left, right⟩ := nodes
      dsimp only at hcall h
      split at hcall
      · next hleft hright => rw [hleft, hright] at h; cases h; rfl
      · next hleft hright => rw [hleft, hright] at h; cases h; rfl
      · cases hcall
  · cases h

end RuntimeNet

/-- The net holds the state where `place` says. -/
def Place.Agrees (callable : Callable) (net : RuntimeNet S) : Place S.CallableCheckpoint → Prop
  | .nowhere => ∀ generation payload,
    net.nodes.get callable.checkpoint ≠ some (.callableCheckpoint generation payload)
  | .node generation payload =>
    net.nodes.get callable.checkpoint = some (.callableCheckpoint generation (some payload))
  | .claimant generation _ =>
    net.nodes.get callable.checkpoint = some (.callableCheckpoint generation none) ∧
      net.active.get callable.pair = some .claimed
  | .nobody => net.nodes.get callable.checkpoint = none ∨
    ∃ generation reason,
      net.nodes.get callable.checkpoint = some (.callableCheckpoint generation none) ∧
        net.active.get callable.pair = some (.stuck reason)

namespace Place

variable {callable : Callable} {net after : RuntimeNet S} {place : Place S.CallableCheckpoint}
  {generation : Nat} {payload : S.CallableCheckpoint}

section

variable (h : place.Agrees callable net)
include h

theorem Agrees.of_some
    (hnode : net.nodes.get callable.checkpoint =
      some (.callableCheckpoint generation (some payload)))
    : place = .node generation payload := by
  cases place with
  | nowhere => exact (h _ _ hnode).elim
  | node => cases hnode.symm.trans h; rfl
  -- with a claimant or nobody the node is empty, if it is there at all
  | claimant => cases hnode.symm.trans h.1
  | nobody =>
    obtain hheld | ⟨_, _, hheld, -⟩ := h <;> rw [hnode] at hheld <;> cases hheld

/-- Where the payload is gone, its claimant holds it. -/
theorem Agrees.of_none
    (hnode : net.nodes.get callable.checkpoint = some (.callableCheckpoint generation none))
    (hclaimed : net.active.get callable.pair = some .claimed) :
    ∃ held, place = .claimant generation held := by
  cases place with
  | nowhere => exact (h _ _ hnode).elim
  | node => cases hnode.symm.trans h
  | claimant _ held => cases hnode.symm.trans h.1; exact ⟨held, rfl⟩
  | nobody =>
    -- the pair of a callable that has failed is stuck, and so is not claimed
    obtain hheld | ⟨_, _, -, hstuck⟩ := h
    · rw [hnode] at hheld; cases hheld
    · rw [hclaimed] at hstuck; cases hstuck

/-- The node of a pair that is neither claimed nor stuck has its state. -/
theorem Agrees.exists_node {held : Option S.CallableCheckpoint}
    (hnode : net.nodes.get callable.checkpoint = some (.callableCheckpoint generation held))
    (hactive : net.active.get callable.pair = some state) (hclaimed : state ≠ .claimed)
    (hstuck : ∀ reason, state ≠ .stuck reason) : ∃ payload, place = .node generation payload := by
  cases place with
  | nowhere => exact (h _ _ hnode).elim
  | node _ payload => cases hnode.symm.trans h; exact ⟨payload, rfl⟩
  | claimant => exact (hclaimed (Option.some.inj (hactive.symm.trans h.2))).elim
  | nobody =>
    obtain hheld | ⟨_, reason, -, hreason⟩ := h
    · rw [hnode] at hheld; cases hheld
    · exact (hstuck reason (Option.some.inj (hactive.symm.trans hreason))).elim

/-- What happens elsewhere leaves the callable where it is. -/
theorem Agrees.elsewhere (hafter : Untouched callable net after) : place.Agrees callable after := by
  cases place with
  | nowhere => exact fun generation payload hnode => h _ _ (hafter.made _ _ hnode)
  | node => exact (hafter.kept _ _ h).1
  | claimant =>
    obtain ⟨hkept, hactive⟩ := hafter.kept _ _ h.1
    exact ⟨hkept, hactive.trans h.2⟩
  | nobody =>
    obtain hgone | ⟨generation, reason, hnode, hstuck⟩ := h
    · exact .inl (hafter.gone hgone)
    · obtain ⟨hkept, hactive⟩ := hafter.kept _ _ hnode
      exact .inr ⟨generation, reason, hkept, hactive.trans hstuck⟩

end

end Place

/-- **What became of the state**: the reports move it to a place that the net agrees with. -/
def Follows (callable : Callable) (place : Place S.CallableCheckpoint)
    (reports : List (Report S.CallableCheckpoint)) (after : RuntimeNet S) : Prop :=
  ∃ last, Place.Runs place reports last ∧ last.Agrees callable after ∧
    callable.checkpoint < after.nextNodeId

namespace Follows

variable {callable : Callable} {net after : RuntimeNet S} {place : Place S.CallableCheckpoint}
  {generation : Nat}

variable {report : Report S.CallableCheckpoint}

theorem of_move {last : Place S.CallableCheckpoint} (hmove : Place.Moves place report last)
    (h : last.Agrees callable after) (hknown : callable.checkpoint < after.nextNodeId) :
    Follows callable place [report] after :=
  ⟨last, .cons hmove .nil, h, hknown⟩

theorem of_answer {α : Type} {report : α → Report S.CallableCheckpoint}
    {result : Option (α × RuntimeNet S)} (h : place.Agrees callable net)
    (hknown : callable.checkpoint < net.nextNodeId)
    (hsome : ∀ a after, result = some (a, after) → Follows callable place [report a] after) :
    Follows callable place (answer net report result).1.toList (answer net report result).2 := by
  cases result with
  | none => exact ⟨place, .nil, h, hknown⟩
  | some made => exact hsome made.1 made.2 rfl

theorem of_done {report : Report S.CallableCheckpoint} {result : Option (RuntimeNet S)}
    (h : place.Agrees callable net) (hknown : callable.checkpoint < net.nextNodeId)
    (hsome : ∀ after, result = some after → Follows callable place [report] after) :
    Follows callable place (answer net (fun _ => report) (result.map ((), ·))).1.toList
      (answer net (fun _ => report) (result.map ((), ·))).2 := by
  refine of_answer h hknown fun _ after hresult => ?_
  obtain ⟨_, hdone, hafter⟩ := Option.map_eq_some_iff.mp hresult
  cases hafter
  exact hsome after hdone

section Uses

variable (h : place.Agrees callable net) (hknown : callable.checkpoint < net.nextNodeId)

include h hknown

/-- A state that is in its node stays there whatever becomes of its pair. -/
theorem of_active {payload : Option S.CallableCheckpoint} (next : ActivePairState S)
    (hnode : net.nodes.get callable.checkpoint = some (.callableCheckpoint generation payload))
    (hactive : net.active.get callable.pair = some state) (hclaimed : state ≠ .claimed)
    (hstuck : ∀ reason, state ≠ .stuck reason)
    (hmove : ∀ payload, Place.Moves (.node generation payload) report (.node generation payload)) :
    Follows callable place [report]
      { net with active := net.active.set callable.pair next } := by
  obtain ⟨held, rfl⟩ := h.exists_node hnode hactive hclaimed hstuck
  exact of_move (hmove held) h hknown

variable {payload : S.CallableCheckpoint} {taken : S.CallableCheckpoint × RuntimeNet S}
  {wait : S.WaitToken} {reason : S.StuckReason}

theorem of_withdrawn (reason : StuckReason S)
    (hnode : net.nodes.get callable.checkpoint =
      some (.callableCheckpoint generation (some payload)))
    (hmove : Place.Moves (.node generation payload) report .nobody) :
    Follows callable place [report]
      { net with
        nodes := net.nodes.set callable.checkpoint (.callableCheckpoint generation none)
        active := net.active.set callable.pair (.stuck reason) } := by
  obtain rfl := h.of_some hnode
  exact of_move hmove
    (.inr ⟨generation, reason, Table.get_set_self _ _ _, Table.get_set_self _ _ _⟩) hknown

/-- A claim is reported of a callable that is free. -/
theorem claim (hclaim : claimCallable callable net = .ok (some reduced)) :
    Follows callable place [.claimed] reduced.2 := by
  unfold claimCallable at hclaim
  split at hclaim
  · next call hcall =>
    split at hclaim
    · next hsame =>
      obtain ⟨hready, hreduced⟩ := RuntimeNet.of_reducePair_callable hcall hclaim
      obtain ⟨-, payload, hnode⟩ := RuntimeNet.of_callableCheckpoint hcall
      rw [hsame.2] at hnode
      rw [hreduced]
      exact of_active h hknown .claimed hnode hready nofun nofun fun _ => .claim
    · cases hclaim
  · cases hclaim

/-- A checkpoint is installed for a callable that is claimed. -/
theorem install {made : CallableCheckpointCall × RuntimeNet S}
    (hinstall : net.installClaimedCallCheckpoint callable.call payload = some made) :
    Follows callable place [.installed payload] made.2 := by
  unfold RuntimeNet.installClaimedCallCheckpoint at hinstall
  split at hinstall
  · next data hdata =>
    split at hinstall
    · cases hinstall
      -- the node is data: the only place without a checkpoint is before its installation
      have hplace : place = .nowhere := by
        cases place with
        | nowhere => rfl
        | node => cases hdata.symm.trans h
        | claimant => cases hdata.symm.trans h.1
        | nobody =>
          obtain hnode | ⟨_, _, hnode, -⟩ := h <;> cases hdata.symm.trans hnode
      subst hplace
      exact of_move .install (Table.get_set_self _ _ _) hknown
    · cases hinstall
  · cases hinstall

/-- A payload is taken from a callable that is claimed, under the generation it was put there with.
-/
theorem take
    (htake : net.takeClaimedCallableCheckpoint (callable.token generation) = .ok (some taken)) :
    Follows callable place [.taken generation taken.1] taken.2 := by
  unfold RuntimeNet.takeClaimedCallableCheckpoint at htake
  split at htake
  · next hclaimed =>
    split at htake
    · cases htake
    · next held payload hnode =>
      split at htake
      · next hcurrent =>
        cases htake
        obtain rfl : held = generation := hcurrent
        obtain rfl := h.of_some hnode
        exact of_move .take
          ⟨Table.get_set_self _ _ _, RuntimeNet.pairIsClaimed_iff.mp hclaimed.1⟩ hknown
      · cases htake
    · cases htake
  · cases htake

/-- A state comes back, or its successor, under the same generation or the next. -/
theorem refill {next : Nat} {made : CallableCheckpointCall × RuntimeNet S}
    (hmove : ∀ held, Place.Moves (.claimant generation held) report (.node next payload))
    (hrefill : net.refillClaimedCheckpoint (callable.token generation) payload next = some made) :
    Follows callable place [report] made.2 := by
  unfold RuntimeNet.refillClaimedCheckpoint at hrefill
  split at hrefill
  · next found hnode =>
    split at hrefill
    · next hclaimed =>
      cases hrefill
      obtain rfl : found = generation := hclaimed.2.2
      -- whatever comes back takes the place of what the claimant took
      obtain ⟨held, rfl⟩ := h.of_none hnode (RuntimeNet.pairIsClaimed_iff.mp hclaimed.1)
      exact of_move (hmove held) (Table.get_set_self _ _ _) hknown
    · cases hrefill
  · cases hrefill

/-- A callable is blocked under the generation of its payload. -/
theorem block (hblock : net.blockCallableCheckpoint (callable.token generation) wait = some after) :
    Follows callable place [.blocked generation] after := by
  unfold RuntimeNet.blockCallableCheckpoint at hblock
  split at hblock
  · next hready =>
    split at hblock
    · next hcall =>
      cases hblock
      obtain ⟨-, payload, hnode⟩ := RuntimeNet.of_callableCheckpoint hcall
      exact of_active h hknown _ hnode hready nofun nofun fun _ => .block
    · cases hblock
  · cases hblock

/-- A claimed callable is given up for good. -/
theorem failClaimed
    (hfail : net.failClaimedCallableCheckpoint (callable.token generation) reason = some after) :
    Follows callable place [.failedClaimed generation] after := by
  unfold RuntimeNet.failClaimedCallableCheckpoint at hfail
  split at hfail
  · next held hnode =>
    split at hfail
    · next hclaimed =>
      cases hfail
      obtain rfl : held = generation := hclaimed.2.2
      obtain ⟨payload, rfl⟩ := h.of_none hnode (RuntimeNet.pairIsClaimed_iff.mp hclaimed.1)
      exact of_move .failClaimed (.inr ⟨held, _, hnode, Table.get_set_self _ _ _⟩) hknown
    · cases hfail
  · cases hfail

/-- A free callable is given up for good. -/
theorem failPublished
    (hfail : net.failPublishedCallableCheckpoint (callable.token generation) reason = some after) :
    Follows callable place [.failedPublished generation] after := by
  unfold RuntimeNet.failPublishedCallableCheckpoint at hfail
  split at hfail
  · next held _ hnode _ =>
    split at hfail
    · next hcurrent =>
      cases hfail
      obtain rfl : held = generation := hcurrent.2
      exact of_withdrawn h hknown _ hnode .failPublished
    · cases hfail
  · cases hfail

/-- A completion finds the state gone from the node, and no node afterwards. -/
theorem complete {mid : RuntimeNet S}
    (hempty : net.takeEmptyClaimedCheckpoint (callable.token generation) = .ok mid)
    (hretired : RuntimeNet.Retired callable.checkpoint mid →
      RuntimeNet.Retired callable.checkpoint after) :
    Follows callable place [.completed generation] after := by
  obtain ⟨hnode, hclaimed, hmid⟩ := RuntimeNet.of_takeEmptyClaimedCheckpoint hknown hempty
  obtain ⟨payload, rfl⟩ := h.of_none hnode (RuntimeNet.pairIsClaimed_iff.mp hclaimed)
  obtain ⟨hlt, hgone⟩ := hretired hmid
  exact of_move .complete (.inl hgone) hlt

theorem completeWithCopy
    (hcomplete : net.resumeClaimedCheckpointWithCopy (callable.token generation) source =
      .ok made)
    : Follows callable place [.completed generation] made.2 := by
  unfold RuntimeNet.resumeClaimedCheckpointWithCopy at hcomplete
  split at hcomplete
  · cases hcomplete
  · obtain ⟨mid, hempty, hinstall⟩ := Except.bind_eq_ok hcomplete
    exact complete h hknown hempty fun hmid => hmid.installCopy hinstall

/-- A completed callable is gone for good. -/
theorem completeWithOperator {operator : S.Operator}
    (hcomplete : net.resumeClaimedCheckpointWithOperator (callable.token generation) operator =
      .ok made)
    : Follows callable place [.completed generation] made.2 := by
  obtain ⟨mid, hempty, hcomplete⟩ := Except.bind_eq_ok hcomplete
  obtain ⟨detached, hdetach, hcomplete⟩ := Except.bind_eq_ok hcomplete
  obtain ⟨unbound, hremove, hcomplete⟩ := Except.bind_eq_ok hcomplete
  obtain ⟨added, hadd, hcomplete⟩ := Except.bind_eq_ok hcomplete
  obtain ⟨attached, hattach, hcomplete⟩ := Except.bind_eq_ok hcomplete
  cases hcomplete
  exact complete h hknown hempty fun hmid =>
    (((hmid.detachBoundary hdetach).removeKind hremove).addNode hadd).attachBoundary hattach

section Wait

variable [DecidableEq S.WaitToken]

/-- A blocked callable is free again. -/
theorem retry
    (hretry : net.retryBlockedCallableCheckpoint ⟨callable.token generation, wait⟩ = some after) :
    Follows callable place [.retried generation] after := by
  unfold RuntimeNet.retryBlockedCallableCheckpoint at hretry
  split at hretry
  · next hguard =>
    cases hretry
    obtain ⟨hcall, hwaits⟩ := hguard
    obtain ⟨-, payload, hnode⟩ := RuntimeNet.of_callableCheckpoint hcall
    unfold RuntimeNet.waitsFor at hwaits
    split at hwaits
    · next hblocked =>
      exact of_active h hknown .ready hnode hblocked nofun nofun fun _ => .retry
    · cases hwaits
  · cases hretry

/-- A blocked callable is given up for good. -/
theorem failBlocked
    (hfail : net.failBlockedCallableCheckpoint ⟨callable.token generation, wait⟩ reason =
      some taken)
    : Follows callable place [.failedBlocked generation taken.1] taken.2 := by
  unfold RuntimeNet.failBlockedCallableCheckpoint at hfail
  split at hfail
  · next held _ hnode =>
    split at hfail
    · next hcurrent =>
      cases hfail
      obtain rfl : held = generation := hcurrent.2.2
      exact of_withdrawn h hknown _ hnode .failBlocked
    · cases hfail
  · cases hfail

/-- **One use**: what it reports is what becomes of the state. -/
theorem step {use : CallableUse S}
    {result : Option (Report S.CallableCheckpoint) × RuntimeNet S}
    (hperform : perform callable net use = .ok result) :
    Follows callable place result.1.toList result.2 := by
  cases use with
  | claim =>
    obtain ⟨reduced, hclaim, hresult⟩ := Except.bind_eq_ok hperform
    cases hresult
    refine of_answer h hknown fun a after hsome => ?_
    subst hsome
    exact claim h hknown hclaim
  | install =>
    cases hperform
    exact of_answer h hknown fun _ _ hsome => install h hknown hsome
  | take =>
    obtain ⟨taken, htake, hresult⟩ := Except.bind_eq_ok hperform
    cases hresult
    refine of_answer h hknown fun a after hsome => ?_
    subst hsome
    exact take h hknown htake
  | restore =>
    cases hperform
    -- the two ways to refill differ in the generation only
    exact of_answer h hknown fun _ _ hsome => refill h hknown (fun _ => .restore) hsome
  | replace =>
    cases hperform
    exact of_answer h hknown fun _ _ hsome => refill h hknown (fun _ => .replace) hsome
  | block =>
    cases hperform
    exact of_done h hknown fun _ hblock => block h hknown hblock
  | retry =>
    cases hperform
    exact of_done h hknown fun _ hretry => retry h hknown hretry
  | failBlocked =>
    cases hperform
    exact of_answer h hknown fun _ _ hsome => failBlocked h hknown hsome
  | failClaimed =>
    cases hperform
    exact of_done h hknown fun _ hfail => failClaimed h hknown hfail
  | failPublished =>
    cases hperform
    exact of_done h hknown fun _ hfail => failPublished h hknown hfail
  | completeWithCopy =>
    obtain ⟨made, hcomplete, hresult⟩ := Except.bind_eq_ok hperform
    cases hresult
    exact completeWithCopy h hknown hcomplete
  | completeWithOperator =>
    obtain ⟨made, hcomplete, hresult⟩ := Except.bind_eq_ok hperform
    cases hresult
    exact completeWithOperator h hknown hcomplete

end Wait

end Uses

variable [DecidableEq S.WaitToken]

/-- **Any run**: what it reported is what became of the state. -/
theorem run (h : place.Agrees callable net) (hknown : callable.checkpoint < net.nextNodeId)
    (hrun : Run callable net reports after) : Follows callable place reports after := by
  induction hrun with
  | start => exact ⟨place, .nil, h, hknown⟩
  -- one use continues the machine's run, and what happens elsewhere leaves it where it is
  | use _ hperform ih =>
    obtain ⟨mid, hbefore, hmid, hlt⟩ := ih
    obtain ⟨last, hmove, hlast⟩ := step hmid hlt hperform
    exact ⟨last, hbefore.append hmove, hlast⟩
  | elsewhere _ huntouched ih =>
    obtain ⟨last, hbefore, hlast, hlt⟩ := ih
    exact ⟨last, hbefore, hlast.elsewhere huntouched, hlt.trans_le huntouched.grown⟩

end Follows

/-! ### Linear use -/

/-- **The state of a callable's evaluation is used linearly**, as far as `reports` and the net they
led to show. -/
structure UsedLinearly (callable : Callable) (reports : List (Report S.CallableCheckpoint))
    (net : RuntimeNet S) : Prop where
  /-- one place holds the state: the node, a claimant or nobody -/
  held : ∃! place, Place.Runs .nowhere reports place ∧ place.Agrees callable net
  /-- what settles a claim is the next success after the taking that opened it, and was asked for
  with the token of that taking: so no claim is settled twice, and none with another's token -/
  settled : ∀ before settled after, reports = before ++ settled :: after → settled.Settles →
    ∃ earlier generation payload, before = earlier ++ [.taken generation payload] ∧
      settled.generation = some generation
  /-- after a state was replaced, no token of it or of one before it is served again -/
  stale : ∀ before generation payload after,
    reports = before ++ .replaced generation payload :: after →
    ∀ report ∈ after, ∀ later ∈ report.generation, generation < later
  /-- after the call was completed or has failed, every use is refused -/
  final : ∀ before last after, reports = before ++ last :: after → last.Ends → after = []

section

variable [DecidableEq S.WaitToken] {callable : Callable} {net after : RuntimeNet S}
  {reports : List (Report S.CallableCheckpoint)}

/-- **A callable checkpoint is used linearly.** Over any sequence of uses from before its
installation, by anyone and with any tokens, one place at a time holds the state, each claim is
settled at most once and with its own token, stale tokens are refused, and no use succeeds after the
end. -/
theorem Run.usedLinearly
    (hbefore : ∀ generation payload,
      net.nodes.get callable.checkpoint ≠ some (.callableCheckpoint generation payload))
    (hknown : callable.checkpoint < net.nextNodeId) (hrun : Run callable net reports after) :
    UsedLinearly callable reports after := by
  have hnowhere : Place.Agrees callable net .nowhere := hbefore
  obtain ⟨place, hruns, hagrees, -⟩ := Follows.run hnowhere hknown hrun
  -- from here on only the machine's run counts, cut at the reports in question
  refine ⟨⟨place, ⟨hruns, hagrees⟩, fun other hother => hother.1.unique hruns⟩, ?_, ?_, ?_⟩
  · rintro before settled rest rfl hsettles
    obtain ⟨mid, hfirst, hrest⟩ := hruns.split
    cases hrest with
    | cons hmove _ =>
      obtain ⟨generation, payload, rfl, hsame⟩ := hmove.settles hsettles
      obtain ⟨earlier, hearlier⟩ := hfirst.just_taken
      exact ⟨earlier, generation, payload, hearlier, hsame⟩
  · rintro before generation payload rest rfl
    obtain ⟨mid, -, hrest⟩ := hruns.split
    cases hrest with
    | cons hmove hrest =>
      cases hmove
      exact hrest.since (Nat.le_refl (generation + 1))
  · rintro before last rest rfl hends
    obtain ⟨mid, -, hrest⟩ := hruns.split
    cases hrest with
    | cons hmove hrest =>
      rw [hmove.ends hends] at hrest
      exact hrest.of_nobody

end

/-- An application that faces data, in a claimed pair. -/
def claimedCall : RuntimeNet ⟨Unit, Unit, Unit, Unit, Unit, Nat⟩ :=
  { RuntimeNet.empty with
    nextNodeId := 2
    nodes := Table.set (Table.set ∅ 0 .bind) 1 (.data ())
    links := Table.set (Table.set ∅ (.principal 0) ⟨.principal 1, .provides⟩) (.principal 1)
      ⟨.principal 0, .consumes⟩
    active := Table.set ∅ 0 .claimed }

/-- The state of a call is installed, taken and replaced, then blocked, taken again and lost as the
call fails. Stale tokens and a claimant that comes too late are refused. -/
def claimedCallUses : List (CallableUse ⟨Unit, Unit, Unit, Unit, Unit, Nat⟩) :=
  [.install 5, .claim, .take 0, .replace 0 6, .restore 0 5, .block 0 (), .block 1 (), .retry 1 (),
    .claim, .take 1, .failClaimed 1 (), .restore 1 6]

theorem claimedCall_usedLinearly :
    ∃ reports after, performAll ⟨0, 0, 1⟩ claimedCall claimedCallUses = .ok (reports, after) ∧
      reports = [.installed 5, .claimed, .taken 0 5, .replaced 0 6, .blocked 1, .retried 1,
        .claimed, .taken 1 6, .failedClaimed 1] ∧ UsedLinearly ⟨0, 0, 1⟩ reports after := by
  have hstart : Run ⟨0, 0, 1⟩ claimedCall [] claimedCall := .start
  have huses : performAll ⟨0, 0, 1⟩ claimedCall claimedCallUses = .ok (_, _) := rfl
  refine ⟨_, _, huses, rfl, Run.usedLinearly ?_ ?_ (hstart.performAll huses)⟩
  · intro generation payload hnode
    cases hnode
  · decide

end Glam.Net
