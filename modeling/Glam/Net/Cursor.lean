import Glam.Net.Rewrite

/-!
# Remote cursors

A net copies another through cursors (`interaction_net/runtime/cursor.rs`). A cursor of a copy
stands at a port of the source, its `remote`, for whatever the source has across that port's wire.
Modelled here is how a cursor is claimed by a reduction, how a copy is begun at its first cursor, and
how fan identities of the source become identities of the copy. What a claimed cursor then does with
the source it inspects is left out.

The claim is kept in the state of the cursor's active pair, or, for a cursor in no pair, in an
obligation of its own.
-/

namespace Glam.Net

variable {S : NetSpecialization}

/-- Where the claim of a cursor is kept. -/
inductive CursorClaimOwner
  | activePair (pair : ActivePairKey)
  | obligation
deriving DecidableEq

namespace RuntimeNet

/-! ### Claims -/

variable (net : RuntimeNet S)

/-- Where the claim of `cursor` is or would be kept. -/
def cursorClaimOwner (cursor : NodeId) : Except Panic (Option CursorClaimOwner) := do
  check ((net.activePairKey cursor).isNone ∨ (net.cursorObligations.get cursor).isNone) .badClaim
  match net.activePairKey cursor with
  | some pair => .ok (some (.activePair pair))
  | none => .ok ((net.cursorObligations.get cursor).map fun _ => .obligation)

/-- Whether a pair is claimed. -/
def pairIsClaimed (pair : ActivePairKey) : Bool :=
  match net.active.get pair with
  | some state => state.isClaimed
  | none => false

/-- Whether a cursor without a pair is claimed. -/
def obligationIsClaimed (cursor : NodeId) : Bool :=
  match net.cursorObligations.get cursor with
  | some state => state.isClaimed
  | none => false

/-- Whether the claim that `owner` keeps for `cursor` is held by someone. -/
def ownerIsClaimed (cursor : NodeId) : CursorClaimOwner → Bool
  | .activePair pair => net.pairIsClaimed pair
  | .obligation => net.obligationIsClaimed cursor

/-- Whether someone works at a cursor. -/
def cursorClaimIsInFlight (cursor : NodeId) : Except Panic Bool := do
  match ← net.cursorClaimOwner cursor with
  | some owner => .ok (net.ownerIsClaimed cursor owner)
  | none => .ok false

/-- Whether a node is a remote cursor. -/
def isRemoteCursor : Option (RuntimeNode S) → Bool
  | some (.remoteCursor _ _) => true
  | _ => false

/-- Installs pairless cursor ownership without disturbing an existing obligation. -/
def ensurePairlessCursorObligation (cursor : NodeId) : Except Panic (RuntimeNet S) := do
  check (isRemoteCursor (net.nodes.get cursor)) .badNode
  check ((net.activePairKey cursor).isNone) .badClaim
  if (net.cursorObligations.get cursor).isSome then .ok net
  else .ok { net with cursorObligations := net.cursorObligations.set cursor .ready }

/-- The obligation of `cursor` claimed, unless it is claimed already or known to be stable. -/
def claimPairlessCursorObligation (cursor : NodeId) : Option (RuntimeNet S) :=
  match net.cursorObligations.get cursor with
  | some .ready =>
    some { net with cursorObligations := net.cursorObligations.set cursor .claimed }
  | some (.blocked _) =>
    some { net with cursorObligations := net.cursorObligations.set cursor .claimed }
  | _ => none

/-- Claims the pair of a cursor, unless someone else has. A reduction has claimed its pair
already. -/
def claimPair (pair : ActivePairKey) (expected : Bool) : Option (RuntimeNet S) :=
  match net.active.get pair with
  | some .ready => some { net with active := net.active.set pair .claimed }
  | some (.blockedCursor _ _) => some { net with active := net.active.set pair .claimed }
  | some .claimed => if expected then some net else none
  | _ => none

/-- Claims `cursor`, in its active pair if it has one. Nothing is returned where it cannot be
claimed. -/
def beginCursorClaim (cursor : NodeId) (expectedPair : Option ActivePairKey) :
    Except Panic (Option (RuntimeNet S)) := do
  let claimed ← match expectedPair.or (net.activePairKey cursor) with
    | some pair =>
      .ok ((net.claimPair pair expectedPair.isSome).map fun net =>
        (CursorClaimOwner.activePair pair, net))
    | none => do
      let net ← net.ensurePairlessCursorObligation cursor
      .ok ((net.claimPairlessCursorObligation cursor).map fun net =>
        (CursorClaimOwner.obligation, net))
  match claimed with
  | none => .ok none
  | some (owner, net) => do
    let actual ← net.cursorClaimOwner cursor
    check (actual = some owner) .badClaim
    let inFlight ← net.cursorClaimIsInFlight cursor
    check inFlight .badClaim
    .ok (some net)

/-! ### Fan identities in a copy -/

/-- A copy's site for a source site: a fresh one where the copy has none yet. -/
def translateSite (sites : Table FanSite FanSite) (next : Nat) (site : FanSite) :
    FanSite × Table FanSite FanSite × Nat :=
  match sites.get site with
  | some known => (known, sites, next)
  | none => (next, sites.set site next, next + 1)

/-- A copy's identity for a source identity. -/
def translateFanIdentity (sites : Table FanSite FanSite) (next : Nat) :
    FanIdentity → FanIdentity × Table FanSite FanSite × Nat
  | .root site =>
    let translated := translateSite sites next site
    (.root translated.1, translated.2)
  | .residual identity through branch =>
    let first := translateFanIdentity sites next identity
    let second := translateFanIdentity first.2.1 first.2.2 through
    (.residual first.1 second.1 branch, second.2)

/-- A node as a copy reproduces it, with the copy's sites and the net's next site. -/
def translateNode (sites : Table FanSite FanSite) (next : Nat) :
    RuntimeNode S → RuntimeNode S × Table FanSite FanSite × Nat
  | .fan identity =>
    let translated := translateFanIdentity sites next identity
    (.fan translated.1, translated.2)
  | node => (node, sites, next)

/-! ### Copying through cursors -/

/-- Starts one logical copy of `source` at its port `remote`, and returns the copy's first cursor,
not wired yet. -/
def beginCursorCopy (source : S.RuntimeSource) (remote : Port) :
    Except Panic (NodeId × RuntimeNet S) := do
  check ((net.copies.get net.nextCopyId).isNone) .badFrontier
  let (cursor, added) ← net.addNode (.remoteCursor net.nextCopyId remote)
  .ok (cursor,
    { added with
      nextCopyId := net.nextCopyId + 1
      copies := added.copies.set net.nextCopyId ⟨source, Table.set ∅ remote cursor, ∅⟩ })

end RuntimeNet

end Glam.Net
