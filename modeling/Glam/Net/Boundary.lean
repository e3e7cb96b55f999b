import Glam.Net.Rewrite

/-!
# Attaching a boundary

A rule detaches the sockets of its pair, some of which may be linked to each other, and says what
replaces each: a port, an eraser or another socket. `attachBoundary` then follows the paths that
recorded links and replacements make through the sockets and joins the two ends of each.

That every path is found, and found once, is a theorem about alternating walks in general
(`Alternating.TwoMatchings.exists_paths`). What is left here is the joining. The ends of the paths
are ports that are not wired yet, all different, so a join never touches what another one made:
`Joined` says what has been made of a list of paths, and grows by one path at a time
(`Joined.cons`).

Wiring two principal ports makes an active pair, which the source asserts to be new and to take over
at most one obligation of a cursor that nobody has claimed. `endsClash` says which of the assertions
the two ends of a path make fail, if any, by what the net holds before the first join: no join
touches the obligations and the pairs of the ends of another (`Undisturbed`). So a boundary is
attached exactly if no path clashes.
-/

namespace Glam.Net

open Alternating

variable {S : NetSpecialization}

/-- Where the two sides of each socket lead. -/
abbrev Leave := Bool → Nat → BoundaryEndpoint ⊕ Nat

/-- The port at the end of a side. -/
def PortEnd (leave : Leave) (half : Half Nat) (port : SignedPort) : Prop :=
  leave half.2 half.1 = .inl (.port port)

/-- One end of the path is the port, the other an eraser. -/
def Meets (leave : Leave) (path : Half Nat × Half Nat) (port : SignedPort) : Prop :=
  (PortEnd leave path.1 port ∧ leave path.2.2 path.2.1 = .inl .erase) ∨
    (PortEnd leave path.2 port ∧ leave path.1.2 path.1.1 = .inl .erase)

namespace RuntimeNet

/-- The ports at the ends of some sides exist, are not wired and differ from each other, and node
numbers from the next one on are unused. -/
structure Ready (net : RuntimeNet S) (leave : Leave) (halves : List (Half Nat)) : Prop where
  valid : ∀ half ∈ halves, ∀ port, PortEnd leave half port → net.validPort port.port = true
  unwired : ∀ half ∈ halves, ∀ port, PortEnd leave half port → net.links.get port.port = none
  apart : ∀ half ∈ halves, ∀ half' ∈ halves, ∀ port port', PortEnd leave half port →
    PortEnd leave half' port' → port.port = port'.port → half = half'
  unused : ∀ n, net.nextNodeId ≤ n → net.nodes.get n = none
  unlinked : ∀ port : Port, net.nextNodeId ≤ port.node → net.links.get port = none
  unowed : ∀ n, net.nextNodeId ≤ n → net.cursorObligations.get n = none

/-- The obligations and the active pairs of the principal ports at the ends of some sides are what
they were. -/
def Undisturbed (leave : Leave) (halves : List (Half Nat)) (net after : RuntimeNet S) : Prop :=
  ∀ half ∈ halves, ∀ port, PortEnd leave half port → port.port.IsPrincipal →
    after.cursorObligations.get port.port.node = net.cursorObligations.get port.port.node ∧
      after.active.get port.port.node = net.active.get port.port.node

/-! ### Which assertion fails -/

/-- The obligations of two nodes that cannot go over into one pair: there are two, or the one there
is is claimed. -/
def transferClash : Option (PairlessCursorState S) → Option (PairlessCursorState S) → Option Panic
  | some _, some _ => some .twoObligations
  | some .claimed, none | none, some .claimed => some .claimedTransfer
  | _, _ => none

/-- The assertion that fails as two nodes with these obligations become an active pair in this state.
Only the claimed pair of the rule at hand may be there already, and then no obligation comes into
it. -/
def pairClash (owed owed' : Option (PairlessCursorState S)) (pair : Option (ActivePairState S)) :
    Option Panic :=
  (transferClash owed owed').or
    (match pair with
    | none => none
    | some state =>
      if state.isClaimed ∧ owed.isNone ∧ owed'.isNone then none else some .pairNotNew)

/-- The assertion about active pairs that fails as two ports are wired. -/
def wireClash (net : RuntimeNet S) (left right : Port) : Option Panic :=
  if left.IsPrincipal ∧ right.IsPrincipal then
    pairClash (net.cursorObligations.get left.node) (net.cursorObligations.get right.node)
      (net.active.get (min left.node right.node))
  else none

/-- The assertion that fails as the two ends of a path are joined. -/
def endsClash (net : RuntimeNet S) : BoundaryEndpoint → BoundaryEndpoint → Option Panic
  | .port one, .port other => net.wireClash one.port other.port
  -- a fresh eraser has no obligation, and its pair is named by the node it meets
  | .port port, .erase | .erase, .port port =>
    if port.port.IsPrincipal then
      pairClash none (net.cursorObligations.get port.port.node)
        (net.active.get port.port.node)
    else none
  | .erase, .erase => none

theorem transferClash_comm (owed owed' : Option (PairlessCursorState S)) :
    transferClash owed owed' = transferClash owed' owed := by
  rcases owed with _ | _ | _ | _ | _ <;> rcases owed' with _ | _ | _ | _ | _ <;> rfl

theorem endsClash_comm (net : RuntimeNet S) (one other : BoundaryEndpoint) :
    net.endsClash one other = net.endsClash other one := by
  cases one <;> cases other
  case port.port one other =>
    simp only [endsClash, wireClash, pairClash]
    rw [transferClash_comm, min_comm]
    simp only [and_comm]
  all_goals rfl

/-- The node is an eraser wired to the port. -/
structure Eraser (net : RuntimeNet S) (node : NodeId) (port : SignedPort) : Prop where
  erases : net.nodes.get node = some .erase
  there : net.links.get port.port = some ⟨.principal node, port.sign.opposite⟩
  back : net.links.get (.principal node) = some port

/-- What becomes of a path's two ends: ports are linked, a port that meets an eraser has one of its
own, and two erasers leave nothing. -/
def Settled (net : RuntimeNet S) (first : NodeId) : BoundaryEndpoint → BoundaryEndpoint → Prop
  | .port one, .port other =>
    net.links.get one.port = some other ∧ net.links.get other.port = some one
  | .port port, .erase | .erase, .port port =>
    ∃ node, first ≤ node ∧ node < net.nextNodeId ∧ net.Eraser node port
  | .erase, .erase => True

/-- **What joining the ends of some paths makes of a net**, and nothing else. -/
structure Joined (leave : Leave) (paths : List (Half Nat × Half Nat)) (net after : RuntimeNet S) :
    Prop where
  grown : net.nextNodeId ≤ after.nextNodeId
  nodes : ∀ n, n < net.nextNodeId → after.nodes.get n = net.nodes.get n
  settled : ∀ path ∈ paths, ∀ one other, leave path.1.2 path.1.1 = .inl one →
    leave path.2.2 path.2.1 = .inl other → after.Settled net.nextNodeId one other
  erasers : ∀ n, net.nextNodeId ≤ n → n < after.nextNodeId →
    ∃ path ∈ paths, ∃ port, Meets leave path port ∧ after.Eraser n port
  others : ∀ port : Port, port.node < net.nextNodeId ∨ ¬ port.IsPrincipal →
    (∀ half ∈ halves paths, ∀ e, PortEnd leave half e → e.port ≠ port) →
    after.links.get port = net.links.get port

/-! ### One wire -/

variable {net : RuntimeNet S}

theorem neighbor_eq_none {port : Port} (h : net.links.get port = none) :
    net.neighbor port = none := by
  unfold neighbor reference
  split <;> simp [h]

theorem transfer_of_owed (net : RuntimeNet S) (left right : Port) {cursor : NodeId}
    {obligation : PairlessCursorState S}
    (hone : ¬ ((net.cursorObligations.get left.node).isSome ∧
      (net.cursorObligations.get right.node).isSome))
    (hcursor : net.transferredCursor left right = some cursor)
    (howed : net.cursorObligations.get cursor = some obligation) :
    net.transfer left right = transferredState cursor obligation >>= fun state =>
      .ok (some state, { net with cursorObligations := net.cursorObligations.remove cursor }) := by
  rw [transfer, check, if_pos hone, Except.bind_ok, hcursor]
  simp only [howed]

/-- A transfer takes the obligation of one of two nodes away, or fails as `transferClash` says. -/
theorem transfer_cases (net : RuntimeNet S) (left right : Port) :
    (transferClash (net.cursorObligations.get left.node) (net.cursorObligations.get right.node) =
        none ∧
      ∃ transferred owed, net.transfer left right =
        .ok (transferred, { net with cursorObligations := owed }) ∧
        (transferred.isNone ↔ (net.cursorObligations.get left.node).isNone ∧
          (net.cursorObligations.get right.node).isNone) ∧
        ∀ n, n ≠ left.node → n ≠ right.node → owed.get n = net.cursorObligations.get n) ∨
    ∃ panic, transferClash (net.cursorObligations.get left.node)
      (net.cursorObligations.get right.node) = some panic ∧
      net.transfer left right = .error panic := by
  -- a transfer takes the obligation of one of the two nodes away
  have hremove : ∀ cursor, cursor = left.node ∨ cursor = right.node → ∀ n, n ≠ left.node →
      n ≠ right.node → (net.cursorObligations.remove cursor).get n = net.cursorObligations.get n := by
    intro cursor hcursor n hleft hright
    rw [Table.get_remove, if_neg]
    rintro rfl
    exact hcursor.elim hleft hright
  cases hleft : net.cursorObligations.get left.node with
  | none =>
    cases hright : net.cursorObligations.get right.node with
    | none =>
      refine .inl ⟨rfl, none, net.cursorObligations, ?_, by simp, fun _ _ _ => rfl⟩
      simp [transfer, transferredCursor, check, hleft, hright, Except.bind_ok]
    | some obligation =>
      have htransfer := net.transfer_of_owed left right (by simp [hleft])
        (by simp [transferredCursor, hleft, hright]) hright
      rw [htransfer]
      cases obligation with
      | claimed => exact .inr ⟨_, rfl, rfl⟩
      | ready | blocked | stable =>
        exact .inl ⟨rfl, _, _, rfl, by simp, hremove right.node (.inr rfl)⟩
  | some obligation =>
    cases hright : net.cursorObligations.get right.node with
    | none =>
      have htransfer := net.transfer_of_owed left right (by simp [hright])
        (by simp [transferredCursor, hleft]) hleft
      rw [htransfer]
      cases obligation with
      | claimed => exact .inr ⟨_, rfl, rfl⟩
      | ready | blocked | stable =>
        exact .inl ⟨rfl, _, _, rfl, by simp, hremove left.node (.inl rfl)⟩
    | some =>
      -- a wire cannot take over two obligations
      refine .inr ⟨.twoObligations, rfl, ?_⟩
      rw [transfer, check, if_neg (by simp [hleft, hright])]
      rfl

/-- The net after a wire: only its two ends are linked anew, and no obligation and no pair change but
those of a pair it makes. -/
structure Wired (left right : SignedPort) (net after : RuntimeNet S) : Prop where
  links : after.links = (net.links.set left.port right).set right.port left
  nodes : after.nodes = net.nodes
  next : after.nextNodeId = net.nextNodeId
  owed : ∀ n, after.cursorObligations.get n ≠ net.cursorObligations.get n →
    left.port.IsPrincipal ∧ right.port.IsPrincipal ∧ (n = left.port.node ∨ n = right.port.node)
  active : ∀ n, after.active.get n ≠ net.active.get n →
    left.port.IsPrincipal ∧ right.port.IsPrincipal ∧ (n = left.port.node ∨ n = right.port.node)

/-- What joins ends succeeds as `P` says, unless they clash; and then it fails with one of the
assertions they make fail. -/
def Joining (clash : Panic → Prop) (result : Except Panic (RuntimeNet S))
    (P : RuntimeNet S → Prop) : Prop :=
  ((∀ panic, ¬ clash panic) ∧ ∃ after, result = .ok after ∧ P after) ∨
    ∃ panic, clash panic ∧ result = .error panic

/-- A wire between unwired ports is made, unless they clash. -/
theorem wire_cases {left right : SignedPort} (hne : left.port ≠ right.port)
    (hvalid : net.validPort left.port = true ∧ net.validPort right.port = true)
    (hleft : net.links.get left.port = none) (hright : net.links.get right.port = none) :
    Joining (net.wireClash left.port right.port = some ·) (net.wire left right)
      (Wired left right net) := by
  have hunwired : (net.neighbor left.port).isNone ∧ (net.neighbor right.port).isNone := by
    simp [neighbor_eq_none hleft, neighbor_eq_none hright]
  unfold wire wireClash
  rw [check, if_pos hne, Except.bind_ok, check, if_pos hvalid, Except.bind_ok, check,
    if_pos hunwired, Except.bind_ok]
  by_cases hprincipal : left.port.IsPrincipal ∧ right.port.IsPrincipal
  · rw [if_pos hprincipal, if_pos hprincipal]
    unfold pairClash
    rcases net.transfer_cases left.port right.port with
      ⟨hclash, transferred, owed, htransfer, hnone, howed⟩ | ⟨panic, hclash, htransfer⟩
    · rw [htransfer, Except.bind_ok, hclash, Option.none_or]
      simp only [← hnone]
      have howed' : ∀ n, owed.get n ≠ net.cursorObligations.get n → left.port.IsPrincipal ∧
          right.port.IsPrincipal ∧ (n = left.port.node ∨ n = right.port.node) := by
        intro n hn
        by_contra hnot
        push Not at hnot
        obtain ⟨hl, hr⟩ := hnot hprincipal.1 hprincipal.2
        exact hn (howed n hl hr)
      have hset : ∀ state n, (net.active.set (min left.port.node right.port.node) state).get n ≠
          net.active.get n → left.port.IsPrincipal ∧ right.port.IsPrincipal ∧
            (n = left.port.node ∨ n = right.port.node) := by
        intro state n hn
        refine ⟨hprincipal.1, hprincipal.2, ?_⟩
        by_contra hnot
        push Not at hnot
        refine hn (Table.get_set_of_ne _ _ ?_)
        rcases min_choice left.port.node right.port.node with hmin | hmin <;> rw [hmin]
        exacts [hnot.1, hnot.2]
      unfold schedule
      cases hactive : net.active.get (min left.port.node right.port.node) with
      -- a pair that is not scheduled is new; the claimed pair of the rule at hand is scheduled anew
      | none =>
        simp only [link, hactive]
        exact .inl ⟨by simp, _, rfl, rfl, rfl, rfl, howed', hset _⟩
      | some state =>
        simp only [link, hactive]
        split
        · exact .inl ⟨by simp, _, rfl, rfl, rfl, rfl, howed', hset _⟩
        · exact .inr ⟨_, rfl, rfl⟩
    · rw [htransfer, hclash]
      exact .inr ⟨panic, rfl, rfl⟩
  · rw [if_neg hprincipal, if_neg hprincipal]
    exact .inl ⟨by simp, _, rfl, rfl, rfl, rfl, fun _ h => absurd rfl h, fun _ h => absurd rfl h⟩

/-! ### One path -/

variable {half : Half Nat} {port : SignedPort} {one other : BoundaryEndpoint}

section Path

variable {net mid after : RuntimeNet S} {leave : Leave} {rest : List (Half Nat)}
  {left right : SignedPort}

theorem Ready.lt (h : net.Ready leave rest) (hhalf : half ∈ rest) (hport : PortEnd leave half port)
    : port.port.node < net.nextNodeId := by
  by_contra hle
  have hvalid := h.valid half hhalf port hport
  simp [validPort, h.unused _ (Nat.not_lt.mp hle)] at hvalid

theorem Ready.ne_principal (h : net.Ready leave rest) (hhalf : half ∈ rest) {n : NodeId}
    (hle : net.nextNodeId ≤ n) (hport : PortEnd leave half port) : port.port ≠ .principal n := by
  intro heq
  have hlt := h.lt hhalf hport
  rw [heq] at hlt
  exact Nat.not_lt.mpr hle hlt

section Wire

variable (hwired : Wired left right mid after) (hends : ∀ half ∈ rest, ∀ port,
  PortEnd leave half port → port.port ≠ left.port ∧ port.port ≠ right.port)
include hwired hends

/-- Ends that were not wired yet can still be. -/
theorem Ready.wire (h : mid.Ready leave rest) (hleft : left.port.node < mid.nextNodeId)
    (hright : right.port.node < mid.nextNodeId) : after.Ready leave rest where
  valid half hhalf port hport := by
    have := h.valid half hhalf port hport
    rwa [validPort, hwired.nodes]
  unwired half hhalf port hport := by
    obtain ⟨hl, hr⟩ := hends half hhalf port hport
    rw [hwired.links, Table.get_set_of_ne _ _ hr, Table.get_set_of_ne _ _ hl]
    exact h.unwired half hhalf port hport
  apart := h.apart
  unused n hn := by
    rw [hwired.nodes]
    exact h.unused n (hwired.next ▸ hn)
  unlinked port hport := by
    rw [hwired.next] at hport
    have hne : ∀ {other : Port}, other.node < mid.nextNodeId → port ≠ other := by
      rintro other hlt rfl
      exact absurd hlt (Nat.not_lt.mpr hport)
    rw [hwired.links, Table.get_set_of_ne _ _ (hne hright), Table.get_set_of_ne _ _ (hne hleft)]
    exact h.unlinked port hport
  unowed n hn := by
    rw [hwired.next] at hn
    rw [← h.unowed n hn]
    by_contra hne
    obtain ⟨-, -, rfl | rfl⟩ := hwired.owed n hne
    · exact absurd hleft (Nat.not_lt.mpr hn)
    · exact absurd hright (Nat.not_lt.mpr hn)

/-- A wire disturbs its own two ends only. -/
theorem Undisturbed.wire : Undisturbed leave rest mid after := by
  intro half hhalf port hport hprincipal
  -- what changed belongs to an end of the wire, whose principal port this one would be
  have hother : ¬ (left.port.IsPrincipal ∧ right.port.IsPrincipal ∧
      (port.port.node = left.port.node ∨ port.port.node = right.port.node)) := by
    have heq : ∀ {other : Port}, other.IsPrincipal → port.port.node = other.node →
        port.port = other := by
      intro other hother hnode
      rw [hprincipal.eq, hother.eq, hnode]
    rintro ⟨hleft, hright, hnode | hnode⟩
    · exact (hends half hhalf port hport).1 (heq hleft hnode)
    · exact (hends half hhalf port hport).2 (heq hright hnode)
  exact ⟨by_contra fun hne => hother (hwired.owed _ hne),
    by_contra fun hne => hother (hwired.active _ hne)⟩

end Wire

/-- The net with a fresh eraser. -/
def withEraser (net : RuntimeNet S) : RuntimeNet S :=
  { net with nextNodeId := net.nextNodeId + 1, nodes := net.nodes.set net.nextNodeId .erase }

/-- A new eraser is in nobody's way. -/
theorem Ready.withEraser (h : net.Ready leave rest) : net.withEraser.Ready leave rest where
  valid half hhalf port hport := by
    have hlt := h.lt hhalf hport
    have := h.valid half hhalf port hport
    rwa [validPort, RuntimeNet.withEraser, Table.get_set_of_ne _ _ (Nat.ne_of_lt hlt)]
  unwired := h.unwired
  apart := h.apart
  unused n hn := by
    rw [RuntimeNet.withEraser, Table.get_set_of_ne _ _ (Nat.ne_of_gt hn)]
    exact h.unused n (Nat.le_of_lt hn)
  unlinked port hport := h.unlinked port (Nat.le_of_lt hport)
  unowed n hn := h.unowed n (Nat.le_of_lt hn)

/-- What one join leaves: the ends of other sides are as ready as before, and undisturbed. -/
structure Step (leave : Leave) (path : Half Nat × Half Nat) (rest : List (Half Nat))
    (net after : RuntimeNet S) : Prop extends Joined leave [path] net after where
  ready : after.Ready leave rest
  undisturbed : Undisturbed leave rest net after

variable {path : Half Nat × Half Nat}

theorem Ready.ends_ne (h : net.Ready leave (path.1 :: path.2 :: rest))
    (hhalf : half = path.1 ∨ half = path.2) (hnodup : (path.1 :: path.2 :: rest).Nodup)
    (hport : PortEnd leave half port) :
    ∀ half' ∈ rest, ∀ port', PortEnd leave half' port' → port'.port ≠ port.port := by
  intro half' hhalf' port' hport' heq
  have hmem : half ∈ path.1 :: path.2 :: rest := by rcases hhalf with rfl | rfl <;> simp
  have hsame := h.apart half' (by simp [hhalf']) half hmem port' port hport' hport heq
  subst hsame
  rcases hhalf with rfl | rfl <;> simp_all

theorem Ready.subset {halves halves' : List (Half Nat)} (h : net.Ready leave halves)
    (hsub : ∀ half ∈ halves', half ∈ halves) : net.Ready leave halves' :=
  { h with
    valid := fun half hhalf => h.valid half (hsub half hhalf)
    unwired := fun half hhalf => h.unwired half (hsub half hhalf)
    apart := fun half hhalf half' hhalf' =>
      h.apart half (hsub half hhalf) half' (hsub half' hhalf') }

theorem Ready.mono (h : net.Ready leave (path.1 :: path.2 :: rest)) : net.Ready leave rest :=
  h.subset fun half hhalf => by simp [hhalf]

/-- Paths between erasers need no change. -/
theorem joined_self {paths : List (Half Nat × Half Nat)}
    (herase : ∀ path ∈ paths, leave path.1.2 path.1.1 = .inl .erase ∧
      leave path.2.2 path.2.1 = .inl .erase) : Joined leave paths net net where
  grown := Nat.le_refl _
  nodes _ _ := rfl
  settled path hpath one other hone hother := by
    obtain ⟨hone', hother'⟩ := herase path hpath
    cases hone'.symm.trans hone
    cases hother'.symm.trans hother
    trivial
  erasers _ hle hlt := absurd hle (Nat.not_le.mpr hlt)
  others _ _ _ := rfl

section

variable (hready : net.Ready leave (path.1 :: path.2 :: rest))
  (hnodup : (path.1 :: path.2 :: rest).Nodup)
include hready hnodup

/-- A path between two ports is wired, unless the ports clash. -/
theorem join_ports (hleft : PortEnd leave path.1 left) (hright : PortEnd leave path.2 right) :
    Joining (net.wireClash left.port right.port = some ·) (net.wire left right)
      (Step leave path rest net) := by
  have hmem₁ : path.1 ∈ path.1 :: path.2 :: rest := by simp
  have hmem₂ : path.2 ∈ path.1 :: path.2 :: rest := by simp
  -- the two ends of a path are different sides, and no port is at the end of two
  have hne : left.port ≠ right.port := by
    intro heq
    have hsame := hready.apart _ hmem₁ _ hmem₂ left right hleft hright heq
    simp [hsame] at hnodup
  have hends : ∀ half ∈ rest, ∀ port, PortEnd leave half port →
      port.port ≠ left.port ∧ port.port ≠ right.port := fun half hhalf port hport =>
    ⟨hready.ends_ne (.inl rfl) hnodup hleft half hhalf port hport,
      hready.ends_ne (.inr rfl) hnodup hright half hhalf port hport⟩
  rcases wire_cases hne
      ⟨hready.valid _ hmem₁ left hleft, hready.valid _ hmem₂ right hright⟩
      (hready.unwired _ hmem₁ left hleft) (hready.unwired _ hmem₂ right hright) with
    ⟨hclash, after, hok, hwired⟩ | ⟨panic, hclash, herror⟩
  · refine .inl ⟨hclash, after, hok, ?_⟩
    exact {
      grown := hwired.next.ge
      nodes := fun n _ => by rw [hwired.nodes]
      settled := by
        intro path' hpath' one other hone hother
        obtain rfl := List.mem_singleton.mp hpath'
        rw [PortEnd, hone, Sum.inl.injEq] at hleft
        rw [PortEnd, hother, Sum.inl.injEq] at hright
        subst hleft hright
        refine ⟨?_, ?_⟩ <;> rw [hwired.links]
        · rw [Table.get_set_of_ne _ _ hne, Table.get_set_self]
        · rw [Table.get_set_self]
      erasers := fun n hle hlt => absurd hle (Nat.not_le.mpr (hwired.next ▸ hlt))
      others := by
        intro port _ hother
        have hl := hother path.1 (by simp [halves]) left hleft
        have hr := hother path.2 (by simp [halves]) right hright
        rw [hwired.links, Table.get_set_of_ne _ _ hr.symm, Table.get_set_of_ne _ _ hl.symm]
      ready := hready.mono.wire hwired hends (hready.lt hmem₁ hleft) (hready.lt hmem₂ hright)
      undisturbed := .wire hwired hends }
  · exact .inr ⟨panic, hclash, herror⟩

/-- A path from a port to an eraser gets its node, unless the port clashes. -/
theorem join_eraser (hhalf : half = path.1 ∨ half = path.2) (hport : PortEnd leave half port)
    (hmeets : Meets leave path port) :
    Joining (net.endsClash (.port port) .erase = some ·)
      (net.addNode .erase >>= fun made => made.2.bindReference (.principal made.1) port)
      (Step leave path rest net) := by
  have hmem : half ∈ path.1 :: path.2 :: rest := by rcases hhalf with rfl | rfl <;> simp
  have hlt : port.port.node < net.nextNodeId := hready.lt hmem hport
  -- the eraser is fresh, so its port is none that a boundary leads to
  have hne := (hready.ne_principal hmem (Nat.le_refl _) hport).symm
  have hfresh : net.nodes.get net.nextNodeId = none := hready.unused _ (Nat.le_refl _)
  have hmade : net.addNode .erase = .ok (net.nextNodeId, net.withEraser) := by
    simp [addNode, check, hfresh, withEraser, Except.bind_ok]
  have hends : ∀ other ∈ rest, ∀ port', PortEnd leave other port' →
      port'.port ≠ .principal net.nextNodeId ∧ port'.port ≠ port.port :=
    fun other hother port' hport' => ⟨hready.mono.ne_principal hother (Nat.le_refl _) hport',
      hready.ends_ne hhalf hnodup hport other hother port' hport'⟩
  rw [hmade, Except.bind_ok]
  unfold bindReference
  have hvalid : net.withEraser.validPort (.principal net.nextNodeId) = true := by
    simp [validPort, withEraser, Port.principal, Table.get_set_self, RuntimeNode.portCount]
  have hunlinked : net.withEraser.links.get (.principal net.nextNodeId) = none :=
    hready.unlinked _ (Nat.le_refl _)
  have hunwired : net.withEraser.links.get port.port = none := hready.unwired _ hmem port hport
  have hready' : net.withEraser.Ready leave rest := hready.mono.withEraser
  have hsame : net.withEraser.wireClash (.principal net.nextNodeId) port.port =
      net.endsClash (.port port) .erase := by
    have hprincipal : (Port.principal net.nextNodeId).IsPrincipal := rfl
    have hmin : min (Port.principal net.nextNodeId).node port.port.node = port.port.node :=
      Nat.min_eq_right (Nat.le_of_lt hlt)
    have hunowed : net.withEraser.cursorObligations.get (Port.principal net.nextNodeId).node = none :=
      hready.unowed _ (Nat.le_refl _)
    simp only [wireClash, endsClash, hprincipal, true_and, hmin, hunowed]
    rfl
  rw [← hsame]
  rcases @wire_cases _ net.withEraser ⟨.principal net.nextNodeId, port.sign.opposite⟩ port hne
      ⟨hvalid, hready.withEraser.valid _ hmem port hport⟩ hunlinked hunwired with
    ⟨hclash, after, hok, hwired⟩ | ⟨panic, hclash, herror⟩
  · refine .inl ⟨hclash, after, hok, ?_⟩
    have heraser : after.Eraser net.nextNodeId port := {
      erases := by rw [hwired.nodes, withEraser, Table.get_set_self]
      there := by rw [hwired.links, Table.get_set_self]
      back := by rw [hwired.links, Table.get_set_of_ne _ _ hne, Table.get_set_self] }
    have hnext : after.nextNodeId = net.nextNodeId + 1 := hwired.next
    exact {
      grown := by rw [hnext]; exact Nat.le_succ _
      nodes := by
        intro n hn
        rw [hwired.nodes, withEraser, Table.get_set_of_ne _ _ (Nat.ne_of_lt hn)]
      settled := by
        intro path' hpath' one other hone hother
        obtain rfl := List.mem_singleton.mp hpath'
        have hnode : net.nextNodeId < after.nextNodeId := by rw [hnext]; exact Nat.lt_succ_self _
        rcases hmeets with ⟨hp, he⟩ | ⟨hp, he⟩
        · rw [PortEnd, hone, Sum.inl.injEq] at hp
          rw [hother, Sum.inl.injEq] at he
          subst hp he
          exact ⟨_, Nat.le_refl _, hnode, heraser⟩
        · rw [PortEnd, hother, Sum.inl.injEq] at hp
          rw [hone, Sum.inl.injEq] at he
          subst hp he
          exact ⟨_, Nat.le_refl _, hnode, heraser⟩
      erasers := by
        intro n hle hn
        rw [hnext] at hn
        obtain rfl : n = net.nextNodeId := Nat.le_antisymm (Nat.lt_succ_iff.mp hn) hle
        exact ⟨path, by simp, port, hmeets, heraser⟩
      others := by
        intro other hnode hother
        have hp : port.port ≠ other := by
          refine hother half ?_ port hport
          rcases hhalf with rfl | rfl <;> simp [halves]
        have hprincipal : other ≠ .principal net.nextNodeId := by
          rintro rfl
          exact hnode.elim (Nat.lt_irrefl _) fun hnot => hnot rfl
        rw [hwired.links, Table.get_set_of_ne _ _ hp.symm, Table.get_set_of_ne _ _ hprincipal]
        rfl
      ready := hready'.wire hwired hends (Nat.lt_succ_self _) (Nat.lt_succ_of_lt hlt)
      undisturbed :=
        have hmade : Undisturbed leave rest net.withEraser after := Undisturbed.wire hwired hends
        hmade }
  · exact .inr ⟨panic, hclash, herror⟩

/-- **One join** does what it should with the ends of its path. -/
theorem join_cases (hone : leave path.1.2 path.1.1 = .inl one)
    (hother : leave path.2.2 path.2.1 = .inl other) :
    Joining (net.endsClash one other = some ·) (net.joinBoundaryEndpoints one other)
      (Step leave path rest net) := by
  cases one with
  | port =>
    cases other with
    | port => exact join_ports hready hnodup hone hother
    | erase => exact join_eraser hready hnodup (.inl rfl) hone (.inl ⟨hone, hother⟩)
  | erase =>
    cases other with
    | port => exact join_eraser hready hnodup (.inr rfl) hother (.inr ⟨hother, hone⟩)
    | erase =>
      -- two erasers that meet are never made
      refine .inl ⟨nofun, net, rfl, joined_self fun path' hpath' => ?_, hready.mono,
        fun _ _ _ _ _ => ⟨rfl, rfl⟩⟩
      rw [List.mem_singleton.mp hpath']
      exact ⟨hone, hother⟩

end

end Path

/-! ### All paths -/

section Paths

variable {net mid after : RuntimeNet S} {leave : Leave} {path : Half Nat × Half Nat}
  {paths : List (Half Nat × Half Nat)}

theorem mem_halves_cons :
    half ∈ halves (path :: paths) ↔ half = path.1 ∨ half = path.2 ∨ half ∈ halves paths := by
  show half ∈ path.1 :: path.2 :: halves paths ↔ _
  rw [List.mem_cons, List.mem_cons]

/-- What the joins of other paths leave as it was. -/
theorem Eraser.keep {node : NodeId} (h : mid.Eraser node port)
    (hnodes : after.nodes.get node = mid.nodes.get node)
    (hthere : after.links.get port.port = mid.links.get port.port)
    (hback : after.links.get (.principal node) = mid.links.get (.principal node)) :
    after.Eraser node port :=
  ⟨hnodes.trans h.erases, hthere.trans h.there, hback.trans h.back⟩

theorem Settled.mono {first first' : NodeId} (h : net.Settled first one other)
    (hle : first' ≤ first) : net.Settled first' one other := by
  cases one <;> cases other
  case port.port => exact h
  case erase.erase => trivial
  all_goals
    obtain ⟨node, hfirst, hlt, heraser⟩ := h
    exact ⟨node, hle.trans hfirst, hlt, heraser⟩

section Cons

variable (hready : net.Ready leave (path.1 :: path.2 :: halves paths))
  (hnodup : (path.1 :: path.2 :: halves paths).Nodup) (hrest : Joined leave paths mid after)
include hready hnodup hrest

/-- The joins of other paths neither touch the ends of a path nor its eraser. -/
theorem Joined.settled_mono (hgrown : net.nextNodeId ≤ mid.nextNodeId) :
    (∀ half, half = path.1 ∨ half = path.2 → ∀ port, PortEnd leave half port →
      after.links.get port.port = mid.links.get port.port) ∧
    ∀ n, net.nextNodeId ≤ n → n < mid.nextNodeId →
      after.links.get (.principal n) = mid.links.get (.principal n) := by
  refine ⟨fun half hhalf port hport => ?_, fun n hle hlt => ?_⟩
  · have hmem : half ∈ path.1 :: path.2 :: halves paths := by rcases hhalf with rfl | rfl <;> simp
    refine hrest.others _ (.inl (Nat.lt_of_lt_of_le (hready.lt hmem hport) hgrown)) ?_
    exact hready.ends_ne hhalf hnodup hport
  · -- a node made for the first path is later than every port the boundary leads to
    exact hrest.others _ (.inl hlt) fun half hhalf port => hready.mono.ne_principal hhalf hle

/-- **Joins add up**, since each touches only its own ends. -/
theorem Joined.cons (hstep : Joined leave [path] net mid) :
    Joined leave (path :: paths) net after := by
  obtain ⟨hends, hback⟩ := Joined.settled_mono hready hnodup hrest hstep.grown
  -- the eraser of the first path, if it has one, is still there at the end
  have hkeep : ∀ {n port}, net.nextNodeId ≤ n → n < mid.nextNodeId →
      (PortEnd leave path.1 port ∨ PortEnd leave path.2 port) → mid.Eraser n port →
      after.Eraser n port := by
    intro n port hle hlt hport heraser
    refine heraser.keep (hrest.nodes n hlt) ?_ (hback n hle hlt)
    rcases hport with hport | hport
    · exact hends _ (.inl rfl) port hport
    · exact hends _ (.inr rfl) port hport
  exact {
    grown := hstep.grown.trans hrest.grown
    nodes := by
      intro n hn
      rw [hrest.nodes n (Nat.lt_of_lt_of_le hn hstep.grown), hstep.nodes n hn]
    settled := by
      intro path' hpath' one other hone hother
      rcases List.mem_cons.mp hpath' with rfl | hpath'
      · -- what the first join settled, the others leave alone
        have hsettled := hstep.settled path' (by simp) one other hone hother
        cases one with
        | port left =>
          cases other with
          | port right =>
            exact ⟨(hends _ (.inl rfl) left hone).trans hsettled.1,
              (hends _ (.inr rfl) right hother).trans hsettled.2⟩
          | erase =>
            obtain ⟨n, hle, hlt, heraser⟩ := hsettled
            exact ⟨n, hle, Nat.lt_of_lt_of_le hlt hrest.grown,
              hkeep hle hlt (.inl hone) heraser⟩
        | erase =>
          cases other with
          | port =>
            obtain ⟨n, hle, hlt, heraser⟩ := hsettled
            exact ⟨n, hle, Nat.lt_of_lt_of_le hlt hrest.grown,
              hkeep hle hlt (.inr hother) heraser⟩
          | erase => trivial
      · exact (hrest.settled path' hpath' one other hone hother).mono hstep.grown
    erasers := by
      intro n hle hlt
      -- a fresh node was made by the first join or by one after it
      by_cases hmid : n < mid.nextNodeId
      · obtain ⟨path', hpath', port, hmeets, heraser⟩ := hstep.erasers n hle hmid
        obtain rfl := List.mem_singleton.mp hpath'
        refine ⟨path', by simp, port, hmeets, hkeep hle hmid ?_ heraser⟩
        exact hmeets.imp (fun h => h.1) fun h => h.1
      · obtain ⟨path', hpath', port, hmeets, heraser⟩ :=
          hrest.erasers n (Nat.not_lt.mp hmid) hlt
        exact ⟨path', by simp [hpath'], port, hmeets, heraser⟩
    others := by
      intro port hnode hother
      have hnode' : port.node < mid.nextNodeId ∨ ¬ port.IsPrincipal :=
        hnode.imp_left fun h => Nat.lt_of_lt_of_le h hstep.grown
      calc after.links.get port = mid.links.get port :=
            hrest.others port hnode' fun half hhalf =>
              hother half (mem_halves_cons.mpr (.inr (.inr hhalf)))
        _ = net.links.get port := by
          refine hstep.others port hnode fun half hhalf => hother half (mem_halves_cons.mpr ?_)
          rcases mem_halves_cons.mp hhalf with hhalf | hhalf | hhalf
          · exact .inl hhalf
          · exact .inr (.inl hhalf)
          · cases hhalf }

end Cons

/-- The ends of the path clash. -/
def PathClash (net : RuntimeNet S) (leave : Leave) (path : Half Nat × Half Nat) (panic : Panic) :
    Prop :=
  ∃ one other, leave path.1.2 path.1.1 = .inl one ∧ leave path.2.2 path.2.1 = .inl other ∧
    net.endsClash one other = some panic

/-- What does not disturb the ends of a path lets them clash as before. -/
theorem Undisturbed.endsClash_eq {halves : List (Half Nat)} {half half' : Half Nat}
    (h : Undisturbed leave halves net after) (hhalf : half ∈ halves) (hhalf' : half' ∈ halves)
    (hone : leave half.2 half.1 = .inl one) (hother : leave half'.2 half'.1 = .inl other) :
    after.endsClash one other = net.endsClash one other := by
  have heraser : ∀ {half : Half Nat} {port : SignedPort}, half ∈ halves → PortEnd leave half port →
      after.endsClash (.port port) .erase = net.endsClash (.port port) .erase := by
    intro half port hhalf hport
    simp only [endsClash]
    split
    · next hprincipal =>
      obtain ⟨howed, hactive⟩ := h half hhalf port hport hprincipal
      rw [howed, hactive]
    · rfl
  cases one with
  | port left =>
    cases other with
    | port right =>
      simp only [endsClash, wireClash]
      split
      · next hprincipal =>
        obtain ⟨howed, hactive⟩ := h half hhalf left hone hprincipal.1
        obtain ⟨howed', hactive'⟩ := h half' hhalf' right hother hprincipal.2
        rw [howed, howed']
        -- the pair of two nodes is named by one of them
        rcases min_choice left.port.node right.port.node with hmin | hmin <;> rw [hmin]
        exacts [hactive ▸ rfl, hactive' ▸ rfl]
      · rfl
    | erase => exact heraser hhalf hone
  | erase =>
    cases other with
    | port => exact heraser hhalf' hother
    | erase => rfl

/-- **All joins** settle the ends of their paths, unless some path clashes. -/
theorem joinPaths_cases (hready : net.Ready leave (halves paths)) (hnodup : (halves paths).Nodup)
    (hpaths : ∀ path ∈ paths, Joins leave path.1 path.2) :
    Joining (fun panic => ∃ path ∈ paths, net.PathClash leave path panic)
      (net.joinPaths leave paths)
      fun after => Joined leave paths net after ∧ after.Ready leave [] := by
  induction paths generalizing net with
  | nil =>
    exact .inl ⟨nofun, net, rfl, joined_self nofun, hready⟩
  | cons path paths ih =>
    have hready' : net.Ready leave (path.1 :: path.2 :: halves paths) := hready
    have hnodup' : (path.1 :: path.2 :: halves paths).Nodup := hnodup
    obtain ⟨⟨one, hone⟩, harrives⟩ := hpaths path (by simp)
    obtain ⟨other, hother⟩ := harrives.isEnd
    have hthis : ∀ {panic}, net.PathClash leave path panic ↔
        net.endsClash one other = some panic := by
      intro panic
      refine ⟨?_, fun hclash => ⟨one, other, hone, hother, hclash⟩⟩
      rintro ⟨one', other', hone', hother', hclash⟩
      cases hone.symm.trans hone'
      cases hother.symm.trans hother'
      exact hclash
    unfold joinPaths
    simp only [hone, hother]
    rcases join_cases hready' hnodup' hone hother with
      ⟨hnoclash, mid, hjoin, hstep⟩ | ⟨panic, hclash, hjoin⟩
    · rw [hjoin, Except.bind_ok]
      have hrest : (halves paths).Nodup := (List.nodup_cons.mp (List.nodup_cons.mp hnodup').2).2
      -- the join left the other paths clashing or not, as they did
      have hothers : ∀ path' ∈ paths, ∀ panic,
          mid.PathClash leave path' panic ↔ net.PathClash leave path' panic := by
        intro path' hpath' panic
        have hmem : ∀ half ∈ [path'.1, path'.2], half ∈ halves paths := fun half hhalf =>
          List.mem_flatMap.mpr ⟨path', hpath', hhalf⟩
        refine exists_congr fun one => exists_congr fun other => and_congr_right fun hone =>
          and_congr_right fun hother => ?_
        rw [hstep.undisturbed.endsClash_eq (hmem _ (by simp)) (hmem _ (by simp)) hone hother]
      rcases ih hstep.ready hrest fun path' hpath' => hpaths path' (by simp [hpath']) with
        ⟨hnone, after, hok, hjoined, hafter⟩ | ⟨panic, ⟨path', hpath', hclash⟩, herror⟩
      · refine .inl ⟨?_, after, hok, Joined.cons hready' hnodup' hjoined hstep.toJoined, hafter⟩
        rintro panic ⟨path', hpath', hclash⟩
        rcases List.mem_cons.mp hpath' with rfl | hpath'
        · exact hnoclash panic (hthis.mp hclash)
        · exact hnone panic ⟨path', hpath', (hothers path' hpath' panic).mpr hclash⟩
      · exact .inr ⟨panic, ⟨path', List.mem_cons_of_mem _ hpath',
          (hothers path' hpath' panic).mp hclash⟩, herror⟩
    · rw [hjoin]
      exact .inr ⟨panic, ⟨path, by simp, hthis.mpr hclash⟩, rfl⟩

end Paths

/-! ### The boundary -/

/-- Both sides of the first `sockets` sockets. -/
def sides (sockets : Nat) : List (Half Nat) :=
  (List.range sockets).flatMap fun socket => [(socket, false), (socket, true)]

theorem mem_sides {sockets : Nat} : half ∈ sides sockets ↔ half.1 < sockets := by
  obtain ⟨socket, side⟩ := half
  cases side <;> simp [sides]

/-- **A boundary and its replacements.** Recorded links and replacements pair sockets with each
other; the ports that either leads to are unwired and used once; and node numbers from the next one
on are unused. -/
structure Attachable (net : RuntimeNet S) (boundary : RewriteBoundary)
    (replacements : List BoundaryReplacement) : Prop where
  length : boundary.links.length = replacements.length
  recorded : ∀ (i j : Nat) sign, boundary.links[i]? = some (.socket j sign) →
    j ≠ i ∧ ∃ sign', boundary.links[j]? = some (.socket i sign')
  paired : ∀ i j : Nat, replacements[i]? = some (.socket j) →
    j ≠ i ∧ replacements[j]? = some (.socket i)
  ready : net.Ready (boundary.leave replacements) (sides boundary.links.length)

/-! ### A detached boundary -/

section Detach

variable {net after now : RuntimeNet S} {ports : List Port} {boundary : RewriteBoundary}
  {replacements : List BoundaryReplacement} {peer : SignedPort}

/-- Every wire has two ends, and each knows the other. -/
def Symmetric (net : RuntimeNet S) : Prop :=
  ∀ port peer, net.reference port = some peer →
    peer.port ≠ port ∧ ∃ sign, net.reference peer.port = some ⟨port, sign⟩

/-- Nothing is gone from a net but wires. -/
structure Cut (net after : RuntimeNet S) : Prop where
  nodes : after.nodes = net.nodes
  links : ∀ port, after.links.get port = none ∨ after.links.get port = net.links.get port

theorem Cut.reference_eq {port : Port} (h : Cut net after)
    (hlinks : after.links.get port = net.links.get port) :
    after.reference port = net.reference port := by
  rw [RuntimeNet.reference, RuntimeNet.reference, validPort, validPort, h.nodes, hlinks]

theorem Cut.reference {port : Port} (h : Cut net after) (hpeer : after.reference port = some peer) :
    net.reference port = some peer := by
  rcases h.links port with hnone | hsame
  · unfold RuntimeNet.reference at hpeer
    split at hpeer
    · rw [hnone] at hpeer
      cases hpeer
    · cases hpeer
  · rw [← h.reference_eq hsame, hpeer]

/-- Cutting the wire at a port clears its two ends, and no other. -/
theorem disconnect_spec {port : Port} {cut : Option Port × RuntimeNet S}
    (h : net.disconnect port = .ok cut) :
    Cut net cut.2 ∧
      (∀ peer, net.reference port = some peer →
        cut.2.links.get port = none ∧ cut.2.links.get peer.port = none) ∧
      ∀ other, other ≠ port → (∀ peer, net.reference port = some peer → other ≠ peer.port) →
        cut.2.links.get other = net.links.get other := by
  unfold disconnect neighbor at h
  cases hpeer : net.reference port with
  | none =>
    simp only [hpeer, Option.map_none] at h
    cases h
    exact ⟨⟨rfl, fun _ => .inr rfl⟩, nofun, fun _ _ _ => rfl⟩
  | some peer =>
    simp only [hpeer, Option.map_some] at h
    obtain ⟨-, h⟩ := of_check_bind h
    cases h
    refine ⟨⟨rfl, fun other => ?_⟩, fun peer' hpeer' => ?_, fun other hne hother => ?_⟩
    · show ((net.links.remove port).remove peer.port).get other = none ∨ _
      rw [Table.get_remove, Table.get_remove]
      split <;> [exact .inl rfl; skip]
      split <;> [exact .inl rfl; exact .inr rfl]
    · cases hpeer'
      refine ⟨?_, Table.get_remove_self _ _⟩
      show ((net.links.remove port).remove peer.port).get port = none
      rw [Table.get_remove]
      split <;> [rfl; exact Table.get_remove_self _ _]
    · show ((net.links.remove port).remove peer.port).get other = _
      rw [Table.get_remove, if_neg (hother peer rfl), Table.get_remove, if_neg hne]

/-- Disconnecting ports only takes links away. -/
theorem disconnectAll_cut (h : net.disconnectAll ports = .ok after) : Cut net after := by
  induction ports generalizing net with
  | nil => cases h; exact ⟨rfl, fun _ => .inr rfl⟩
  | cons port ports ih =>
    obtain ⟨cut, hcut, hrest⟩ := Except.bind_eq_ok h
    obtain ⟨hfirst, -, -⟩ := disconnect_spec hcut
    have hlast := ih hrest
    refine ⟨hlast.nodes.trans hfirst.nodes, fun other => ?_⟩
    rcases hlast.links other with hnone | hsame
    · exact .inl hnone
    · rw [hsame]
      exact hfirst.links other

/-- Cutting the wires at some ports clears the port at the other end of each. -/
theorem disconnectAll_unwired {port : Port} (h : net.disconnectAll ports = .ok after)
    (hport : port ∈ ports) (hpeer : net.reference port = some peer)
    (hback : ∀ other sign, net.reference other = some ⟨port, sign⟩ → other = peer.port) :
    after.links.get peer.port = none := by
  induction ports generalizing net with
  | nil => cases hport
  | cons first ports ih =>
    obtain ⟨cut, hcut, hrest⟩ := Except.bind_eq_ok h
    obtain ⟨hfirst, hclear, hkept⟩ := disconnect_spec hcut
    -- a port that is clear stays clear
    have hstays : cut.2.links.get peer.port = none → after.links.get peer.port = none := by
      intro hnone
      rcases (disconnectAll_cut hrest).links peer.port with hgone | hsame
      · exact hgone
      · rw [hsame, hnone]
    by_cases hsame : port = first
    · subst hsame
      exact hstays (hclear peer hpeer).2
    · by_cases hother : ∃ sign, net.reference first = some ⟨port, sign⟩
      · -- the wire was cut at its other end
        obtain ⟨sign, hfirstPeer⟩ := hother
        obtain rfl := hback first sign hfirstPeer
        exact hstays (hclear _ hfirstPeer).1
      · have hlinks : cut.2.links.get port = net.links.get port := by
          refine hkept port hsame fun peer' hpeer' heq => hother ⟨peer'.sign, ?_⟩
          rw [hpeer', heq]
        exact ih hrest (List.mem_of_ne_of_mem hsame hport)
          ((hfirst.reference_eq hlinks).trans hpeer) fun other sign hothers =>
          hback other sign (hfirst.reference hothers)

/-- The results of a traversal, one by one. -/
theorem getElem?_of_mapM {α β : Type} {f : α → Except Panic β} {list : List α} {results : List β}
    (h : list.mapM f = .ok results) (i : Nat) (b : β) :
    results[i]? = some b ↔ ∃ a, list[i]? = some a ∧ f a = .ok b := by
  induction list generalizing results i with
  | nil =>
    obtain rfl : [] = results := Except.ok.inj h
    simp
  | cons a list ih =>
    rw [List.mapM_cons] at h
    obtain ⟨b', hb', h⟩ := Except.bind_eq_ok h
    obtain ⟨rest, hrest, h⟩ := Except.bind_eq_ok h
    obtain rfl : b' :: rest = results := Except.ok.inj h
    cases i with
    | zero => simp [hb']
    | succ i => simpa using ih hrest i

/-- What a detached boundary records of a socket is the peer its port had: another socket if that is
one, and the port itself if not. -/
theorem detachBoundary_links (h : net.detachBoundary ports = .ok (boundary, after)) {i : Nat}
    {link : BoundaryLink} (hlink : boundary.links[i]? = some link) :
    ∃ port peer, ports[i]? = some port ∧ net.reference port = some peer ∧
      (link = .port peer ∧ peer.port ∉ ports ∨
        ∃ j, link = .socket j peer.sign ∧ ports[j]? = some peer.port) := by
  obtain ⟨links, hlinks, h⟩ := Except.bind_eq_ok h
  obtain ⟨detached, -, h⟩ := Except.bind_eq_ok h
  obtain ⟨rfl, rfl⟩ := Prod.mk.inj (Except.ok.inj h)
  obtain ⟨port, hport, hlink⟩ := (getElem?_of_mapM hlinks i _).mp hlink
  unfold boundaryLink at hlink
  split at hlink
  · cases hlink
  · next peer hpeer =>
    refine ⟨port, peer, hport, hpeer, ?_⟩
    split at hlink
    · next j hj =>
      obtain ⟨hlt, heq, -⟩ := List.idxOf?_eq_some_iff.mp hj
      exact .inr ⟨j, (Except.ok.inj hlink).symm, by rw [List.getElem?_eq_getElem hlt, heq]⟩
    · next hnone => exact .inl ⟨(Except.ok.inj hlink).symm, List.idxOf?_eq_none_iff.mp hnone⟩

/-- What a rule does between detaching its boundary and attaching it: it leaves the ports that the
boundary leads to alone, and its replacements name free ports of its own, each once. -/
structure Replaces (boundary : RewriteBoundary) (replacements : List BoundaryReplacement)
    (after now : RuntimeNet S) : Prop where
  length : boundary.links.length = replacements.length
  paired : ∀ i j : Nat, replacements[i]? = some (.socket j) →
    j ≠ i ∧ replacements[j]? = some (.socket i)
  kept : ∀ (i : Nat) peer, boundary.links[i]? = some (.port peer) →
    now.validPort peer.port = after.validPort peer.port ∧
      now.links.get peer.port = after.links.get peer.port
  free : ∀ (i : Nat) port, replacements[i]? = some (.port port) →
    now.validPort port = true ∧ now.links.get port = none
  once : ∀ (i j : Nat) port, replacements[i]? = some (.port port) →
    replacements[j]? = some (.port port) → i = j
  own : ∀ (i j : Nat) port peer, replacements[i]? = some (.port port) →
    boundary.links[j]? = some (.port peer) → peer.port ≠ port
  unused : ∀ n, now.nextNodeId ≤ n → now.nodes.get n = none
  unlinked : ∀ port : Port, now.nextNodeId ≤ port.node → now.links.get port = none
  unowed : ∀ n, now.nextNodeId ≤ n → now.cursorObligations.get n = none

/-- An end is a port that was wired to the boundary, or one that replaces a socket. -/
theorem portEnd_cases (h : PortEnd (boundary.leave replacements) half port) :
    (half.2 = false ∧ boundary.links[half.1]? = some (.port port)) ∨
      (half.2 = true ∧ replacements[half.1]? = some (.port port.port)) := by
  obtain ⟨socket, side⟩ := half
  cases side with
  | false =>
    have hrecorded : boundary.recorded socket = .inl (.port port) := h
    unfold RewriteBoundary.recorded at hrecorded
    split at hrecorded <;> cases hrecorded
    next hlink => exact .inl ⟨rfl, hlink⟩
  | true =>
    have hreplaced : boundary.replaced replacements socket = .inl (.port port) := h
    unfold RewriteBoundary.replaced at hreplaced
    split at hreplaced <;> cases hreplaced
    next hport => exact .inr ⟨rfl, hport⟩

/-- **A detached boundary can be attached** by a rule that replaces its sockets: where two of them
were wired to each other each records the other, and a port that one of them leads to is clear. -/
theorem detachBoundary_attachable (hsymm : net.Symmetric) (hnodup : ports.Nodup)
    (h : net.detachBoundary ports = .ok (boundary, after))
    (hreplaces : Replaces boundary replacements after now) :
    now.Attachable boundary replacements := by
  have hindex : ∀ {i j : Nat} {port}, ports[i]? = some port → ports[j]? = some port → i = j := by
    intro i j port hi hj
    obtain ⟨hlt, -⟩ := List.getElem?_eq_some_iff.mp hi
    exact (List.getElem?_inj hlt hnodup).mp (hi.trans hj.symm)
  obtain ⟨links, hlinks, hrest⟩ := Except.bind_eq_ok h
  obtain ⟨detached, hcut, hrest⟩ := Except.bind_eq_ok hrest
  obtain ⟨hboundary, hafter⟩ := Prod.mk.inj (Except.ok.inj hrest)
  rw [hafter] at hcut
  -- the peer of a socket is in the net, and has no other port at its other end
  have hpeer : ∀ {i : Nat} {peer}, boundary.links[i]? = some (.port peer) →
      now.validPort peer.port = true ∧ now.links.get peer.port = none := by
    intro i peer hlink
    obtain ⟨port, peer', hport, href, ⟨heq, -⟩ | ⟨j, heq, -⟩⟩ := detachBoundary_links h hlink
    · cases heq
      obtain ⟨-, sign, hback⟩ := hsymm port peer href
      obtain ⟨hvalid, hlinks⟩ := hreplaces.kept i peer hlink
      refine ⟨hvalid.trans ?_, hlinks.trans ?_⟩
      · rw [validPort, (disconnectAll_cut hcut).nodes, ← validPort]
        by_contra hinvalid
        rw [reference, if_neg hinvalid] at hback
        cases hback
      · refine disconnectAll_unwired hcut (List.mem_of_getElem? hport) href ?_
        intro other sign' hother
        obtain ⟨-, sign'', hother⟩ := hsymm _ _ hother
        cases href.symm.trans hother
        rfl
    · cases heq
  refine ⟨hreplaces.length, ?_, hreplaces.paired, ?_⟩
  · intro i j sign hlink
    obtain ⟨port, peer, hport, href, ⟨heq, -⟩ | ⟨j', heq, hat⟩⟩ := detachBoundary_links h hlink
    · cases heq
    · cases heq
      obtain ⟨hne, sign', hback⟩ := hsymm port peer href
      refine ⟨?_, ?_⟩
      · rintro rfl
        exact hne (Option.some.inj (hat.symm.trans hport))
      · -- the other socket's port has this one for its peer
        have hmade : ∃ link, net.boundaryLink ports peer.port = .ok link := by
          simp only [boundaryLink, hback]
          cases ports.idxOf? port <;> exact ⟨_, rfl⟩
        obtain ⟨link, hmade⟩ := hmade
        have hj : boundary.links[j]? = some link := by
          rw [← hboundary]
          exact (getElem?_of_mapM hlinks j link).mpr ⟨peer.port, hat, hmade⟩
        obtain ⟨port', peer', hport', href', hlink'⟩ := detachBoundary_links h hj
        cases hat.symm.trans hport'
        cases hback.symm.trans href'
        obtain ⟨-, hnot⟩ | ⟨i', rfl, hat'⟩ := hlink'
        · exact absurd (List.mem_of_getElem? hport) hnot
        · cases hindex hat' hport
          exact ⟨sign', hj⟩
  · exact {
      valid := by
        intro half _ port hend
        rcases portEnd_cases hend with ⟨-, hlink⟩ | ⟨-, hport⟩
        · exact (hpeer hlink).1
        · exact (hreplaces.free _ _ hport).1
      unwired := by
        intro half _ port hend
        rcases portEnd_cases hend with ⟨-, hlink⟩ | ⟨-, hport⟩
        · exact (hpeer hlink).2
        · exact (hreplaces.free _ _ hport).2
      apart := by
        intro half _ half' _ port port' hend hend' heq
        rcases portEnd_cases hend with ⟨hside, hlink⟩ | ⟨hside, hport⟩ <;>
          rcases portEnd_cases hend' with ⟨hside', hlink'⟩ | ⟨hside', hport'⟩
        · -- no port is the peer of two
          obtain ⟨own, peer, hown, href, ⟨hsame, -⟩ | ⟨_, hsame, -⟩⟩ := detachBoundary_links h hlink
          · obtain ⟨own', peer', hown', href', ⟨hsame', -⟩ | ⟨_, hsame', -⟩⟩ :=
              detachBoundary_links h hlink'
            · cases hsame
              cases hsame'
              obtain ⟨-, sign, hback⟩ := hsymm own port href
              obtain ⟨-, sign', hback'⟩ := hsymm own' port' href'
              rw [heq] at hback
              cases hback.symm.trans hback'
              exact Prod.ext (hindex hown hown') (hside.trans hside'.symm)
            · cases hsame'
          · cases hsame
        · exact absurd heq (hreplaces.own _ _ _ _ hport' hlink)
        · exact absurd heq.symm (hreplaces.own _ _ _ _ hport hlink')
        · rw [← heq] at hport'
          exact Prod.ext (hreplaces.once _ _ _ hport hport') (hside.trans hside'.symm)
      unused := hreplaces.unused
      unlinked := hreplaces.unlinked
      unowed := hreplaces.unowed }

end Detach

/-- **What attaching makes of a net.** -/
structure Attached (leave : Leave) (sockets : Nat) (net after : RuntimeNet S) : Prop where
  /-- the two ends of every path are settled -/
  settled : ∀ first last one other, first.1 < sockets → Joins leave first last →
    leave first.2 first.1 = .inl one → leave last.2 last.1 = .inl other →
    after.Settled net.nextNodeId one other
  /-- every fresh node is the eraser of a port whose path leads to an eraser -/
  erasers : ∀ n, net.nextNodeId ≤ n → n < after.nextNodeId →
    ∃ first last port, first.1 < sockets ∧ Joins leave first last ∧ PortEnd leave first port ∧
      leave last.2 last.1 = .inl .erase ∧ after.Eraser n port
  nodes : ∀ n, n < net.nextNodeId → after.nodes.get n = net.nodes.get n
  /-- no link changes but those at the ends and at the fresh erasers -/
  others : ∀ port : Port, port.node < net.nextNodeId ∨ ¬ port.IsPrincipal →
    (∀ half : Half Nat, half.1 < sockets → ∀ e, PortEnd leave half e → e.port ≠ port) →
    after.links.get port = net.links.get port
  unused : ∀ n, after.nextNodeId ≤ n → after.nodes.get n = none
  unlinked : ∀ port : Port, after.nextNodeId ≤ port.node → after.links.get port = none

section Attach

variable {net after : RuntimeNet S} {boundary : RewriteBoundary}
  {replacements : List BoundaryReplacement}

/-- The boundary's links and the replacements are two matchings of the sockets. -/
theorem Attachable.twoMatchings (h : net.Attachable boundary replacements) :
    TwoMatchings (boundary.leave replacements) := by
  have hrecorded : ∀ {i j : Nat}, boundary.recorded i = .inr j →
      ∃ sign, boundary.links[i]? = some (.socket j sign) := by
    intro i j hij
    unfold RewriteBoundary.recorded at hij
    split at hij
    next => cases hij
    next other sign hlink =>
      obtain rfl := Sum.inr.inj hij
      exact ⟨sign, hlink⟩
    next => cases hij
  have hreplaced : ∀ {i j : Nat}, boundary.replaced replacements i = .inr j →
      replacements[i]? = some (.socket j) := by
    intro i j hij
    unfold RewriteBoundary.replaced at hij
    split at hij
    next => cases hij
    next other hlink =>
      obtain rfl := Sum.inr.inj hij
      exact hlink
    all_goals cases hij
  -- each of the two matchings is symmetric and fixes no socket
  constructor
  · intro side i j hij
    cases side with
    | false =>
      obtain ⟨sign, hlink⟩ := hrecorded hij
      obtain ⟨-, sign', hback⟩ := h.recorded i j sign hlink
      show boundary.recorded j = .inr i
      simp [RewriteBoundary.recorded, hback]
    | true =>
      obtain ⟨-, hback⟩ := h.paired i j (hreplaced hij)
      show boundary.replaced replacements j = .inr i
      simp [RewriteBoundary.replaced, hback]
  · intro side i hij
    cases side with
    | false =>
      obtain ⟨sign, hlink⟩ := hrecorded hij
      exact (h.recorded i i sign hlink).1 rfl
    | true => exact (h.paired i i (hreplaced hij)).1 rfl

/-- Sockets lead to sockets of the boundary. -/
theorem Attachable.mem_range (h : net.Attachable boundary replacements) :
    ∀ i ∈ List.range boundary.links.length, ∀ side j,
      boundary.leave replacements side i = .inr j → j ∈ List.range boundary.links.length := by
  intro i _ side j hij
  have hback := h.twoMatchings.symm hij
  rw [List.mem_range]
  by_contra hle
  have hnone : boundary.links[j]? = none := List.getElem?_eq_none (Nat.not_lt.mp hle)
  have hnone' : replacements[j]? = none :=
    List.getElem?_eq_none (h.length ▸ Nat.not_lt.mp hle)
  cases side <;> simp [RewriteBoundary.leave, RewriteBoundary.recorded, RewriteBoundary.replaced,
    hnone, hnone'] at hback

theorem Settled.symm {first : NodeId} (h : net.Settled first one other) :
    net.Settled first other one := by
  cases one <;> cases other
  case port.port => exact ⟨h.2, h.1⟩
  all_goals exact h

/-- The two ends of some path clash, and this is the assertion they make fail. -/
def Clashes (net : RuntimeNet S) (leave : Leave) (sockets : Nat) (panic : Panic) : Prop :=
  ∃ first last, first.1 < sockets ∧ Joins leave first last ∧
    net.PathClash leave (first, last) panic

/-- **Attaching treats each path exactly once.** If no path's ends clash, the boundary is attached:
the two end ports of a path are linked to each other, a port whose path leads to an eraser has one
fresh eraser, and nothing else changes, so that erasers that meet and closed loops vanish. If some
do, attaching fails, with the assertion that the ends of one of them make fail. -/
theorem attachBoundary_spec (h : net.Attachable boundary replacements) :
    ((∀ panic, ¬ net.Clashes (boundary.leave replacements) boundary.links.length panic) →
      ∃ after, net.attachBoundary boundary replacements = .ok after ∧
        Attached (boundary.leave replacements) boundary.links.length net after) ∧
    ((∃ panic, net.Clashes (boundary.leave replacements) boundary.links.length panic) →
      ∃ panic, net.Clashes (boundary.leave replacements) boundary.links.length panic ∧
        net.attachBoundary boundary replacements = .error panic) := by
  have hmatchings := h.twoMatchings
  obtain ⟨paths, hpaths, hjoins, hnodup, hhalves⟩ := hmatchings.exists_paths h.mem_range
  have hsub : ∀ half ∈ halves paths, half ∈ sides boundary.links.length := by
    intro half hhalf
    exact mem_sides.mpr (List.mem_range.mp ((hhalves half).mp hhalf).2)
  have hfirst : ∀ path ∈ paths, path.1.1 < boundary.links.length := fun path hpath =>
    mem_sides.mp (hsub _ (List.mem_flatMap.mpr ⟨path, hpath, by simp⟩))
  have hfound : ∀ {first last : Half Nat} {one}, first.1 < boundary.links.length →
      Joins (boundary.leave replacements) first last →
      boundary.leave replacements first.2 first.1 = .inl one →
      (first, last) ∈ paths ∨ (last, first) ∈ paths := fun {first _ one} hsocket hjoin hone =>
    hmatchings.mem_of_mem_halves hjoins
      ((hhalves first).mpr ⟨⟨one, hone⟩, List.mem_range.mpr hsocket⟩) hjoin
  have hclashes : ∀ panic, net.Clashes (boundary.leave replacements) boundary.links.length panic ↔
      ∃ path ∈ paths, net.PathClash (boundary.leave replacements) path panic := by
    intro panic
    constructor
    · rintro ⟨first, last, hsocket, hjoin, one, other, hone, hother, hclash⟩
      rcases hfound hsocket hjoin hone with hpath | hpath
      · exact ⟨_, hpath, one, other, hone, hother, hclash⟩
      · rw [endsClash_comm] at hclash
        exact ⟨_, hpath, other, one, hother, hone, hclash⟩
    · rintro ⟨path, hpath, hclash⟩
      exact ⟨path.1, path.2, hfirst path hpath, hjoins path hpath, hclash⟩
  simp only [hclashes]
  unfold attachBoundary
  rw [check, if_pos h.length, Except.bind_ok, hpaths]
  rcases joinPaths_cases (h.ready.subset hsub) hnodup hjoins with
    ⟨hnone, after, hok, hjoined, hafter⟩ | ⟨panic, hclash, herror⟩
  · have habsent : ¬ ∃ panic, ∃ path ∈ paths,
        net.PathClash (boundary.leave replacements) path panic := not_exists.mpr hnone
    refine ⟨fun _ => ⟨after, hok, ?_⟩, fun hexists => absurd hexists habsent⟩
    exact {
      settled := by
        intro first last one other hsocket hjoin hone hother
        -- the path was found from one of its ends, and leads to the other
        rcases hfound hsocket hjoin hone with hpath | hpath
        · exact hjoined.settled _ hpath one other hone hother
        · exact (hjoined.settled _ hpath other one hother hone).symm
      erasers := by
        intro n hle hlt
        obtain ⟨path, hpath, port, ⟨hport, herase⟩ | ⟨hport, herase⟩, heraser⟩ :=
          hjoined.erasers n hle hlt
        · exact ⟨path.1, path.2, port, hfirst path hpath, hjoins path hpath, hport, herase, heraser⟩
        · have hmem : path.2 ∈ halves paths := List.mem_flatMap.mpr ⟨path, hpath, by simp⟩
          exact ⟨path.2, path.1, port, mem_sides.mp (hsub _ hmem),
            hmatchings.joins_symm (hjoins path hpath), hport, herase, heraser⟩
      nodes := hjoined.nodes
      others := by
        intro port hnode hother
        exact hjoined.others port hnode fun half hhalf =>
          hother half (mem_sides.mp (hsub half hhalf))
      unused := hafter.unused
      unlinked := hafter.unlinked }
  · exact ⟨fun hnone => absurd hclash (hnone panic), fun _ => ⟨panic, hclash, herror⟩⟩

/-- An interface whose auxiliary port is free. -/
def freeInterface : RuntimeNet ⟨Unit, Unit, Unit, Unit, Unit, Unit⟩ :=
  { empty with nextNodeId := 1, nodes := Table.set ∅ 0 .interface }

/-- Two sockets wired to each other, and one wired to the interface. -/
def loopBoundary : RewriteBoundary :=
  ⟨[.socket 1 .provides, .socket 0 .consumes, .port ⟨.auxiliary 0 1, .provides⟩]⟩

/-- Two sockets that were wired to each other and are fused again make a loop, which vanishes. A
third socket's peer gets an eraser. -/
theorem attachBoundary_loop_and_eraser :
    ∃ after, freeInterface.attachBoundary loopBoundary [.socket 1, .socket 0, .erase] = .ok after ∧
      Attached (loopBoundary.leave [.socket 1, .socket 0, .erase]) 3 freeInterface after := by
  have hport : ∀ half port, PortEnd (loopBoundary.leave [.socket 1, .socket 0, .erase]) half port →
      half = (2, false) ∧ port = ⟨.auxiliary 0 1, .provides⟩ := by
    rintro ⟨_ | _ | _ | socket, _ | _⟩ port hport <;>
      simp_all [loopBoundary, PortEnd, RewriteBoundary.leave, RewriteBoundary.recorded,
        RewriteBoundary.replaced]
  have hattachable : freeInterface.Attachable loopBoundary
      [.socket 1, .socket 0, .erase] := {
    length := rfl
    recorded := by
      rintro (_ | _ | _ | i) j sign hij <;> simp [loopBoundary] at hij
      all_goals
        obtain ⟨rfl, -⟩ := hij
        simp [loopBoundary]
    paired := by
      rintro (_ | _ | _ | i) j hij <;> simp at hij
      all_goals
        subst hij
        simp
    ready := {
      valid := by
        intro half hhalf port hend
        rw [(hport half port hend).2]
        rfl
      unwired := by
        intro half hhalf port hend
        rfl
      apart := by
        intro half hhalf half' hhalf' port port' hend hend' _
        rw [(hport half port hend).1, (hport half' port' hend').1]
      unused := by
        intro n hn
        exact (Table.get_set_of_ne _ _ (Nat.ne_of_gt hn)).trans (Table.get_empty n)
      unlinked := fun _ _ => Table.get_empty _
      unowed := fun _ _ => Table.get_empty _ } }
  refine (attachBoundary_spec hattachable).1 ?_
  have hfree : ∀ half port, PortEnd (loopBoundary.leave [.socket 1, .socket 0, .erase]) half port →
      ¬ port.port.IsPrincipal := by
    intro half port hend hprincipal
    rw [(hport half port hend).2] at hprincipal
    cases hprincipal
  rintro panic ⟨first, last, -, -, one, other, hone, hother, hclash⟩
  cases one with
  | port one =>
    cases other with
    | port => simp [endsClash, wireClash, hfree first one hone] at hclash
    | erase => simp [endsClash, hfree first one hone] at hclash
  | erase =>
    cases other with
    | port other => simp [endsClash, hfree last other hother] at hclash
    | erase => cases hclash

end Attach

end RuntimeNet

end Glam.Net
