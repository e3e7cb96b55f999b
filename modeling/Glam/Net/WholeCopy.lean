import Glam.Net.Cursor

/-!
# Whole copies

A source with no evaluation left is copied in one step (`interaction_net/runtime/whole_copy.rs`): it
is captured as a list of nodes whose links are positions in the list, and installed elsewhere with
fresh nodes and fan sites.

The search for the nodes to capture is bounded: it gives up at a node that is no agent, and where
there are too many. `Grown` says what each part of it comes to, a list that has grown as it should
or a source that is not small. -/

namespace Glam.Net

variable {S : NetSpecialization}

/-- The most nodes a source may have and still be copied whole. -/
def wholeCopyMaxNodes : Nat := 64

/-- A link to port `port` of the node at position `node`, a port of sign `sign`. -/
structure WholeCopyLink where
  node : Nat
  port : Nat
  sign : Sign

/-- A node of a copied net, with the links at its ports. -/
structure WholeCopyNode (S : NetSpecialization) where
  node : RuntimeNode S
  links : List (Option WholeCopyLink)

/-- A source net captured for one copy. The first node's port `root` faced the interface, with sign
`rootSign`. -/
structure WholeCopy (S : NetSpecialization) where
  nodes : List (WholeCopyNode S)
  root : Nat
  rootSign : Sign

/-- A copy prepared from its source, to install in a target. -/
inductive PreparedCopySource (S : NetSpecialization)
  /-- through a cursor at the source's port `remote` -/
  | cursor (source : S.RuntimeSource) (remote : Port)
  | whole (copy : WholeCopy S)

namespace RuntimeNet

/-! ### Capturing a source -/

/-- Enters the neighbours of one node's ports into the nodes reached so far. -/
def reachPorts (net : RuntimeNet S) (interface : Port) (node : NodeId) :
    List Nat → List NodeId → Option (List NodeId)
  | [], order => some order
  | index :: indices, order =>
    match net.neighbor ⟨node, index⟩ with
    | none => net.reachPorts interface node indices order
    | some peer =>
      if peer = interface ∨ peer.node ∈ order then net.reachPorts interface node indices order
      else if order.length = wholeCopyMaxNodes then none
      else net.reachPorts interface node indices (order ++ [peer.node])

/-- The nodes reachable from the interface, in the order found: those from position `next` on have
not been looked at yet. -/
def reachNodes (net : RuntimeNet S) (interface : Port) :
    Nat → Nat → List NodeId → Option (List NodeId)
  | 0, _, _ => none
  | fuel + 1, next, order =>
    match order[next]? with
    | none => some order
    | some node =>
      match net.nodes.get node with
      | none => none
      | some entry =>
        if entry.IsAgent then
          (net.reachPorts interface node (List.range entry.portCount) order).bind
            (net.reachNodes interface fuel (next + 1))
        else none

variable (net : RuntimeNet S)

/-- The link of a reached port, unless it faces the interface. -/
def captureLink (interface : Port) (order : List NodeId) (port : Port) : Option WholeCopyLink :=
  match net.reference port with
  | none => none
  | some peer =>
    if peer.port = interface then none
    else some ⟨order.idxOf peer.port.node, peer.port.index, peer.sign⟩

/-- A node with its links, by the positions of the nodes in the order of the copy. -/
def captureNode (interface : Port) (order : List NodeId) (node : NodeId) :
    Option (WholeCopyNode S) :=
  (net.nodes.get node).map fun entry =>
    ⟨entry, (List.range 3).map fun index => net.captureLink interface order ⟨node, index⟩⟩

/-- Captures this net for a whole copy if no evaluation is left in it and few enough nodes are
reachable from its interface. -/
def wholeCopy : Option (WholeCopy S) :=
  if net.active.keys = ∅ ∧ net.copies.keys = ∅ ∧ net.cursorObligations.keys = ∅ then
    match net.exposed with
    | none => none
    | some interface =>
      match (net.neighbor interface).bind net.signed with
      | none => none
      | some root => do
        let order ← net.reachNodes interface (wholeCopyMaxNodes + 1) 0 [root.port.node]
        let nodes ← order.mapM (net.captureNode interface order)
        some ⟨nodes, root.port.index, root.sign⟩
  else none

/-! ### Installing a copy -/

/-- Adds the nodes of a whole copy, and returns their numbers in order. -/
def addCopiedNodes (net : RuntimeNet S) (sites : Table FanSite FanSite) :
    List (WholeCopyNode S) → Except Panic (List NodeId × RuntimeNet S)
  | [] => .ok ([], net)
  | entry :: entries => do
    let translated := translateNode sites net.nextFanSite entry.node
    let (id, net) ← { net with nextFanSite := translated.2.2 }.addNode translated.1
    let (ids, net) ← net.addCopiedNodes translated.2.1 entries
    .ok (id :: ids, net)

/-- The wires of the node at `position`, of which it is the end that comes first. -/
def wiresAt (position : Nat) (entry : WholeCopyNode S) : List ((Nat × Nat) × WholeCopyLink) :=
  entry.links.zipIdx.filterMap fun (link, index) =>
    match link with
    | none => none
    | some link =>
      if position < link.node ∨ (position = link.node ∧ index < link.port) then
        some ((position, index), link)
      else none

/-- The wires of a whole copy, each from the end that comes first. -/
def copiedWires (nodes : List (WholeCopyNode S)) : List ((Nat × Nat) × WholeCopyLink) :=
  nodes.zipIdx.flatMap fun (entry, position) => wiresAt position entry

/-- Wires the copies as the nodes are wired that they were made of. -/
def wireCopied (net : RuntimeNet S) (ids : List NodeId) :
    List ((Nat × Nat) × WholeCopyLink) → Except Panic (RuntimeNet S)
  | [] => .ok net
  | ((position, index), link) :: wires => do
    let net ← net.wire ⟨⟨ids.getD position 0, index⟩, link.sign.opposite⟩
      ⟨⟨ids.getD link.node 0, link.port⟩, link.sign⟩
    net.wireCopied ids wires

/-- Installs a whole copy with its root bound to `reference`. Returns the root node. -/
def installWholeCopy (copy : WholeCopy S) (reference : SignedPort) :
    Except Panic (NodeId × RuntimeNet S) := do
  let (ids, net) ← net.addCopiedNodes ∅ copy.nodes
  let net ← net.wireCopied ids (copiedWires copy.nodes)
  let net ← net.bindReference ⟨ids.headD 0, copy.root⟩ reference
  .ok (ids.headD 0, net)

/-- Installs a prepared copy with its root bound to `reference`, and returns the node at its
root. -/
def installCopy (prepared : PreparedCopySource S) (reference : SignedPort) :
    Except Panic (NodeId × RuntimeNet S) :=
  match prepared with
  | .cursor source remote => do
    let (cursor, net) ← net.beginCursorCopy source remote
    let net ← net.bindReference (.principal cursor) reference
    .ok (cursor, net)
  | .whole copy => net.installWholeCopy copy reference

/-! ### What is captured -/

section Capture

/-- A wire of `node` leads to `peer`, and not to the interface. -/
def Adjacent (interface : Port) (node peer : NodeId) : Prop :=
  ∃ index port, net.neighbor ⟨node, index⟩ = some port ∧ port ≠ interface ∧ port.node = peer

/-- Reachable, but not through the interface. -/
def Found (interface : Port) (root : NodeId) : NodeId → Prop :=
  Relation.ReflTransGen (net.Adjacent interface) root

/-- Whether the id is that of an agent. -/
def AgentAt (node : NodeId) : Prop :=
  ∃ entry, net.nodes.get node = some entry ∧ entry.IsAgent

/-- Few enough nodes are found, all of them agents. -/
structure Small (interface : Port) (root : NodeId) : Prop where
  agents : ∀ node, net.Found interface root node → net.AgentAt node
  few : ∃ nodes : List NodeId, nodes.length ≤ wholeCopyMaxNodes ∧
    ∀ node, net.Found interface root node → node ∈ nodes

/-- In the copy of the nodes `order`, the wire at `port` is `link`. -/
def Joins (interface : Port) (order : List NodeId) (port : Port) (link : WholeCopyLink) : Prop :=
  ∃ peer, order[link.node]? = some peer ∧ ⟨peer, link.port⟩ ≠ interface ∧
    net.reference port = some ⟨⟨peer, link.port⟩, link.sign⟩

/-- Whether an entry of the copy is a node as it stands in the net. -/
def Copied (interface : Port) (order : List NodeId) (node : NodeId) (entry : WholeCopyNode S) :
    Prop :=
  net.nodes.get node = some entry.node ∧ ∀ (index : Nat) link,
    entry.links[index]? = some (some link) ↔ net.Joins interface order ⟨node, index⟩ link

/-- **A captured copy is the part found**, each node once, and each wire of it between the positions
of the nodes that it joins. -/
structure Captured (interface : Port) (root : SignedPort) (copy : WholeCopy S)
    (order : List NodeId) : Prop where
  head : order.head? = some root.port.node ∧ copy.root = root.port.index ∧ copy.rootSign = root.sign
  nodup : order.Nodup
  found : ∀ node, node ∈ order ↔ net.Found interface root.port.node node
  nodes : List.Forall₂ (net.Copied interface order) order copy.nodes

/-- What the search knows of the nodes in its list. -/
structure Reached (interface : Port) (root : NodeId) (order : List NodeId) : Prop where
  nodup : order.Nodup
  bounded : order.length ≤ wholeCopyMaxNodes
  found : ∀ node ∈ order, net.Found interface root node

/-- The search has grown its list to one with the property, or the part is not small. -/
def Grown (interface : Port) (root : NodeId) (order : List NodeId) (goal : List NodeId → Prop) :
    Option (List NodeId) → Prop
  | some after => order <+: after ∧ net.Reached interface root after ∧ goal after
  | none => ¬ net.Small interface root

/-- Whether all that an agent is wired to is in the copy. -/
def Explored (interface : Port) (order : List NodeId) (node : NodeId) : Prop :=
  net.AgentAt node ∧ ∀ peer, net.Adjacent interface node peer → peer ∈ order

variable {net} {interface : Port} {root node : NodeId} {order after : List NodeId}
  {goal goal' : List NodeId → Prop} {result : Option (List NodeId)}

theorem Grown.mono (h : net.Grown interface root after goal result) (hafter : order <+: after)
    (hgoal : ∀ last, after <+: last → goal last → goal' last) :
    net.Grown interface root order goal' result := by
  cases result with
  | none => exact h
  | some last => exact ⟨hafter.trans h.1, h.2.1, hgoal last h.1 h.2.2⟩

theorem Grown.bind {next : List NodeId → Option (List NodeId)}
    (h : net.Grown interface root order goal result)
    (hnext : ∀ after, order <+: after → net.Reached interface root after → goal after →
      net.Grown interface root after goal' (next after)) :
    net.Grown interface root order goal' (result.bind next) := by
  cases result with
  | none => exact h
  | some after => exact (hnext after h.1 h.2.1 h.2.2).mono h.1 fun _ _ hgoal => hgoal

theorem Reached.not_small (h : net.Reached interface root order)
    (hnode : net.Found interface root node) (hnew : node ∉ order)
    (hfull : order.length = wholeCopyMaxNodes) : ¬ net.Small interface root := by
  rintro ⟨-, nodes, hlength, hnodes⟩
  have hsubset : node :: order ⊆ nodes :=
    List.cons_subset.mpr ⟨hnodes _ hnode, fun n hn => hnodes n (h.found n hn)⟩
  have hle := ((List.nodup_cons.mpr ⟨hnew, h.nodup⟩).subperm hsubset).length_le
  rw [List.length_cons] at hle
  omega

/-- The ports of a node add its neighbours to the order. -/
theorem reachPorts_grown (h : net.Reached interface root order)
    (hnode : net.Found interface root node) (indices : List Nat) :
    net.Grown interface root order
      (fun after => ∀ index ∈ indices, ∀ port, net.neighbor ⟨node, index⟩ = some port →
        port ≠ interface → port.node ∈ after)
      (net.reachPorts interface node indices order) := by
  induction indices generalizing order with
  | nil => exact ⟨List.prefix_refl _, h, by simp⟩
  | cons index indices ih =>
    rw [reachPorts]
    cases hpeer : net.neighbor ⟨node, index⟩ with
    | none => exact (ih h).mono (List.prefix_refl _) (by grind)
    | some peer =>
      dsimp only
      split
      next hold =>
        refine (ih h).mono (List.prefix_refl _) fun last hlast => ?_
        have hsubset := hlast.subset
        grind
      next hnew =>
        obtain ⟨hinterface, hnew⟩ := not_or.mp hnew
        have hpeer' : net.Found interface root peer.node :=
          hnode.tail ⟨index, peer, hpeer, hinterface, rfl⟩
        split
        next hfull => exact h.not_small hpeer' hnew hfull
        next hroom =>
          have hgrown : net.Reached interface root (order ++ [peer.node]) := by
            obtain ⟨hnodup, hbounded, hfound⟩ := h
            constructor <;> grind
          refine (ih hgrown).mono (List.prefix_append _ _) fun last hlast => ?_
          have hsubset := hlast.subset
          grind

theorem lt_portCount_of_neighbor {index : Nat} {port : Port} {entry : RuntimeNode S}
    (hport : net.neighbor ⟨node, index⟩ = some port) (hentry : net.nodes.get node = some entry) :
    index < entry.portCount := by
  by_contra hlt
  simp [neighbor, reference, validPort, hentry, hlt] at hport

/-- The search goes on until all that is in the order has been explored. -/
theorem reachNodes_grown (h : net.Reached interface root order) (fuel next : Nat)
    (hnext : next ≤ order.length) (hfuel : wholeCopyMaxNodes < next + fuel)
    (hexplored : ∀ node ∈ order.take next, net.Explored interface order node) :
    net.Grown interface root order (fun after => ∀ node ∈ after, net.Explored interface after node)
      (net.reachNodes interface fuel next order) := by
  induction fuel generalizing next order with
  | zero =>
    -- the order has no room for more nodes than the fuel
    have := h.bounded
    omega
  | succ fuel ih =>
    rw [reachNodes]
    cases hat : order[next]? with
    | none =>
      rw [List.take_of_length_le (List.getElem?_eq_none_iff.mp hat)] at hexplored
      exact ⟨List.prefix_refl _, h, hexplored⟩
    | some node =>
      have hnode := h.found node (List.mem_of_getElem? hat)
      have hlt : next < order.length := (List.getElem?_eq_some_iff.mp hat).1
      dsimp only
      cases hentry : net.nodes.get node with
      | none => exact fun hsmall => by simpa [AgentAt, hentry] using hsmall.agents node hnode
      | some entry =>
        dsimp only
        split
        next hagent =>
          refine (reachPorts_grown h hnode _).bind ?_
          rintro _ ⟨last, rfl⟩ hreached hneighbors
          refine ih hreached (next + 1) (by grind) (by omega) ?_
          -- what was explored stays so, and the node at hand has its neighbours in the order now
          intro other hother
          rw [List.take_append_of_le_length (Nat.succ_le_of_lt hlt), List.take_add_one, hat]
            at hother
          cases List.mem_append.mp hother with
          | inl hearlier =>
            obtain ⟨hagent, hpeers⟩ := hexplored other hearlier
            exact ⟨hagent, fun peer hpeer => List.mem_append_left _ (hpeers peer hpeer)⟩
          | inr heq =>
            obtain rfl : other = node := by simpa using heq
            refine ⟨⟨entry, hentry, hagent⟩, ?_⟩
            rintro peer ⟨index, port, hport, hinterface, rfl⟩
            refine hneighbors index ?_ port hport hinterface
            exact List.mem_range.mpr (lt_portCount_of_neighbor hport hentry)
        next hagent =>
          refine fun hsmall => hagent ?_
          simpa [AgentAt, hentry] using hsmall.agents node hnode

theorem Reached.mem_iff (h : net.Reached interface root order) (hroot : root ∈ order)
    (hexplored : ∀ node ∈ order, net.Explored interface order node) (node : NodeId) :
    node ∈ order ↔ net.Found interface root node := by
  refine ⟨h.found node, fun hfound => ?_⟩
  induction hfound with
  | refl => exact hroot
  | tail _ hadjacent ih => exact (hexplored _ ih).2 _ hadjacent

/-- A captured link is one of the net's, by the position of its end. -/
theorem captureLink_eq_some_iff (hnodup : order.Nodup) {port : Port}
    (hpeers : ∀ peer, net.neighbor port = some peer → peer ≠ interface → peer.node ∈ order)
    (link : WholeCopyLink) :
    net.captureLink interface order port = some link ↔ net.Joins interface order port link := by
  unfold captureLink Joins
  cases hreference : net.reference port with
  | none => simp
  | some peer =>
    have hmem := hpeers peer.port (by simp [neighbor, hreference])
    dsimp only
    split
    next hinterface => grind
    next hinterface =>
      constructor
      · intro heq
        obtain rfl := Option.some.inj heq
        exact ⟨peer.port.node, List.getElem?_idxOf (hmem hinterface), hinterface, rfl⟩
      · rintro ⟨node, hnode, -, heq⟩
        obtain rfl := Option.some.inj heq
        obtain ⟨hlt, rfl⟩ := List.getElem?_eq_some_iff.mp hnode
        rw [hnodup.idxOf_getElem]

/-- A node whose neighbours are in the order is captured as it stands. -/
theorem captureNode_copied (hnodup : order.Nodup) (hexplored : net.Explored interface order node) :
    ∃ entry, net.captureNode interface order node = some entry ∧
      net.Copied interface order node entry := by
  obtain ⟨source, hsource, -⟩ := hexplored.1
  refine ⟨_, congrArg (Option.map _) hsource, hsource, fun index link => ?_⟩
  rw [← captureLink_eq_some_iff hnodup]
  · by_cases hindex : index < 3
    · simp [hindex]
    · have hcount : ¬ index < source.portCount := by
        cases source <;> simp only [RuntimeNode.portCount] <;> omega
      simp [hindex, captureLink, reference, validPort, hsource, hcount]
  · exact fun peer hpeer hinterface => hexplored.2 _ ⟨index, peer, hpeer, hinterface, rfl⟩

theorem exists_mapM_captureNode (hnodup : order.Nodup) (nodes : List NodeId)
    (hexplored : ∀ node ∈ nodes, net.Explored interface order node) :
    ∃ entries, nodes.mapM (net.captureNode interface order) = some entries ∧
      List.Forall₂ (net.Copied interface order) nodes entries := by
  induction nodes with
  | nil => exact ⟨[], rfl, .nil⟩
  | cons node nodes ih =>
    obtain ⟨hnode, hnodes⟩ := List.forall_mem_cons.mp hexplored
    obtain ⟨entry, hentry, hcopied⟩ := captureNode_copied hnodup hnode
    obtain ⟨entries, hentries, hall⟩ := ih hnodes
    exact ⟨entry :: entries, by rw [List.mapM_cons, hentry, hentries]; rfl, .cons hcopied hall⟩

/-- **A source is copied whole exactly if nothing is left to evaluate in it and the part that its
interface leads to is small. That part is then what is captured.** -/
theorem wholeCopy_spec (net : RuntimeNet S) :
    (net.wholeCopy.isSome ↔
      (net.active.keys = ∅ ∧ net.copies.keys = ∅ ∧ net.cursorObligations.keys = ∅) ∧
        ∃ interface root, net.exposed = some interface ∧
          (net.neighbor interface).bind net.signed = some root ∧
          net.Small interface root.port.node) ∧
      ∀ copy ∈ net.wholeCopy, ∃ interface root order, net.exposed = some interface ∧
        (net.neighbor interface).bind net.signed = some root ∧
        net.Captured interface root copy order := by
  rw [wholeCopy]
  split
  next hquiet =>
    cases hexposed : net.exposed with
    | none => simp
    | some interface =>
      cases hroot : (net.neighbor interface).bind net.signed with
      | none => simp [hroot]
      | some root =>
        -- the search starts at the node behind the interface
        have hstart : net.Reached interface root.port.node [root.port.node] :=
          ⟨List.nodup_singleton _, (by decide : 1 ≤ wholeCopyMaxNodes),
            fun node hnode => List.mem_singleton.mp hnode ▸ .refl⟩
        have hgrown := reachNodes_grown hstart (wholeCopyMaxNodes + 1) 0 (Nat.zero_le _) (by decide)
          (by simp)
        simp only [hroot]
        cases horder : net.reachNodes interface (wholeCopyMaxNodes + 1) 0 [root.port.node] with
        | none =>
          rw [horder] at hgrown
          -- it gives up only if there are too many nodes, or one that is no agent
          have hnot : ¬ net.Small interface root.port.node := hgrown
          simp [hnot, hroot]
        | some order =>
          rw [horder] at hgrown
          obtain ⟨⟨rest, rfl⟩, hreached, hexplored⟩ := hgrown
          obtain ⟨entries, hentries, hcopied⟩ :=
            exists_mapM_captureNode hreached.nodup _ hexplored
          have hfound := hreached.mem_iff (by simp) hexplored
          have hsmall : net.Small interface root.port.node :=
            ⟨fun node hnode => (hexplored node ((hfound node).mpr hnode)).1, _, hreached.bounded,
              fun node => (hfound node).mpr⟩
          simp only [Option.bind_eq_bind, Option.bind_some, hentries]
          refine ⟨iff_of_true rfl ⟨hquiet, interface, root, rfl, hroot, hsmall⟩, ?_⟩
          intro copy hcopy
          obtain rfl := Option.some.inj hcopy
          exact ⟨interface, root, _, rfl, hroot, ⟨rfl, rfl, rfl⟩, hreached.nodup, hfound, hcopied⟩
  next hbusy => simp [hbusy]

end Capture

end RuntimeNet

end Glam.Net
