import Glam.Lib.Spec
import Glam.Net.Polarity

/-!
# Building templates

The net builder of `interaction_net/builder.rs`: a list of nodes and a list of wires, to which each
construction adds. A builder carries that every wire joins two of its ports and that no port has two
wires; `tryWire` refuses what would break this, so an invalid builder cannot be built.

Finishing a template makes three passes. `validate` checks that just the exposed port is left
unwired, `checkPolarity` that the wiring is polarized and connected, and `normalize` takes out the
tunnels, each of which stands for a copy with one output: it follows every wire of a runtime node
through the tunnels to the port of a runtime node, and keeps the wire from its providing end. A pass
that fails does so with an error of the source, or at one of its assertions (`FinishFailure`).

The source also keeps the wired ports in a set, to look a port up in constant time; here they are
read off the wires. `followTunnels` keeps the source's set of ports passed, and takes one step more
than there are ports of tunnels, so that it never runs out before the source stops.
-/

namespace Glam.Net

variable {S : NetSpecialization}

/-- The number of a node's ports, the principal one included. -/
def Node.portCount : Node S → Nat
  | .bind => 3
  | .fan _ => 3
  | .operator _ => 2
  | .erase => 1
  | .data _ => 1

/-- A node of a net that is being built. -/
inductive BuilderNode (S : NetSpecialization)
  | runtime (node : Node S)
  /-- a two-ended alias, which stands for a copy with one output -/
  | tunnel

namespace BuilderNode

/-- The number of a builder node's ports. -/
def portCount : BuilderNode S → Nat
  | .runtime node => node.portCount
  | .tunnel => 2

/-- Whether a builder node is a tunnel, which no finished net has. -/
def isTunnel : BuilderNode S → Bool
  | .runtime _ => false
  | .tunnel => true

/-- The node that a builder node becomes in the finished net. -/
def runtime? : BuilderNode S → Option (Node S)
  | .runtime node => some node
  | .tunnel => none

/-- What the check of polarities knows of a node. -/
def shape : BuilderNode S → Shape
  | .runtime node => .of node
  | .tunnel => .tunnel

theorem portCount_le (node : BuilderNode S) : node.portCount ≤ 3 := by
  cases node with
  | runtime node => cases node <;> simp [portCount, Node.portCount]
  | tunnel => simp [portCount]

end BuilderNode

/-- Why a net is refused. -/
inductive NetBuildError
  | invalidPort (port : Port)
  | invalidExposedPort (port : Port)
  | selfWire (port : Port)
  | portAlreadyWired (port : Port)
  | exposedPortWired (port : Port)
  | portUnwired (port : Port)
  | tunnelCycle
  | polarity (violation : PolarityViolation)
deriving DecidableEq

/-- The ports that wires join, each as often as a wire ends there. -/
def wireEnds (wires : List TemplateWire) : List Port := wires.flatMap fun wire => [wire.left, wire.right]

variable {port : Port}

theorem mem_wireEnds {wires : List TemplateWire} :
    port ∈ wireEnds wires ↔ ∃ wire ∈ wires, port = wire.left ∨ port = wire.right := by
  simp [wireEnds]

theorem wireEnds_concat (wires : List TemplateWire) (wire : TemplateWire) :
    wireEnds (wires ++ [wire]) = wireEnds wires ++ [wire.left, wire.right] := by
  simp [wireEnds]

/-- Whether a port is one of the nodes'. -/
def validPortOf (nodes : List (BuilderNode S)) (port : Port) : Bool :=
  nodes[port.node.index]?.any fun node => port.index < node.portCount

variable {nodes : List (BuilderNode S)}

theorem validPortOf_iff :
    validPortOf nodes port = true ↔
      ∃ node, nodes[port.node.index]? = some node ∧ port.index < node.portCount := by
  simp [validPortOf, Option.any_eq_true]

theorem validPortOf_append {more : List (BuilderNode S)} (h : validPortOf nodes port = true) :
    validPortOf (nodes ++ more) port = true := by
  obtain ⟨node, hnode, hindex⟩ := validPortOf_iff.mp h
  obtain ⟨hlt, -⟩ := List.getElem?_eq_some_iff.mp hnode
  exact validPortOf_iff.mpr ⟨node, by rw [List.getElem?_append_left hlt, hnode], hindex⟩

/-- A net that is being built. Its wires are always proper ones: `tryWire` refuses any other. -/
structure NetBuilder (S : NetSpecialization) where
  nodes : List (BuilderNode S)
  wires : List TemplateWire
  nextFanSite : Nat
  /-- wires join ports of the builder -/
  ends_valid : ∀ port ∈ wireEnds wires, validPortOf nodes port = true
  /-- no port has two wires, and no wire joins a port to itself -/
  ends_nodup : (wireEnds wires).Nodup

/-- A finished template. Each wire is stored with the port that provides first. -/
structure InteractionNet (S : NetSpecialization) where
  nodes : List (Node S)
  wires : List TemplateWire
  exposed : Port

/-- How finishing a template stops short. -/
inductive FinishFailure
  | refused (error : NetBuildError)
  /-- `validated non-exposed port must remain wired` -/
  | missingLink
  /-- `terminal port must belong to a runtime node` -/
  | missingNode
deriving DecidableEq

namespace NetBuilder

/-- The builder without a node. -/
def new : NetBuilder S where
  nodes := []
  wires := []
  nextFanSite := 0
  ends_valid := nofun
  ends_nodup := List.nodup_nil

/-! ### Constructions -/

variable (b : NetBuilder S)

/-- Appends a node. -/
def addNode (node : BuilderNode S) : NetBuilder S where
  nodes := b.nodes ++ [node]
  wires := b.wires
  nextFanSite := b.nextFanSite
  ends_valid := fun port hport => validPortOf_append (b.ends_valid port hport)
  ends_nodup := b.ends_nodup

/-- Why a port cannot take a wire. -/
def checkPort (port : Port) : Except NetBuildError Unit :=
  if validPortOf b.nodes port = false then .error (.invalidPort port)
  else if port ∈ wireEnds b.wires then .error (.portAlreadyWired port)
  else .ok ()

theorem checkPort_eq_ok {b : NetBuilder S} :
    b.checkPort port = .ok () ↔ validPortOf b.nodes port = true ∧ port ∉ wireEnds b.wires := by
  rw [checkPort]
  split
  · next h => simp [h]
  · next h =>
    rw [Bool.not_eq_false] at h
    split
    · next h' => simp [h']
    · next h' => simp [h, h']

/-- The builder with one wire more between two of its ports that have none. -/
def addWire (left right : Port) (hleft : b.checkPort left = .ok ())
    (hright : b.checkPort right = .ok ()) (hne : left ≠ right) : NetBuilder S where
  nodes := b.nodes
  wires := b.wires ++ [⟨left, right⟩]
  nextFanSite := b.nextFanSite
  ends_valid := by
    rw [wireEnds_concat]
    exact List.forall_mem_append.mpr ⟨b.ends_valid, List.forall_mem_cons.mpr
      ⟨(checkPort_eq_ok.mp hleft).1, List.forall_mem_singleton.mpr (checkPort_eq_ok.mp hright).1⟩⟩
  ends_nodup := by
    rw [wireEnds_concat, List.nodup_append]
    refine ⟨b.ends_nodup, by simpa using hne, ?_⟩
    rintro port hport _ hmem rfl
    rcases List.mem_pair.mp hmem with rfl | rfl
    · exact (checkPort_eq_ok.mp hleft).2 hport
    · exact (checkPort_eq_ok.mp hright).2 hport

/-- Wires two ports, if both are the builder's, free, and not the same. -/
def tryWire (left right : Port) : Except NetBuildError (NetBuilder S) :=
  match hleft : b.checkPort left with
  | .error error => .error error
  | .ok () =>
    match hright : b.checkPort right with
    | .error error => .error error
    | .ok () =>
      if hne : left = right then .error (.selfWire left)
      else .ok (b.addWire left right hleft hright hne)

end NetBuilder

/-- Steps of building. A failure stands for the panic of a wire that the source expects to be
valid. -/
abbrev Build (S : NetSpecialization) := StateT (NetBuilder S) (Except NetBuildError)

namespace Build

/-- Appends a node, and returns its id. -/
def pushNode (node : BuilderNode S) : Build S NodeId := do
  let b ← get
  set (b.addNode node)
  return b.nodes.length

/-- Appends a node of the finished net. -/
def push (node : Node S) : Build S NodeId := pushNode (.runtime node)

/-- Wires two ports, or fails with the error that `tryWire` reports. -/
def wire (left right : Port) : Build S Unit := do
  set (← (← get).tryWire left right)

/-- A bind's principal port and its two auxiliary ones. -/
def bind : Build S (Port × Port × Port) := do
  let node ← push .bind
  return (.principal node, .auxiliary node 1, .auxiliary node 2)

/-- A bind as a function, its argument and its result. Binds join crossed, so a function lists its
auxiliaries the other way round. -/
def functionBind : Build S (Port × Port × Port) := do
  let ports ← bind
  return (ports.1, ports.2.2, ports.2.1)

/-- The ports of a chain of binds: where it is entered, one for each argument, and the result. -/
structure BindSpine where
  input : Port
  arguments : List Port
  result : Port

/-- A chain of `more + 1` binds: the source asserts that there is at least one. -/
def spine (bind : Build S (Port × Port × Port)) (more : Nat) : Build S BindSpine := do
  let first ← bind
  let rest ← (List.range more).mapM fun _ => bind
  let binds := first :: rest
  (binds.zip rest).forM fun pair => wire pair.1.2.2 pair.2.1
  return ⟨first.1, binds.map fun ports => ports.2.1, (rest.getLast?.getD first).2.2⟩

/-- The chain of binds of a function. -/
def functionSpine (more : Nat) : Build S BindSpine := spine functionBind more

/-- A node of data, by its port. -/
def data (data : S.Data) : Build S Port := do
  let node ← push (.data data)
  return .principal node

/-- A node of an operator, by its input and its output. -/
def operator (operator : S.Operator) : Build S (Port × Port) := do
  let node ← push (.operator operator)
  return (.principal node, .auxiliary node 1)

/-- A function that applies an operator to its argument. -/
def unaryOperator (op : S.Operator) : Build S Port := do
  let function ← functionBind
  let ports ← operator op
  wire function.2.1 ports.1
  wire function.2.2 ports.2
  return function.1

/-- Appends a fan at a site of its own. -/
def pushFan : Build S NodeId := do
  let b ← get
  set { b with nextFanSite := b.nextFanSite + 1 }
  push (.fan b.nextFanSite)

/-- The ports of a tree of fans that copies what comes in at its input. -/
structure CopyPorts where
  input : Port
  outputs : List Port

/-- A balanced tree of fans with `outputs` leaves under `branch`. The source never asks for none. -/
def copyBranch (branch : Port) (outputs : Nat) : Build S (List Port) :=
  if outputs ≤ 1 then return [branch]
  else do
    let fan ← pushFan
    wire branch (.principal fan)
    let leaves ← copyBranch (.auxiliary fan 1) (outputs / 2)
    let more ← copyBranch (.auxiliary fan 2) (outputs - outputs / 2)
    return leaves ++ more
termination_by outputs

/-- A logical copy: no output is an eraser, one a tunnel, and more are a tree of fans. -/
def copy (outputs : Nat) : Build S CopyPorts :=
  match outputs with
  | 0 => do
    let erase ← push .erase
    return ⟨.principal erase, []⟩
  | 1 => do
    let tunnel ← pushNode .tunnel
    return ⟨.principal tunnel, [.auxiliary tunnel 1]⟩
  | outputs => do
    let root ← pushFan
    let leaves ← copyBranch (.auxiliary root 1) (outputs / 2)
    let more ← copyBranch (.auxiliary root 2) (outputs - outputs / 2)
    return ⟨.principal root, leaves ++ more⟩

end Build

/-- What a client of the builder can do before it finishes the template. -/
inductive Construction (S : NetSpecialization)
  | push (node : Node S)
  | bind
  | functionBind
  | functionSpine (more : Nat)
  | data (data : S.Data)
  | operator (operator : S.Operator)
  | unaryOperator (operator : S.Operator)
  | pushFan
  | copy (outputs : Nat)
  | tryWire (left right : Port)

/-- A construction, and the ports that the client gets of it, in the order it gets them. A client
that gets a node has all of its ports. -/
def Construction.run : Construction S → Build S (List Port)
  | .push node => do
    let id ← Build.push node
    return (List.range node.portCount).map (Port.mk id)
  | .bind => do
    let ports ← Build.bind
    return [ports.1, ports.2.1, ports.2.2]
  | .functionBind => do
    let ports ← Build.functionBind
    return [ports.1, ports.2.1, ports.2.2]
  | .functionSpine more => do
    let spine ← Build.functionSpine more
    return spine.input :: spine.arguments ++ [spine.result]
  | .data value => do return [← Build.data value]
  | .operator op => do
    let ports ← Build.operator op
    return [ports.1, ports.2]
  | .unaryOperator op => do return [← Build.unaryOperator op]
  | .pushFan => do
    let id ← Build.pushFan
    return [.principal id, .auxiliary id 1, .auxiliary id 2]
  | .copy outputs => do
    let copy ← Build.copy outputs
    return copy.input :: copy.outputs
  | .tryWire left right => do
    Build.wire left right
    return []

namespace NetBuilder

variable (b : NetBuilder S)

/-- The builder after a construction. A wire that is refused leaves it as it is. -/
def perform (construction : Construction S) : NetBuilder S :=
  match construction.run.run b with
  | .ok result => result.2
  | .error _ => b

/-- The builder after a sequence of constructions. -/
def build (constructions : List (Construction S)) : NetBuilder S :=
  constructions.foldl perform new

/-! ### Validation -/

/-- Every port, by node and index. -/
def ports : List Port :=
  b.nodes.zipIdx.flatMap fun entry => (List.range entry.1.portCount).map (Port.mk entry.2)

/-- Marks the ends of the wires, each of which must be a port, not exposed and not marked yet. -/
def validateEnds (b : NetBuilder S) (exposed : Port) :
    List Port → List Port → Except NetBuildError (List Port)
  | [], wired => .ok wired
  | port :: rest, wired =>
    if port = exposed then .error (.exposedPortWired port)
    else if validPortOf b.nodes port = false then .error (.invalidPort port)
    else if port ∈ wired then .error (.portAlreadyWired port)
    else b.validateEnds exposed rest (port :: wired)

/-- Checks that every port has its wire, except the exposed one, which has none. -/
def validate (exposed : Port) : Except NetBuildError Unit :=
  if validPortOf b.nodes exposed = false then .error (.invalidExposedPort exposed)
  else do
    let wired ← b.validateEnds exposed (wireEnds b.wires) []
    match b.ports.find? fun port => decide (port ∉ wired ∧ port ≠ exposed) with
    | some port => .error (.portUnwired port)
    | none => .ok ()

/-! ### Polarity -/

theorem inRange_of_validPort (h : validPortOf nodes port = true) :
    port.InRange (nodes.map BuilderNode.shape).length := by
  obtain ⟨node, hnode, hindex⟩ := validPortOf_iff.mp h
  obtain ⟨hlt, -⟩ := List.getElem?_eq_some_iff.mp hnode
  exact ⟨by rwa [List.length_map], hindex.trans_le node.portCount_le⟩

/-- The builder's own topology, tunnels included. -/
def topology (exposed : Port) (h : validPortOf b.nodes exposed = true) : Topology where
  shapes := b.nodes.map BuilderNode.shape
  wires := b.wires
  exposed := exposed
  wires_inRange := fun wire hwire =>
    ⟨inRange_of_validPort (b.ends_valid _ (mem_wireEnds.mpr ⟨wire, hwire, .inl rfl⟩)),
      inRange_of_validPort (b.ends_valid _ (mem_wireEnds.mpr ⟨wire, hwire, .inr rfl⟩))⟩
  exposed_inRange := inRange_of_validPort h

/-- Gives every port a sign, if the wiring allows one. -/
def checkPolarity (exposed : Port) (h : validPortOf b.nodes exposed = true) :
    Except NetBuildError (List Sign) :=
  (b.topology exposed h).check.mapError .polarity

/-! ### Taking tunnels out -/

/-- The port at the other end of the wire at `port`. -/
def links (port : Port) : Option Port :=
  -- where a port had two wires, the later one would count
  (b.wires.flatMap fun wire => [(wire.left, wire.right), (wire.right, wire.left)]).reverse.lookup
    port

/-- Which of the builder's nodes are tunnels. -/
def isTunnel (b : NetBuilder S) : List Bool := b.nodes.map BuilderNode.isTunnel

/-- The number of tunnels. -/
def tunnelCount : Nat := b.isTunnel.countP id

/-- The nodes of the finished net. -/
def runtimeNodes : List (Node S) := b.nodes.filterMap BuilderNode.runtime?

/-- Numbers the runtime nodes from `next` on. -/
def renumber : Nat → List (BuilderNode S) → List (Option NodeId)
  | _, [] => []
  | next, .runtime _ :: rest => some next :: renumber (next + 1) rest
  | next, .tunnel :: rest => none :: renumber next rest

/-- The ids that the builder's nodes have in the finished net. -/
def nodeMap : List (Option NodeId) := renumber 0 b.nodes

end NetBuilder

/-- The other end of a tunnel. -/
def Port.tunnelEnd (port : Port) : Port :=
  if port.index = 0 then .auxiliary port.node 1 else .principal port.node

/-- A port by its node's id in the finished net. -/
def remapPort (nodeMap : List (Option NodeId)) (port : Port) : Except FinishFailure Port :=
  match nodeMap[port.node.index]? with
  | some (some node) => .ok ⟨node, port.index⟩
  | _ => .error .missingNode

namespace NetBuilder

/-- Follows tunnels from `port` to a port of a runtime node. Returns the tunnels passed too. -/
def followTunnels (b : NetBuilder S) (exposed : Port) :
    Nat → Port → Finset Port → Finset NodeId → Except FinishFailure (Port × Finset NodeId)
  | 0, _, _, _ => .error (.refused .tunnelCycle)
  | fuel + 1, port, path, visited =>
    match b.isTunnel[port.node.index]? with
    | none => .error (.refused (.invalidPort port))
    | some false => .ok (port, visited)
    | some true =>
      if port ∈ path then .error (.refused .tunnelCycle)
      else if port.tunnelEnd = exposed then .error (.refused .tunnelCycle)
      else
        match b.links port.tunnelEnd with
        | none => .error (.refused (.portUnwired port.tunnelEnd))
        | some next =>
          b.followTunnels exposed fuel next (insert port path) (insert port.node visited)

variable (b : NetBuilder S)

/-- More steps than there are ports of tunnels. -/
def followFuel : Nat := 2 * b.nodes.length + 1

/-- The ports of one node, if it is a runtime node, each with its place in the template. -/
def mappedPorts (old : NodeId) : Option NodeId → List (Port × Port)
  | none => []
  | some node =>
    (List.range ((b.runtimeNodes[node.index]?.map Node.portCount).getD 0)).map fun index =>
      (⟨old, index⟩, ⟨node, index⟩)

/-- The builder's ports that stay, each with the port that it becomes. -/
def runtimePorts : List (Port × Port) :=
  b.nodeMap.zipIdx.flatMap fun entry => b.mappedPorts entry.2 entry.1

/-- Follows the wire at a port of a runtime node. Each wire is visited from both ends and kept once,
from its providing end. -/
def spliceWire (exposed exposedRuntime : Port) (signs : List Sign)
    (state : List TemplateWire × Finset NodeId) (entry : Port × Port) :
    Except FinishFailure (List TemplateWire × Finset NodeId) :=
  if entry.2 = exposedRuntime then .ok state
  else
    match b.links entry.1 with
    | none => .error .missingLink
    | some neighbor => do
      let followed ← b.followTunnels exposed b.followFuel neighbor ∅ state.2
      let remote ← remapPort b.nodeMap followed.1
      if entry.2 = remote then .error (.refused (.selfWire entry.2))
      else
        let wires :=
          if solvedSign signs entry.1 = .provides then state.1 ++ [⟨entry.2, remote⟩] else state.1
        .ok (wires, followed.2)

/-- The port of a runtime node that stands for the exposed port, and the tunnels before it. -/
def spliceExposed (exposed : Port) : Except FinishFailure (Port × Finset NodeId) :=
  match b.isTunnel[exposed.node.index]? with
  | some true => do
    let followed ← b.followTunnels exposed b.followFuel exposed ∅ ∅
    let port ← remapPort b.nodeMap followed.1
    .ok (port, followed.2)
  | _ => do
    let port ← remapPort b.nodeMap exposed
    .ok (port, ∅)

/-- Splices out tunnels and renumbers nodes. -/
def normalize (exposed : Port) (signs : List Sign) : Except FinishFailure (InteractionNet S) := do
  let front ← b.spliceExposed exposed
  let spliced ← b.runtimePorts.foldlM (b.spliceWire exposed front.1 signs) ([], front.2)
  if spliced.2.card ≠ b.tunnelCount then .error (.refused .tunnelCycle)
  else .ok ⟨b.runtimeNodes, spliced.1, front.1⟩

/-! ### Finishing -/

theorem validPort_of_validate {b : NetBuilder S} {exposed : Port} {result : Unit}
    (h : b.validate exposed = .ok result) : validPortOf b.nodes exposed = true := by
  rw [validate] at h
  split at h
  · cases h
  · next hvalid => exact Bool.not_eq_false _ ▸ hvalid

/-- Validates the net, checks its polarities and takes the tunnels out. -/
def tryFinish (exposed : Port) : Except FinishFailure (InteractionNet S) :=
  match h : b.validate exposed with
  | .error error => .error (.refused error)
  | .ok _ =>
    match b.checkPolarity exposed (validPort_of_validate h) with
    | .error error => .error (.refused error)
    | .ok signs => b.normalize exposed signs

end NetBuilder

end Glam.Net
