import Glam.Lib.GraphSearch
import Glam.Lib.ParityForest
import Glam.Net.Model

/-!
# Polarity of templates

Every port provides a value or consumes one, and each wire joins one of each. The checker of
`interaction_net/polarity.rs` decides whether the ports of a template can be given such signs. It
writes the rules of nodes, wires and the exposed port as equations between ports, and a constant
anchor for those that fix a sign, and takes them into a union-find with parity one by one. The first
it refuses is a conflict, and a breadth-first search then finds earlier equations that force it.

What the checker is for is `Polarized`. The forest after some equations is respected by just the
solutions of those equations (`joinAll_spec`), so an accepted template has a solution, and the one
read off the roots is one. A refused equation contradicts every solution of the earlier ones, of
which there are some, so any chain of earlier equations between its two ends has the wrong parity
(`Chain.holds`); and there is such a chain, since the two ends had one root. -/

namespace Glam.Net

open ParityForest (Respects Rooted)

/-- What a node demands of the signs of its ports. -/
inductive NodeRule
  | dataProvides
  | operatorConsumesInput
  | operatorProvidesResult
  | bindFirstAuxiliaryConsumes
  | bindSecondAuxiliaryProvides
  | fanPrincipalOpposesBranches
  | fanBranchesAgree
  | tunnelPassesThrough
deriving DecidableEq

/-- One sign equation, as a violation reports it. -/
inductive PolarityRule
  /-- each wire joins opposite signs -/
  | wire (left right : Port)
  /-- the exposed port provides the template's value -/
  | exposed (port : Port)
  /-- a node's own port signs -/
  | node (port : Port) (rule : NodeRule)
deriving DecidableEq

/-- Why a template is not polarized or not connected. -/
inductive PolarityViolation
  /-- `closing` contradicts signs that the earlier rules `forcedBy` force, in order from one end of
  it to the other -/
  | conflict (closing : PolarityRule) (forcedBy : List PolarityRule)
  /-- a node cannot be reached from the exposed port -/
  | disconnected (node : NodeId)
deriving DecidableEq

/-- The node shapes the checker distinguishes. A tunnel is the builder's splice for a single copy.
-/
inductive Shape
  | bind
  | fan
  | erase
  | data
  | operator
  | tunnel
deriving DecidableEq

/-- The shape of a node. -/
def Shape.of {S : NetSpecialization} : Node S → Shape
  | .bind => .bind
  | .fan _ => .fan
  | .erase => .erase
  | .data _ => .data
  | .operator _ => .operator

/-- The sign rule of a node whose port `i` has the sign `sign i`. -/
def Shape.Obeys (sign : Nat → Sign) : Shape → Prop
  | .bind => sign 1 = .consumes ∧ sign 2 = .provides
  | .fan => sign 1 = (sign 0).opposite ∧ sign 2 = (sign 0).opposite
  | .data => sign 0 = .provides
  | .operator => sign 0 = .consumes ∧ sign 1 = .provides
  | .tunnel => sign 1 = (sign 0).opposite
  | .erase => True

/-- A wire between two ports. -/
structure TemplateWire where
  left : Port
  right : Port
deriving DecidableEq

/-- A node's place among those of its template. -/
def NodeId.index (id : NodeId) : Nat := id

/-- One of the three port slots of one of `nodes` nodes. -/
def Port.InRange (nodes : Nat) (port : Port) : Prop := port.node.index < nodes ∧ port.index < 3

instance (nodes : Nat) (port : Port) : Decidable (port.InRange nodes) :=
  inferInstanceAs (Decidable (_ ∧ _))

/-- A template's topology as the checker sees it: one shape per node. -/
structure Topology where
  shapes : List Shape
  wires : List TemplateWire
  exposed : Port
  wires_inRange : ∀ wire ∈ wires,
    wire.left.InRange shapes.length ∧ wire.right.InRange shapes.length
  exposed_inRange : exposed.InRange shapes.length

/-- One sign equation between two slots: a port, or the constant anchor, which provides. -/
structure Constraint where
  left : Port
  /-- nothing is the anchor -/
  right : Option Port
  opposite : Bool
  rule : PolarityRule

/-- The signs solve the equation, where `true` is a consumer. -/
def Constraint.Holds (sign : Option Port → Bool) (constraint : Constraint) : Prop :=
  sign (some constraint.left) = (sign constraint.right ^^ constraint.opposite)

/-- The two slots are the equation's, one way or the other. -/
def Constraint.Joins (constraint : Constraint) (a b : Option Port) : Prop :=
  (a = some constraint.left ∧ b = constraint.right) ∨
    (a = constraint.right ∧ b = some constraint.left)

/-- Equations each of which starts where the one before it ends. Along them the sign changes if
`odd`. -/
inductive Chain : Option Port → List Constraint → Option Port → Bool → Prop
  | nil (a : Option Port) : Chain a [] a false
  | snoc {a b c : Option Port} {chain : List Constraint} {constraint : Constraint} {odd : Bool} :
      Chain a chain b odd → constraint.Joins b c →
        Chain a (chain ++ [constraint]) c (odd ^^ constraint.opposite)

variable {chain : List Constraint}

/-- What solves a chain of equations differs at its ends as the chain says. -/
theorem Chain.holds {a b : Option Port} {odd : Bool} (h : Chain a chain b odd)
    {sign : Option Port → Bool} (hsign : ∀ constraint ∈ chain, constraint.Holds sign) :
    sign a = (sign b ^^ odd) := by
  induction h with
  | nil => rw [Bool.xor_false]
  | @snoc b c chain constraint odd _ hjoins ih =>
    have hearlier := ih fun other hother => hsign other (List.mem_append_left _ hother)
    have hlast : constraint.Holds sign := hsign constraint (by simp)
    rw [Constraint.Holds] at hlast
    rcases hjoins with ⟨rfl, rfl⟩ | ⟨rfl, rfl⟩
    · rw [hearlier, hlast, Bool.xor_assoc, Bool.xor_comm constraint.opposite]
    · rw [hearlier, hlast, Bool.xor_assoc, Bool.xor_left_comm constraint.opposite, Bool.xor_self,
        Bool.xor_false]

namespace Topology

/-- The constraints of a node on its ports. -/
def nodeConstraints (id : NodeId) (shape : Shape) : List Constraint :=
  let principal := Port.principal id
  let fixed (port : Port) (consumes : Bool) (rule : NodeRule) : Constraint :=
    ⟨port, none, consumes, .node port rule⟩
  let related (left right : Port) (opposite : Bool) (rule : NodeRule) : Constraint :=
    ⟨left, some right, opposite, .node left rule⟩
  match shape with
  | .data => [fixed principal false .dataProvides]
  | .operator =>
    [fixed principal true .operatorConsumesInput,
      fixed (.auxiliary id 1) false .operatorProvidesResult]
  -- a bind's principal is free: its sign is the bind's role
  | .bind =>
    [fixed (.auxiliary id 1) true .bindFirstAuxiliaryConsumes,
      fixed (.auxiliary id 2) false .bindSecondAuxiliaryProvides]
  | .fan =>
    [related principal (.auxiliary id 1) true .fanPrincipalOpposesBranches,
      related (.auxiliary id 1) (.auxiliary id 2) false .fanBranchesAgree]
  | .tunnel => [related principal (.auxiliary id 1) true .tunnelPassesThrough]
  -- an eraser's sign is free
  | .erase => []

variable (T : Topology)

/-- Every sign equation, in a fixed order: node rules, then wires, then the exposed port. -/
def constraints : List Constraint :=
  (T.shapes.zipIdx.flatMap fun entry => nodeConstraints entry.2 entry.1) ++
    (T.wires.map fun wire => ⟨wire.left, some wire.right, true, .wire wire.left wire.right⟩) ++
    [⟨T.exposed, none, false, .exposed T.exposed⟩]

/-- The slot of the fixed sign, after those of all ports. -/
def anchor : Nat := T.shapes.length * 3

/-- The slots of the union-find: three for each node, and the anchor. -/
abbrev Slot := Fin (T.anchor + 1)

/-- The slot of a port, or of the fixed sign. -/
def slot : Option Port → T.Slot
  | none => Fin.last T.anchor
  | some port => Fin.ofNat (T.anchor + 1) (port.node.index * 3 + port.index)

/-- The slots that share an equation with `slot`, with the equation's number. -/
def edges (earlier : List Constraint) (slot : T.Slot) : List (T.Slot × Nat) :=
  earlier.zipIdx.flatMap fun entry =>
    (if T.slot (some entry.1.left) = slot then [(T.slot entry.1.right, entry.2)] else []) ++
      (if T.slot entry.1.right = slot then [(T.slot (some entry.1.left), entry.2)] else [])

/-- The earlier rules that forced the conflict closed by equation `closing`: a path between its two
slots, found breadth first. -/
def explain (closing : Nat) (source target : T.Slot) : List PolarityRule :=
  let earlier := T.constraints.take closing
  let searched := GraphSearch.run (fun pending next => pending ++ [next])
    (fun slot => decide (slot = target)) (T.edges earlier) (Fintype.card T.Slot) (.start source)
  let path := GraphSearch.trace searched.reachedBy (Fintype.card T.Slot) target []
  (path.filterMap fun index => earlier[index]?.map Constraint.rule).reverse

/-- Takes in the equations from number `index` on. -/
def joinAll : Nat → List Constraint → ParityForest T.Slot →
    Except PolarityViolation (ParityForest T.Slot)
  | _, [], signs => .ok signs
  | index, constraint :: rest, signs =>
    let left := T.slot (some constraint.left)
    let right := T.slot constraint.right
    let joined := signs.join left right constraint.opposite
    if joined.2 then joinAll (index + 1) rest joined.1
    else .error (.conflict constraint.rule (T.explain index left right))

/-- The signs of the slots in turn. The anchor provides, so its root has the anchor's parity. -/
def readSigns (anchorRoot : T.Slot) (anchorFlipped : Bool) :
    List T.Slot → ParityForest T.Slot → List Sign
  | [], _ => []
  | slot :: rest, signs =>
    let found := signs.find slot
    let rootConsumes := decide (found.2.1 = anchorRoot) && anchorFlipped
    (if rootConsumes ^^ found.2.2 then .consumes else .provides) ::
      readSigns anchorRoot anchorFlipped rest found.1

/-- One sign per port slot, read off a forest that has taken in every equation. -/
def solution (signs : ParityForest T.Slot) : List Sign :=
  let found := signs.find (T.slot none)
  T.readSigns found.2.1 found.2.2 ((List.finRange T.anchor).map Fin.castSucc) found.1

/-- Solves the signs, returning one per port slot. -/
def checkSigns : Except PolarityViolation (List Sign) :=
  (T.joinAll 0 T.constraints .new).map T.solution

/-- The nodes that share a wire with `node`. -/
def neighbors (node : Fin T.shapes.length) : List (Fin T.shapes.length × Unit) :=
  T.wires.attach.flatMap fun wire =>
    let left : Fin T.shapes.length := ⟨wire.1.left.node.index, (T.wires_inRange wire.1 wire.2).1.1⟩
    let right : Fin T.shapes.length :=
      ⟨wire.1.right.node.index, (T.wires_inRange wire.1 wire.2).2.1⟩
    (if left = node then [(right, ())] else []) ++ (if right = node then [(left, ())] else [])

/-- The first node that a depth-first search from the exposed port does not reach. -/
def checkConnected : Except PolarityViolation Unit :=
  let searched := GraphSearch.run (fun pending next => next :: pending) (fun _ => false)
    T.neighbors (Fintype.card (Fin T.shapes.length))
    (.start ⟨T.exposed.node.index, T.exposed_inRange.1⟩)
  match (List.finRange T.shapes.length).find? fun node => decide (node ∉ searched.visited) with
  | some node => .error (.disconnected node.val)
  | none => .ok ()

/-- Checks that the template is polarized and connected. Returns the solution of the signs. -/
def check : Except PolarityViolation (List Sign) := do
  let signs ← T.checkSigns
  T.checkConnected
  return signs

end Topology

/-- The sign of a port in a solution. -/
def solvedSign (signs : List Sign) (port : Port) : Sign :=
  signs.getD (port.node.index * 3 + port.index) .provides

/-- **What the checker decides**: the signs obey every node's rule, each wire joins opposite signs,
and the exposed port provides. -/
structure Topology.Polarized (T : Topology) (sign : Port → Sign) : Prop where
  nodes : ∀ (id : NodeId) (shape : Shape), T.shapes[id]? = some shape →
    shape.Obeys fun index => sign ⟨id, index⟩
  wires : ∀ wire ∈ T.wires, sign wire.left = (sign wire.right).opposite
  exposed : sign T.exposed = .provides

/-- Whether a wire joins two nodes. -/
def Topology.Adjacent (T : Topology) (u v : NodeId) : Prop :=
  ∃ wire ∈ T.wires,
    (wire.left.node = u ∧ wire.right.node = v) ∨ (wire.right.node = u ∧ wire.left.node = v)

/-- Every node can be reached from the exposed port. -/
def Topology.Connected (T : Topology) : Prop :=
  ∀ id : NodeId, id.index < T.shapes.length → Relation.ReflTransGen T.Adjacent T.exposed.node id

/-! ### The equations say what polarity is -/

/-- A consumer is `true`, as is the opposite of the anchor. -/
def slotSigns (sign : Port → Sign) : Option Port → Bool
  | none => false
  | some port => decide (sign port = .consumes)

theorem Sign.provides_iff {sign : Sign} : sign = .provides ↔ decide (sign = .consumes) = false := by
  cases sign <;> decide

theorem Sign.opposite_iff {a b : Sign} :
    a = b.opposite ↔ decide (a = .consumes) = (decide (b = .consumes) ^^ true) := by
  cases a <;> cases b <;> decide

namespace Topology

/-- The constraints of a node say what its shape demands. -/
theorem nodeConstraints_hold_iff {id : NodeId} {shape : Shape} {sign : Port → Sign} :
    (∀ constraint ∈ nodeConstraints id shape, constraint.Holds (slotSigns sign)) ↔
      shape.Obeys fun index => sign ⟨id, index⟩ := by
  cases shape <;>
    simp only [nodeConstraints, Shape.Obeys, Constraint.Holds, slotSigns, List.mem_cons,
      List.not_mem_nil, or_false, forall_eq_or_imp, forall_eq, false_implies, implies_true,
      Port.principal, Port.auxiliary]
  case bind => cases sign ⟨id, 1⟩ <;> cases sign ⟨id, 2⟩ <;> decide
  case fan => cases sign ⟨id, 0⟩ <;> cases sign ⟨id, 1⟩ <;> cases sign ⟨id, 2⟩ <;> decide
  case data => cases sign ⟨id, 0⟩ <;> decide
  case operator => cases sign ⟨id, 0⟩ <;> cases sign ⟨id, 1⟩ <;> decide
  case tunnel => cases sign ⟨id, 0⟩ <;> cases sign ⟨id, 1⟩ <;> decide

variable {T : Topology}

/-- **The signs are polarized if and only if they solve every equation.** -/
theorem polarized_iff {sign : Port → Sign} :
    T.Polarized sign ↔
      ∀ constraint ∈ T.constraints, constraint.Holds (slotSigns sign) := by
  have hnode : ∀ {shape id}, (shape, id) ∈ T.shapes.zipIdx ↔ T.shapes[id]? = some shape := by
    intro shape id
    exact List.mk_mem_zipIdx_iff_getElem?
  simp only [constraints, List.mem_append, List.mem_flatMap, List.mem_map, List.mem_singleton]
  constructor
  · rintro ⟨hnodes, hwires, hexposed⟩ constraint ((⟨entry, hentry, hmem⟩ | ⟨wire, hwire, rfl⟩) | rfl)
    · exact nodeConstraints_hold_iff.mpr (hnodes _ _ (hnode.mp hentry)) constraint hmem
    · exact Sign.opposite_iff.mp (hwires wire hwire)
    · exact Sign.provides_iff.mp hexposed
  · intro h
    refine ⟨?_, ?_, ?_⟩
    · intro id shape hshape
      refine nodeConstraints_hold_iff.mp fun constraint hmem => h constraint ?_
      exact .inl (.inl ⟨(shape, id), hnode.mpr hshape, hmem⟩)
    · intro wire hwire
      exact Sign.opposite_iff.mpr (h _ (.inl (.inr ⟨wire, hwire, rfl⟩)))
    · exact Sign.provides_iff.mpr (h _ (.inr rfl))

/-! ### Slots and ports -/

/-- An equation whose ports have slots of their own. -/
def Constrains (nodes : Nat) (constraint : Constraint) : Prop :=
  constraint.left.InRange nodes ∧ ∀ port ∈ constraint.right, port.InRange nodes

variable {constraint : Constraint} {earlier later done : List Constraint}
  {signs : ParityForest T.Slot}

/-- Every constraint is about ports of the topology. -/
theorem constrains_of_mem (h : constraint ∈ T.constraints) :
    Constrains T.shapes.length constraint := by
  have hport : ∀ {shape id index}, (shape, id) ∈ T.shapes.zipIdx → index < 3 →
      Port.InRange T.shapes.length ⟨id, index⟩ := by
    intro shape id index hentry hindex
    have hid := List.mk_mem_zipIdx_iff_getElem?.mp hentry
    exact ⟨(List.getElem?_eq_some_iff.mp hid).1, hindex⟩
  simp only [constraints, List.mem_append, List.mem_flatMap, List.mem_map,
    List.mem_singleton] at h
  rcases h with (⟨⟨shape, id⟩, hentry, hmem⟩ | ⟨wire, hwire, rfl⟩) | rfl
  · have h0 := hport hentry (show 0 < 3 by omega)
    have h1 := hport hentry (show 1 < 3 by omega)
    have h2 := hport hentry (show 2 < 3 by omega)
    cases shape <;>
      simp only [nodeConstraints, List.mem_cons, List.not_mem_nil, or_false] at hmem
    case bind => rcases hmem with rfl | rfl <;> simp [Constrains, Port.auxiliary, h1, h2]
    case fan => rcases hmem with rfl | rfl <;> simp [Constrains, Port.auxiliary, Port.principal, *]
    case data => subst hmem; simp [Constrains, Port.principal, h0]
    case operator =>
      rcases hmem with rfl | rfl <;> simp [Constrains, Port.auxiliary, Port.principal, *]
    case tunnel => subst hmem; simp [Constrains, Port.auxiliary, Port.principal, *]
  · obtain ⟨hleft, hright⟩ := T.wires_inRange wire hwire
    exact ⟨hleft, fun port hport' => by cases hport'; exact hright⟩
  · exact ⟨T.exposed_inRange, fun port hport' => by cases hport'⟩

theorem slot_val {port : Port} (h : port.InRange T.shapes.length) :
    (T.slot (some port)).val = port.node.index * 3 + port.index := by
  obtain ⟨hnode, hindex⟩ := h
  simp only [slot, Fin.val_ofNat]
  apply Nat.mod_eq_of_lt
  rw [anchor]
  omega

/-- The port of a slot, or nothing for the anchor. -/
def portAt (T : Topology) (slot : T.Slot) : Option Port :=
  if slot.val = T.anchor then none else some ⟨slot.val / 3, slot.val % 3⟩

/-- Ports and slots correspond. -/
theorem portAt_slot {port : Option Port} (h : ∀ p ∈ port, p.InRange T.shapes.length) :
    T.portAt (T.slot port) = port := by
  cases port with
  | none => simp [portAt, slot]
  | some port =>
    have hval := slot_val (h port rfl)
    obtain ⟨hnode, hindex⟩ := h port rfl
    rw [portAt, hval, if_neg (by rw [anchor]; omega)]
    have hdiv : (port.node.index * 3 + port.index) / 3 = port.node.index := by omega
    have hmod : (port.node.index * 3 + port.index) % 3 = port.index := by omega
    rw [hdiv, hmod]
    rfl

/-! ### Edges of the explanation -/

/-- The edges of a slot are the constraints on it, in both directions. -/
theorem mem_edges_iff {slot next : T.Slot} {index : Nat} :
    (next, index) ∈ T.edges earlier slot ↔
      ∃ constraint, earlier[index]? = some constraint ∧
        ((slot = T.slot (some constraint.left) ∧ next = T.slot constraint.right) ∨
          (slot = T.slot constraint.right ∧ next = T.slot (some constraint.left))) := by
  simp only [edges, List.mem_flatMap, Prod.exists, List.mk_mem_zipIdx_iff_getElem?,
    List.mem_append, List.mem_ite_nil_right, List.mem_singleton, Prod.mk.injEq]
  constructor
  · rintro ⟨constraint, number, hget, ⟨hslot, rfl, rfl⟩ | ⟨hslot, rfl, rfl⟩⟩
    · exact ⟨constraint, hget, .inl ⟨hslot.symm, rfl⟩⟩
    · exact ⟨constraint, hget, .inr ⟨hslot.symm, rfl⟩⟩
  · rintro ⟨constraint, hget, ⟨rfl, rfl⟩ | ⟨rfl, rfl⟩⟩
    · exact ⟨constraint, index, hget, .inl ⟨rfl, rfl, rfl⟩⟩
    · exact ⟨constraint, index, hget, .inr ⟨rfl, rfl, rfl⟩⟩

/-- The slots are joined by a path of equations. -/
def Linked (T : Topology) (earlier : List Constraint) : T.Slot → T.Slot → Prop :=
  Relation.ReflTransGen fun u v => ∃ index, (v, index) ∈ T.edges earlier u

theorem linked_equivalence (earlier : List Constraint) : Equivalence (T.Linked earlier) where
  refl := fun _ => .refl
  symm := by
    refine (@Relation.ReflTransGen.stdSymm _ _ ⟨?_⟩).symm _ _
    rintro a b ⟨index, hedge⟩
    obtain ⟨constraint, hget, hends⟩ := mem_edges_iff.mp hedge
    exact ⟨index, mem_edges_iff.mpr ⟨constraint, hget, hends.symm.imp And.symm And.symm⟩⟩
  trans := .trans

theorem Linked.mono {a b : T.Slot} (h : T.Linked earlier a b) :
    T.Linked (earlier ++ later) a b := by
  refine Relation.ReflTransGen.mono (fun slot next hstep => ?_) _ _ h
  obtain ⟨index, hedge⟩ := hstep
  obtain ⟨constraint, hget, hends⟩ := mem_edges_iff.mp hedge
  obtain ⟨hlt, -⟩ := List.getElem?_eq_some_iff.mp hget
  exact ⟨index, mem_edges_iff.mpr
    ⟨constraint, by rw [List.getElem?_append_left hlt, hget], hends⟩⟩

theorem linked_concat (earlier : List Constraint) (constraint : Constraint) :
    T.Linked (earlier ++ [constraint]) (T.slot (some constraint.left))
      (T.slot constraint.right) := by
  refine .single ⟨earlier.length, mem_edges_iff.mpr ⟨constraint, by simp, .inl ⟨rfl, rfl⟩⟩⟩

/-- A path through the constraints is a chain of them. -/
theorem chain_of_path (hrange : ∀ constraint ∈ earlier, Constrains T.shapes.length constraint)
    {a b : T.Slot} {labels : List Nat} (h : GraphSearch.Path (T.edges earlier) a labels b) :
    ∃ chain odd, labels.filterMap (fun index => earlier[index]?.map Constraint.rule) =
        chain.map Constraint.rule ∧
      (∀ constraint ∈ chain, constraint ∈ earlier) ∧
      Chain (T.portAt a) chain (T.portAt b) odd := by
  induction h with
  | nil => exact ⟨[], false, rfl, nofun, .nil _⟩
  | @snoc b c labels index _ hedge ih =>
    obtain ⟨chain, odd, hrules, hchain, hpath⟩ := ih
    obtain ⟨constraint, hget, hends⟩ := mem_edges_iff.mp hedge
    have hmem : constraint ∈ earlier := List.mem_of_getElem? hget
    have hconstrains := hrange constraint hmem
    have hleft : T.portAt (T.slot (some constraint.left)) = some constraint.left :=
      portAt_slot fun port hport => by cases hport; exact hconstrains.1
    have hright := portAt_slot hconstrains.2
    have hjoins : constraint.Joins (T.portAt b) (T.portAt c) := by
      rcases hends with ⟨rfl, rfl⟩ | ⟨rfl, rfl⟩
      · exact .inl ⟨hleft, hright⟩
      · exact .inr ⟨hright, hleft⟩
    refine ⟨chain ++ [constraint], _, ?_, ?_, .snoc hpath hjoins⟩
    · rw [List.filterMap_append, hrules, List.map_append]
      simp [hget]
    · intro other hother
      rcases List.mem_append.mp hother with hother | hother
      · exact hchain other hother
      · rwa [List.mem_singleton.mp hother]

/-- **The explanation is a chain** of earlier equations, if there is any between the two slots. -/
theorem exists_chain_of_linked {closing : Nat} {source target : T.Slot}
    (h : T.Linked (T.constraints.take closing) source target) :
    ∃ chain odd, T.explain closing source target = chain.map Constraint.rule ∧
      (∀ constraint ∈ chain, constraint ∈ T.constraints.take closing) ∧
      Chain (T.portAt source) chain (T.portAt target) odd := by
  let edges := T.edges (T.constraints.take closing)
  let searched := GraphSearch.run (fun pending next => pending ++ [next])
    (fun slot => decide (slot = target)) edges (Fintype.card T.Slot) (.start source)
  have hspec : GraphSearch.Inv edges source searched ∧ _ :=
    GraphSearch.run_spec (fun list a => List.perm_append_singleton a list) source le_rfl
  obtain ⟨hinv, hended⟩ := hspec
  have htarget : target ∈ searched.visited := by
    rcases hended with ⟨found, hvisited, hstop⟩ | hclosed
    · rwa [of_decide_eq_true hstop] at hvisited
    · exact GraphSearch.mem_of_reaches hclosed hinv.start h
  obtain ⟨chain, odd, hrules, hchain, hpath⟩ := chain_of_path
    (fun constraint hmem => constrains_of_mem (List.mem_of_mem_take hmem)) (hinv.path htarget)
  refine ⟨chain, odd, ?_, hchain, hpath⟩
  rw [← hrules, List.filterMap_reverse]
  rfl

/-! ### Taking in the equations -/

/-- The forest is respected by just the solutions of the equations `done`, and slots of one tree are
joined by them. -/
structure Joined (T : Topology) (done : List Constraint) (signs : ParityForest T.Slot) : Prop where
  rooted : signs.Rooted
  respects : ∀ sign, signs.Respects sign ↔
    ∀ constraint ∈ done, constraint.Holds fun port => sign (T.slot port)
  linked : ∀ a root odd, signs.Resolves a root odd → T.Linked done a root

theorem joined_new : T.Joined [] .new where
  rooted := ParityForest.rooted_new
  respects := fun sign => iff_of_true (ParityForest.respects_new sign)
    nofun
  linked := by
    intro a root odd hres
    obtain ⟨rfl, -⟩ := hres.eq_of_root rfl
    exact .refl

/-- **One equation taken in.** -/
theorem Joined.join (h : T.Joined done signs)
    (haccept : (signs.join (T.slot (some constraint.left)) (T.slot constraint.right)
      constraint.opposite).2 = true) :
    T.Joined (done ++ [constraint]) (signs.join (T.slot (some constraint.left))
      (T.slot constraint.right) constraint.opposite).1 := by
  obtain ⟨hrooted, haccepted, -⟩ := h.rooted.join (T.slot (some constraint.left))
    (T.slot constraint.right) constraint.opposite
  refine ⟨hrooted, ?_, ?_⟩
  · intro sign
    rw [haccepted haccept, h.respects]
    simp only [List.mem_append, List.mem_singleton, or_imp, forall_and, forall_eq]
    rfl
  · intro a root odd hres
    exact h.rooted.join_related _ _ _ (linked_equivalence _)
      (fun a root odd hold => (h.linked a root odd hold).mono) (linked_concat done constraint) hres

/-- **All equations taken in**, or the first that is refused. -/
theorem joinAll_spec {rest : List Constraint} (hall : T.constraints = done ++ rest)
    (h : T.Joined done signs) :
    (∃ result, T.joinAll done.length rest signs = .ok result ∧ T.Joined T.constraints result) ∨
      ∃ earlier closing later signs', T.constraints = earlier ++ closing :: later ∧
        T.Joined earlier signs' ∧
        (signs'.join (T.slot (some closing.left)) (T.slot closing.right) closing.opposite).2 =
          false ∧
        T.joinAll done.length rest signs = .error (.conflict closing.rule
          (T.explain earlier.length (T.slot (some closing.left)) (T.slot closing.right))) := by
  induction rest generalizing done signs with
  | nil =>
    rw [List.append_nil] at hall
    exact .inl ⟨signs, rfl, hall ▸ h⟩
  | cons constraint rest ih =>
    rw [joinAll]
    by_cases haccept : (signs.join (T.slot (some constraint.left)) (T.slot constraint.right)
        constraint.opposite).2 = true
    · rw [if_pos haccept]
      have hnext := ih (by rw [hall, List.append_assoc]; rfl) (h.join haccept)
      rwa [List.length_append, List.length_singleton] at hnext
    · rw [if_neg haccept]
      exact .inr ⟨done, constraint, rest, signs, hall, h, Bool.eq_false_iff.mpr haccept, rfl⟩

/-- **A refused equation contradicts the chain that explains it.** -/
theorem Joined.explain {closing : Constraint} (h : T.Joined earlier signs)
    (hall : T.constraints = earlier ++ closing :: later)
    (hrefuse : (signs.join (T.slot (some closing.left)) (T.slot closing.right)
      closing.opposite).2 = false) :
    ∃ chain odd, T.explain earlier.length (T.slot (some closing.left)) (T.slot closing.right) =
      chain.map Constraint.rule ∧ (∀ constraint ∈ chain, constraint ∈ earlier) ∧
      Chain (some closing.left) chain closing.right odd ∧ odd ≠ closing.opposite := by
  obtain ⟨-, -, hrefused⟩ := h.rooted.join (T.slot (some closing.left)) (T.slot closing.right)
    closing.opposite
  obtain ⟨⟨root, p, q, hleft, hright⟩, hcontradicts⟩ := hrefused hrefuse
  have htake : T.constraints.take earlier.length = earlier := by
    rw [hall, List.take_left]
  -- the two slots have one root, so equations join them
  have hlinked : T.Linked earlier (T.slot (some closing.left)) (T.slot closing.right) :=
    (h.linked _ _ _ hleft).trans ((linked_equivalence _).symm (h.linked _ _ _ hright))
  rw [← htake] at hlinked
  obtain ⟨chain, odd, hrules, hchain, hpath⟩ := exists_chain_of_linked hlinked
  rw [htake] at hchain
  have hconstrains : Constrains T.shapes.length closing :=
    constrains_of_mem (hall ▸ List.mem_append_right _ (.head _))
  have hleftPort : T.portAt (T.slot (some closing.left)) = some closing.left :=
    portAt_slot fun port hport => by cases hport; exact hconstrains.1
  rw [hleftPort, portAt_slot hconstrains.2] at hpath
  refine ⟨chain, odd, hrules, hchain, hpath, ?_⟩
  -- some signs solve the earlier equations, and they differ along the chain as it says
  obtain ⟨sign, hsign⟩ := h.rooted.exists_respects
  have hsolves := (h.respects sign).mp hsign
  rintro rfl
  exact hcontradicts sign hsign (hpath.holds fun constraint hmem => hsolves constraint (hchain _ hmem))

/-! ### Reading the signs off -/

/-- The signs that are read are those that the forest resolves to. -/
theorem readSigns_eq {signs' : ParityForest T.Slot} (hrooted : signs'.Rooted)
    (hequiv : signs'.Equiv signs) {root : T.Slot → T.Slot} {odd : T.Slot → Bool}
    (hres : ∀ slot, signs.Resolves slot (root slot) (odd slot)) (anchorRoot : T.Slot)
    (anchorFlipped : Bool) (slots : List T.Slot) :
    T.readSigns anchorRoot anchorFlipped slots signs' =
      slots.map fun slot =>
        if (decide (root slot = anchorRoot) && anchorFlipped) ^^ odd slot then .consumes
        else .provides := by
  induction slots generalizing signs' with
  | nil => rfl
  | cons slot slots ih =>
    obtain ⟨hfound, hrooted', hequiv'⟩ := hrooted.find slot
    obtain ⟨hroot, hodd⟩ := ((hequiv _ _ _).mp hfound).unique (hres slot)
    rw [readSigns, hroot, hodd, ih hrooted' (hequiv'.trans hequiv)]
    rfl

/-- **What is read off solves every equation.** -/
theorem Joined.polarized (h : T.Joined T.constraints signs) :
    T.Polarized (solvedSign (T.solution signs)) := by
  choose root odd hres using h.rooted.exists_resolves
  obtain ⟨hanchor, hrooted, hequiv⟩ := h.rooted.find (T.slot none)
  obtain ⟨hroot, hodd⟩ := hanchor.unique (hres (T.slot none))
  -- each root provides, but the anchor's root has the anchor's parity
  let sign : T.Slot → Bool := fun slot =>
    (decide (root slot = root (T.slot none)) && odd (T.slot none)) ^^ odd slot
  have hrespects : signs.Respects sign := by
    refine h.rooted.respects_ofRoots
      (fun r => decide (r = root (T.slot none)) && odd (T.slot none)) sign ?_
    intro slot root' odd' hres'
    obtain ⟨rfl, rfl⟩ := (hres slot).unique hres'
    rfl
  have hnone : sign (T.slot none) = false := by
    simp [sign]
  have hsolved : ∀ port : Port, port.InRange T.shapes.length →
      slotSigns (solvedSign (T.solution signs)) (some port) = sign (T.slot (some port)) := by
    intro port hport
    have hlt : port.node.index * 3 + port.index < T.anchor := by
      obtain ⟨hnode, hindex⟩ := hport
      rw [anchor]
      omega
    have hslot : Fin.castSucc ⟨port.node.index * 3 + port.index, hlt⟩ = T.slot (some port) :=
      Fin.ext (slot_val hport).symm
    have hget : (List.finRange T.anchor)[port.node.index * 3 + port.index]? =
        some ⟨port.node.index * 3 + port.index, hlt⟩ := by
      rw [List.getElem?_eq_getElem (by rwa [List.length_finRange]), List.getElem_finRange]
      rfl
    rw [slotSigns, solvedSign, solution, readSigns_eq hrooted hequiv hres, hroot, hodd,
      List.getD_eq_getElem?_getD, List.getElem?_map, List.getElem?_map, hget, Option.map_some,
      Option.map_some, hslot,
      Option.getD_some]
    change _ = sign (T.slot (some port))
    cases hsign : sign (T.slot (some port)) <;> simp only [sign] at hsign <;> simp [hsign]
  rw [polarized_iff]
  intro constraint hmem
  have hconstrains := constrains_of_mem hmem
  have hholds := (h.respects sign).mp hrespects constraint hmem
  rw [Constraint.Holds] at hholds ⊢
  rw [hsolved _ hconstrains.1, hholds]
  cases hright : constraint.right with
  | none => rw [hnone]; rfl
  | some port => rw [hsolved port (hconstrains.2 port hright)]

/-! ### The checker -/

/-- The equations `chain`, which earlier rules give, force `closing` to fail: along the chain the
sign changes between the two ends of `closing`, or not, the other way than `closing` says. So in any
signs that solved them all a port would have its own opposite's sign. -/
structure Contradicts (T : Topology) (closing : Constraint) (chain : List Constraint) : Prop where
  constraints : ∀ constraint ∈ closing :: chain, constraint ∈ T.constraints
  odd : ∃ odd, Chain (some closing.left) chain closing.right odd ∧ odd ≠ closing.opposite
  forces : ∀ sign : Option Port → Bool, (∀ constraint ∈ chain, constraint.Holds sign) →
    closing.Holds sign → sign (some closing.left) = !sign (some closing.left)

theorem Contradicts.not_polarized {closing : Constraint} (h : T.Contradicts closing chain)
    (sign : Port → Sign) : ¬ T.Polarized sign := by
  intro hpolarized
  rw [polarized_iff] at hpolarized
  have hsolves : ∀ constraint ∈ closing :: chain, constraint.Holds (slotSigns sign) :=
    fun constraint hmem => hpolarized constraint (h.constraints constraint hmem)
  have hself := h.forces (slotSigns sign)
    (fun constraint hmem => hsolves constraint (.tail _ hmem))
    (hsolves closing (.head _))
  exact Bool.not_ne_self _ hself.symm

/-- **The check is sound either way**: it solves the constraints, or reports ones that contradict
each other. -/
theorem checkSigns_cases (T : Topology) :
    (∃ signs, T.checkSigns = .ok signs ∧ T.Polarized (solvedSign signs)) ∨
      ∃ closing chain, T.checkSigns = .error (.conflict closing.rule (chain.map Constraint.rule)) ∧
        T.Contradicts closing chain := by
  rcases joinAll_spec (List.nil_append _).symm (joined_new (T := T)) with
    ⟨result, hresult, hjoined⟩ | ⟨earlier, closing, later, signs, hall, hjoined, hrefuse, hresult⟩
  · refine .inl ⟨T.solution result, ?_, hjoined.polarized⟩
    rw [List.length_nil] at hresult
    rw [checkSigns, hresult]
    rfl
  · rw [List.length_nil] at hresult
    obtain ⟨chain, odd, hrules, hchain, hpath, hodd⟩ := hjoined.explain hall hrefuse
    refine .inr ⟨closing, chain, ?_, ?_, ⟨odd, hpath, hodd⟩, ?_⟩
    · rw [checkSigns, hresult, hrules]
      rfl
    · intro constraint hconstraint
      rw [hall]
      rcases List.mem_cons.mp hconstraint with rfl | hconstraint
      · exact List.mem_append_right _ (.head _)
      · exact List.mem_append_left _ (hchain _ hconstraint)
    · intro sign hsign hclosing
      rw [Constraint.Holds, hpath.holds hsign] at hclosing
      exact absurd (Bool.xor_right_inj.mp hclosing) hodd

/-- **Sign checking is sound and complete.** The checker accepts if and only if the ports have signs
that obey every node's rule, join opposite signs at each wire and let the exposed port provide. The
signs it then reads off are such. Where it refuses, what it reports is a closing rule and a chain of
rules that forces it to fail. -/
theorem checkSigns_spec (T : Topology) :
    ((∃ signs, T.checkSigns = .ok signs) ↔ ∃ sign, T.Polarized sign) ∧
      (∀ signs, T.checkSigns = .ok signs → T.Polarized (solvedSign signs)) ∧
      ∀ violation, T.checkSigns = .error violation →
        ∃ closing chain, violation = .conflict closing.rule (chain.map Constraint.rule) ∧
          T.Contradicts closing chain := by
  rcases T.checkSigns_cases with ⟨signs, hok, hpolarized⟩ | ⟨closing, chain, herror, hcontradicts⟩
  · refine ⟨iff_of_true ⟨signs, hok⟩ ⟨_, hpolarized⟩, ?_, ?_⟩
    · intro signs' hsigns
      rw [hok] at hsigns
      cases hsigns
      exact hpolarized
    · intro violation hviolation
      rw [hok] at hviolation
      cases hviolation
  · refine ⟨iff_of_false ?_ ?_, ?_, ?_⟩
    · rintro ⟨signs, hsigns⟩
      rw [herror] at hsigns
      cases hsigns
    · rintro ⟨sign, hsign⟩
      exact hcontradicts.not_polarized sign hsign
    · intro signs hsigns
      rw [herror] at hsigns
      cases hsigns
    · intro violation hviolation
      rw [herror] at hviolation
      cases hviolation
      exact ⟨closing, chain, rfl, hcontradicts⟩

/-! A template whose exposed port can only consume: an operator's input. Its signs obey every node's
rule and every wire, and it is refused. -/

/-- An operator whose input is exposed and whose result is erased. -/
def exposedInput : Topology where
  shapes := [.operator, .erase]
  wires := [⟨.auxiliary 0 1, .principal 1⟩]
  exposed := .principal 0
  wires_inRange := by decide
  exposed_inRange := by decide

/-- An exposed input is refused, though its nodes and wires alone have signs. -/
theorem checkSigns_rejects_exposed_input :
    (∃ sign : Port → Sign,
      (∀ (id : NodeId) (shape : Shape), exposedInput.shapes[id]? = some shape →
        shape.Obeys fun index => sign ⟨id, index⟩) ∧
      ∀ wire ∈ exposedInput.wires, sign wire.left = (sign wire.right).opposite) ∧
      ¬ ∃ signs, exposedInput.checkSigns = .ok signs := by
  refine ⟨⟨fun port => if port.index = 1 then .provides else .consumes, ?_, ?_⟩, ?_⟩
  · intro id shape hshape
    match id with
    | 0 => cases hshape; exact ⟨rfl, rfl⟩
    | 1 => cases hshape; trivial
    | _ + 2 => cases hshape
  · decide
  · have herror : exposedInput.checkSigns = .error (.conflict (.exposed (.principal 0))
        [.node (.principal 0) .operatorConsumesInput]) := by
      decide
    rintro ⟨signs, hsigns⟩
    rw [herror] at hsigns
    cases hsigns

/-! ### Connectivity -/

theorem mem_neighbors_iff {node next : Fin T.shapes.length} {label : Unit} :
    (next, label) ∈ T.neighbors node ↔ T.Adjacent node.val next.val := by
  simp only [neighbors, List.mem_flatMap, List.mem_attach, true_and, Subtype.exists,
    List.mem_append, Adjacent, List.mem_ite_nil_right, List.mem_singleton, Prod.mk.injEq,
    Fin.ext_iff, and_true, exists_prop, eq_comm, NodeId.index]

/-- What the search reaches is what wires reach. -/
theorem reaches_iff {u v : Fin T.shapes.length} :
    Relation.ReflTransGen (fun u v => ∃ label, (v, label) ∈ T.neighbors u) u v ↔
      Relation.ReflTransGen T.Adjacent u.val v.val := by
  constructor
  · intro h
    exact h.lift Fin.val fun u v hedge => mem_neighbors_iff.mp hedge.choose_spec
  · -- each node on the way is the end of a wire, so it has a number of the template
    suffices h : ∀ id, Relation.ReflTransGen T.Adjacent u.val id → ∀ hid : id < T.shapes.length,
        Relation.ReflTransGen (fun u v => ∃ label, (v, label) ∈ T.neighbors u) u ⟨id, hid⟩ from
      fun hreach => h v.val hreach v.isLt
    intro id hreach
    induction hreach with
    | refl => exact fun _ => .refl
    | @tail mid id _ hstep ih =>
      intro hid
      have hmid : mid < T.shapes.length := by
        obtain ⟨wire, hwire, ⟨rfl, -⟩ | ⟨rfl, -⟩⟩ := hstep
        · exact (T.wires_inRange wire hwire).1.1
        · exact (T.wires_inRange wire hwire).2.1
      exact (ih hmid).tail ⟨(), mem_neighbors_iff.mpr hstep⟩

/-- **The search tells whether the template is connected**, and where it is not, a node that it does
not reach. -/
theorem checkConnected_cases (T : Topology) :
    (T.checkConnected = .ok () ∧ T.Connected) ∨
      ∃ node : NodeId, T.checkConnected = .error (.disconnected node) ∧
        node.index < T.shapes.length ∧
        ¬ Relation.ReflTransGen T.Adjacent T.exposed.node node := by
  let source : Fin T.shapes.length := ⟨T.exposed.node.index, T.exposed_inRange.1⟩
  let searched := GraphSearch.run (fun pending next => next :: pending) (fun _ => false)
    T.neighbors (Fintype.card (Fin T.shapes.length)) (.start source)
  have hspec : GraphSearch.Inv T.neighbors source searched ∧ _ :=
    GraphSearch.run_spec (fun list a => List.Perm.refl _) source le_rfl
  obtain ⟨hinv, hended⟩ := hspec
  have hclosed : ∀ x ∈ searched.visited, ∀ edge ∈ T.neighbors x, edge.1 ∈ searched.visited := by
    rcases hended with ⟨found, -, hstop⟩ | hclosed
    · cases hstop
    · exact hclosed
  have hmem : ∀ node, node ∈ searched.visited ↔
      Relation.ReflTransGen T.Adjacent T.exposed.node node.val := by
    intro node
    refine ⟨fun hvisited => reaches_iff.mp (hinv.path hvisited).reaches, fun hreach => ?_⟩
    exact GraphSearch.mem_of_reaches hclosed hinv.start (reaches_iff.mpr hreach)
  rw [checkConnected]
  cases hfind : (List.finRange T.shapes.length).find? fun node =>
      decide (node ∉ searched.visited) with
  | none =>
    refine .inl ⟨rfl, ?_⟩
    intro id hid
    have hall := List.find?_eq_none.mp hfind ⟨id, hid⟩ (List.mem_finRange _)
    have hvisited : (⟨id, hid⟩ : Fin T.shapes.length) ∈ searched.visited := by
      simpa using hall
    exact (hmem _).mp hvisited
  | some node =>
    refine .inr ⟨node.val, rfl, node.isLt, ?_⟩
    have hnot : node ∉ searched.visited := by
      simpa using List.find?_some hfind
    exact fun hreach => hnot ((hmem node).mpr hreach)

/-- **The whole check.** -/
theorem check_cases (T : Topology) :
    (∃ signs, T.check = .ok signs ∧ T.Polarized (solvedSign signs) ∧ T.Connected) ∨
      (∃ violation, T.check = .error violation) ∧ ¬ ((∃ sign, T.Polarized sign) ∧ T.Connected) := by
  rcases T.checkSigns_cases with ⟨signs, hok, hpolarized⟩ | ⟨closing, chain, herror, hcontradicts⟩
  · rcases T.checkConnected_cases with ⟨hconnected, hreach⟩ | ⟨node, hconnected, hnode, hreach⟩
    · refine .inl ⟨signs, ?_, hpolarized, hreach⟩
      rw [check, hok, hconnected]
      rfl
    · refine .inr ⟨⟨.disconnected node, ?_⟩, fun h => hreach (h.2 node hnode)⟩
      rw [check, hok, hconnected]
      rfl
  · refine .inr ⟨⟨.conflict closing.rule (chain.map Constraint.rule), ?_⟩,
      fun h => hcontradicts.not_polarized _ h.1.choose_spec⟩
    rw [check, herror]
    rfl

end Topology

end Glam.Net
