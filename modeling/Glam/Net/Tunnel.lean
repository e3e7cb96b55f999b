import Glam.Lib.InjectiveWalk
import Glam.Net.Builder
import Mathlib.Data.Finset.Prod

/-!
# Paths of tunnels

What it means that tunnels join two ports of a builder. From a port of a tunnel one passes to the
tunnel's other port and along its wire (`Step`); a port of a runtime node leads nowhere. Wires and
tunnels both pair ports up, so a step has one way on and one way back, a path of tunnels can be
walked from either end (`TunnelPath.symm`), and it ends at one port of a runtime node at most.

`followTunnels` walks such a path. A walk from the far end of a runtime node's wire, or from the
exposed port, starts where nothing leads to, so it never comes back to a port it passed, and it ends
at a port of a runtime node unless it comes out at the exposed port (`followTunnels_spec`).
-/

namespace Glam.Net

variable {S : NetSpecialization} {b : NetBuilder S}

variable {p q q' port : Port}

namespace NetBuilder

/-! ### Wires -/

/-- Whether a wire of the builder joins two ports. -/
def Linked (b : NetBuilder S) (p q : Port) : Prop :=
  ∃ wire ∈ b.wires, (wire.left = p ∧ wire.right = q) ∨ (wire.right = p ∧ wire.left = q)

theorem Linked.symm (h : b.Linked p q) : b.Linked q p := by
  obtain ⟨wire, hwire, ⟨hp, hq⟩ | ⟨hp, hq⟩⟩ := h
  · exact ⟨wire, hwire, .inr ⟨hq, hp⟩⟩
  · exact ⟨wire, hwire, .inl ⟨hq, hp⟩⟩

theorem exists_linked_iff : (∃ q, b.Linked p q) ↔ p ∈ wireEnds b.wires := by
  rw [mem_wireEnds]
  constructor
  · rintro ⟨q, wire, hwire, ⟨rfl, -⟩ | ⟨rfl, -⟩⟩
    · exact ⟨wire, hwire, .inl rfl⟩
    · exact ⟨wire, hwire, .inr rfl⟩
  · rintro ⟨wire, hwire, rfl | rfl⟩
    · exact ⟨wire.right, wire, hwire, .inl ⟨rfl, rfl⟩⟩
    · exact ⟨wire.left, wire, hwire, .inr ⟨rfl, rfl⟩⟩

theorem Linked.valid (h : b.Linked p q) : validPortOf b.nodes p = true :=
  b.ends_valid p (exists_linked_iff.mp ⟨q, h⟩)

/-- In entries without a repeated key, what is looked up is what is there. -/
theorem lookup_eq_some_iff_mem {entries : List (Port × Port)} (h : (entries.map Prod.fst).Nodup) :
    entries.lookup p = some q ↔ (p, q) ∈ entries := by
  induction entries with
  | nil => simp
  | cons entry entries ih =>
    obtain ⟨key, value⟩ := entry
    rw [List.map_cons, List.nodup_cons] at h
    rw [List.lookup_cons, List.mem_cons, Prod.mk.injEq]
    by_cases hkey : p = key
    · subst hkey
      have hmem : (p, q) ∉ entries := fun hmem => h.1 (List.mem_map.mpr ⟨_, hmem, rfl⟩)
      simp [hmem, eq_comm]
    · rw [beq_false_of_ne hkey, ih h.2]
      simp [hkey]

/-- **Looking up a wire.** -/
theorem links_eq_some_iff : b.links p = some q ↔ b.Linked p q := by
  have hkeys : ((b.wires.flatMap fun wire =>
      [(wire.left, wire.right), (wire.right, wire.left)]).reverse.map Prod.fst).Nodup := by
    rw [List.map_reverse, List.nodup_reverse, List.map_flatMap]
    exact b.ends_nodup
  rw [links, lookup_eq_some_iff_mem hkeys, List.mem_reverse, List.mem_flatMap, Linked]
  simp only [List.mem_cons, List.not_mem_nil, or_false, Prod.mk.injEq, eq_comm]

theorem Linked.unique (h : b.Linked p q) (h' : b.Linked p q') : q = q' := by
  rw [← links_eq_some_iff] at h h'
  exact Option.some.inj (h.symm.trans h')

/-! ### Ports of runtime nodes and of tunnels -/

/-- Whether a port is that of a node of the finished net. -/
def Real (b : NetBuilder S) (port : Port) : Prop :=
  ∃ node, b.nodes[port.node.index]? = some (.runtime node) ∧ port.index < node.portCount

/-- One of the two ports of a tunnel. -/
def TunnelPort (b : NetBuilder S) (port : Port) : Prop :=
  b.nodes[port.node.index]? = some .tunnel ∧ port.index < 2

theorem Real.not_tunnelPort (h : b.Real port) : ¬ b.TunnelPort port := by
  rintro ⟨htunnel, -⟩
  obtain ⟨node, hnode, -⟩ := h
  rw [hnode] at htunnel
  cases htunnel

theorem validPortOf_iff_real_or_tunnelPort :
    validPortOf b.nodes port = true ↔ b.Real port ∨ b.TunnelPort port := by
  rw [validPortOf_iff]
  constructor
  · rintro ⟨node | _, hnode, hindex⟩
    · exact .inl ⟨node, hnode, hindex⟩
    · exact .inr ⟨hnode, hindex⟩
  · rintro (⟨node, hnode, hindex⟩ | ⟨hnode, hindex⟩)
    · exact ⟨.runtime node, hnode, hindex⟩
    · exact ⟨.tunnel, hnode, hindex⟩

theorem Real.valid (h : b.Real port) : validPortOf b.nodes port = true :=
  validPortOf_iff_real_or_tunnelPort.mpr (.inl h)

theorem TunnelPort.valid (h : b.TunnelPort port) : validPortOf b.nodes port = true :=
  validPortOf_iff_real_or_tunnelPort.mpr (.inr h)

theorem isTunnel_getElem? (b : NetBuilder S) (index : Nat) :
    b.isTunnel[index]? = b.nodes[index]?.map BuilderNode.isTunnel := by
  rw [isTunnel, List.getElem?_map]

theorem Real.isTunnel (h : b.Real port) : b.isTunnel[port.node.index]? = some false := by
  obtain ⟨node, hnode, -⟩ := h
  rw [isTunnel_getElem?, hnode]
  rfl

theorem TunnelPort.isTunnel (h : b.TunnelPort port) : b.isTunnel[port.node.index]? = some true := by
  rw [isTunnel_getElem?, h.1]
  rfl

end NetBuilder

@[simp] theorem Port.tunnelEnd_node (port : Port) : port.tunnelEnd.node = port.node := by
  rw [Port.tunnelEnd]
  split <;> rfl

namespace NetBuilder

open InjectiveWalk

theorem TunnelPort.tunnelEnd (h : b.TunnelPort port) : b.TunnelPort port.tunnelEnd := by
  refine ⟨by rw [Port.tunnelEnd_node]; exact h.1, ?_⟩
  rw [Port.tunnelEnd]
  split <;> simp

theorem TunnelPort.tunnelEnd_tunnelEnd (h : b.TunnelPort port) :
    port.tunnelEnd.tunnelEnd = port := by
  obtain ⟨node, index⟩ := port
  have hindex : index < 2 := h.2
  match index with
  | 0 => rfl
  | 1 => rfl

/-- A tunnel has two ends. -/
theorem TunnelPort.eq_or_eq_tunnelEnd (hp : b.TunnelPort p) (hq : b.TunnelPort q)
    (hnode : q.node = p.node) : q = p ∨ q = p.tunnelEnd := by
  obtain ⟨node, i⟩ := p
  obtain ⟨node', j⟩ := q
  obtain rfl : node' = node := hnode
  have hi : i < 2 := hp.2
  have hj : j < 2 := hq.2
  match i, j with
  | 0, 0 => exact .inl rfl
  | 0, 1 => exact .inr rfl
  | 1, 0 => exact .inr rfl
  | 1, 1 => exact .inl rfl

/-! ### Passing through tunnels -/

/-- From a port of a tunnel, through the tunnel and along the wire at its other port. -/
def Step (b : NetBuilder S) (p q : Port) : Prop := b.TunnelPort p ∧ b.Linked p.tunnelEnd q

/-- Tunnels lead from the one port to the other. -/
def Leads (b : NetBuilder S) : Port → Port → Prop := Relation.ReflTransGen b.Step

/-- Whether a port leads to another through wires and tunnels. -/
def TunnelPath (b : NetBuilder S) (p q : Port) : Prop := ∃ next, b.Linked p next ∧ b.Leads next q

theorem Step.valid (h : b.Step p q) : validPortOf b.nodes q = true := h.2.symm.valid

theorem step_rightUnique : Relator.RightUnique b.Step := fun _ _ _ h h' => h.2.unique h'.2

theorem step_injective (p p' q : Port) (h : b.Step p q) (h' : b.Step p' q) : p = p' := by
  have hends := h.2.symm.unique h'.2.symm
  rw [← h.1.tunnelEnd_tunnelEnd, hends, h'.1.tunnelEnd_tunnelEnd]

theorem Step.back (h : b.Step p q) (hq : b.TunnelPort q) : b.Step q.tunnelEnd p.tunnelEnd := by
  refine ⟨hq.tunnelEnd, ?_⟩
  rw [hq.tunnelEnd_tunnelEnd]
  exact h.2.symm

theorem Leads.back (h : b.Leads p q) (hq : b.TunnelPort q) : b.Leads q.tunnelEnd p.tunnelEnd := by
  induction h with
  | refl => exact .refl
  | tail _ hstep ih => exact .head (hstep.back hq) (ih hstep.1)

theorem Leads.tunnelPort (h : b.Leads p q) (hq : b.TunnelPort q) : b.TunnelPort p := by
  rcases Relation.ReflTransGen.cases_head h with rfl | ⟨_, hstep, -⟩
  · exact hq
  · exact hstep.1

theorem Real.eq_of_leads (hp : b.Real p) (h : b.Leads p q) : q = p := by
  rcases Relation.ReflTransGen.cases_head h with rfl | ⟨_, hstep, -⟩
  · rfl
  · exact absurd hstep.1 hp.not_tunnelPort

theorem Leads.unique (h : b.Leads p q) (h' : b.Leads p q') (hq : b.Real q) (hq' : b.Real q') :
    q = q' := by
  rcases Relation.ReflTransGen.total_of_right_unique step_rightUnique h h' with hlead | hlead
  · exact (hq.eq_of_leads hlead).symm
  · exact hq'.eq_of_leads hlead

theorem TunnelPath.unique (h : b.TunnelPath p q) (h' : b.TunnelPath p q') (hq : b.Real q)
    (hq' : b.Real q') : q = q' := by
  obtain ⟨next, hlink, hlead⟩ := h
  obtain ⟨next', hlink', hlead'⟩ := h'
  obtain rfl := hlink.unique hlink'
  exact hlead.unique hlead' hq hq'

theorem leads_back_of_linked {next : Port} (hlink : b.Linked p next) (hlead : b.Leads next q)
    (hq : b.TunnelPort q) : b.Leads q.tunnelEnd p := by
  have hnext : b.TunnelPort next := hlead.tunnelPort hq
  refine (hlead.back hq).tail ⟨hnext.tunnelEnd, ?_⟩
  rw [hnext.tunnelEnd_tunnelEnd]
  exact hlink.symm

/-- **A path of tunnels can be walked from either end.** -/
theorem TunnelPath.symm (h : b.TunnelPath p q) : b.TunnelPath q p := by
  obtain ⟨next, hlink, hlead⟩ := h
  rcases Relation.ReflTransGen.cases_tail hlead with rfl | ⟨last, hlead, hstep⟩
  · exact ⟨p, hlink.symm, .refl⟩
  · exact ⟨last.tunnelEnd, hstep.2.symm, leads_back_of_linked hlink hlead hstep.1⟩

/-! ### The walk -/

/-- The wires are as `validate` wants them: just the exposed port has none. -/
structure Validated (b : NetBuilder S) (exposed : Port) : Prop where
  valid : validPortOf b.nodes exposed = true
  free : exposed ∉ wireEnds b.wires
  wired : ∀ port, validPortOf b.nodes port = true → port ≠ exposed → port ∈ wireEnds b.wires

/-- Tunnels, each with all tunnels wired to it. -/
structure Settled (b : NetBuilder S) (visited : Finset NodeId) : Prop where
  tunnels : ∀ node ∈ visited, b.nodes[node.index]? = some .tunnel
  closed : ∀ p q, p.node ∈ visited → b.Linked p q → b.TunnelPort q → q.node ∈ visited

theorem settled_empty : b.Settled ∅ :=
  ⟨by simp, by simp⟩

variable {path : Finset Port}

/-- A path through tunnels has no more ports than those have. -/
theorem card_ports_le {nodes : List (BuilderNode S)}
    (hpath : ∀ port ∈ path, port.node.index < nodes.length ∧ port.index < 2) :
    path.card ≤ 2 * nodes.length := by
  have hsub : path ⊆ (Finset.range nodes.length ×ˢ Finset.range 2).image
      fun entry => Port.mk entry.1 entry.2 := by
    intro port hport
    obtain ⟨hnode, hindex⟩ := hpath port hport
    refine Finset.mem_image.mpr ⟨(port.node, port.index), ?_, rfl⟩
    exact Finset.mem_product.mpr ⟨Finset.mem_range.mpr hnode, Finset.mem_range.mpr hindex⟩
  calc path.card
      ≤ _ := Finset.card_le_card hsub
    _ ≤ (Finset.range nodes.length ×ˢ Finset.range 2).card := Finset.card_image_le
    _ = 2 * nodes.length := by
      rw [Finset.card_product, Finset.card_range, Finset.card_range, Nat.mul_comm]

section Follow

variable {exposed start : Port}

/-- **The walk from where it stands.** -/
theorem followTunnels_of_passed (hv : b.Validated exposed) (hstart : ∀ p, ¬ b.Step p start)
    (hmiss : ∀ p, b.Leads start p → b.TunnelPort p → p.tunnelEnd ≠ exposed)
    (visited : Finset NodeId) {fuel : Nat} (hpassed : Passed b.Step start path port)
    (hpath : ∀ p ∈ path, b.TunnelPort p) (hport : validPortOf b.nodes port = true)
    (hfuel : b.followFuel ≤ fuel + path.card) :
    ∃ last path', b.followTunnels exposed fuel port path (visited ∪ path.image Port.node) =
        .ok (last, visited ∪ path'.image Port.node) ∧
      b.Real last ∧ (∀ p ∈ path', b.TunnelPort p) ∧ Passed b.Step start path' last := by
  induction fuel generalizing port path with
  | zero =>
    -- the path holds more ports than tunnels have
    have hcard : path.card ≤ 2 * b.nodes.length := by
      apply card_ports_le
      intro p hp
      obtain ⟨hnode, hindex⟩ := hpath p hp
      exact ⟨(List.getElem?_eq_some_iff.mp hnode).1, hindex⟩
    rw [followFuel] at hfuel
    omega
  | succ fuel ih =>
    rcases validPortOf_iff_real_or_tunnelPort.mp hport with hreal | htunnel
    · refine ⟨port, path, ?_, hreal, hpath, hpassed⟩
      rw [followTunnels, hreal.isTunnel]
    · have hne : port.tunnelEnd ≠ exposed := hmiss port hpassed.reaches htunnel
      obtain ⟨next, hnext⟩ := exists_linked_iff.mpr
        (hv.wired port.tunnelEnd htunnel.tunnelEnd.valid hne)
      have hstep : b.Step port next := ⟨htunnel, hnext⟩
      rw [followTunnels, htunnel.isTunnel]
      dsimp only
      rw [if_neg hpassed.notMem, if_neg hne, links_eq_some_iff.mpr hnext]
      dsimp only
      rw [← Finset.union_insert, ← Finset.image_insert]
      apply ih (hpassed.step step_injective hstart hstep)
      · exact (Finset.forall_mem_insert ..).mpr ⟨htunnel, hpath⟩
      · exact hstep.valid
      · rw [Finset.card_insert_of_notMem hpassed.notMem]
        omega

variable {visited : Finset NodeId}

/-- The tunnels passed from a runtime node, or from the exposed port, to a runtime node are
settled. -/
theorem Settled.union {last : Port} (h : b.Settled visited)
    (hfirst : ∀ q, b.Linked start q → b.Real q) (hlast : b.Real last)
    (hpath : ∀ p ∈ path, b.TunnelPort p) (hpassed : Passed b.Step start path last) :
    b.Settled (visited ∪ path.image Port.node) := by
  refine ⟨?_, ?_⟩
  · exact Finset.forall_mem_union.mpr
      ⟨h.tunnels, Finset.forall_mem_image.mpr fun p hp => (hpath p hp).1⟩
  · intro p q hp hlink hq
    rcases Finset.mem_union.mp hp with hp | hp
    · exact Finset.mem_union_left _ (h.closed p q hp hlink hq)
    · apply Finset.mem_union_right
      obtain ⟨port, hport, hnode⟩ := Finset.mem_image.mp hp
      have htunnel := hpath port hport
      have hptunnel : b.TunnelPort p := by
        rcases validPortOf_iff_real_or_tunnelPort.mp hlink.valid with ⟨node, hreal, -⟩ | hptunnel
        · rw [← hnode, htunnel.1] at hreal
          cases hreal
        · exact hptunnel
      rcases htunnel.eq_or_eq_tunnelEnd hptunnel hnode.symm with rfl | rfl
      · -- the wire the walk came by
        rcases hpassed.origin p (.inr hport) with rfl | ⟨before, hbefore, hstep⟩
        · exact absurd hq (hfirst q hlink).not_tunnelPort
        · rw [hlink.unique hstep.2.symm, Port.tunnelEnd_node]
          exact Finset.mem_image_of_mem _ hbefore
      · -- the wire the walk went on by
        obtain ⟨next, hstep, hnext⟩ := hpassed.onward port hport
        obtain rfl := hlink.unique hstep.2
        rcases hnext with rfl | hnext
        · exact absurd hq hlast.not_tunnelPort
        · exact Finset.mem_image_of_mem _ hnext

/-- **Following tunnels** from a port whose wire, if any, leads to a runtime node. -/
theorem followTunnels_spec (hv : b.Validated exposed) (hvalid : validPortOf b.nodes start = true)
    (hfirst : ∀ q, b.Linked start q → b.Real q)
    (hmiss : ∀ p, b.Leads start p → b.TunnelPort p → p.tunnelEnd ≠ exposed)
    (hvisited : b.Settled visited) :
    ∃ last visited', b.followTunnels exposed b.followFuel start ∅ visited = .ok (last, visited') ∧
      b.Real last ∧ b.Leads start last ∧ b.Settled visited' ∧ visited ⊆ visited' ∧
      (b.TunnelPort start → start.node ∈ visited') ∧
      ∀ q, b.TunnelPort start → b.Linked last q → q.node ∈ visited' := by
  have hstart : ∀ p, ¬ b.Step p start := fun p hstep =>
    (hfirst _ hstep.2.symm).not_tunnelPort hstep.1.tunnelEnd
  obtain ⟨last, path, hfollow, hlast, hpath, hpassed⟩ :=
    followTunnels_of_passed hv hstart hmiss visited (passed_start start)
      (fun p hp => absurd hp (Finset.notMem_empty _)) hvalid (Nat.le_add_right b.followFuel _)
  rw [Finset.image_empty, Finset.union_empty] at hfollow
  have hmem : b.TunnelPort start → start ∈ path := by
    intro htunnel
    rcases hpassed.start_mem with rfl | hmem
    · exact absurd htunnel hlast.not_tunnelPort
    · exact hmem
  refine ⟨last, _, hfollow, hlast, hpassed.reaches, hvisited.union hfirst hlast hpath hpassed,
    Finset.subset_union_left, ?_, ?_⟩
  · intro htunnel
    exact Finset.mem_union_right _ (Finset.mem_image_of_mem _ (hmem htunnel))
  · intro q htunnel hlink
    rcases hpassed.origin last (.inl rfl) with rfl | ⟨before, hbefore, hstep⟩
    · exact absurd htunnel hlast.not_tunnelPort
    · rw [hlink.unique hstep.2.symm, Port.tunnelEnd_node]
      exact Finset.mem_union_right _ (Finset.mem_image_of_mem _ hbefore)

end Follow

end NetBuilder

end Glam.Net
