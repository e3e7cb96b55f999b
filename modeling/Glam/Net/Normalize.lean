import Glam.Net.Tunnel

/-!
# Finishing a template

When a builder can be finished, and what the template then is. `Finishable` is the graph condition
that the three passes decide together, and `InteractionNet.Splices` says that a template is the
builder's graph with the tunnels taken out.

That `normalize` cannot fail once the checks have passed rests on two facts. A step through a tunnel
keeps the sign, since it passes one tunnel and one wire, so a path of tunnels joins ports of
opposite signs: it never comes back to its own end, and from the exposed port, which provides, it
never comes out at the exposed port. And the tunnels passed are closed under wires between tunnels,
so with the runtime nodes they are everything that can be reached from the exposed port. -/

namespace Glam.Net

variable {S : NetSpecialization}

variable {p q port : Port}

namespace NetBuilder

/-! ### Numbering -/

/-- How many runtime nodes stand before a node. -/
def rank (nodes : List (BuilderNode S)) (index : Nat) : Nat :=
  (nodes.take index).countP fun node => !node.isTunnel

theorem rank_succ_cons (node : BuilderNode S) (nodes : List (BuilderNode S)) (index : Nat) :
    rank (node :: nodes) (index + 1) = rank nodes index + if node.isTunnel then 0 else 1 := by
  cases node <;> simp [rank, BuilderNode.isTunnel]

/-- A node that stays gets the number of those that stay before it. -/
theorem renumber_getElem? (next : Nat) (nodes : List (BuilderNode S)) (index : Nat) :
    (renumber next nodes)[index]? =
      nodes[index]?.map fun node => if node.isTunnel then none else some (next + rank nodes index) := by
  induction nodes generalizing next index with
  | nil => simp [renumber]
  | cons node nodes ih =>
    cases index with
    | zero => cases node <;> simp [renumber, rank, BuilderNode.isTunnel]
    | succ =>
      cases node with
      | runtime =>
        simp only [renumber, List.getElem?_cons_succ, ih, rank_succ_cons, BuilderNode.isTunnel]
        congr! 4
        simp only [Bool.false_eq_true, if_false]
        omega
      | tunnel =>
        simp only [renumber, List.getElem?_cons_succ, ih, rank_succ_cons, BuilderNode.isTunnel]
        congr! 4

variable {nodes : List (BuilderNode S)} {node : Node S} {visited : Finset NodeId}

/-- A node that stays is found under its number. -/
theorem filterMap_runtime?_rank {index : Nat} (h : nodes[index]? = some (.runtime node)) :
    (nodes.filterMap BuilderNode.runtime?)[rank nodes index]? = some node := by
  induction nodes generalizing index with
  | nil => cases h
  | cons head nodes ih =>
    cases index with
    | zero =>
      obtain rfl : head = .runtime node := Option.some.inj h
      rfl
    | succ =>
      have htail := ih (List.getElem?_cons_succ ▸ h)
      rw [rank_succ_cons]
      cases head with
      | runtime | tunnel => exact htail

/-- Every node of the finished net is one that stays. -/
theorem exists_rank_eq {place : Nat}
    (h : (nodes.filterMap BuilderNode.runtime?)[place]? = some node) :
    ∃ index, nodes[index]? = some (.runtime node) ∧ rank nodes index = place := by
  induction nodes generalizing place with
  | nil => cases h
  | cons head nodes ih =>
    cases head with
    | tunnel =>
      obtain ⟨index, hindex, hrank⟩ := @ih place h
      exact ⟨index + 1, hindex, by rw [rank_succ_cons, hrank]; rfl⟩
    | runtime other =>
      cases place with
      | zero =>
        obtain rfl : other = node := Option.some.inj h
        exact ⟨0, rfl, rfl⟩
      | succ place =>
        obtain ⟨index, hindex, hrank⟩ := @ih place h
        exact ⟨index + 1, hindex, by rw [rank_succ_cons, hrank]; rfl⟩

theorem rank_lt_rank {i j : Nat} (h : nodes[i]? = some (.runtime node)) (hij : i < j) :
    rank nodes i < rank nodes j := by
  have hsucc : rank nodes (i + 1) = rank nodes i + 1 := by
    rw [rank, rank, List.take_add_one, h]
    simp [BuilderNode.isTunnel]
  have hle : rank nodes (i + 1) ≤ rank nodes j :=
    (List.take_prefix_take_left hij).sublist.countP_le
  omega

theorem rank_inj {i j : Nat} {node' : Node S} (hi : nodes[i]? = some (.runtime node))
    (hj : nodes[j]? = some (.runtime node')) (h : rank nodes i = rank nodes j) : i = j := by
  rcases Nat.lt_trichotomy i j with hlt | heq | hlt
  · have := rank_lt_rank hi hlt
    omega
  · exact heq
  · have := rank_lt_rank hj hlt
    omega

/-- Where a port of a runtime node stands in the template. -/
def place (b : NetBuilder S) (port : Port) : Port := ⟨rank b.nodes port.node.index, port.index⟩

variable {b : NetBuilder S}

theorem Real.place_inj (hp : b.Real p) (hq : b.Real q) (h : b.place p = b.place q) : p = q := by
  obtain ⟨node, hnode, -⟩ := hp
  obtain ⟨node', hnode', -⟩ := hq
  simp only [place, Port.mk.injEq] at h
  obtain ⟨p, i⟩ := p
  obtain ⟨q, j⟩ := q
  exact Port.mk.injEq .. ▸ ⟨rank_inj hnode hnode' h.1, h.2⟩

theorem nodeMap_getElem? (h : b.nodes[port.node.index]? = some (.runtime node)) :
    b.nodeMap[port.node.index]? = some (some (b.place port).node) := by
  rw [nodeMap, renumber_getElem?, h, Nat.zero_add]
  rfl

theorem Real.remapPort (h : b.Real port) : remapPort b.nodeMap port = .ok (b.place port) := by
  obtain ⟨node, hnode, -⟩ := h
  rw [Net.remapPort, nodeMap_getElem? hnode]
  rfl

/-- The ports that stay, with the ports that they become. -/
theorem mem_runtimePorts_iff {entry : Port × Port} :
    entry ∈ b.runtimePorts ↔ b.Real entry.1 ∧ entry.2 = b.place entry.1 := by
  obtain ⟨⟨old, index⟩, ⟨new, index'⟩⟩ := entry
  simp only [runtimePorts, List.mem_flatMap, Prod.exists, List.mk_mem_zipIdx_iff_getElem?]
  constructor
  · rintro ⟨mapped, id, hmapped, hmem⟩
    cases mapped with
    | none => cases hmem
    | some node =>
      simp only [mappedPorts, List.mem_map, List.mem_range, Prod.mk.injEq, Port.mk.injEq] at hmem
      obtain ⟨i, hi, ⟨rfl, rfl⟩, rfl, rfl⟩ := hmem
      rw [nodeMap, renumber_getElem?] at hmapped
      cases hnode : b.nodes[id]? with
      | none => rw [hnode] at hmapped; cases hmapped
      | some kind =>
        rw [hnode, Nat.zero_add] at hmapped
        cases kind with
        | tunnel => cases hmapped
        | runtime kind =>
          obtain rfl : rank b.nodes id = node := Option.some.inj (Option.some.inj hmapped)
          have hruntime : b.runtimeNodes[NodeId.index (rank b.nodes id)]? = some kind :=
            filterMap_runtime?_rank hnode
          rw [hruntime] at hi
          exact ⟨⟨kind, hnode, hi⟩, rfl⟩
  · rintro ⟨⟨node, hnode, hindex⟩, hplace⟩
    rw [place, Port.mk.injEq] at hplace
    obtain ⟨rfl, rfl⟩ := hplace
    refine ⟨some (rank b.nodes old), old, nodeMap_getElem? hnode, ?_⟩
    have hruntime : b.runtimeNodes[NodeId.index (rank b.nodes old)]? = some node :=
      filterMap_runtime?_rank hnode
    simp only [mappedPorts, List.mem_map, List.mem_range]
    exact ⟨index', by rw [hruntime]; exact hindex, rfl⟩

/-- No port that stays is listed twice. -/
theorem runtimePorts_nodup (b : NetBuilder S) : (b.runtimePorts.map Prod.fst).Nodup := by
  rw [runtimePorts, List.map_flatMap, List.nodup_flatMap]
  refine ⟨?_, ?_⟩
  · rintro ⟨mapped, id⟩ -
    cases mapped with
    | none => exact List.nodup_nil
    | some =>
      rw [mappedPorts, List.map_map]
      refine List.Nodup.map ?_ List.nodup_range
      intro i j hij
      exact congrArg Port.index hij
  · -- ports of different nodes differ
    have hids : b.nodeMap.zipIdx.Pairwise fun entry entry' => entry.2 ≠ entry'.2 := by
      rw [← List.pairwise_map (f := Prod.snd) (R := fun i j : Nat => i ≠ j),
        List.zipIdx_map_snd]
      exact List.nodup_range'
    have hnode : ∀ (entry : Option NodeId × Nat) (port : Port),
        port ∈ (b.mappedPorts entry.2 entry.1).map Prod.fst → port.node = entry.2 := by
      rintro ⟨mapped, id⟩ port hport
      cases mapped with
      | none => cases hport
      | some =>
        simp only [mappedPorts, List.map_map, List.mem_map] at hport
        obtain ⟨index, -, rfl⟩ := hport
        rfl
    refine hids.imp ?_
    intro entry entry' hne port hport hport'
    exact hne ((hnode entry port hport).symm.trans (hnode entry' port hport'))

/-! ### Counting tunnels -/

/-- The number of flags that are set. -/
theorem card_filter_range_eq_countP (flags : List Bool) :
    ((Finset.range flags.length).filter fun index => flags[index]? = some true).card =
      flags.countP id := by
  induction flags using List.reverseRecOn with
  | nil => rfl
  | append_singleton flags flag ih =>
    have hcongr : (Finset.range flags.length).filter
          (fun index => (flags ++ [flag])[index]? = some true) =
        (Finset.range flags.length).filter fun index => flags[index]? = some true := by
      apply Finset.filter_congr
      intro index hindex
      rw [List.getElem?_append_left (Finset.mem_range.mp hindex)]
    rw [List.length_append, List.length_singleton, Finset.range_add_one, Finset.filter_insert,
      hcongr, List.countP_append]
    cases flag <;> simp [ih]

/-- **All tunnels have been passed.** -/
theorem Settled.card_eq (h : b.Settled visited)
    (hall : ∀ id : NodeId, b.nodes[id.index]? = some .tunnel → id ∈ visited) :
    visited.card = b.tunnelCount := by
  rw [tunnelCount, ← card_filter_range_eq_countP]
  congr 1
  ext id
  have hflag : b.isTunnel[id.index]? = some true ↔ b.nodes[id.index]? = some .tunnel := by
    rw [isTunnel_getElem?, Option.map_eq_some_iff]
    constructor
    · rintro ⟨node | _, hnode, hflag⟩
      · cases hflag
      · exact hnode
    · exact fun hnode => ⟨.tunnel, hnode, rfl⟩
  rw [Finset.mem_filter, Finset.mem_range]
  constructor
  · intro hid
    have htunnel := hflag.mpr (h.tunnels id hid)
    exact ⟨(List.getElem?_eq_some_iff.mp htunnel).1, htunnel⟩
  · rintro ⟨-, htunnel⟩
    exact hall id (hflag.mp htunnel)

/-! ### When a builder can be finished -/

/-- **What the three passes decide together.** Just the exposed port is unwired, the wired graph is
connected, and its ports have consistent signs, by which the exposed port provides. -/
structure Finishable (b : NetBuilder S) (exposed : Port) : Prop where
  validated : b.Validated exposed
  connected : (b.topology exposed validated.valid).Connected
  polarized : ∃ sign, (b.topology exposed validated.valid).Polarized sign

/-- The checks have passed with the signs `sign`. -/
structure Checked (b : NetBuilder S) (exposed : Port) (sign : Port → Sign) : Prop where
  validated : b.Validated exposed
  connected : (b.topology exposed validated.valid).Connected
  polarized : (b.topology exposed validated.valid).Polarized sign

namespace Checked

variable {exposed : Port} {sign : Port → Sign}

section

variable (h : b.Checked exposed sign)
include h

theorem sign_linked (hlink : b.Linked p q) : sign q = (sign p).opposite := by
  obtain ⟨wire, hwire, ⟨rfl, rfl⟩ | ⟨rfl, rfl⟩⟩ := hlink
  · rw [h.polarized.wires wire hwire, Sign.opposite_opposite]
  · exact h.polarized.wires wire hwire

theorem sign_tunnelEnd (hp : b.TunnelPort p) : sign p.tunnelEnd = (sign p).opposite := by
  have hshape : (b.nodes.map BuilderNode.shape)[p.node]? = some .tunnel := by
    rw [List.getElem?_map]
    exact congrArg (Option.map BuilderNode.shape) hp.1
  have hrule : sign ⟨p.node, 1⟩ = (sign ⟨p.node, 0⟩).opposite :=
    h.polarized.nodes p.node .tunnel hshape
  obtain ⟨node, index⟩ := p
  have hindex : index < 2 := hp.2
  match index with
  | 0 => exact hrule
  | 1 => exact (Sign.opposite_opposite _ ▸ congrArg Sign.opposite hrule).symm

theorem sign_leads (hlead : b.Leads p q) : sign q = sign p := by
  induction hlead with
  | refl => rfl
  | tail _ hstep ih =>
    rw [h.sign_linked hstep.2, h.sign_tunnelEnd hstep.1, Sign.opposite_opposite, ih]

/-- **A path of tunnels joins opposite signs.** -/
theorem sign_tunnelPath (hpath : b.TunnelPath p q) : sign q = (sign p).opposite := by
  obtain ⟨next, hlink, hlead⟩ := hpath
  rw [h.sign_leads hlead, h.sign_linked hlink]

theorem not_linked_exposed : ¬ b.Linked exposed q :=
  fun hlink => h.validated.free (exists_linked_iff.mp ⟨q, hlink⟩)

/-- **The exposed port stands for a port of a runtime node.** -/
theorem spliceExposed_spec :
    ∃ front visited, b.spliceExposed exposed = .ok (b.place front, visited) ∧ b.Real front ∧
      b.Leads exposed front ∧ b.Settled visited ∧
      (b.TunnelPort exposed → exposed.node ∈ visited) ∧
      ∀ q, b.Linked front q → q.node ∈ visited := by
  rcases validPortOf_iff_real_or_tunnelPort.mp h.validated.valid with hreal | htunnel
  · refine ⟨exposed, ∅, ?_, hreal, .refl, settled_empty, ?_, ?_⟩
    · rw [spliceExposed, hreal.isTunnel, hreal.remapPort]
      rfl
    · exact fun htunnel => absurd htunnel hreal.not_tunnelPort
    · exact fun q hlink => absurd hlink h.not_linked_exposed
  · -- on the way out each tunnel is entered at a port that provides, and left at one that consumes
    have hmiss : ∀ p, b.Leads exposed p → b.TunnelPort p → p.tunnelEnd ≠ exposed := by
      rintro p hlead hp rfl
      have hself := h.sign_tunnelEnd hp
      rw [h.sign_leads hlead] at hself
      exact Sign.opposite_ne_self _ hself.symm
    obtain ⟨front, visited, hfollow, hfront, hlead, hsettled, -, hstart, hlinked⟩ :=
      followTunnels_spec h.validated h.validated.valid
        (fun q hlink => absurd hlink h.not_linked_exposed) hmiss settled_empty
    refine ⟨front, visited, ?_, hfront, hlead, hsettled, hstart, fun q => hlinked q htunnel⟩
    rw [spliceExposed, htunnel.isTunnel, hfollow]
    dsimp only
    rw [Except.bind_ok, hfront.remapPort]
    rfl

end

variable {front : Port}

variable {old : Port}

/-- Only the port that stands for the exposed one leads out to it. -/
theorem exposed_ne (hlead : b.Leads exposed front) (hold : b.Real old) (hne : old ≠ front) :
    old ≠ exposed := by
  rintro rfl
  exact hne (hold.eq_of_leads hlead).symm

/-- **One port of a runtime node.** Its wire leads through tunnels to another, and joins opposite
signs. -/
theorem spliceWire_spec (h : b.Checked exposed sign) (signs : List Sign) (hfront : b.Real front)
    (hlead : b.Leads exposed front) (hold : b.Real old) (hne : old ≠ front)
    (state : List TemplateWire × Finset NodeId) (hstate : b.Settled state.2) :
    ∃ last visited, b.spliceWire exposed (b.place front) signs state (old, b.place old) =
        .ok (if solvedSign signs old = .provides then state.1 ++ [⟨b.place old, b.place last⟩]
          else state.1, visited) ∧
      b.Real last ∧ b.TunnelPath old last ∧ b.Settled visited ∧ state.2 ⊆ visited ∧
      ∀ q, b.Linked old q → b.TunnelPort q → q.node ∈ visited := by
  obtain ⟨next, hnext⟩ := exists_linked_iff.mpr
    (h.validated.wired old hold.valid (exposed_ne hlead hold hne))
  have hfirst : ∀ q, b.Linked next q → b.Real q := by
    intro q hlink
    rwa [hlink.unique hnext.symm]
  -- the way does not pass the exposed port, which leads to the front alone
  have hmiss : ∀ p, b.Leads next p → b.TunnelPort p → p.tunnelEnd ≠ exposed := by
    rintro p hp htunnel rfl
    exact hne ((leads_back_of_linked hnext hp htunnel).unique hlead hold hfront)
  obtain ⟨last, visited, hfollow, hlast, hlast', hsettled, hsub, hstart, -⟩ :=
    followTunnels_spec h.validated hnext.symm.valid hfirst hmiss hstate
  have hpath : b.TunnelPath old last := ⟨next, hnext, hlast'⟩
  -- signs alternate along the way, so that it does not come back
  have hself : b.place old ≠ b.place last := by
    intro heq
    have hsign := h.sign_tunnelPath hpath
    rw [← hold.place_inj hlast heq] at hsign
    exact Sign.opposite_ne_self _ hsign.symm
  refine ⟨last, visited, ?_, hlast, hpath, hsettled, hsub, ?_⟩
  · have hplace : b.place old ≠ b.place front := fun heq => hne (hold.place_inj hfront heq)
    rw [spliceWire]
    dsimp only
    rw [if_neg hplace, links_eq_some_iff.mpr hnext]
    dsimp only
    rw [hfollow, Except.bind_ok]
    dsimp only
    rw [hlast.remapPort, Except.bind_ok, if_neg hself]
  · intro q hlink htunnel
    obtain rfl := hlink.unique hnext
    exact hstart htunnel

theorem exists_terminal (h : b.Checked exposed sign) (hfront : b.Real front)
    (hlead : b.Leads exposed front) (hold : b.Real old) (hne : old ≠ front) :
    ∃ last, b.Real last ∧ b.TunnelPath old last := by
  obtain ⟨last, -, -, hlast, hpath, -⟩ :=
    h.spliceWire_spec [] hfront hlead hold hne ([], ∅) settled_empty
  exact ⟨last, hlast, hpath⟩

/-- The wire that a port of a runtime node gives, where `terminal` says where its wire leads. -/
def kept (b : NetBuilder S) (front : Port) (signs : List Sign) (terminal : Port → Port)
    (entry : Port × Port) : Option TemplateWire :=
  if entry.1 ≠ front ∧ solvedSign signs entry.1 = .provides then
    some ⟨entry.2, b.place (terminal entry.1)⟩
  else none

/-- **All ports of runtime nodes.** -/
theorem foldlM_spliceWire (h : b.Checked exposed sign) (signs : List Sign)
    (hfront : b.Real front) (hlead : b.Leads exposed front) {terminal : Port → Port}
    (hterminal : ∀ old, b.Real old → old ≠ front →
      b.Real (terminal old) ∧ b.TunnelPath old (terminal old))
    {entries : List (Port × Port)}
    (hentries : ∀ entry ∈ entries, b.Real entry.1 ∧ entry.2 = b.place entry.1)
    (state : List TemplateWire × Finset NodeId) (hstate : b.Settled state.2) :
    ∃ visited, entries.foldlM (b.spliceWire exposed (b.place front) signs) state =
        .ok (state.1 ++ entries.filterMap (kept b front signs terminal), visited) ∧
      b.Settled visited ∧ state.2 ⊆ visited ∧
      ∀ entry ∈ entries, entry.1 ≠ front →
        ∀ q, b.Linked entry.1 q → b.TunnelPort q → q.node ∈ visited := by
  induction entries generalizing state with
  | nil =>
    refine ⟨state.2, ?_, hstate, subset_rfl, nofun⟩
    rw [List.filterMap_nil, List.append_nil]
    rfl
  | cons entry entries ih =>
    obtain ⟨old, new⟩ := entry
    obtain ⟨hold, hnew⟩ := hentries _ (.head _)
    dsimp only at hold hnew
    subst hnew
    have hrest : ∀ entry ∈ entries, b.Real entry.1 ∧ entry.2 = b.place entry.1 :=
      fun entry hmem => hentries entry (.tail _ hmem)
    rw [List.foldlM_cons]
    by_cases hne : old = front
    · -- the front port has no wire of its own in the finished net
      subst hne
      obtain ⟨visited, hfold, hsettled, hsub, hcover⟩ := ih hrest state hstate
      refine ⟨visited, ?_, hsettled, hsub, ?_⟩
      · rw [spliceWire, if_pos rfl, Except.bind_ok, hfold, List.filterMap_cons, kept]
        simp
      · intro entry hmem hfront'
        rcases List.mem_cons.mp hmem with rfl | hmem
        · exact absurd rfl hfront'
        · exact hcover entry hmem hfront'
    · obtain ⟨last, visited, hsplice, hlast, hpath, hsettled, hsub, hcover⟩ :=
        h.spliceWire_spec signs hfront hlead hold hne state hstate
      obtain ⟨hterm, htermPath⟩ := hterminal old hold hne
      -- the way through tunnels ends at one port only
      obtain rfl := hpath.unique htermPath hlast hterm
      rw [hsplice, Except.bind_ok]
      obtain ⟨visited', hfold, hsettled', hsub', hcover'⟩ := ih hrest (_, visited) hsettled
      refine ⟨visited', ?_, hsettled', hsub.trans hsub', ?_⟩
      · rw [hfold, List.filterMap_cons, kept]
        split <;> simp_all
      · intro entry hmem hfront'
        rcases List.mem_cons.mp hmem with rfl | hmem
        · exact fun q hlink htunnel => hsub' (hcover q hlink htunnel)
        · exact hcover' entry hmem hfront'

/-- The exposed port is not joined to another through tunnels. -/
theorem not_tunnelPath_front (h : b.Checked exposed sign) (hlead : b.Leads exposed front)
    (hq : b.Real q) : ¬ b.TunnelPath front q := by
  rintro ⟨next, hlink, hnext⟩
  rcases Relation.ReflTransGen.cases_tail hlead with rfl | ⟨last, hlast, hstep⟩
  · exact h.not_linked_exposed hlink
  · -- the walk back from `front` gets stuck in the tunnel of the exposed port
    have hexposed : b.TunnelPort exposed := Leads.tunnelPort hlast hstep.1
    have hback : b.Leads next exposed.tunnelEnd := by
      rw [hlink.unique hstep.2.symm]
      exact Leads.back hlast hstep.1
    rcases Relation.ReflTransGen.total_of_right_unique step_rightUnique hnext hback with hto | hto
    · rw [← hq.eq_of_leads hto] at hq
      exact hq.not_tunnelPort hexposed.tunnelEnd
    · rcases Relation.ReflTransGen.cases_head hto with rfl | ⟨_, hstuck, -⟩
      · exact hq.not_tunnelPort hexposed.tunnelEnd
      · have hlink := hstuck.2
        rw [hexposed.tunnelEnd_tunnelEnd] at hlink
        exact h.not_linked_exposed hlink

/-- **Every tunnel has been passed**: with the runtime nodes, the tunnels passed are all that can be
reached from the exposed port. -/
theorem mem_visited (h : b.Checked exposed sign) (hsettled : b.Settled visited)
    (hexposed : b.TunnelPort exposed → exposed.node ∈ visited)
    (hreal : ∀ p q, b.Real p → b.Linked p q → b.TunnelPort q → q.node ∈ visited) (id : NodeId)
    (hid : b.nodes[id.index]? = some .tunnel) : id ∈ visited := by
  have hlt : id.index < (b.nodes.map BuilderNode.shape).length := by
    rw [List.length_map]
    exact (List.getElem?_eq_some_iff.mp hid).1
  have htunnel : ∀ {port : Port}, validPortOf b.nodes port = true →
      b.nodes[port.node.index]? = some .tunnel → b.TunnelPort port := by
    intro port hvalid hnode
    refine (validPortOf_iff_real_or_tunnelPort.mp hvalid).resolve_left ?_
    rintro ⟨node, hreal, -⟩
    cases hreal.symm.trans hnode
  have hreach := h.connected id hlt
  induction hreach with
  | refl =>
    exact hexposed (htunnel h.validated.valid hid)
  | @tail u v _ hadjacent ih =>
    obtain ⟨p, q, hp, hq, hlink⟩ : ∃ p q, p.node = u ∧ q.node = v ∧ b.Linked p q := by
      obtain ⟨wire, hwire, ⟨hp, hq⟩ | ⟨hp, hq⟩⟩ := hadjacent
      · exact ⟨_, _, hp, hq, wire, hwire, .inl ⟨rfl, rfl⟩⟩
      · exact ⟨_, _, hp, hq, wire, hwire, .inr ⟨rfl, rfl⟩⟩
    subst hp hq
    have hqtunnel : b.TunnelPort q := htunnel hlink.symm.valid hid
    rcases validPortOf_iff_real_or_tunnelPort.mp hlink.valid with hpreal | hptunnel
    · exact hreal p q hpreal hlink hqtunnel
    · have hpvisited : p.node ∈ visited := by
        refine ih hptunnel.1 ?_
        rw [List.length_map]
        exact (List.getElem?_eq_some_iff.mp hptunnel.1).1
      exact hsettled.closed p q hpvisited hlink hqtunnel

end Checked

end NetBuilder

/-! ### The template -/

namespace InteractionNet

/-- Whether a port is one of the net's. -/
def HasPort (net : InteractionNet S) (port : Port) : Prop :=
  ∃ node, net.nodes[port.node.index]? = some node ∧ port.index < node.portCount

/-- Whether a wire of the net joins two ports. -/
def Linked (net : InteractionNet S) (p q : Port) : Prop :=
  ⟨p, q⟩ ∈ net.wires ∨ ⟨q, p⟩ ∈ net.wires

/-- **The template is the builder's graph with its tunnels taken out.** -/
structure Splices (net : InteractionNet S) (b : NetBuilder S) (exposed : Port) : Prop where
  /-- its ports are those of the builder's runtime nodes, renumbered -/
  ports : Set.BijOn b.place (b.Real ·) (net.HasPort ·)
  nodes : ∀ port node, b.nodes[port.node.index]? = some (.runtime node) →
    net.nodes[(b.place port).node.index]? = some node
  /-- two of them are linked exactly when a path of tunnels joined them -/
  linked : ∀ p q, b.Real p → b.Real q →
    (net.Linked (b.place p) (b.place q) ↔ b.TunnelPath p q)
  /-- each wire joins two ports of the template, and no port has two wires -/
  wires : ∀ port ∈ wireEnds net.wires, net.HasPort port
  once : (wireEnds net.wires).Nodup
  /-- each wire is stored with the port that provides first -/
  oriented : ∃ sign hvalid, (b.topology exposed hvalid).Polarized sign ∧
    ∀ p q, b.Real p → b.Real q → ⟨b.place p, b.place q⟩ ∈ net.wires →
      sign p = .provides ∧ sign q = .consumes
  /-- tunnels led from the exposed port to the template's -/
  exposed : ∃ port, b.Real port ∧ b.Leads exposed port ∧ net.exposed = b.place port

end InteractionNet

namespace NetBuilder

variable {b : NetBuilder S} {exposed : Port}

theorem place_bijOn (b : NetBuilder S) (wires : List TemplateWire) (front : Port) :
    Set.BijOn b.place (b.Real ·) ((⟨b.runtimeNodes, wires, front⟩ : InteractionNet S).HasPort ·) := by
  refine ⟨?_, ?_, ?_⟩
  · rintro port ⟨node, hnode, hindex⟩
    exact ⟨node, filterMap_runtime?_rank hnode, hindex⟩
  · intro p hp q hq heq
    exact Real.place_inj hp hq heq
  · rintro ⟨place, index⟩ ⟨node, hnode, hindex⟩
    obtain ⟨old, hold, hrank⟩ := exists_rank_eq hnode
    exact ⟨⟨old, index⟩, ⟨node, hold, hindex⟩, Port.mk.injEq .. ▸ ⟨hrank, rfl⟩⟩

namespace Checked

variable {signs : List Sign} {front : Port} {terminal : Port → Port}

/-- Each wire of the finished net stands once, from the port that provides. -/
theorem mem_filterMap_kept {wire : TemplateWire} :
    wire ∈ b.runtimePorts.filterMap (kept b front signs terminal) ↔
      ∃ old, b.Real old ∧ old ≠ front ∧ solvedSign signs old = .provides ∧
        wire = ⟨b.place old, b.place (terminal old)⟩ := by
  rw [List.mem_filterMap]
  constructor
  · rintro ⟨entry, hmem, hkept⟩
    obtain ⟨hreal, hplace⟩ := mem_runtimePorts_iff.mp hmem
    rw [kept] at hkept
    split at hkept
    · next hkeep =>
      refine ⟨entry.1, hreal, hkeep.1, hkeep.2, ?_⟩
      rw [← hplace]
      exact (Option.some.inj hkept).symm
    · cases hkept
  · rintro ⟨old, hreal, hne, hsign, rfl⟩
    exact ⟨(old, b.place old), mem_runtimePorts_iff.mpr ⟨hreal, rfl⟩, if_pos ⟨hne, hsign⟩⟩

section Kept

variable (h : b.Checked exposed (solvedSign signs)) (hlead : b.Leads exposed front)
  (hterminal : ∀ old, b.Real old → old ≠ front →
    b.Real (terminal old) ∧ b.TunnelPath old (terminal old))
include hterminal

theorem of_mem_kept (hp : b.Real p) (hq : b.Real q)
    (hmem : ⟨b.place p, b.place q⟩ ∈ b.runtimePorts.filterMap (kept b front signs terminal)) :
    solvedSign signs p = .provides ∧ b.TunnelPath p q := by
  obtain ⟨old, hold, hne, hsign, hwire⟩ := mem_filterMap_kept.mp hmem
  obtain ⟨hterm, hpath⟩ := hterminal old hold hne
  obtain rfl := hp.place_inj hold (congrArg TemplateWire.left hwire)
  obtain rfl := hq.place_inj hterm (congrArg TemplateWire.right hwire)
  exact ⟨hsign, hpath⟩

include h

/-- No port has two wires: those that provide are different, and so are those that consume, since a
path of tunnels can be walked back. -/
theorem wireEnds_kept_nodup :
    (wireEnds (b.runtimePorts.filterMap (kept b front signs terminal))).Nodup := by
  have hends : ∀ old, b.Real old → old ≠ front → solvedSign signs old = .provides →
      solvedSign signs (terminal old) = .consumes := by
    intro old hold hne hsign
    rw [h.sign_tunnelPath (hterminal old hold hne).2, hsign]
    rfl
  -- a port that provides is not one that consumes
  have hcross : ∀ old old', b.Real old → old ≠ front → solvedSign signs old = .provides →
      b.Real old' → old' ≠ front → solvedSign signs old' = .provides →
      b.place old ≠ b.place (terminal old') := by
    intro old old' hold hne hsign hold' hne' hsign' heq
    have hsame := hold.place_inj (hterminal old' hold' hne').1 heq
    have hconsumes := hends old' hold' hne' hsign'
    rw [← hsame, hsign] at hconsumes
    cases hconsumes
  rw [wireEnds, List.nodup_flatMap]
  refine ⟨?_, ?_⟩
  · intro wire hwire
    obtain ⟨old, hold, hne, hsign, rfl⟩ := mem_filterMap_kept.mp hwire
    simpa using hcross old old hold hne hsign hold hne hsign
  · rw [List.pairwise_filterMap]
    have hpairs := List.pairwise_map.mp b.runtimePorts_nodup
    refine hpairs.imp_of_mem ?_
    intro entry entry' hmem hmem' hne wire hwire wire' hwire'
    obtain ⟨hreal, hplace⟩ := mem_runtimePorts_iff.mp hmem
    obtain ⟨hreal', hplace'⟩ := mem_runtimePorts_iff.mp hmem'
    rw [kept] at hwire hwire'
    split at hwire
    · next hkeep =>
      split at hwire'
      · next hkeep' =>
        cases hwire
        cases hwire'
        dsimp only [Function.onFun]
        rw [hplace, hplace']
        obtain ⟨hterm, hpath⟩ := hterminal _ hreal hkeep.1
        obtain ⟨hterm', hpath'⟩ := hterminal _ hreal' hkeep'.1
        have hleft : b.place entry.1 ≠ b.place entry'.1 :=
          fun heq => hne (hreal.place_inj hreal' heq)
        have hright : b.place (terminal entry.1) ≠ b.place (terminal entry'.1) := by
          intro heq
          have hsame := hterm.place_inj hterm' heq
          rw [← hsame] at hpath'
          exact hne (hpath.symm.unique hpath'.symm hreal hreal')
        have hmixed := hcross _ _ hreal hkeep.1 hkeep.2 hreal' hkeep'.1 hkeep'.2
        have hmixed' := hcross _ _ hreal' hkeep'.1 hkeep'.2 hreal hkeep.1 hkeep.2
        simp [List.Disjoint, hleft, hright, hmixed, hmixed'.symm]
      · cases hwire'
    · cases hwire

include hlead

theorem mem_kept_of_tunnelPath (hp : b.Real p) (hq : b.Real q) (hpath : b.TunnelPath p q)
    (hsign : solvedSign signs p = .provides) :
    ⟨b.place p, b.place q⟩ ∈ b.runtimePorts.filterMap (kept b front signs terminal) := by
  have hne : p ≠ front := by
    rintro rfl
    exact h.not_tunnelPath_front hlead hq hpath
  obtain ⟨hterm, hpath'⟩ := hterminal p hp hne
  rw [hpath.unique hpath' hq hterm]
  exact mem_filterMap_kept.mpr ⟨p, hp, hne, hsign, rfl⟩

/-- **Two ports are linked exactly when a path of tunnels joined them.** -/
theorem linked_kept_iff (hp : b.Real p) (hq : b.Real q) :
    (⟨b.runtimeNodes, b.runtimePorts.filterMap (kept b front signs terminal), b.place front⟩ :
      InteractionNet S).Linked (b.place p) (b.place q) ↔ b.TunnelPath p q := by
  constructor
  · rintro (hmem | hmem)
    · exact (of_mem_kept hterminal hp hq hmem).2
    · exact (of_mem_kept hterminal hq hp hmem).2.symm
  · intro hpath
    cases hsign : solvedSign signs p with
    | provides => exact .inl (mem_kept_of_tunnelPath h hlead hterminal hp hq hpath hsign)
    | consumes =>
      have hsign' : solvedSign signs q = .provides := by
        rw [h.sign_tunnelPath hpath, hsign]
        rfl
      exact .inr (mem_kept_of_tunnelPath h hlead hterminal hq hp hpath.symm hsign')

end Kept

/-- **Once the checks have passed, taking the tunnels out succeeds.** -/
theorem normalize_spec (h : b.Checked exposed (solvedSign signs)) :
    ∃ net, b.normalize exposed signs = .ok net ∧ net.Splices b exposed := by
  classical
  obtain ⟨front, visited, hexposed, hfront, hlead, hsettled, hstart, hbefore⟩ :=
    h.spliceExposed_spec
  -- the port that a port is joined to in the finished net
  have hterminal : ∀ old, ∃ last, b.Real old → old ≠ front →
      b.Real last ∧ b.TunnelPath old last := by
    intro old
    by_cases hold : b.Real old ∧ old ≠ front
    · obtain ⟨last, hlast⟩ := h.exists_terminal hfront hlead hold.1 hold.2
      exact ⟨last, fun _ _ => hlast⟩
    · exact ⟨old, fun hreal hne => absurd ⟨hreal, hne⟩ hold⟩
  choose terminal hterminal using hterminal
  obtain ⟨visited', hfold, hsettled', hsub, hcover⟩ :=
    h.foldlM_spliceWire signs hfront hlead hterminal
      (fun entry hmem => mem_runtimePorts_iff.mp hmem) ([], visited) hsettled
  -- every tunnel lies on a way between ports that stay, so no cycle is left
  have hall : ∀ id : NodeId, b.nodes[id.index]? = some .tunnel → id ∈ visited' := by
    refine h.mem_visited hsettled' (fun htunnel => hsub (hstart htunnel)) ?_
    intro p q hp hlink htunnel
    by_cases hne : p = front
    · subst hne
      exact hsub (hbefore q hlink)
    · exact hcover (p, b.place p) (mem_runtimePorts_iff.mpr ⟨hp, rfl⟩) hne q hlink htunnel
  let wires := b.runtimePorts.filterMap (kept b front signs terminal)
  refine ⟨⟨b.runtimeNodes, wires, b.place front⟩, ?_, ?_⟩
  · rw [normalize, hexposed, Except.bind_ok, hfold, Except.bind_ok,
      if_neg (not_not.mpr (hsettled'.card_eq hall))]
    rfl
  · refine ⟨b.place_bijOn _ _, ?_, ?_, ?_, ?_, ?_, ⟨front, hfront, hlead, rfl⟩⟩
    · exact fun port node hnode => filterMap_runtime?_rank hnode
    · exact fun p q hp hq => linked_kept_iff h hlead hterminal hp hq
    · intro port hport
      obtain ⟨wire, hwire, hport⟩ := mem_wireEnds.mp hport
      obtain ⟨old, hold, hne, -, rfl⟩ := mem_filterMap_kept.mp hwire
      rcases hport with rfl | rfl
      · exact (b.place_bijOn _ _).mapsTo hold
      · exact (b.place_bijOn _ _).mapsTo (hterminal old hold hne).1
    · exact wireEnds_kept_nodup h hterminal
    · refine ⟨solvedSign signs, h.validated.valid, h.polarized, ?_⟩
      intro p q hp hq hmem
      obtain ⟨hsign, hpath⟩ := of_mem_kept hterminal hp hq hmem
      refine ⟨hsign, ?_⟩
      rw [h.sign_tunnelPath hpath, hsign]
      rfl

end Checked

/-! ### The passes together -/

theorem mem_ports_iff : port ∈ b.ports ↔ validPortOf b.nodes port = true := by
  obtain ⟨node, index⟩ := port
  simp only [ports, List.mem_flatMap, Prod.exists, List.mk_mem_zipIdx_iff_getElem?, List.mem_map,
    List.mem_range, Port.mk.injEq, validPortOf_iff]
  constructor
  · rintro ⟨kind, id, hkind, i, hi, rfl, rfl⟩
    exact ⟨kind, hkind, hi⟩
  · rintro ⟨kind, hkind, hi⟩
    exact ⟨kind, node, hkind, index, hi, rfl, rfl⟩

/-- Marking ports that are valid and different can fail at the exposed port only. -/
theorem validateEnds_cases (exposed : Port) {ends : List Port} (wired : List Port)
    (hvalid : ∀ port ∈ ends, validPortOf b.nodes port = true) (hnodup : (ends ++ wired).Nodup) :
    (exposed ∈ ends ∧ ∃ error, b.validateEnds exposed ends wired = .error error) ∨
      (exposed ∉ ends ∧ ∃ result, b.validateEnds exposed ends wired = .ok result ∧
        ∀ port, port ∈ result ↔ port ∈ ends ∨ port ∈ wired) := by
  induction ends generalizing wired with
  | nil => exact .inr ⟨List.not_mem_nil, wired, rfl, fun port => by simp⟩
  | cons head ends ih =>
    rw [validateEnds]
    by_cases hexposed : head = exposed
    · rw [if_pos hexposed]
      exact .inl ⟨hexposed ▸ (.head _), _, rfl⟩
    · have hhead : ¬ validPortOf b.nodes head = false := by
        rw [hvalid head (.head _)]
        decide
      rw [List.cons_append, List.nodup_cons, List.mem_append, not_or] at hnodup
      rw [if_neg hexposed, if_neg hhead, if_neg hnodup.1.2]
      have hrest : (ends ++ head :: wired).Nodup := by
        rw [List.perm_middle.nodup_iff, List.nodup_cons, List.mem_append, not_or]
        exact hnodup
      rcases ih (head :: wired) (fun port hport => hvalid port (.tail _ hport))
          hrest with ⟨hin, herror⟩ | ⟨hin, result, hresult, hmarked⟩
      · exact .inl ⟨.tail _ hin, herror⟩
      · refine .inr ⟨?_, result, hresult, fun port => ?_⟩
        · rw [List.mem_cons, not_or]
          exact ⟨fun heq => hexposed heq.symm, hin⟩
        · rw [hmarked, List.mem_cons, List.mem_cons]
          tauto

/-- **Validation.** -/
theorem validate_cases (b : NetBuilder S) (exposed : Port) :
    (b.validate exposed = .ok () ∧ b.Validated exposed) ∨
      (∃ error, b.validate exposed = .error error) ∧ ¬ b.Validated exposed := by
  rw [validate]
  by_cases hvalid : validPortOf b.nodes exposed = false
  · rw [if_pos hvalid]
    refine .inr ⟨⟨_, rfl⟩, fun h => ?_⟩
    rw [h.valid] at hvalid
    cases hvalid
  rw [if_neg hvalid]
  rw [Bool.not_eq_false] at hvalid
  have hnodup : (wireEnds b.wires ++ []).Nodup := by
    rw [List.append_nil]
    exact b.ends_nodup
  rcases validateEnds_cases exposed [] b.ends_valid hnodup with
    ⟨hin, error, herror⟩ | ⟨hin, wired, hwired, hmem⟩
  · rw [herror]
    exact .inr ⟨⟨error, rfl⟩, fun h => h.free hin⟩
  · rw [hwired, Except.bind_ok]
    simp only [List.not_mem_nil, or_false] at hmem
    cases hfind : b.ports.find? fun port => decide (port ∉ wired ∧ port ≠ exposed) with
    | some port =>
      refine .inr ⟨⟨_, rfl⟩, fun h => ?_⟩
      obtain ⟨hnot, hne⟩ : port ∉ wired ∧ port ≠ exposed := by
        simpa using List.find?_some hfind
      have hport := mem_ports_iff.mp (List.mem_of_find?_eq_some hfind)
      exact hnot ((hmem port).mpr (h.wired port hport hne))
    | none =>
      refine .inl ⟨rfl, hvalid, hin, ?_⟩
      intro port hport hne
      have hall := List.find?_eq_none.mp hfind port (mem_ports_iff.mpr hport)
      by_contra hnot
      exact hall (decide_eq_true ⟨fun hmarked => hnot ((hmem port).mp hmarked), hne⟩)

/-- **The polarity check.** -/
theorem checkPolarity_cases (hvalidated : b.Validated exposed) :
    (∃ signs, b.checkPolarity exposed hvalidated.valid = .ok signs ∧
        b.Checked exposed (solvedSign signs)) ∨
      (∃ error, b.checkPolarity exposed hvalidated.valid = .error error) ∧
        ¬ b.Finishable exposed := by
  rcases (b.topology exposed hvalidated.valid).check_cases with
    ⟨signs, hcheck, hpolarized, hconnected⟩ | ⟨⟨violation, hcheck⟩, hnot⟩
  · refine .inl ⟨signs, ?_, hvalidated, hconnected, hpolarized⟩
    rw [checkPolarity, hcheck]
    rfl
  · refine .inr ⟨⟨.polarity violation, ?_⟩, fun h => hnot ⟨h.polarized, h.connected⟩⟩
    rw [checkPolarity, hcheck]
    rfl

/-- Finishing gives the builder's graph without its tunnels, or is refused for a reason. -/
theorem tryFinish_cases (b : NetBuilder S) (exposed : Port) :
    (∃ net, b.tryFinish exposed = .ok net ∧ net.Splices b exposed ∧ b.Finishable exposed) ∨
      (∃ error, b.tryFinish exposed = .error (.refused error)) ∧ ¬ b.Finishable exposed := by
  rw [tryFinish]
  rcases b.validate_cases exposed with ⟨hvalidate, hvalidated⟩ | ⟨⟨error, hvalidate⟩, hnot⟩
  · split
    · next error herror =>
      rw [hvalidate] at herror
      cases herror
    · rcases checkPolarity_cases hvalidated with ⟨signs, hcheck, hchecked⟩ | ⟨⟨error, hcheck⟩, hnot⟩
      · obtain ⟨net, hnet, hsplices⟩ := hchecked.normalize_spec
        refine .inl ⟨net, ?_, hsplices, hvalidated, hchecked.connected, _, hchecked.polarized⟩
        rw [hcheck]
        exact hnet
      · refine .inr ⟨⟨error, ?_⟩, hnot⟩
        rw [hcheck]
  · split
    · exact .inr ⟨⟨_, rfl⟩, fun h => hnot h.validated⟩
    · next hok =>
      rw [hvalidate] at hok
      cases hok

/-- **Finishing a template.** After any sequence of constructions and wirings, a template can be
finished at a port if and only if that port is the only one left unwired, the graph is connected,
and its ports have consistent signs by which the exposed port provides. The template is then the
graph with its tunnels taken out; and once validation has passed, taking them out never fails. -/
theorem tryFinish_spec (constructions : List (Construction S)) (exposed : Port) :
    ((∃ net, (build constructions).tryFinish exposed = .ok net) ↔
        (build constructions).Finishable exposed) ∧
      (∀ net, (build constructions).tryFinish exposed = .ok net →
        net.Splices (build constructions) exposed) ∧
      ∀ hvalid signs, (build constructions).validate exposed = .ok () →
        (build constructions).checkPolarity exposed hvalid = .ok signs →
          ∃ net, (build constructions).normalize exposed signs = .ok net := by
  refine ⟨?_, ?_, ?_⟩
  · rcases (build constructions).tryFinish_cases exposed with
      ⟨net, hnet, -, hfinishable⟩ | ⟨⟨error, herror⟩, hnot⟩
    · exact iff_of_true ⟨net, hnet⟩ hfinishable
    · refine iff_of_false ?_ hnot
      rintro ⟨net, hnet⟩
      rw [herror] at hnet
      cases hnet
  · intro net hnet
    rcases (build constructions).tryFinish_cases exposed with
      ⟨net', hnet', hsplices, -⟩ | ⟨⟨error, herror⟩, -⟩
    · rw [hnet] at hnet'
      cases hnet'
      exact hsplices
    · rw [herror] at hnet
      cases hnet
  · intro hvalid signs hvalidate hcheck
    rcases (build constructions).validate_cases exposed with ⟨-, hvalidated⟩ | ⟨⟨error, herror⟩, -⟩
    · rcases checkPolarity_cases hvalidated with ⟨signs', hcheck', hchecked⟩ | ⟨⟨error, herror⟩, -⟩
      · rw [hcheck] at hcheck'
        cases hcheck'
        obtain ⟨net, hnet, -⟩ := hchecked.normalize_spec
        exact ⟨net, hnet⟩
      · rw [hcheck] at herror
        cases herror
    · rw [hvalidate] at herror
      cases herror

end NetBuilder

end Glam.Net
