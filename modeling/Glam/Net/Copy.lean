import Glam.Net.Construct
import Mathlib

/-!
# Copies are trees of fans

What `copy` adds to a builder: an eraser for no output, a tunnel for one, and for more a tree of
fans. `Leads` reads the tree off the wires, and `Grown` says which fans were added, with their
sites. That the wires are accepted, and that the input and the outputs are unwired, is
`copy_hands`.
-/

namespace Glam.Net

variable {S : NetSpecialization} {wires more : List TemplateWire} {port : Port}
  {fans fans' : List NodeId} {outputs outputs' : List Port} {depth count : Nat}

/-- The wires lead from `port` through a tree of `fans` to `outputs`, from left to right, and behind
at most `depth` fans. -/
inductive Leads (wires : List TemplateWire) : Port → List NodeId → List Port → Nat → Prop
  | output {port : Port} {depth : Nat} : Leads wires port [] [port] depth
  | fan {port : Port} {fan : NodeId} {fans fans' : List NodeId} {outputs outputs' : List Port}
      {depth : Nat} (hwire : ⟨port, .principal fan⟩ ∈ wires)
      (hleft : Leads wires (.auxiliary fan 1) fans outputs depth)
      (hright : Leads wires (.auxiliary fan 2) fans' outputs' depth) :
      Leads wires port (fan :: (fans ++ fans')) (outputs ++ outputs') (depth + 1)

theorem Leads.mono (h : Leads wires port fans outputs depth) (hsubset : wires ⊆ more) :
    Leads more port fans outputs depth := by
  induction h with
  | output => exact .output
  | fan hwire _ _ ihleft ihright => exact .fan (hsubset hwire) ihleft ihright

/-- Every port of a tree is wired, or is an output. -/
theorem Leads.ports (h : Leads wires port fans outputs depth) :
    (port ∈ wireEnds wires ∨ port ∈ outputs) ∧
      ∀ fan ∈ fans, ∀ index < 3, ⟨fan, index⟩ ∈ wireEnds wires ∨ ⟨fan, index⟩ ∈ outputs := by
  induction h with
  | output => exact ⟨.inr (List.mem_singleton_self _), nofun⟩
  | @fan port fan _ _ _ _ _ hwire _ _ ihleft ihright =>
    refine ⟨.inl (mem_wireEnds.mpr ⟨_, hwire, .inl rfl⟩), fun other hother index hindex => ?_⟩
    rw [List.mem_append]
    rcases List.mem_cons.mp hother with rfl | hother
    · match index, hindex with
      | 0, _ => exact .inl (mem_wireEnds.mpr ⟨_, hwire, .inr rfl⟩)
      | 1, _ => exact ihleft.1.imp_right .inl
      | 2, _ => exact ihright.1.imp_right .inr
    · rcases List.mem_append.mp hother with hother | hother
      · exact (ihleft.2 other hother index hindex).imp_right .inl
      · exact (ihright.2 other hother index hindex).imp_right .inr

namespace Build

variable {b b' b'' b₁ b₂ b₃ : NetBuilder S} {branch : Port}

/-- The builder has `count` fans more, each with the next site, and `wires`. -/
structure Grown (b b' : NetBuilder S) (count : Nat) (wires : List TemplateWire) : Prop where
  nodes : b'.nodes =
    b.nodes ++ (List.range' b.nextFanSite count).map fun site => .runtime (.fan site)
  nextFanSite : b'.nextFanSite = b.nextFanSite + count
  wires : b'.wires = b.wires ++ wires

theorem Grown.length (h : Grown b b' count wires) : b'.nodes.length = b.nodes.length + count := by
  rw [h.nodes, List.length_append, List.length_map, List.length_range']

theorem Grown.trans {count' : Nat} (h : Grown b b' count wires) (h' : Grown b' b'' count' more) :
    Grown b b'' (count + count') (wires ++ more) where
  nodes := by
    rw [h'.nodes, h.nodes, h.nextFanSite, List.append_assoc, ← List.map_append,
      ← List.range'_append_1]
  nextFanSite := by rw [h'.nextFanSite, h.nextFanSite, Nat.add_assoc]
  wires := by rw [h'.wires, h.wires, List.append_assoc]

theorem run_bind_eq_ok {α β : Type} {build : Build S α} {next : α → Build S β}
    {result : β × NetBuilder S} (h : (build >>= next).run b = .ok result) :
    ∃ a b', build.run b = .ok (a, b') ∧ (next a).run b' = .ok result := by
  rw [StateT.run_bind] at h
  obtain ⟨⟨a, b'⟩, hbuild, hnext⟩ := Except.bind_eq_ok h
  exact ⟨a, b', hbuild, hnext⟩

theorem grown_of_pushFan {fan : NodeId} (h : pushFan.run b = .ok (fan, b')) :
    fan = b.nodes.length ∧ Grown b b' 1 [] := by
  obtain ⟨rfl, rfl⟩ := Prod.mk.inj (Except.ok.inj h)
  exact ⟨rfl, rfl, rfl, (List.append_nil _).symm⟩

/-- Wiring adds one wire. -/
theorem grown_of_wire {left right : Port} {u : Unit} (h : (wire left right).run b = .ok (u, b')) :
    Grown b b' 0 [⟨left, right⟩] := by
  have htry : b.tryWire left right = .ok b' := by
    cases htry : b.tryWire left right <;> simp_all [wire]
  unfold NetBuilder.tryWire at htry
  split at htry
  · cases htry
  · split at htry
    · cases htry
    · split_ifs at htry
      cases htry
      exact ⟨(List.append_nil _).symm, rfl, rfl⟩

/-- From `branch` the builder has grown a tree of `n - 1` fans to `n` outputs. -/
def Branches (b b' : NetBuilder S) (branch : Port) (n depth : Nat) (outputs : List Port) : Prop :=
  outputs.length = n ∧ ∃ wires, Grown b b' (n - 1) wires ∧ wires.length = n - 1 ∧
    Leads wires branch (List.range' b.nodes.length (n - 1)) outputs depth

/-- A fan, and a branch at each of its auxiliary ports. -/
theorem Branches.join {n : Nat} (hn : 2 ≤ n) (hfan : Grown b b₁ 1 wires)
    (hleft : Branches b₁ b₂ (.auxiliary b.nodes.length 1) (n / 2) depth outputs)
    (hright : Branches b₂ b₃ (.auxiliary b.nodes.length 2) (n - n / 2) depth outputs') :
    (outputs ++ outputs').length = n ∧ ∃ more, Grown b b₃ (n - 1) (wires ++ more) ∧
      more.length = n - 2 ∧ ∀ {all port}, ⟨port, .principal b.nodes.length⟩ ∈ all → more ⊆ all →
        Leads all port (List.range' b.nodes.length (n - 1)) (outputs ++ outputs') (depth + 1) := by
  obtain ⟨hlen, left, hgrown, hleft, hleads⟩ := hleft
  obtain ⟨hlen', right, hgrown', hright, hleads'⟩ := hright
  rw [hfan.length] at hleads
  rw [(hfan.trans hgrown).length] at hleads'
  have hfans : List.range' b.nodes.length (n - 1) = b.nodes.length ::
      (List.range' (b.nodes.length + 1) (n / 2 - 1) ++
        List.range' (b.nodes.length + (1 + (n / 2 - 1))) (n - n / 2 - 1)) := by
    rw [← Nat.add_assoc, List.range'_append_1, ← List.range'_succ]
    congr 1
    omega
  have hall := (hfan.trans hgrown).trans hgrown'
  rw [show 1 + (n / 2 - 1) + (n - n / 2 - 1) = n - 1 by omega, List.append_assoc] at hall
  refine ⟨by rw [List.length_append]; omega, _, hall, by rw [List.length_append]; omega, ?_⟩
  intro all port hwire hmore
  rw [hfans]
  exact .fan hwire (hleads.mono fun _ h => hmore (List.mem_append_left _ h))
    (hleads'.mono fun _ h => hmore (List.mem_append_right _ h))

/-- The construction makes the tree, within any depth that has room for its outputs. -/
theorem branches_of_copyBranch {n : Nat} (hpos : 0 < n) (hdepth : n ≤ 2 ^ depth)
    (h : (copyBranch branch n).run b = .ok (outputs, b')) :
    Branches b b' branch n depth outputs := by
  induction n using Nat.strong_induction_on generalizing b b' branch outputs depth with
  | _ n ih =>
    rw [copyBranch] at h
    split at h
    · obtain rfl : n = 1 := by omega
      cases h
      exact ⟨rfl, [], ⟨(List.append_nil _).symm, rfl, (List.append_nil _).symm⟩, rfl, .output⟩
    · obtain _ | depth := depth
      · omega
      rw [Nat.pow_succ] at hdepth
      obtain ⟨fan, b₁, hfan, h⟩ := run_bind_eq_ok h
      obtain ⟨u, b₂, hwire, h⟩ := run_bind_eq_ok h
      obtain ⟨leaves, b₃, hleft, h⟩ := run_bind_eq_ok h
      obtain ⟨others, b₄, hright, h⟩ := run_bind_eq_ok h
      cases h
      obtain ⟨rfl, hgrown⟩ := grown_of_pushFan hfan
      obtain ⟨hlength, more, hgrown, hmore, hleads⟩ := Branches.join (by omega)
        (hgrown.trans (grown_of_wire hwire))
        (ih _ (by omega) (by omega) (show n / 2 ≤ 2 ^ depth by omega) hleft)
        (ih _ (by omega) (by omega) (show n - n / 2 ≤ 2 ^ depth by omega) hright)
      refine ⟨hlength, _, hgrown, ?_, hleads (.head _) (List.subset_append_right _ _)⟩
      rw [List.length_append, hmore]
      simp only [List.nil_append, List.length_singleton]
      omega

end Build

/-- **A copy is a tree of fans.** It is an eraser for no output and a tunnel for one. For more it is
made of `outputs - 1` new fans, each with the next site, and from a port that the input is wired to
the wires lead through all of them to the outputs, in at most the logarithm's many steps. Of the new
ports just the input and the outputs are open. -/
theorem copy_spec (outputs : Nat) (b : NetBuilder S) :
    ∃ ports b' wires, (Build.copy outputs).run b = .ok (ports, b') ∧
      ports.outputs.length = outputs ∧ (ports.input :: ports.outputs).Nodup ∧
      (∀ port, b.nodes.length ≤ port.node →
        (b'.Free port ↔ port ∈ ports.input :: ports.outputs)) ∧
      b'.wires = b.wires ++ wires ∧ wires.length = outputs - 2 ∧
      match outputs with
      | 0 => b'.nodes = b.nodes ++ [.runtime .erase]
      | 1 => b'.nodes = b.nodes ++ [.tunnel]
      | n + 2 => Build.Grown b b' (n + 1) wires ∧
          ∀ port, Leads (⟨port, ports.input⟩ :: wires) port (List.range' b.nodes.length (n + 1))
            ports.outputs (Nat.clog 2 (n + 2)) := by
  obtain ⟨⟨ports, b'⟩, hrun, hgrows, -⟩ := Spec.exists_ok (Build.copy_hands outputs b)
  -- what is left is that no other new port is open
  suffices h : ∃ wires, ports.outputs.length = outputs ∧
      (∀ port, b.nodes.length ≤ port.node → b'.Free port → port ∈ ports.input :: ports.outputs) ∧
      b'.wires = b.wires ++ wires ∧ wires.length = outputs - 2 ∧ _ by
    obtain ⟨wires, hlength, hopen, h⟩ := h
    exact ⟨ports, b', wires, hrun, hlength, hgrows.nodup,
      fun port hnew => ⟨hopen port hnew, hgrows.handed port⟩, h⟩
  have hnew : ∀ {added}, b'.nodes = b.nodes ++ added → ∀ port : Port, b.nodes.length ≤ port.node →
      b'.Free port → ∃ i node, added[i]? = some node ∧
        port ∈ (List.range node.portCount).map (Port.mk (b.nodes.length + i)) := by
    rintro added hnodes ⟨_, index⟩ hnew hfree
    obtain ⟨node, hnode, hindex⟩ := validPortOf_iff.mp hfree.1
    obtain ⟨i, rfl⟩ := Nat.exists_eq_add_of_le hnew
    rw [hnodes, NodeId.index, List.getElem?_append_right (Nat.le_add_right ..),
      Nat.add_sub_cancel_left] at hnode
    exact ⟨i, node, hnode, List.mem_map_of_mem (List.mem_range.mpr hindex)⟩
  obtain _ | _ | n := outputs
  iterate 2
    cases hrun
    refine ⟨[], rfl, fun port hport hfree => ?_, (List.append_nil _).symm, rfl, rfl⟩
    obtain ⟨_ | i, _, ⟨⟩, hmem⟩ := hnew rfl port hport hfree
    exact hmem
  · obtain ⟨root, b₁, hfan, h⟩ := Build.run_bind_eq_ok hrun
    obtain ⟨leaves, b₂, hleft, h⟩ := Build.run_bind_eq_ok h
    obtain ⟨others, b₃, hright, h⟩ := Build.run_bind_eq_ok h
    cases h
    obtain ⟨rfl, hgrown⟩ := Build.grown_of_pushFan hfan
    obtain ⟨depth, hclog⟩ := Nat.exists_eq_succ_of_ne_zero
      (Nat.clog_pos Nat.one_lt_two (show 1 < n + 2 by omega)).ne'
    have hdepth := Nat.le_pow_clog Nat.one_lt_two (n + 2)
    rw [hclog, Nat.pow_succ] at hdepth
    obtain ⟨hlength, more, hgrown, hmore, hleads⟩ := Build.Branches.join (by omega) hgrown
      (Build.branches_of_copyBranch (by omega) (show _ ≤ 2 ^ depth by omega) hleft)
      (Build.branches_of_copyBranch (by omega) (show _ ≤ 2 ^ depth by omega) hright)
    have hleads : ∀ port, Leads (⟨port, .principal b.nodes.length⟩ :: more) port _ _ _ :=
      fun port => hleads (List.mem_cons_self ..) (List.subset_cons_self ..)
    refine ⟨more, hlength, fun port hport hfree => ?_, hgrown.wires, hmore, hgrown, hclog ▸ hleads⟩
    obtain ⟨i, node, hnode, hmem⟩ := hnew hgrown.nodes port hport hfree
    rw [List.getElem?_map] at hnode
    obtain ⟨site, hsite, rfl⟩ := Option.map_eq_some_iff.mp hnode
    obtain ⟨hi, -⟩ := List.getElem?_eq_some_iff.mp hsite
    rw [List.length_range'] at hi
    obtain ⟨index, hindex, rfl⟩ := List.mem_map.mp hmem
    obtain hend | hout := (hleads (.principal b.nodes.length)).ports.2 _
      (List.mem_range'_1.mpr ⟨Nat.le_add_right .., Nat.add_lt_add_left hi _⟩) index
      (List.mem_range.mp hindex)
    · obtain ⟨wire, hwire, hend⟩ := mem_wireEnds.mp hend
      obtain rfl | hwire := List.mem_cons.mp hwire
      · exact List.mem_cons.mpr (.inl (or_self_iff.mp hend))
      · exact absurd (mem_wireEnds.mpr ⟨wire, hgrown.wires ▸ List.mem_append_right _ hwire, hend⟩)
          hfree.2
    · exact List.mem_cons_of_mem _ hout

end Glam.Net
