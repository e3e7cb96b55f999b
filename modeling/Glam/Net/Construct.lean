import Glam.Net.Builder

/-!
# Constructions succeed

Every construction but a wiring of the client's own succeeds, whatever the builder: the wires it
makes are between ports that it has just made. What a construction does to the builder is `Grows`:
it adds the nodes that `Made` lists, of which it hands out ports that are different and unwired, and
makes no wire at an earlier port, except at those it was given. A construction made of others uses
ports up as it goes on, and `Grows.trans` keeps the account.

`Construction.made` and `Construction.portCount` say what each construction should make and hand out:
a spine of binds one bind for each argument, a copy with two outputs or more one fan less than it has
outputs, each with a site of its own. `Construction.exists_run` says that it does, of whatever it
returns.
-/

namespace Glam.Net

variable {S : NetSpecialization}

/-- What a construction makes: its nodes, and how many new sites its fans have. -/
structure Made (S : NetSpecialization) where
  nodes : List (BuilderNode S)
  sites : Nat

namespace Made

instance : Append (Made S) := ⟨fun made more => ⟨made.nodes ++ more.nodes, made.sites + more.sites⟩⟩

/-- A construction that makes no node. -/
def nothing : Made S := ⟨[], 0⟩

/-- One node that is no new fan. -/
def node (node : BuilderNode S) : Made S := ⟨[node], 0⟩

/-- Fans at the `count` sites from `site` on. -/
def fans (site count : Nat) : Made S :=
  ⟨(List.range' site count).map fun site => .runtime (.fan site), count⟩

theorem append_def (made more : Made S) :
    made ++ more = ⟨made.nodes ++ more.nodes, made.sites + more.sites⟩ := rfl

@[simp] theorem append_nothing (made : Made S) : made ++ nothing = made := by
  simp [append_def, nothing]

@[simp] theorem nothing_append (made : Made S) : nothing ++ made = made := by
  simp [append_def, nothing]

/-- Fans at consecutive sites. -/
theorem fans_append {site next count more total : Nat} (hnext : next = site + count)
    (htotal : total = count + more) :
    (fans site count ++ fans next more : Made S) = fans site total := by
  subst hnext htotal
  simp only [append_def, fans, ← List.map_append, List.range'_append_1]

end Made

namespace Construction

/-- What a construction makes, in a builder whose next fan site is `site`. -/
def made (site : Nat) : Construction S → Made S
  | .push node => .node (.runtime node)
  | .bind | .functionBind => .node (.runtime .bind)
  | .functionSpine more => ⟨List.replicate (more + 1) (.runtime .bind), 0⟩
  | .data value => .node (.runtime (.data value))
  | .operator op => .node (.runtime (.operator op))
  | .unaryOperator op => ⟨[.runtime .bind, .runtime (.operator op)], 0⟩
  | .pushFan => .fans site 1
  | .copy 0 => .node (.runtime .erase)
  | .copy 1 => .node .tunnel
  | .copy outputs => .fans site (outputs - 1)
  | .tryWire _ _ => .nothing

theorem made_copy {site outputs : Nat} (h : 2 ≤ outputs) :
    (copy outputs : Construction S).made site = .fans site (outputs - 1) := by
  match outputs, h with
  | _ + 2, _ => rfl

/-- How many ports a construction hands out: a spine its input, one for each argument and its result,
and a copy its input and its outputs. -/
def portCount : Construction S → Nat
  | .push node => node.portCount
  | .bind | .functionBind | .pushFan => 3
  | .functionSpine more => more + 3
  | .data _ | .unaryOperator _ => 1
  | .operator _ => 2
  | .copy outputs => outputs + 1
  | .tryWire _ _ => 0

end Construction

namespace NetBuilder

/-- A port that can take a wire. -/
def Free (b : NetBuilder S) (port : Port) : Prop :=
  validPortOf b.nodes port = true ∧ port ∉ wireEnds b.wires

/-- The builder has grown by what was `made`. It has used up the earlier ports `used`, and hands out
`ports`. -/
structure Grows (b b' : NetBuilder S) (used : List Port) (made : Made S) (ports : List Port) :
    Prop where
  nodes : b'.nodes = b.nodes ++ made.nodes
  sites : b'.nextFanSite = b.nextFanSite + made.sites
  free : ∀ port, b.Free port → port ∉ used → b'.Free port
  handed : ∀ port ∈ ports, b'.Free port
  /-- a port that is handed out is new, unless it was given up for it -/
  new : ∀ port ∈ ports, validPortOf b.nodes port = false ∨ port ∈ used
  nodup : ports.Nodup

variable {b b' b'' : NetBuilder S} {used ports used' ports' rest : List Port} {made made' : Made S}

theorem grows_self (hports : ∀ port ∈ ports, b.Free port) (hnodup : ports.Nodup) :
    b.Grows b ports .nothing ports :=
  ⟨(List.append_nil _).symm, rfl, fun _ hfree _ => hfree, hports, fun _ => .inr, hnodup⟩

theorem Grows.invalid (h : b.Grows b' used made ports) {port : Port}
    (hport : validPortOf b'.nodes port = false) : validPortOf b.nodes port = false := by
  rw [Bool.eq_false_iff] at hport ⊢
  intro hvalid
  exact hport (h.nodes ▸ validPortOf_append hvalid)

/-- **Growing on**: the second time uses up some of the ports handed out the first time. -/
theorem Grows.trans (h : b.Grows b' used made ports) (h' : b'.Grows b'' used' made' ports')
    (hperm : ports.Perm (used' ++ rest)) :
    b.Grows b'' used (made ++ made') (rest ++ ports') := by
  have hused : ∀ port ∈ used', port ∈ ports :=
    fun port hport => hperm.mem_iff.mpr (List.mem_append_left _ hport)
  have hrest : ∀ port ∈ rest, port ∈ ports :=
    fun port hport => hperm.mem_iff.mpr (List.mem_append_right _ hport)
  obtain ⟨-, hnodup, hdisjoint⟩ := List.nodup_append.mp (hperm.nodup_iff.mp h.nodup)
  -- the ports of the first part are used by the second, or are left
  have hkept : ∀ port ∈ rest, port ∉ used' :=
    fun port hport hmem => hdisjoint port hmem port hport rfl
  refine ⟨?_, ?_, ?_, ?_, ?_, ?_⟩
  · rw [h'.nodes, h.nodes, List.append_assoc]
    rfl
  · rw [h'.sites, h.sites, Nat.add_assoc]
    rfl
  · -- a port that was free before both is new to neither
    intro port hfree hnot
    refine h'.free port (h.free port hfree hnot) fun hmem => ?_
    rcases h.new port (hused port hmem) with hinvalid | hin
    · rw [hfree.1] at hinvalid
      cases hinvalid
    · exact hnot hin
  · intro port hport
    rcases List.mem_append.mp hport with hport | hport
    · exact h'.free port (h.handed port (hrest port hport)) (hkept port hport)
    · exact h'.handed port hport
  · intro port hport
    rcases List.mem_append.mp hport with hport | hport
    · exact h.new port (hrest port hport)
    · rcases h'.new port hport with hinvalid | hmem
      · exact .inl (h.invalid hinvalid)
      · exact h.new port (hused port hmem)
  · refine List.nodup_append.mpr ⟨hnodup, h'.nodup, ?_⟩
    rintro port hport _ hport' rfl
    rcases h'.new port hport' with hinvalid | hmem
    · rw [(h.handed port (hrest port hport)).1] at hinvalid
      cases hinvalid
    · exact hkept port hport hmem

theorem Grows.perm (h : b.Grows b' used made ports) (hperm : ports.Perm ports') :
    b.Grows b' used made ports' :=
  ⟨h.nodes, h.sites, h.free, fun port hport => h.handed port (hperm.mem_iff.mpr hport),
    fun port hport => h.new port (hperm.mem_iff.mpr hport), hperm.nodup_iff.mp h.nodup⟩

/-- A builder with one more node. -/
theorem grows_of_nodes {node : BuilderNode S} {sites : Nat} (hnodes : b'.nodes = b.nodes ++ [node])
    (hwires : b'.wires = b.wires) (hsites : b'.nextFanSite = b.nextFanSite + sites) :
    b.Grows b' [] ⟨[node], sites⟩ ((List.range node.portCount).map (Port.mk b.nodes.length)) := by
  have hinvalid : ∀ index, validPortOf b.nodes ⟨b.nodes.length, index⟩ = false := by
    intro index
    rw [Bool.eq_false_iff]
    intro hvalid
    obtain ⟨kind, hkind, -⟩ := validPortOf_iff.mp hvalid
    exact absurd (List.getElem?_eq_some_iff.mp hkind).1 (Nat.lt_irrefl _)
  refine ⟨hnodes, hsites, ?_, ?_, ?_, ?_⟩
  · intro port hfree _
    exact ⟨hnodes ▸ validPortOf_append hfree.1, hwires ▸ hfree.2⟩
  · intro port hport
    obtain ⟨index, hindex, rfl⟩ := List.mem_map.mp hport
    refine ⟨validPortOf_iff.mpr ⟨node, ?_, List.mem_range.mp hindex⟩, fun hmem => ?_⟩
    · rw [hnodes]
      exact List.getElem?_concat_length
    · rw [hwires] at hmem
      have hvalid := b.ends_valid _ hmem
      rw [hinvalid] at hvalid
      cases hvalid
  · intro port hport
    obtain ⟨index, -, rfl⟩ := List.mem_map.mp hport
    exact .inl (hinvalid index)
  · exact List.nodup_range.map fun i j hij => congrArg Port.index hij

end NetBuilder

namespace Build

open NetBuilder

variable {b b₀ : NetBuilder S} {used ports rest : List Port} {made total : Made S} {count : Nat}

/-- The rest of a construction, from `b` on, succeeds. From its start at `b₀` the construction then
has used up `used` and made `made`, and hands out `count` ports, which `out` reads off its result. -/
def HandsSince {α : Type} (b₀ : NetBuilder S) (used : List Port) (build : Build S α)
    (b : NetBuilder S) (made : Made S) (count : Nat) (out : α → List Port) : Prop :=
  Spec (build.run b)
    (fun result => b₀.Grows result.2 used made (out result.1) ∧ (out result.1).length = count)
    fun _ => False

/-- The construction succeeds, uses up `used`, makes `made`, and hands out `count` ports, which `out`
reads off its result. -/
def Hands {α : Type} (build : Build S α) (b : NetBuilder S) (used : List Port) (made : Made S)
    (count : Nat) (out : α → List Port) : Prop :=
  HandsSince b used build b made count out

variable {α : Type} {out : α → List Port}

theorem handsSince_pure {a : α} (h : b₀.Grows b used made (out a))
    (hcount : (out a).length = count) : HandsSince b₀ used (pure a) b made count out :=
  Spec.pure ⟨h, hcount⟩

theorem pushNode_hands (node : BuilderNode S) (b : NetBuilder S) :
    (pushNode node).Hands b [] (.node node) node.portCount fun id =>
      (List.range node.portCount).map (Port.mk id) := by
  rw [Hands, HandsSince]
  exact Spec.ok ⟨grows_of_nodes rfl rfl rfl, by simp⟩

theorem pushFan_hands (b : NetBuilder S) :
    (pushFan (S := S)).Hands b [] (.fans b.nextFanSite 1) 3 fun id =>
      [.principal id, .auxiliary id 1, .auxiliary id 2] := by
  have hfan : b.Grows (({ b with nextFanSite := b.nextFanSite + 1 } : NetBuilder S).addNode
      (.runtime (.fan b.nextFanSite))) [] (.fans b.nextFanSite 1) _ := grows_of_nodes rfl rfl rfl
  rw [Hands, HandsSince]
  exact Spec.ok ⟨hfan, rfl⟩

/-- Wiring uses up two ports. -/
theorem wire_hands {left right : Port} (hleft : b.Free left) (hright : b.Free right)
    (hne : left ≠ right) : (wire left right).Hands b [left, right] .nothing 0 fun _ => [] := by
  have hl := checkPort_eq_ok.mpr hleft
  have hr := checkPort_eq_ok.mpr hright
  have htry : b.tryWire left right = .ok (b.addWire left right hl hr hne) := by
    rw [tryWire]
    split
    · next hcheck => rw [hl] at hcheck; cases hcheck
    · split
      · next hcheck => rw [hr] at hcheck; cases hcheck
      · rw [dif_neg hne]
  have hrun : (wire left right).run b = .ok ((), b.addWire left right hl hr hne) := by
    simp [wire, htry]
  rw [Hands, HandsSince, hrun]
  refine Spec.ok ⟨⟨(List.append_nil _).symm, rfl, ?_, ?_, ?_, List.nodup_nil⟩, rfl⟩
  · intro port hfree hnot
    refine ⟨hfree.1, fun hmem => ?_⟩
    rcases List.mem_append.mp (wireEnds_concat b.wires ⟨left, right⟩ ▸ hmem) with hmem | hmem
    · exact hfree.2 hmem
    · exact hnot hmem
  · exact nofun
  · exact nofun

section Sequence

variable {α β : Type} {build : Build S α} {next : α → Build S β} {out : α → List Port}
  {out' : β → List Port} {used' : List Port} {made' : Made S} {count' : Nat}

/-- **One construction after another.** So far the builder has grown from `b₀` to `b`; the first
construction uses up ports that were handed out. -/
theorem Hands.bind (h : build.Hands b used' made' count' out) (hgrows : b₀.Grows b used made ports)
    (hperm : ports.Perm (used' ++ rest))
    (hnext : ∀ a b', (out a).length = count' → b₀.Grows b' used (made ++ made') (rest ++ out a) →
      HandsSince b₀ used (next a) b' total count out') :
    HandsSince b₀ used (build >>= next) b total count out' := by
  rw [HandsSince, StateT.run_bind]
  exact Spec.bind h fun result hresult =>
    hnext result.1 result.2 hresult.2 (hgrows.trans hresult.1 hperm)

end Sequence

/-- A construction that wires two of its ports and goes on. -/
theorem wire_bind {left right : Port} {next : Build S α} (hgrows : b₀.Grows b used made ports)
    (hperm : ports.Perm ([left, right] ++ rest))
    (hnext : ∀ b', b₀.Grows b' used made rest → HandsSince b₀ used next b' total count out) :
    HandsSince b₀ used (wire left right >>= fun _ => next) b total count out := by
  have hmem : ∀ port ∈ [left, right], b.Free port := fun port hport =>
    hgrows.handed port (hperm.mem_iff.mpr (List.mem_append_left _ hport))
  have hne : left ≠ right := by
    have hnodup := (List.nodup_append.mp (hperm.nodup_iff.mp hgrows.nodup)).1
    simpa using hnodup
  refine (wire_hands (hmem left (by simp)) (hmem right (by simp)) hne).bind hgrows hperm ?_
  intro _ b' _ hgrown
  rw [List.append_nil, Made.append_nothing] at hgrown
  exact hnext b' hgrown

theorem grows_refl (b : NetBuilder S) : b.Grows b [] .nothing [] :=
  grows_self (nofun) List.nodup_nil

theorem bind_hands (b : NetBuilder S) :
    (bind (S := S)).Hands b [] (.node (.runtime .bind)) 3 fun ports =>
      [ports.1, ports.2.1, ports.2.2] := by
  rw [Hands, bind]
  refine (pushNode_hands (.runtime .bind) b).bind (grows_refl b) .nil ?_
  exact fun _ _ _ hgrown => handsSince_pure hgrown rfl

theorem functionBind_hands (b : NetBuilder S) :
    (functionBind (S := S)).Hands b [] (.node (.runtime .bind)) 3 fun ports =>
      [ports.1, ports.2.1, ports.2.2] := by
  rw [Hands, functionBind]
  refine (bind_hands b).bind (grows_refl b) .nil ?_
  exact fun _ _ _ hgrown => handsSince_pure (hgrown.perm (.cons _ (.swap _ _ _))) rfl

theorem data_hands (value : S.Data) (b : NetBuilder S) :
    (data value).Hands b [] (.node (.runtime (.data value))) 1 fun port => [port] := by
  rw [Hands, data]
  refine (pushNode_hands (.runtime (.data value)) b).bind (grows_refl b) .nil ?_
  exact fun _ _ _ hgrown => handsSince_pure hgrown rfl

theorem operator_hands (op : S.Operator) (b : NetBuilder S) :
    (operator op).Hands b [] (.node (.runtime (.operator op))) 2 fun ports =>
      [ports.1, ports.2] := by
  rw [Hands, operator]
  refine (pushNode_hands (.runtime (.operator op)) b).bind (grows_refl b) .nil ?_
  exact fun _ _ _ hgrown => handsSince_pure hgrown rfl

/-- An operator of one argument is a bind and the operator, with one port left. -/
theorem unaryOperator_hands (op : S.Operator) (b : NetBuilder S) :
    (unaryOperator op).Hands b [] ⟨[.runtime .bind, .runtime (.operator op)], 0⟩ 1 fun port =>
      [port] := by
  rw [Hands, unaryOperator]
  refine (functionBind_hands b).bind (grows_refl b) .nil ?_
  intro function b₁ _ hgrows₁
  refine (operator_hands op b₁).bind hgrows₁ (.refl _) ?_
  intro ports b₂ _ hgrows₂
  -- function, argument, result, input, output
  have hinput : [function.1, function.2.1, function.2.2, ports.1, ports.2].Perm
      ([function.2.1, ports.1] ++ [function.2.2, ports.2, function.1]) := by
    rw [List.perm_iff_count]
    intro port
    simp only [List.count_cons, List.cons_append, List.nil_append]
    omega
  refine wire_bind hgrows₂ hinput ?_
  intro b₃ hgrows₃
  refine wire_bind hgrows₃ (.refl _) ?_
  exact fun b₄ hgrows₄ => handsSince_pure hgrows₄ rfl

theorem length_flatMap_ports (binds : List (Port × Port × Port)) :
    (binds.flatMap fun ports => [ports.1, ports.2.1, ports.2.2]).length = 3 * binds.length := by
  induction binds with
  | nil => rfl
  | cons ports binds ih =>
    simp only [List.flatMap_cons, List.length_append, List.length_cons, List.length_nil, ih]
    omega

/-- A row of binds. -/
theorem mapM_hands {bind : Build S (Port × Port × Port)} {node : BuilderNode S}
    (hbind : ∀ b, bind.Hands b [] (.node node) 3 fun ports => [ports.1, ports.2.1, ports.2.2])
    (list : List Nat) (b : NetBuilder S) :
    (list.mapM fun _ => bind).Hands b [] ⟨List.replicate list.length node, 0⟩ (3 * list.length)
      fun binds => binds.flatMap fun ports => [ports.1, ports.2.1, ports.2.2] := by
  induction list generalizing b with
  | nil => exact handsSince_pure (grows_refl b) rfl
  | cons _ list ih =>
    rw [Hands, List.mapM_cons]
    refine (hbind b).bind (grows_refl b) .nil ?_
    intro ports b₁ _ hgrows₁
    refine (ih b₁).bind hgrows₁ (.refl _) ?_
    intro binds b₂ hcount hgrows₂
    refine handsSince_pure hgrows₂ ?_
    rw [length_flatMap_ports] at hcount ⊢
    rw [List.length_cons, List.length_cons, Nat.mul_succ, hcount, Nat.mul_succ]

/-- Wires between ports handed out, each used once. -/
theorem forM_wire_bind {γ : Type} {list : List γ} {left right : γ → Port} {next : Build S α}
    (hgrows : b₀.Grows b used made ports)
    (hperm : ports.Perm ((list.flatMap fun x => [left x, right x]) ++ rest))
    (hnext : ∀ b', b₀.Grows b' used made rest → HandsSince b₀ used next b' total count out) :
    HandsSince b₀ used ((list.forM fun x => wire (left x) (right x)) >>= fun _ => next) b total
      count out := by
  induction list generalizing b ports with
  | nil => exact hnext b (hgrows.perm hperm)
  | cons x list ih =>
    rw [List.forM, bind_assoc]
    exact wire_bind hgrows hperm fun b' hgrown => ih hgrown (.refl _)

/-- A chain of binds uses the result of each and the principal port of the next. -/
theorem spine_perm (first : Port × Port × Port) (binds : List (Port × Port × Port)) :
    ((first :: binds).flatMap fun ports => [ports.1, ports.2.1, ports.2.2]).Perm
      ((((first :: binds).zip binds).flatMap fun pair => [pair.1.2.2, pair.2.1]) ++
        (first.1 :: (first :: binds).map (fun ports => ports.2.1) ++
          [(binds.getLast?.getD first).2.2])) := by
  induction binds generalizing first with
  | nil => exact .refl _
  | cons second binds ih =>
    have hlast : ((second :: binds).getLast?.getD first) = binds.getLast?.getD second := by
      cases binds <;> simp [List.getLast?_cons]
    rw [List.perm_iff_count]
    intro port
    have hcount := (ih second).count_eq port
    simp only [List.flatMap_cons, List.zip_cons_cons, List.map_cons, List.count_append,
      List.count_cons, List.count_nil, List.cons_append, List.nil_append, hlast] at hcount ⊢
    omega

/-- A function of `more + 1` arguments is as many binds in a chain. -/
theorem functionSpine_hands (more : Nat) (b : NetBuilder S) :
    (functionSpine (S := S) more).Hands b [] ⟨List.replicate (more + 1) (.runtime .bind), 0⟩
      (more + 3) fun spine => spine.input :: spine.arguments ++ [spine.result] := by
  rw [Hands, functionSpine, spine]
  refine (functionBind_hands b).bind (grows_refl b) .nil ?_
  intro first b₁ _ hgrows₁
  refine (mapM_hands functionBind_hands _ b₁).bind hgrows₁ (.refl _) ?_
  intro binds b₂ hcount hgrows₂
  rw [List.length_range] at hgrows₂
  have hbinds : binds.length = more := by
    rw [length_flatMap_ports, List.length_range] at hcount
    omega
  refine forM_wire_bind hgrows₂ (spine_perm first binds) ?_
  exact fun b₃ hgrows₃ => handsSince_pure hgrows₃ (by simp [hbinds])

/-- A tree for some outputs has one fan fewer than those. -/
theorem copyBranch_hands {branch : Port} (hbranch : b.Free branch) (outputs : Nat) :
    (copyBranch branch outputs).Hands b [branch] (.fans b.nextFanSite (outputs - 1))
      (max outputs 1) id := by
  induction outputs using Nat.strong_induction_on generalizing b branch with
  | _ outputs ih =>
    have hself : b.Grows b [branch] .nothing [branch] :=
      grows_self (fun port hport => List.mem_singleton.mp hport ▸ hbranch) (List.nodup_singleton _)
    rw [Hands, copyBranch]
    split
    · next hle =>
      rw [Nat.sub_eq_zero_of_le hle, Nat.max_eq_right hle]
      exact handsSince_pure hself rfl
    · refine (pushFan_hands b).bind hself (.refl _) ?_
      intro fan b₁ _ hgrows₁
      refine wire_bind hgrows₁ (.refl _) ?_
      intro b₂ hgrows₂
      refine (ih (outputs / 2) (by omega) ?_).bind hgrows₂ (.refl _) ?_
      · exact hgrows₂.handed _ (by simp)
      intro leaves b₃ hleaves hgrows₃
      refine (ih (outputs - outputs / 2) (by omega) ?_).bind hgrows₃ (.refl _) ?_
      · exact hgrows₃.handed _ (by simp)
      intro more b₄ hmore hgrows₄
      refine handsSince_pure ?_ ?_
      · -- the fan, those below its first port and those below its second have consecutive sites
        have hsite₂ : b₂.nextFanSite = b.nextFanSite + 1 := hgrows₂.sites
        have hsite₃ : b₃.nextFanSite = b.nextFanSite + (1 + (outputs / 2 - 1)) := hgrows₃.sites
        rwa [Made.nothing_append, Made.fans_append hsite₂ rfl,
          Made.fans_append hsite₃ (by omega : outputs - 1 = _)] at hgrows₄
      · simp only [id] at hleaves hmore ⊢
        rw [List.length_append, hleaves, hmore]
        omega

/-- **A copy** hands out its input and as many outputs as it was asked for. -/
theorem copy_hands (outputs : Nat) (b : NetBuilder S) :
    (copy (S := S) outputs).Hands b [] ((Construction.copy outputs).made b.nextFanSite)
      (outputs + 1) fun copy => copy.input :: copy.outputs := by
  rw [Hands]
  unfold copy
  split
  · refine (pushNode_hands (.runtime .erase) b).bind (grows_refl b) .nil ?_
    exact fun _ _ _ hgrown => handsSince_pure hgrown rfl
  · refine (pushNode_hands .tunnel b).bind (grows_refl b) .nil ?_
    exact fun _ _ _ hgrown => handsSince_pure hgrown rfl
  · next hnotZero hnotOne =>
    have htwo : 2 ≤ outputs := (Nat.two_le_iff outputs).mpr ⟨hnotZero, hnotOne⟩
    rw [Construction.made_copy htwo]
    refine (pushFan_hands b).bind (grows_refl b) .nil ?_
    intro root b₁ _ hgrows₁
    refine (copyBranch_hands ?_ _).bind hgrows₁ (.swap _ _ _) ?_
    · exact hgrows₁.handed _ (by simp)
    intro leaves b₂ hleaves hgrows₂
    refine (copyBranch_hands ?_ _).bind hgrows₂ (.swap _ _ _) ?_
    · exact hgrows₂.handed _ (by simp)
    intro more b₃ hmore hgrows₃
    refine handsSince_pure ?_ ?_
    · have hsite₁ : b₁.nextFanSite = b.nextFanSite + 1 := hgrows₁.sites
      have hsite₂ : b₂.nextFanSite = b.nextFanSite + (1 + (_ / 2 - 1)) := hgrows₂.sites
      rw [Made.nothing_append, Made.fans_append hsite₁ rfl,
        Made.fans_append hsite₂ (by omega : outputs - 1 = _)] at hgrows₃
      exact hgrows₃.perm (by simp)
    · simp only [id] at hleaves hmore ⊢
      rw [List.length_cons, List.length_append, hleaves, hmore]
      omega

end Build

/-- **Only a wiring of the client's own can be refused.** Any other construction makes the nodes it
should, and the ports it returns are as many as they should be, different, new and free; the ports
that were free before it are free still. -/
theorem Construction.exists_run (construction : Construction S)
    (hwire : ∀ left right, construction ≠ .tryWire left right) (b : NetBuilder S) :
    ∃ b' ports, construction.run.run b = .ok (ports, b') ∧
      ports.length = construction.portCount ∧
      b.Grows b' [] (construction.made b.nextFanSite) ports := by
  have hrun : ∀ {α : Type} {build : Build S α} {made : Made S} {count : Nat}
      {out : α → List Port}, build.Hands b [] made count out →
      ∃ b' ports, (build >>= fun result => pure (out result)).run b = .ok (ports, b') ∧
        ports.length = count ∧ b.Grows b' [] made ports := by
    intro α build made count out hhands
    obtain ⟨result, hresult, hgrows, hcount⟩ := Spec.exists_ok hhands
    refine ⟨result.2, out result.1, ?_, hcount, hgrows⟩
    rw [StateT.run_bind, hresult]
    rfl
  cases construction with
  | push node => exact hrun (Build.pushNode_hands (.runtime node) b)
  | bind => exact hrun (Build.bind_hands b)
  | functionBind => exact hrun (Build.functionBind_hands b)
  | functionSpine more => exact hrun (Build.functionSpine_hands more b)
  | data value => exact hrun (Build.data_hands value b)
  | operator op => exact hrun (Build.operator_hands op b)
  | unaryOperator op => exact hrun (Build.unaryOperator_hands op b)
  | pushFan => exact hrun (Build.pushFan_hands b)
  | copy outputs => exact hrun (Build.copy_hands outputs b)
  | tryWire left right => exact absurd rfl (hwire left right)

/-- A copy with five outputs makes four fans and returns six ports. -/
theorem exists_run_copy_five :
    let b : NetBuilder ⟨Unit, Unit, Unit, Unit, Unit, Unit⟩ := .new
    ∃ b' ports, (Construction.copy 5).run.run b = .ok (ports, b') ∧ ports.length = 6 ∧
      b.Grows b' [] (.fans 0 4) ports :=
  Construction.exists_run (.copy 5) (by simp) _

end Glam.Net
