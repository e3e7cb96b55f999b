import Mathlib.Data.List.Induction
import Mathlib.Data.List.Nodup
import Mathlib.Logic.Function.Basic

/-!
# Shadowing of local names

A group of new names may not shadow a file's `let`, a local, or one another. `first_shadowing` of
`g_syntax/resolve/scope.rs` looks for the first that does, and for the binder it shadows: it scans
the locals and the names before it where there are few names, and otherwise keeps an index of them.

The index holds at each name what the scan finds for it, and taking in one more binder keeps it so
(`orInsert_binder`). Hence the two agree. What they do not report is fresh: no binder has its name,
and no other of the group. So a group that is taken keeps the accessible names of a context apart,
and along any groups a resolver takes, its names and its bindings stay distinct
(`extendSourceBindings_wellScoped`).
-/

namespace Glam.Syntax

/-- A name bound in an expression. -/
structure LocalName where
  raw : String
  /-- none if the name cannot be used -/
  canonical : Option String
  suppressUnusedWarning : Bool
  binding : Option Nat

/-- What a name as it is written binds: `_` nothing, and a name after an underscore is not warned
about where it is not used. -/
def localNameMetadata (raw : String) : LocalName :=
  if raw = "_" then ⟨raw, none, true, none⟩
  else if raw.startsWith "_" then ⟨raw, some (raw.drop 1).toString, true, none⟩
  else ⟨raw, some raw, false, none⟩

/-- The locals in scope, the outermost first. -/
structure ResolverContext where
  locals : List LocalName
  nextBindingId : Nat
  /-- what the file's `let` declarations bind -/
  fileLets : List LocalName

/-- The first local of a name. -/
def binder (locals : List LocalName) (name : String) : Option LocalName :=
  locals.find? (·.canonical = some name)

/-- The names that can be used. -/
def accessible (locals : List LocalName) : List String :=
  locals.filterMap LocalName.canonical

namespace ResolverContext

variable (context : ResolverContext)

/-- `FileLets::get`: the index of the file's names has the last binder of each. -/
def fileLet (name : String) : Option LocalName :=
  binder context.fileLets.reverse name

/-- The scan, after the names `before` of the group. -/
def scanShadowing (before : List LocalName) : List LocalName → Option (LocalName × LocalName)
  | [] => none
  | name :: pending =>
    match name.canonical.bind fun canonical =>
      (context.fileLet canonical).or (binder (context.locals ++ before) canonical) with
    | some existing => some (name, existing)
    | none => scanShadowing (before ++ [name]) pending

/-- Takes a local into the index, unless there is one of its name. -/
def orInsert (binders : String → Option LocalName) (existing : LocalName) :
    String → Option LocalName :=
  match existing.canonical with
  | none => binders
  | some canonical => Function.update binders canonical ((binders canonical).or (some existing))

/-- The search with an index, which takes in the names that shadow nothing. -/
def findIndexed (binders : String → Option LocalName) :
    List LocalName → Option (LocalName × LocalName)
  | [] => none
  | name :: pending =>
    match name.canonical with
    | none => findIndexed binders pending
    | some canonical =>
      match context.fileLet canonical, binders canonical with
      | some existing, _ => some (name, existing)
      | none, some existing => some (name, existing)
      | none, none => findIndexed (Function.update binders canonical (some name)) pending

/-- The search with an index of the locals. -/
def indexedShadowing (pending : List LocalName) : Option (LocalName × LocalName) :=
  context.findIndexed (context.locals.foldl orInsert fun _ => none) pending

/-- The first of a group of names that shadows a binder, and the binder it shadows. -/
def firstShadowing (pending : List LocalName) : Option (LocalName × LocalName) :=
  -- few names or few comparisons: building an index does not pay
  if pending.length ≤ 8 ∨ pending.length * (context.locals.length + pending.length) ≤ 256 then
    context.scanShadowing [] pending
  else context.indexedShadowing pending

/-- The context with the names as locals, each with a binding of its own. -/
def extend (pending : List LocalName) : ResolverContext :=
  { context with
    locals := context.locals ++ (pending.zipIdx context.nextBindingId).map fun (name, binding) =>
      { name with binding := some binding }
    nextBindingId := context.nextBindingId + pending.length }

/-- Takes a group of names into scope, unless one of them shadows a binder. -/
def extendSourceBindings (names : List String) : Except String ResolverContext :=
  let pending := names.map localNameMetadata
  match context.firstShadowing pending with
  | some (name, existing) => .error ("local `" ++ name.raw ++ "` shadows existing local `" ++
      existing.raw ++ "`; local name shadowing is not allowed")
  | none => .ok (context.extend pending)

/-! ### The index -/

theorem orInsert_binder (locals : List LocalName) (existing : LocalName) :
    orInsert (binder locals) existing = binder (locals ++ [existing]) := by
  funext name
  unfold orInsert binder
  rw [List.find?_append, List.find?_singleton]
  cases existing.canonical with
  | none => simp
  | some canonical =>
    by_cases hname : name = canonical
    · simp [hname]
    · simp [hname, Ne.symm hname]

theorem foldl_orInsert (locals : List LocalName) :
    locals.foldl orInsert (fun _ => none) = binder locals := by
  induction locals using List.reverseRecOn with
  | nil => rfl
  | append_singleton locals existing ih =>
    rw [List.foldl_append, ih]
    exact orInsert_binder locals existing

/-- **The indexed search finds what the scan finds.** -/
theorem findIndexed_eq (before pending : List LocalName) :
    context.findIndexed (binder (context.locals ++ before)) pending =
      context.scanShadowing before pending := by
  induction pending generalizing before with
  | nil => rfl
  | cons name pending ih =>
    -- where nothing is found, the index takes in what the scan leaves behind
    have hnext := ih (before ++ [name])
    rw [← List.append_assoc, ← orInsert_binder, orInsert] at hnext
    rw [findIndexed, scanShadowing]
    cases hcanonical : name.canonical with
    | none =>
      rw [hcanonical] at hnext
      exact hnext
    | some canonical =>
      rw [hcanonical] at hnext
      dsimp only [Option.bind_some] at hnext ⊢
      cases context.fileLet canonical with
      | some => rfl
      | none =>
        cases hindex : binder (context.locals ++ before) canonical with
        | some => rfl
        | none =>
          rw [hindex] at hnext
          exact hnext

/-! ### What is reported, and what is fresh -/

/-- The file's binders, the last of them first, and the locals. -/
def binders : List LocalName :=
  context.fileLets.reverse ++ context.locals

/-- Names that no binder has, each once. -/
def Fresh (binders names : List LocalName) : Prop :=
  (accessible names).Nodup ∧ (accessible binders).Disjoint (accessible names)

variable {locals names : List LocalName}

theorem fresh_nil : Fresh locals [] :=
  ⟨List.nodup_nil, List.disjoint_nil_right _⟩

theorem Fresh.cons {name : LocalName} (h : Fresh (locals ++ [name]) names)
    (hname : name.canonical.bind (binder locals) = none) : Fresh locals (name :: names) := by
  unfold Fresh accessible at *
  rw [List.filterMap_append, List.disjoint_append_left] at h
  rw [List.filterMap_cons]
  cases hcanonical : name.canonical with
  | none => exact ⟨h.1, h.2.1⟩
  | some canonical => simp_all [binder]

/-- The scan reports the first name that is not fresh, by induction over the group with the names
before it. -/
theorem scanShadowing_spec (before pending : List LocalName) :
    match context.scanShadowing before pending with
    | some (name, existing) => ∃ front back, pending = front ++ name :: back ∧
        Fresh (context.binders ++ before) front ∧
        name.canonical.bind (binder (context.binders ++ before ++ front)) = some existing
    | none => Fresh (context.binders ++ before) pending := by
  induction pending generalizing before with
  | nil => exact fresh_nil
  | cons name pending ih =>
    -- one search through the file's binders, the locals and the names before
    have hbinder : (fun canonical => (context.fileLet canonical).or
        (binder (context.locals ++ before) canonical)) = binder (context.binders ++ before) := by
      funext canonical
      rw [binders, List.append_assoc]
      exact List.find?_append.symm
    rw [scanShadowing, hbinder]
    cases hname : name.canonical.bind (binder (context.binders ++ before)) with
    | some => exact ⟨[], pending, rfl, fresh_nil, by rwa [List.append_nil]⟩
    | none =>
      have hrest := ih (before ++ [name])
      rw [← List.append_assoc] at hrest
      dsimp only
      generalize context.scanShadowing (before ++ [name]) pending = found at hrest ⊢
      cases found with
      | none => exact hrest.cons hname
      | some =>
        obtain ⟨front, back, rfl, hfront, hexisting⟩ := hrest
        rw [List.append_assoc] at hexisting
        exact ⟨name :: front, back, rfl, hfront.cons hname, hexisting⟩

theorem accessible_extend (pending : List LocalName) :
    accessible (context.extend pending).binders =
      accessible context.binders ++ accessible pending := by
  have hpending := List.zipIdx_map_fst context.nextBindingId pending
  simp only [accessible, binders, extend, List.filterMap_append, List.append_assoc,
    List.filterMap_map]
  conv_rhs => rw [← hpending, List.filterMap_map]
  rfl

theorem indexedShadowing_eq (pending : List LocalName) :
    context.indexedShadowing pending = context.scanShadowing [] pending := by
  have hindexed := context.findIndexed_eq [] pending
  rw [List.append_nil] at hindexed
  rw [indexedShadowing, foldl_orInsert, hindexed]

theorem firstShadowing_eq (pending : List LocalName) :
    context.firstShadowing pending = context.scanShadowing [] pending := by
  rw [firstShadowing, indexedShadowing_eq, ite_self]

/-- **The two searches agree.** They report the first name of the group that a binder of the context
or an earlier name binds, with the first that does. Where they report none, the accessible names of
the context stay distinct. -/
theorem firstShadowing_spec (pending : List LocalName) :
    context.scanShadowing [] pending = context.firstShadowing pending ∧
      context.indexedShadowing pending = context.firstShadowing pending ∧
      match context.firstShadowing pending with
      | some (name, existing) => ∃ before after, pending = before ++ name :: after ∧
          Fresh context.binders before ∧
          name.canonical.bind (binder (context.binders ++ before)) = some existing
      | none => Fresh context.binders pending ∧ ((accessible context.binders).Nodup →
          (accessible (context.extend pending).binders).Nodup) := by
  have hscan := context.scanShadowing_spec [] pending
  rw [List.append_nil] at hscan
  rw [firstShadowing_eq, indexedShadowing_eq]
  refine ⟨rfl, rfl, ?_⟩
  generalize context.scanShadowing [] pending = found at hscan ⊢
  cases found with
  | some => exact hscan
  | none =>
    refine ⟨hscan, fun hnodup => ?_⟩
    rw [accessible_extend]
    exact hnodup.append hscan.1 hscan.2

/-! ### Groups of names -/

/-- No two binders in scope have one name, and no two locals one binding. -/
structure WellScoped (context : ResolverContext) : Prop where
  names : (accessible context.binders).Nodup
  bindings : (context.locals.filterMap LocalName.binding).Nodup
  fresh : ∀ binding ∈ context.locals.filterMap LocalName.binding, binding < context.nextBindingId

theorem bindings_extend (pending : List LocalName) :
    (context.extend pending).locals.filterMap LocalName.binding =
      context.locals.filterMap LocalName.binding ++
        List.range' context.nextBindingId pending.length := by
  rw [extend, List.filterMap_append, List.filterMap_map, ← List.zipIdx_map_snd,
    ← List.filterMap_eq_map]
  rfl

/-- A fresh group keeps names and bindings distinct. -/
theorem WellScoped.extend {context : ResolverContext} (h : context.WellScoped)
    (hfresh : Fresh context.binders names) : (context.extend names).WellScoped where
  names := by
    rw [accessible_extend]
    exact h.names.append hfresh.1 hfresh.2
  bindings := by
    rw [bindings_extend]
    refine h.bindings.append List.nodup_range' fun binding hold hnew => ?_
    -- the new bindings are not below the next one
    exact absurd (h.fresh binding hold) (Nat.not_lt.mpr (List.mem_range'_1.mp hnew).1)
  fresh := by
    rw [bindings_extend]
    refine List.forall_mem_append.mpr ⟨fun binding hold => ?_, fun binding hnew => ?_⟩
    · exact Nat.lt_add_right _ (h.fresh binding hold)
    · exact (List.mem_range'_1.mp hnew).2

/-- **A group is taken exactly if its names are fresh.** What is reported of one that is not are the
first name that is bound already, by the context or by the group, and its binder. -/
theorem extendSourceBindings_spec (group : List String) :
    match context.extendSourceBindings group with
    | .ok extended => Fresh context.binders (group.map localNameMetadata) ∧
        extended = context.extend (group.map localNameMetadata)
    | .error message => ∃ before name after existing,
        group.map localNameMetadata = before ++ name :: after ∧ Fresh context.binders before ∧
        name.canonical.bind (binder (context.binders ++ before)) = some existing ∧
        message = "local `" ++ name.raw ++ "` shadows existing local `" ++ existing.raw ++
          "`; local name shadowing is not allowed" := by
  have hscan := context.scanShadowing_spec [] (group.map localNameMetadata)
  rw [List.append_nil] at hscan
  unfold extendSourceBindings
  simp only [firstShadowing_eq]
  generalize context.scanShadowing [] (group.map localNameMetadata) = found at hscan ⊢
  cases found with
  | none => exact ⟨hscan, rfl⟩
  | some shadowing =>
    obtain ⟨before, after, hgroup, hfresh, hexisting⟩ := hscan
    exact ⟨before, shadowing.1, after, shadowing.2, hgroup, hfresh, hexisting, rfl⟩

/-- **Names and bindings stay distinct** along any groups that a resolver takes. -/
theorem extendSourceBindings_wellScoped {context last : ResolverContext} (h : context.WellScoped)
    {groups : List (List String)}
    (hgroups : groups.foldlM extendSourceBindings context = .ok last) :
    last.WellScoped := by
  induction groups generalizing context with
  | nil => cases hgroups; exact h
  | cons group groups ih =>
    rw [List.foldlM_cons] at hgroups
    have hspec := context.extendSourceBindings_spec group
    cases hgroup : context.extendSourceBindings group with
    | error => rw [hgroup] at hgroups; cases hgroups
    | ok extended =>
      rw [hgroup] at hgroups hspec
      obtain ⟨hfresh, rfl⟩ := hspec
      exact ih (h.extend hfresh) hgroups

end ResolverContext

end Glam.Syntax
