import Glam.Eval.Answers

/-!
# The pattern builtins

The builtins that compiled patterns call (`eval/pattern_machine.rs`): whether a value is a list, a
dictionary or empty, the first and the last item of a list, a member of a dictionary by its path,
and whether a value is a literal or a path. Each looks at the representation of its subject: a text
is a list to all of them, while an atom is no dictionary to any.

As in the comparison the subjects have been evaluated, so a demand is ready at once. The list
builtins and the two comparisons are polled machines, since a list may have lazy chunks to force; a
dictionary's path is walked by recursion over its keys, and the frames the source keeps for the way
back are the recursion's own. Paths have been converted to keys, and the compiler passes no literals
but atoms, numbers and texts.

Each builtin has one lemma here, which says what it answers in terms of the key its subject stands
for. The two halves of an answer that takes a value apart are related to keys by `PartsFor`.
-/

namespace Glam.Eval

/-! ### The last item of a list -/

/-- The bytes as a chunk, if there are any. -/
def Chunk.ofBytes : List UInt8 → Option Chunk
  | [] => none
  | first :: rest => some (.bytes first rest)

/-- The values as a chunk, if there are any. -/
def Chunk.ofValues : List Value → Option Chunk
  | [] => none
  | first :: rest => some (.values first rest)

/-- The last item of a chunk and the chunk of the others, if any. -/
def Chunk.popBack : Chunk → Option Chunk × ListItem
  | .bytes first rest => (Chunk.ofBytes (first :: rest).dropLast, .byte (rest.getLastD first))
  | .values first rest => (Chunk.ofValues (first :: rest).dropLast, .value (rest.getLastD first))

/-- `pop_leaf_back_by`: the last item of a leaf and the rest of it. -/
def Leaf.popBack : Leaf → Rope × ListItem
  | .slice (.bytes first rest) =>
    (.fromBytes (first :: rest).dropLast, .byte (rest.getLastD first))
  | .slice (.values first rest) =>
    (.fromValueSlice (first :: rest).dropLast, .value (rest.getLastD first))
  | .finger first rest =>
    let last := (rest.getLastD first).popBack
    (.fromFinger ((first :: rest).dropLast ++ last.1.toList), last.2)

/-- The last leaf of a list, or the lazy chunk after it. -/
inductive ListBackLeafStep
  | empty
  | leaf (init : Rope) (leaf : Leaf)
  | deferred (before : Rope) (chunk : Value)

/-- The last item of a list, or the lazy chunk after it. -/
inductive ListBackStep
  | empty
  | item (init : Rope) (item : ListItem)
  | deferred (before : Rope) (chunk : Value)

namespace Rope

/-- `join_logical_prefix`: the left siblings met on the way down, nearest first, as one list. -/
def joinLogicalPrefix (pending : List Rope) : Rope :=
  pending.foldr (fun next joined => concatenate joined next) .empty

/-- `pop_back_leaf_step`. Its worklist is the list being looked at and, below it, `pending`. -/
def popBackLeafStep : Rope → List Rope → ListBackLeafStep
  | .empty, _ => .empty
  | .leaf last, pending => .leaf (joinLogicalPrefix pending) last
  | .thunk chunk, pending => .deferred (joinLogicalPrefix pending) chunk
  | .concat left right, pending =>
    match right.popBackLeafStep (left :: pending) with
    -- the worklist has come down to `left`
    | .empty => left.popBackLeafStep pending
    | step => step

/-- `pop_back_step_by`. -/
def popBackStep (list : Rope) : ListBackStep :=
  match list.popBackLeafStep [] with
  | .empty => .empty
  | .leaf init last => .item (concatenate init last.popBack.1) last.popBack.2
  | .deferred before chunk => .deferred before chunk

end Rope

/-- `RegionalListBack`: a list whose last item is asked for, and the lazy chunk it waits for with
the list before the chunk. -/
structure ListBack where
  current : Rope
  chunk : Option (Rope × Value)

/-- What a poll for a list's last item returns. -/
inductive ListBackPoll
  | ready (back : Option (Rope × Value))
  | again (back : ListBack)
  | failed (failure : ComparisonFailure)

/-- `RegionalListBack::new_in`. -/
def ListBack.new (list : Rope) : ListBack := ⟨list, none⟩

/-- `RegionalListBack::poll_in`. -/
def ListBack.poll (back : ListBack) : ListBackPoll :=
  match back.chunk with
  | some (before, chunk) =>
    match valueAsList chunk.whnf true with
    | .ok list => .again ⟨.concatenate before list, none⟩
    | .error _ => .failed (.lazyListChunk chunk.whnf)
  | none =>
    match back.current.popBackStep with
    | .empty => .ready none
    | .item init item => .ready (some (init, item.toValue))
    | .deferred before chunk => .again { back with chunk := some (before, chunk) }

/-! ### The builtins -/

/-- How a pattern builtin ends with an error. -/
inductive PatternFailure
  | list (failure : ComparisonFailure)
  | path (failure : ConversionFailure)
  /-- "pattern-dict-try-take received an empty compiler path" -/
  | emptyPath
  | panicked

/-- What a pattern builtin answers: the effect `.fail`, the effect `.r ()`, or the effect `.r` of
the two parts it has taken its subject into. -/
inductive PatternResult
  | fails
  | succeeds
  | parts (first second : Value)
  | failed (failure : PatternFailure)

/-- `pattern_predicate_in`. -/
def patternPredicate (passes : Bool) : PatternResult := if passes then .succeeds else .fails

/-- The pattern builtins on lists. -/
inductive PatternListOperation
  | isList
  | tryUncons
  | tryUnsnoc
  | isEmpty

/-- Where a pattern builtin on a list is. -/
inductive PatternListState
  | source (source : Value)
  | front (front : ListFront)
  | back (back : ListBack)

namespace PatternListOperation

/-- The result of a list builtin on a binary. -/
def finishBinary (bytes : List UInt8) : PatternListOperation → PatternResult
  | .isList => patternPredicate true
  | .isEmpty => patternPredicate bytes.isEmpty
  | .tryUncons =>
    match bytes with
    | first :: rest => .parts (.number first.toNat) (.binary rest)
    | [] => .fails
  | .tryUnsnoc =>
    match bytes.getLast? with
    | some last => .parts (.binary bytes.dropLast) (.number last.toNat)
    | none => .fails

/-- The result of a list builtin that looks at the first item. -/
def finishFront (item : Option (Value × Rope)) : PatternListOperation → PatternResult
  | .isEmpty => patternPredicate item.isNone
  | .tryUncons =>
    match item with
    | some (head, tail) => .parts head (.list tail)
    | none => .fails
  | .isList | .tryUnsnoc => .failed .panicked

/-- The result of a list builtin that looks at the last item. -/
def finishBack : Option (Rope × Value) → PatternResult
  | some (init, last) => .parts (.list init) last
  | none => .fails

/-- `RegionalPatternListMachine::poll_in`. -/
def poll (operation : PatternListOperation) : PatternListState → PatternListState ⊕ PatternResult
  | .source source =>
    match source.whnf with
    | .binary bytes => .inr (operation.finishBinary bytes)
    | .list items =>
      match operation with
      -- that a value is a list is known before any of its chunks is forced
      | .isList => .inr (patternPredicate true)
      | .tryUncons | .isEmpty => .inl (.front (.new items))
      | .tryUnsnoc => .inl (.back (.new items))
    | _ => .inr .fails
  | .front front =>
    match front.poll with
    | .ready item => .inr (operation.finishFront item)
    | .again front => .inl (.front front)
    | .failed failure => .inr (.failed (.list failure))
  | .back back =>
    match back.poll with
    | .ready item => .inr (finishBack item)
    | .again back => .inl (.back back)
    | .failed failure => .inr (.failed (.list failure))

end PatternListOperation

/-- The literals of patterns. -/
inductive PatternLiteral
  | atom (key : Key)
  | number (value : Rat)
  | binary (bytes : List UInt8)

/-- Where the comparison with a literal is. A list is compared with a binary byte by byte. -/
inductive PatternEqualState
  | subject (actual : Value)
  | list (front : ListFront) (byteIndex : Nat)
  | item (item : Value) (tail : Rope) (byteIndex : Nat)

/-- **`RegionalPatternEqualMachine::poll_in`.** A text is compared with a list item by item. -/
def PatternLiteral.poll (literal : PatternLiteral) :
    PatternEqualState → PatternEqualState ⊕ PatternResult
  | .subject actual =>
    match literal, actual.whnf with
    | .atom expected, .atom actual => .inr (patternPredicate (expected = actual))
    | .number expected, .number actual => .inr (patternPredicate (expected = actual))
    | .binary expected, .binary actual => .inr (patternPredicate (expected = actual))
    | .binary _, .list items => .inl (.list (.new items) 0)
    | _, _ => .inr .fails
  | .item item tail index =>
    match literal with
    | .binary expected =>
      match expected[index]?, item.whnf with
      | some byte, .number value =>
        if value = byte.toNat then .inl (.list (.new tail) (index + 1)) else .inr .fails
      | some _, _ => .inr .fails
      | none, _ => .inr (.failed .panicked)
    | _ => .inr (.failed .panicked)
  | .list front index =>
    match literal with
    | .binary expected =>
      match front.poll with
      | .ready none => .inr (patternPredicate (index = expected.length))
      -- a longer list is refused without evaluating the item that is too many
      | .ready (some (item, tail)) =>
        if index = expected.length then .inr .fails else .inl (.item item tail index)
      | .again front => .inl (.list front index)
      | .failed failure => .inr (.failed (.list failure))
    | _ => .inr (.failed .panicked)

/-- Where the comparison with a path is. -/
inductive PatternPathState
  | subject (actual : Value)
  | keys (actual : KeyConversion)

/-- `RegionalPatternPathMachine::poll_in`. The items of a list are compared as keys. -/
def patternPathPoll (expected : List Key) : PatternPathState → PatternPathState ⊕ PatternResult
  | .subject actual =>
    match actual.whnf with
    | .binary bytes => .inr (patternPredicate (expected = bytes.map Key.byte))
    | .list items => .inl (.keys ⟨.list ⟨none, [items], none, none, []⟩, []⟩)
    | _ => .inr .fails
  | .keys actual =>
    match actual.poll with
    | .inl actual => .inl (.keys actual)
    | .inr (.ok (some (.list keys))) => .inr (patternPredicate (expected = keys))
    | .inr (.ok (some _)) => .inr (.failed .panicked)
    | .inr (.ok none) => .inr .fails
    | .inr (.error failure) => .inr (.failed (.path failure))

/-- Whether a value is a dictionary. -/
def patternIsDict (source : Value) : PatternResult :=
  match source.whnf with
  | .dict .. => patternPredicate true
  | _ => patternPredicate false

/-- Whether a value is the dictionary without entries. -/
def patternDictIsEmpty (source : Value) : PatternResult :=
  match source.whnf with
  | .dict keys _ _ => patternPredicate keys.isEmpty
  | _ => patternPredicate false

/-- The entries of a dictionary, in the order of their keys. -/
structure Entries where
  list : List (Key × Value)
  ordered : (list.map Prod.fst).Pairwise fun left right => left.compare right = .lt

/-- What walking a path down a dictionary finds: no member, a member on the way that is no
dictionary, or the member and what is left without it. -/
inductive Taken (α β : Type)
  | absent
  | blocked
  | found (value : α) (rest : β)

namespace Entries

/-- The entries of a dictionary value. -/
def of (keys : List Key) (ordered : keys.Pairwise fun left right => left.compare right = .lt)
    (members : Fin keys.length → Value) : Entries :=
  ⟨dictEntries keys members, by simpa using ordered⟩

/-- The dictionary of some entries. -/
def toValue (entries : Entries) : Value :=
  .dict (entries.list.map Prod.fst) entries.ordered fun i =>
    (entries.list.get (i.cast (by simp))).2

/-- The entries but one. -/
def remove (entries : Entries) (key : Key) : Entries where
  list := entries.list.filter fun entry => entry.1 ≠ key
  ordered := entries.ordered.sublist (List.filter_sublist.map _)

/-- `insert` at a key that has a member. -/
def replace (entries : Entries) (key : Key) (value : Value) : Entries where
  list := entries.list.map fun entry => if entry.1 = key then (entry.1, value) else entry
  ordered := by
    have hkeys : (entries.list.map fun entry =>
        if entry.1 = key then (entry.1, value) else entry).map Prod.fst =
          entries.list.map Prod.fst := by
      rw [List.map_map]
      refine List.map_congr_left fun entry _ => ?_
      by_cases h : entry.1 = key <;> simp [h]
    rw [hkeys]
    exact entries.ordered

/-- The walk of `RegionalPatternDictTakeMachine` from a dictionary, and the way back of
`finish_found`: a dictionary that is left empty is removed from its parent. -/
def take (entries : Entries) (key : Key) : List Key → Taken Value Entries
  | [] =>
    match entries.list.lookup key with
    | none => .absent
    | some value => .found value (entries.remove key)
  | next :: path =>
    match entries.list.lookup key with
    | none => .absent
    | some value =>
      match value.whnf with
      | .dict keys ordered members =>
        match (of keys ordered members).take next path with
        | .absent => .absent
        | .blocked => .blocked
        | .found value rest =>
          .found value
            (if rest.list.isEmpty then entries.remove key else entries.replace key rest.toValue)
      | _ => .blocked

end Entries

/-- **`RegionalPatternDictTakeMachine`.** A path that is absent is a failure, or for an optional
entry the empty list and the whole dictionary. -/
def patternDictTryTake (optional : Bool) (path : List Key) (source : Value) : PatternResult :=
  match path with
  | [] => .failed .emptyPath
  | key :: path =>
    match source.whnf with
    | .dict keys ordered members =>
      match (Entries.of keys ordered members).take key path with
      | .absent => if optional then .parts (.list .empty) source.whnf else .fails
      -- a member that is no dictionary is no absence, so optional entries fail there too
      | .blocked => .fails
      | .found value rest =>
        .parts (if optional then .list (.fromValueSlice [value]) else value) rest.toValue
    | _ => .fails

/-! ### What the builtins answer, by keys -/

theorem valueKeys?_append (left right : List Value) :
    valueKeys? (left ++ right) = do return (← valueKeys? left) ++ (← valueKeys? right) := by
  induction left with
  | nil => cases h : valueKeys? right <;> simp [valueKeys?, h]
  | cons value left ih =>
    simp only [List.cons_append, valueKeys?, ih]
    cases value.key? <;> cases valueKeys? left <;> cases valueKeys? right <;> rfl

theorem chunkKeys?_append_eq (left right : List Chunk) :
    chunkKeys? (left ++ right) = do return (← chunkKeys? left) ++ (← chunkKeys? right) := by
  induction left with
  | nil => cases h : chunkKeys? right <;> simp [chunkKeys?, h]
  | cons chunk left ih =>
    simp only [List.cons_append, chunkKeys?, ih]
    cases chunk.keys? <;> cases chunkKeys? left <;> cases chunkKeys? right <;> simp

theorem dropLast_append_getLastD {α : Type} (first : α) (rest : List α) :
    (first :: rest).dropLast ++ [rest.getLastD first] = first :: rest := by
  rw [← List.getLast_eq_getLastD]
  exact List.dropLast_append_getLast (List.cons_ne_nil first rest)

theorem Chunk.keys?_bytes (first : UInt8) (rest : List UInt8) :
    (Chunk.bytes first rest).keys? =
      some ((first :: rest).dropLast.map Key.byte ++ [Key.byte (rest.getLastD first)]) := by
  rw [Chunk.keys?]
  conv_lhs => rw [← List.map_cons, ← dropLast_append_getLastD first rest, List.map_append]
  rfl

theorem Chunk.keys?_values {first : Value} {rest : List Value} {keys : List Key}
    (h : (Chunk.values first rest).keys? = some keys) :
    ∃ init last, keys = init ++ [last] ∧ valueKeys? (first :: rest).dropLast = some init ∧
      (rest.getLastD first).key? = some last := by
  have h' : valueKeys? (first :: rest) = some keys := h
  rw [← dropLast_append_getLastD first rest, valueKeys?_append] at h'
  simp only [valueKeys?, Option.pure_def, Option.bind_eq_bind, Option.bind_eq_some_iff,
    Option.some.injEq] at h'
  obtain ⟨init, hinit, _, ⟨last, hlast, _, rfl, rfl⟩, rfl⟩ := h'
  exact ⟨init, last, rfl, hinit, hlast⟩

/-- The last item of a chunk, and the chunk without it. -/
theorem Chunk.popBack_spec {chunk : Chunk} {keys : List Key} (h : chunk.keys? = some keys) :
    ∃ init last, keys = init ++ [last] ∧ chunkKeys? chunk.popBack.1.toList = some init ∧
      chunk.popBack.2.key? = some last := by
  cases chunk with
  | bytes first rest =>
    rw [keys?_bytes, Option.some.injEq] at h
    refine ⟨_, _, h.symm, ?_, rfl⟩
    rw [popBack]
    cases (first :: rest).dropLast <;> simp [ofBytes, chunkKeys?, Chunk.keys?]
  | values first rest =>
    obtain ⟨init, last, rfl, hinit, hlast⟩ := keys?_values h
    refine ⟨init, last, rfl, ?_, hlast⟩
    rw [popBack]
    cases hdrop : (first :: rest).dropLast with
    | nil => simpa [ofValues, chunkKeys?, valueKeys?, hdrop] using hinit
    | cons value values =>
      rw [hdrop] at hinit
      have hchunk : (Chunk.values value values).keys? = some init := hinit
      simp [ofValues, chunkKeys?, hchunk]

/-- The last item of a leaf, and the leaf without it. -/
theorem Leaf.popBack_spec {leaf : Leaf} {keys : List Key} (h : leaf.keys? = some keys) :
    ∃ init last, keys = init ++ [last] ∧ leaf.popBack.1.keys? = some init ∧
      leaf.popBack.2.key? = some last ∧ leaf.popBack.1.thunks = 0 := by
  cases leaf with
  | slice chunk =>
    rw [Leaf.keys?] at h
    cases chunk with
    | bytes =>
      rw [Chunk.keys?_bytes, Option.some.injEq] at h
      exact ⟨_, _, h.symm, by rw [popBack, Rope.keys?_fromBytes], rfl, by simp [popBack]⟩
    | values =>
      obtain ⟨init, last, rfl, hinit, hlast⟩ := Chunk.keys?_values h
      exact ⟨init, last, rfl, by rw [popBack, Rope.keys?_fromValueSlice, hinit], hlast,
        by simp [popBack]⟩
  | finger first rest =>
    have h' : chunkKeys? (first :: rest) = some keys := h
    rw [← dropLast_append_getLastD first rest, chunkKeys?_append_eq] at h'
    simp only [chunkKeys?, Option.pure_def, Option.bind_eq_bind, Option.bind_eq_some_iff,
      Option.some.injEq] at h'
    obtain ⟨inits, hinits, _, ⟨lasts, hlasts, _, rfl, rfl⟩, rfl⟩ := h'
    obtain ⟨init, last, rfl, hinit, hlast⟩ := Chunk.popBack_spec hlasts
    refine ⟨inits ++ init, last, by simp, ?_, hlast, by simp [popBack]⟩
    rw [popBack, Rope.keys?_fromFinger]
    exact chunkKeys?_append hinits hinit

namespace Rope

theorem thunks_joinLogicalPrefix_cons (next : Rope) (pending : List Rope) :
    (joinLogicalPrefix (next :: pending)).thunks =
      (joinLogicalPrefix pending).thunks + next.thunks :=
  thunks_concatenate _ next

/-- What the last leaf step leaves of a list `ks` long, with `ps` pending before it. -/
def BackLeafStepSpec (step : ListBackLeafStep) (ps ks : List Key) (thunks : Nat) : Prop :=
  match step with
  | .empty => ks = []
  | .leaf init last => ∃ is ls, init.keys? = some is ∧ last.keys? = some ls ∧
      ps ++ ks = is ++ ls ∧ init.thunks ≤ thunks
  | .deferred before chunk => ∃ bs cs, before.keys? = some bs ∧ chunk.listKeys? = some cs ∧
      ps ++ ks = bs ++ cs ∧ before.thunks + chunk.thunks < thunks

theorem BackLeafStepSpec.mono {step : ListBackLeafStep} {ps ks : List Key} {thunks more : Nat}
    (h : BackLeafStepSpec step ps ks thunks) (hmore : thunks ≤ more) :
    BackLeafStepSpec step ps ks more := by
  cases step with
  | empty => exact h
  | leaf =>
    obtain ⟨is, ls, his, hls, hsplit, hthunks⟩ := h
    exact ⟨is, ls, his, hls, hsplit, hthunks.trans hmore⟩
  | deferred =>
    obtain ⟨bs, cs, hbs, hcs, hsplit, hthunks⟩ := h
    exact ⟨bs, cs, hbs, hcs, hsplit, hthunks.trans_le hmore⟩

/-- Taking the last leaf off a list keeps its keys and leaves fewer thunks. -/
theorem popBackLeafStep_spec : ∀ {list : Rope} {pending : List Rope} {ps ks : List Key},
    (joinLogicalPrefix pending).keys? = some ps → list.keys? = some ks →
    BackLeafStepSpec (list.popBackLeafStep pending) ps ks
      ((joinLogicalPrefix pending).thunks + list.thunks)
  | .empty, _, _, _, _, hks => by
    simpa [popBackLeafStep, BackLeafStepSpec, keys?] using hks.symm
  | .leaf _, _, ps, ks, hps, hks => ⟨ps, ks, hps, hks, rfl, by simp [thunks]⟩
  | .thunk _, _, ps, ks, hps, hks => ⟨ps, ks, hps, hks, rfl, by simp [thunks]⟩
  | .concat left right, pending, ps, ks, hps, hks => by
    simp only [keys?, Option.pure_def, Option.bind_eq_bind, Option.bind_eq_some_iff,
      Option.some.injEq] at hks
    obtain ⟨ls, hls, rs, hrs, rfl⟩ := hks
    -- the right part is searched with the left one pending
    have hpending : (joinLogicalPrefix (left :: pending)).keys? = some (ps ++ ls) :=
      keys?_concatenate hps hls
    have hright := popBackLeafStep_spec hpending hrs
    rw [thunks_joinLogicalPrefix_cons, Nat.add_assoc] at hright
    rw [popBackLeafStep]
    cases hstep : right.popBackLeafStep (left :: pending) with
    | empty =>
      -- nothing on the right: the search is made again on the left, with nothing added before it
      rw [hstep] at hright
      obtain rfl : rs = [] := hright
      have hleft := popBackLeafStep_spec hps hls
      rw [List.append_nil]
      exact hleft.mono (by simp [thunks])
    | leaf | deferred =>
      rw [hstep] at hright
      simpa only [BackLeafStepSpec, thunks, List.append_assoc] using hright

end Rope

/-- The last item and the others, of a list with the given keys. -/
def BackFor : Option (Rope × Value) → List Key → Prop
  | none, keys => keys = []
  | some (init, item), keys => ∃ rest key, keys = rest ++ [key] ∧ init.keys? = some rest ∧
      item.key? = some key

/-- A machine that polls for a list's last item gets it, after as many polls as it takes. -/
theorem back_leads {M R : Type} {poll : M → M ⊕ R} (wrap : ListBack → M)
    (ready : Option (Rope × Value) → M ⊕ R)
    (hready : ∀ back item, back.poll = .ready item → poll (wrap back) = ready item)
    (hagain : ∀ back next, back.poll = .again next → poll (wrap back) = .inl (wrap next))
    (list : Rope) (keys : List Key) (hlist : list.keys? = some keys) :
    ∃ item, BackFor item keys ∧ Leads poll (wrap (.new list)) (ready item) := by
  -- each lazy chunk at the back is forced once
  induction hthunks : list.thunks using Nat.strong_induction_on generalizing list with
  | _ thunks ih =>
  subst hthunks
  have hspec := Rope.popBackLeafStep_spec
    (show (Rope.joinLogicalPrefix []).keys? = some [] from rfl) hlist
  cases hstep : list.popBackLeafStep [] with
  | empty =>
    rw [hstep] at hspec
    exact ⟨none, hspec,
      .of_eq (hready _ none (by simp only [ListBack.poll, ListBack.new, Rope.popBackStep, hstep]))⟩
  | leaf init last =>
    rw [hstep] at hspec
    obtain ⟨is, ls, his, hls, hsplit, -⟩ := hspec
    obtain ⟨rest, key, rfl, hrest, hkey, -⟩ := Leaf.popBack_spec hls
    refine ⟨some (_, last.popBack.2.toValue), ⟨is ++ rest, key, by simpa using hsplit,
      Rope.keys?_concatenate his hrest, hkey⟩, .of_eq (hready _ _ ?_)⟩
    simp only [ListBack.poll, ListBack.new, Rope.popBackStep, hstep]
  | deferred before chunk =>
    rw [hstep] at hspec
    obtain ⟨bs, cs, hbs, hcs, hsplit, hless⟩ := hspec
    obtain ⟨chunkList, hchunk, hkeys, hsame⟩ := valueAsList_chunk hcs
    -- the next poll forces the chunk and starts over, with a lazy chunk less
    have hforce : poll (wrap ⟨list, some (before, chunk)⟩) =
        .inl (wrap (.new (.concatenate before chunkList))) :=
      hagain _ _ (by simp only [ListBack.poll, hchunk, ListBack.new])
    have hjoined : (Rope.concatenate before chunkList).keys? = some keys := by
      rw [Rope.keys?_concatenate hbs hkeys, ← hsplit, List.nil_append]
    obtain ⟨item, hitem, hleads⟩ := ih _
      (by rw [Rope.thunks_concatenate]; simp [Rope.joinLogicalPrefix, Rope.thunks] at hless; omega)
      (.concatenate before chunkList) hjoined rfl
    refine ⟨item, hitem, .later (hagain _ ⟨list, some (before, chunk)⟩ ?_)
      (.later hforce hleads)⟩
    simp only [ListBack.poll, ListBack.new, Rope.popBackStep, hstep]

namespace Key

/-- The items of a key of a list. -/
def items? : Key → Option (List Key)
  | .binary bytes => some (bytes.map byte)
  | .list items => some items
  | _ => none

/-- The first item of a list or a text, and the others. -/
def uncons? : Key → Option (Key × Key)
  | .binary (first :: rest) => some (byte first, .binary rest)
  | .list (first :: rest) => some (first, .list rest)
  | _ => none

/-- The last item of a list or a text, and the others before it. -/
def unsnoc? : Key → Option (Key × Key)
  | .binary bytes => bytes.getLast?.map fun last => (.binary bytes.dropLast, byte last)
  | .list items => items.getLast?.map fun last => (.list items.dropLast, last)
  | _ => none

/-- Whether a key is a dictionary's. -/
def isDict : Key → Bool
  | .dict _ => true
  | _ => false

/-- The member at a path of a dictionary, and the dictionary without it. -/
def takeEntry (entries : List (Key × Key)) (key : Key) :
    List Key → Taken Key (List (Key × Key))
  | [] =>
    match entries.lookup key with
    | none => .absent
    | some value => .found value (entries.filter fun entry => entry.1 ≠ key)
  | next :: path =>
    match entries.lookup key with
    | none => .absent
    | some (.dict inner) =>
      match takeEntry inner next path with
      | .absent => .absent
      | .blocked => .blocked
      | .found value rest => .found value (if rest.isEmpty
          then entries.filter fun entry => entry.1 ≠ key
          else entries.map fun entry => if entry.1 = key then (entry.1, .dict rest) else entry)
    | some _ => .blocked

/-- What an entry of a dictionary pattern has to match, and what it leaves. -/
def take? (optional : Bool) (path : List Key) : Key → Option (Key × Key)
  | .dict entries =>
    match path with
    | [] => none
    | key :: path =>
      match takeEntry entries key path with
      | .absent => if optional then some (.list [], .dict entries) else none
      | .blocked => none
      | .found value rest => some (if optional then .list [value] else value, .dict rest)
  | _ => none

end Key

/-- The key of a literal. -/
def PatternLiteral.key : PatternLiteral → Key
  | .atom key => .atom key
  | .number value => .number value
  | .binary bytes => .binary bytes

/-- The literal accepts its own key, and a text the list of its bytes. -/
def PatternLiteral.Accepts (literal : PatternLiteral) (key : Key) : Prop :=
  key = literal.key ∨ ∃ bytes, literal = .binary bytes ∧ key = .list (bytes.map Key.byte)

/-- The parts are related to the keys expected of them, and there are none where none are
expected. -/
def PartsFor (expected : Option (Key × Key)) (result : PatternResult) : Prop :=
  match expected with
  | none => result = .fails
  | some (first, second) => ∃ value value', result = .parts value value' ∧
      value.key? = some first ∧ value'.key? = some second

section Specs

variable {value : Value} {key : Key}

theorem isList_spec (h : value.key? = some key) :
    Leads (PatternListOperation.poll .isList) (.source value)
      (.inr (patternPredicate key.items?.isSome)) := by
  refine .of_eq ?_
  obtain ⟨w, hw, hshape⟩ := Value.exists_keyShape h
  cases hshape <;>
    simp [PatternListOperation.poll, hw, PatternListOperation.finishBinary, Key.items?,
      patternPredicate]

/-- A list builtin that looks at the first item gets it. -/
theorem list_front_leads {operation : PatternListOperation} {items : Rope} {keys : List Key}
    (hitems : items.keys? = some keys)
    (hpoll : operation.poll (.source value) = .inl (.front (.new items))) :
    ∃ item, FrontFor item keys ∧
      Leads operation.poll (.source value) (.inr (operation.finishFront item)) := by
  have hagain : ∀ front next, front.poll = .again next →
      operation.poll (.front front) = .inl (.front next) := by
    intro front next h
    simp [PatternListOperation.poll, h]
  obtain ⟨_, item, hitem, hleads⟩ := front_leads PatternListState.front hagain
    (fun _ item => .inr (operation.finishFront item))
    (fun front item hready => by simp [PatternListOperation.poll, hready]) items keys hitems
  exact ⟨item, hitem, .later hpoll hleads⟩

/-- The builtin that tests for the empty list. -/
theorem isEmpty_spec (h : value.key? = some key) :
    Leads (PatternListOperation.poll .isEmpty) (.source value)
      (.inr (patternPredicate (key.items? = some []))) := by
  obtain ⟨w, hw, hshape⟩ := Value.exists_keyShape h
  cases hshape with
  | @list items keys hitems =>
    have hpoll : PatternListOperation.poll .isEmpty (.source value) =
        .inl (.front (.new items)) := by
      simp only [PatternListOperation.poll, hw]
    obtain ⟨item, hitem, hleads⟩ := list_front_leads hitems hpoll
    cases item with
    | none =>
      obtain rfl : keys = [] := hitem
      exact hleads
    | some =>
      obtain ⟨key, rest, rfl, -, -⟩ := hitem
      exact hleads
  | binary bytes =>
    refine .of_eq ?_
    cases bytes <;>
      simp [PatternListOperation.poll, hw, PatternListOperation.finishBinary, Key.items?]
  | _ =>
    refine .of_eq ?_
    simp [PatternListOperation.poll, hw, Key.items?, patternPredicate]

/-- The builtin that takes the first item. -/
theorem tryUncons_spec (h : value.key? = some key) :
    ∃ result, Leads (PatternListOperation.poll .tryUncons) (.source value) (.inr result) ∧
      PartsFor key.uncons? result := by
  obtain ⟨w, hw, hshape⟩ := Value.exists_keyShape h
  cases hshape with
  | @list items keys hitems =>
    have hpoll : PatternListOperation.poll .tryUncons (.source value) =
        .inl (.front (.new items)) := by
      simp only [PatternListOperation.poll, hw]
    obtain ⟨item, hitem, hleads⟩ := list_front_leads hitems hpoll
    refine ⟨_, hleads, ?_⟩
    cases item with
    | none =>
      obtain rfl : keys = [] := hitem
      rfl
    | some parts =>
      obtain ⟨key, rest, rfl, hkey, hrest⟩ := hitem
      exact ⟨parts.1, .list parts.2, rfl, hkey, by rw [Value.key?, hrest]; rfl⟩
  | binary bytes =>
    refine ⟨_, .of_eq (by rw [PatternListOperation.poll, hw]), ?_⟩
    cases bytes with
    | nil => rfl
    | cons => exact ⟨_, _, rfl, rfl, rfl⟩
  | _ => exact ⟨.fails, .of_eq (by simp only [PatternListOperation.poll, hw]), rfl⟩

/-- The builtin that takes the last item. -/
theorem tryUnsnoc_spec (h : value.key? = some key) :
    ∃ result, Leads (PatternListOperation.poll .tryUnsnoc) (.source value) (.inr result) ∧
      PartsFor key.unsnoc? result := by
  obtain ⟨w, hw, hshape⟩ := Value.exists_keyShape h
  cases hshape with
  | @list items keys hitems =>
    obtain ⟨item, hitem, hleads⟩ := @back_leads _ _ (PatternListOperation.poll .tryUnsnoc) .back
      (fun item => .inr (PatternListOperation.finishBack item))
      (fun back item hready => by simp [PatternListOperation.poll, hready])
      (fun back next hagain => by simp [PatternListOperation.poll, hagain]) items keys hitems
    refine ⟨_, .later (by simp only [PatternListOperation.poll, hw]) hleads, ?_⟩
    cases item with
    | none =>
      obtain rfl : keys = [] := hitem
      rfl
    | some parts =>
      obtain ⟨rest, key, rfl, hrest, hkey⟩ := hitem
      simp only [Key.unsnoc?, List.getLast?_append, List.getLast?_singleton, Option.some_or,
        Option.map_some, List.dropLast_concat]
      exact ⟨.list parts.1, parts.2, rfl, by rw [Value.key?, hrest]; rfl, hkey⟩
  | binary bytes =>
    refine ⟨_, .of_eq (by rw [PatternListOperation.poll, hw]), ?_⟩
    simp only [PatternListOperation.finishBinary, Key.unsnoc?]
    cases bytes.getLast? with
    | none => rfl
    | some => exact ⟨_, _, rfl, rfl, rfl⟩
  | _ => exact ⟨.fails, .of_eq (by simp only [PatternListOperation.poll, hw]), rfl⟩

/-- What the comparison of a text with a list does with the next item. -/
def afterItem (bytes : List UInt8) (index : Nat) :
    Option (Value × Rope) → PatternEqualState ⊕ PatternResult
  | none => .inr (patternPredicate (index = bytes.length))
  | some (item, tail) =>
    if index = bytes.length then .inr .fails else .inl (.item item tail index)

/-- The comparison with a text gets the next item of the list. -/
theorem equal_front_leads (bytes : List UInt8) (index : Nat) {items : Rope} {keys : List Key}
    (hitems : items.keys? = some keys) :
    ∃ item, FrontFor item keys ∧
      Leads (PatternLiteral.binary bytes).poll (.list (.new items) index)
        (afterItem bytes index item) := by
  have hagain : ∀ front next, front.poll = .again next →
      (PatternLiteral.binary bytes).poll (.list front index) = .inl (.list next index) := by
    intro front next h
    simp [PatternLiteral.poll, h]
  obtain ⟨_, hfront⟩ := front_leads (.list · index) hagain (fun _ => afterItem bytes index)
    (fun front item hready => by cases item <;> simp [PatternLiteral.poll, hready, afterItem])
    items keys hitems
  exact hfront

/-- A text is compared with what is left of a list, byte by byte. -/
theorem equal_list_leads (bytes : List UInt8) (items : Rope) (keys : List Key) (index : Nat)
    (hindex : index ≤ bytes.length) (hitems : items.keys? = some keys) :
    Leads (PatternLiteral.binary bytes).poll (.list (.new items) index)
      (.inr (patternPredicate ((bytes.drop index).map Key.byte = keys))) := by
  induction keys generalizing items index with
  | nil =>
    obtain ⟨item, hitem, hleads⟩ := equal_front_leads bytes index hitems
    cases item with
    | none =>
      have hend : index = bytes.length ↔ (bytes.drop index).map Key.byte = [] := by
        simp only [List.map_eq_nil_iff, List.drop_eq_nil_iff]
        omega
      simpa only [afterItem, hend] using hleads
    | some =>
      obtain ⟨_, _, hnil, -⟩ := hitem
      cases hnil
  | cons key keys ih =>
    obtain ⟨item, hitem, hleads⟩ := equal_front_leads bytes index hitems
    cases item with
    | none => cases hitem
    | some parts =>
      obtain ⟨item, tail⟩ := parts
      obtain ⟨_, _, hcons, hkey, htail⟩ := hitem
      obtain ⟨rfl, rfl⟩ := List.cons.inj hcons
      by_cases hend : index = bytes.length
      · simpa [afterItem, hend, patternPredicate] using hleads
      have hlt : index < bytes.length := by omega
      rw [afterItem, if_neg hend] at hleads
      refine hleads.trans ?_
      rw [List.drop_eq_getElem_cons hlt, List.map_cons]
      -- the item is the byte or it is not; only then is the rest looked at
      by_cases hbyte : Key.byte bytes[index] = key
      · have hwhnf : item.whnf = .number (bytes[index].toNat : Rat) := by
          obtain ⟨w, hw, hshape⟩ := Value.exists_keyShape (hbyte ▸ hkey)
          cases hshape
          exact hw
        refine .later (t := .list (.new tail) (index + 1)) ?_ ?_
        · simp [PatternLiteral.poll, hwhnf, List.getElem?_eq_getElem hlt]
        · simpa [hbyte] using ih tail (index + 1) hlt htail
      · refine .of_eq ?_
        obtain ⟨w, hw, hshape⟩ := Value.exists_keyShape hkey
        cases hshape with
        | number value =>
          have hne : ¬ value = (bytes[index].toNat : Rat) := fun heq => hbyte (by rw [heq]; rfl)
          simp [PatternLiteral.poll, hw, List.getElem?_eq_getElem hlt, hne, hbyte, patternPredicate]
        | _ =>
          simp [PatternLiteral.poll, hw, List.getElem?_eq_getElem hlt, hbyte, patternPredicate]

instance (literal : PatternLiteral) (key : Key) : Decidable (literal.Accepts key) :=
  match literal with
  | .binary bytes =>
    decidable_of_iff (key = .binary bytes ∨ key = .list (bytes.map Key.byte))
      (by simp [PatternLiteral.Accepts, PatternLiteral.key])
  | .atom name =>
    decidable_of_iff (key = .atom name) (by simp [PatternLiteral.Accepts, PatternLiteral.key])
  | .number value =>
    decidable_of_iff (key = .number value) (by simp [PatternLiteral.Accepts, PatternLiteral.key])

/-- The comparison with a literal accepts by the key alone. -/
theorem equal_spec (literal : PatternLiteral) (h : value.key? = some key) :
    Leads literal.poll (.subject value) (.inr (patternPredicate (literal.Accepts key))) := by
  obtain ⟨w, hw, hshape⟩ := Value.exists_keyShape h
  cases literal with
  | binary bytes =>
    cases hshape with
    | @list items keys hitems =>
      have hleads := equal_list_leads bytes items keys 0 (Nat.zero_le _) hitems
      refine .later (t := .list (.new items) 0) (by simp only [PatternLiteral.poll, hw]) ?_
      simpa [PatternLiteral.Accepts, PatternLiteral.key, eq_comm] using hleads
    | _ =>
      refine .of_eq ?_
      simp [PatternLiteral.poll, hw, PatternLiteral.Accepts, PatternLiteral.key, patternPredicate,
        eq_comm]
  | _ =>
    refine .of_eq ?_
    cases hshape <;>
      simp [PatternLiteral.poll, hw, PatternLiteral.Accepts, PatternLiteral.key, patternPredicate,
        eq_comm]

/-- The path machine goes through the conversion of its subject's items. -/
theorem path_keys_leads (expected : List Key) {conversion : KeyConversion} {keys : List Key}
    (h : Leads KeyConversion.poll conversion (.inr (.ok (some (.list keys))))) :
    Leads (patternPathPoll expected) (.keys conversion)
      (.inr (patternPredicate (expected = keys))) := by
  generalize hresult : (.inr (.ok (some (.list keys))) : ConversionPoll) = result at h
  induction h with
  | poll => exact .of_eq (by simp [patternPathPoll, ← hresult])
  | later hs _ ih => exact .later (by simp [patternPathPoll, hs]) (ih hresult)

/-- The comparison with a path accepts by the key alone. -/
theorem path_spec (expected : List Key) (h : value.key? = some key) :
    Leads (patternPathPoll expected) (.subject value)
      (.inr (patternPredicate (key.items? = some expected))) := by
  obtain ⟨w, hw, hshape⟩ := Value.exists_keyShape h
  cases hshape with
  | @list items keys hitems =>
    -- the machine enters the conversion of a list directly, not that of its subject
    have hlists : Leads KeyConversion.poll ⟨.list ⟨none, [items], none, none, []⟩, []⟩
        (.inr (.ok (some (.list keys)))) := by
      have hsmall : ∀ key ∈ [keys].flatten, sizeOf key < sizeOf keys := fun key hkey =>
        List.sizeOf_lt_of_mem (by simpa using hkey)
      simpa only [List.flatten_singleton, List.nil_append, KeyConversion.finish] using
        list_leads (convertsBelow _) [items] [keys] [] (.cons hitems .nil) hsmall
    refine .later (by rw [patternPathPoll, hw]) ?_
    simpa [Key.items?, eq_comm] using path_keys_leads expected hlists
  | binary =>
    refine .of_eq ?_
    simp [patternPathPoll, hw, Key.items?, eq_comm]
  | _ =>
    refine .of_eq ?_
    simp [patternPathPoll, hw, Key.items?, patternPredicate]

/-! #### Dictionaries -/

theorem isDict_spec (h : value.key? = some key) :
    patternIsDict value = patternPredicate key.isDict := by
  obtain ⟨w, hw, hshape⟩ := Value.exists_keyShape h
  cases hshape <;> simp [patternIsDict, hw, Key.isDict]

theorem dictIsEmpty_spec (h : value.key? = some key) :
    patternDictIsEmpty value = patternPredicate (key = .dict []) := by
  obtain ⟨w, hw, hshape⟩ := Value.exists_keyShape h
  cases hshape with
  | @dict keys _ members entries hentries =>
    have hkeys : keys = entries.map Prod.fst := by rw [← hentries.keys_eq, dictEntries_keys]
    cases entries <;> simp [patternDictIsEmpty, hw, hkeys]
  | _ => simp [patternDictIsEmpty, hw]

/-- A dictionary's key has the keys of its members. -/
theorem key?_dict_of_entriesFor {keys : List Key}
    {ordered : keys.Pairwise fun left right => left.compare right = .lt}
    {members : Fin keys.length → Value} {entries : List (Key × Key)}
    (h : EntriesFor (dictEntries keys members) entries) :
    (Value.dict keys ordered members).key? = some (.dict entries) := by
  rw [Value.key?, Option.map_eq_some_iff]
  refine ⟨entries, ?_, rfl⟩
  rw [dictEntries] at h
  generalize List.finRange keys.length = indices at h
  induction indices generalizing entries with
  | nil =>
    cases h
    rfl
  | cons i indices ih =>
    cases h with
    | @cons _ entry _ rest hentry hrest =>
      obtain ⟨name, member⟩ := entry
      obtain ⟨rfl, hmember⟩ := hentry
      have hrest' := ih hrest
      simp only [List.mapM_cons, show (members i).key? = some member from hmember, hrest']
      rfl

variable {keys : List (Key × Key)} {entries : Entries}

theorem Entries.key?_toValue (h : EntriesFor entries.list keys) :
    entries.toValue.key? = some (.dict keys) := by
  refine key?_dict_of_entriesFor ?_
  have hlist : dictEntries (entries.list.map Prod.fst)
      (fun i => (entries.list.get (i.cast (by simp))).2) = entries.list := by
    refine List.ext_getElem (by simp [dictEntries]) fun i hi hi' => ?_
    simp [dictEntries]
  rwa [hlist]

/-- A key is found among the values exactly if it is among their keys. -/
theorem EntriesFor.lookup {entries : List (Key × Value)} (key : Key) (h : EntriesFor entries keys) :
    (entries.lookup key = none ∧ keys.lookup key = none) ∨
    ∃ value member, entries.lookup key = some value ∧ keys.lookup key = some member ∧
      value.key? = some member := by
  induction h with
  | nil => exact .inl ⟨rfl, rfl⟩
  | @cons entry entry' _ _ hentry _ ih =>
    obtain ⟨name, value⟩ := entry
    obtain ⟨name', member⟩ := entry'
    obtain ⟨rfl, hmember⟩ := hentry
    by_cases hkey : key == name
    · exact .inr ⟨value, member, by simp [List.lookup, hkey], by simp [List.lookup, hkey], hmember⟩
    · simpa [List.lookup, hkey] using ih

theorem EntriesFor.remove (key : Key) (h : EntriesFor entries.list keys) :
    EntriesFor (entries.remove key).list (keys.filter fun entry => entry.1 ≠ key) :=
  List.rel_filter (fun _ _ hentry => by simp [hentry.1]) h

theorem EntriesFor.replace (key : Key) {value : Value} {member : Key}
    (hvalue : value.key? = some member) (h : EntriesFor entries.list keys) :
    EntriesFor (entries.replace key value).list
      (keys.map fun entry => if entry.1 = key then (entry.1, member) else entry) := by
  refine List.rel_map (fun entry entry' hentry => ?_) h
  by_cases hkey : entry.1 = key
  · simpa [hkey, ← hentry.1] using hvalue
  · simpa [hkey, ← hentry.1] using hentry.2

/-- The walk finds in the entries what it finds in their keys. -/
def TakenFor : Taken Key (List (Key × Key)) → Taken Value Entries → Prop
  | .absent, .absent | .blocked, .blocked => True
  | .found key keys, .found value entries => value.key? = some key ∧ EntriesFor entries.list keys
  | _, _ => False

/-- Taking a path out of entries takes it out of their keys. -/
theorem Entries.take_spec (path : List Key) (key : Key) (h : EntriesFor entries.list keys) :
    TakenFor (Key.takeEntry keys key path) (entries.take key path) := by
  induction path generalizing entries keys key with
  | nil =>
    rcases h.lookup key with ⟨hnone, hnone'⟩ | ⟨value, member, hsome, hsome', hmember⟩
    · simp [Key.takeEntry, Entries.take, hnone, hnone', TakenFor]
    · simpa only [Key.takeEntry, Entries.take, hsome, hsome'] using ⟨hmember, h.remove key⟩
  | cons next path ih =>
    rcases h.lookup key with ⟨hnone, hnone'⟩ | ⟨value, member, hsome, hsome', hmember⟩
    · simp [Key.takeEntry, Entries.take, hnone, hnone', TakenFor]
    obtain ⟨w, hw, hshape⟩ := Value.exists_keyShape hmember
    cases hshape with
    | @dict names ordered members inner hinner =>
      have hinner' : EntriesFor (Entries.of names ordered members).list inner := hinner
      have htaken := ih next hinner'
      simp only [Key.takeEntry, Entries.take, hsome, hsome', hw]
      generalize Key.takeEntry inner next path = taken at htaken
      generalize (Entries.of names ordered members).take next path = taken' at htaken
      cases taken <;> cases taken'
      case found.found found rest found' rest' =>
        obtain ⟨hfound, hrest⟩ := htaken
        have hempty : rest'.list.isEmpty = rest.isEmpty := by
          rw [Bool.eq_iff_iff, List.isEmpty_iff_length_eq_zero, List.isEmpty_iff_length_eq_zero,
            hrest.length_eq]
        refine ⟨hfound, ?_⟩
        simp only [hempty]
        split
        · exact h.remove key
        · exact h.replace key (Entries.key?_toValue hrest)
      all_goals exact htaken
    | _ => simp [Key.takeEntry, Entries.take, hsome, hsome', hw, TakenFor]

/-- The builtin that takes a path out of a dictionary. -/
theorem tryTake_spec (optional : Bool) {path : List Key} (hpath : path ≠ [])
    (h : value.key? = some key) :
    PartsFor (key.take? optional path) (patternDictTryTake optional path value) := by
  obtain ⟨name, path, rfl⟩ := List.exists_cons_of_ne_nil hpath
  obtain ⟨w, hw, hshape⟩ := Value.exists_keyShape h
  cases hshape with
  | @dict names ordered members entries hentries =>
    have hentries' : EntriesFor (Entries.of names ordered members).list entries := hentries
    have htaken := Entries.take_spec path name hentries'
    simp only [Key.take?, patternDictTryTake, hw]
    generalize Key.takeEntry entries name path = taken at htaken
    generalize (Entries.of names ordered members).take name path = taken' at htaken
    cases taken <;> cases taken' <;> try exact htaken.elim
    case absent.absent =>
      cases optional with
      | false => rfl
      | true => exact ⟨_, _, rfl, rfl, key?_dict_of_entriesFor hentries⟩
    case blocked.blocked => rfl
    case found.found found rest found' rest' =>
      obtain ⟨hfound, hrest⟩ := htaken
      refine ⟨_, _, rfl, ?_, Entries.key?_toValue hrest⟩
      cases optional with
      | false => exact hfound
      | true =>
        show (Value.list (.fromValueSlice [found'])).key? = some (.list [found])
        rw [Value.key?, Rope.keys?_fromValueSlice]
        simp [valueKeys?, hfound]
  | _ =>
    simp only [Key.take?, patternDictTryTake, hw]
    rfl

end Specs

end Glam.Eval
