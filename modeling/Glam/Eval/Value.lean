import Glam.Eval.Key

/-!
# Values and their lists

The values of the evaluator (`Value` in `core.rs`) in every representation they can have, as far as
comparison and key conversion look at them. A lazy value or a promise that has been evaluated is
`deferred`; demanding one gives its value. A dictionary is a persistent map: its keys in order, and
a member for each.

A list (`list.rs`) is a rope. Its strict leaves are byte slices, value slices and finger trees of
such slices, never empty; a `thunk` is a lazy chunk of unknown length. `Rope.popFrontStep` takes the
first item without forcing a chunk.

`Value.key?` and `Rope.keys?` say what a value stands for as a key, by recursion over its parts.
They are this development's own. The functions of the source that take values apart are related to
them by one lemma each: here `Rope.popFrontStep_spec`. -/

namespace Glam.Eval

/-- The kinds of values that are neither compared nor converted to keys. -/
inductive OtherKind
  | builtin
  | partialBuiltin
  | function
  | net
  | metadata
  | opaqueHandle
  | volume
  | resolver
deriving DecidableEq

mutual

/-- A value in one of its representations. -/
inductive Value
  | atom (key : Key)
  | number (value : Rat)
  | binary (bytes : List UInt8)
  | list (items : Rope)
  | dict (keys : List Key) (ordered : keys.Pairwise fun left right => left.compare right = .lt)
      (members : Fin keys.length → Value)
  | deferred (value : Value)
  | other (kind : OtherKind)

/-- A list: its leaves, concatenations of lists, and chunks that are still to be computed. -/
inductive Rope
  | empty
  | leaf (leaf : Leaf)
  | concat (left right : Rope)
  | thunk (chunk : Value)

/-- A strict leaf of a list. -/
inductive Leaf
  | slice (chunk : Chunk)
  | finger (first : Chunk) (rest : List Chunk)

/-- A slice of bytes or of values. -/
inductive Chunk
  | bytes (first : UInt8) (rest : List UInt8)
  | values (first : Value) (rest : List Value)

end

/-! ### What a value stands for -/

mutual

/-- **The key a value stands for**, if it is made of keyable values only. -/
def Value.key? : Value → Option Key
  | .atom key => some (.atom key)
  | .number value => some (.number value)
  | .binary bytes => some (.binary bytes)
  | .list items => items.keys?.map .list
  | .dict keys _ members =>
    ((List.finRange keys.length).mapM fun i =>
      (members i).key?.map fun member => (keys.get i, member)).map .dict
  | .deferred value => value.key?
  | .other _ => none

/-- The keys of a list's items, if all have one. -/
def Rope.keys? : Rope → Option (List Key)
  | .empty => some []
  | .leaf leaf => leaf.keys?
  | .concat left right => do return (← left.keys?) ++ (← right.keys?)
  | .thunk chunk => chunk.listKeys?

/-- The keys of the items of a lazy chunk, which has to be a list or a text. -/
def Value.listKeys? : Value → Option (List Key)
  | .list items => items.keys?
  | .binary bytes => some (bytes.map Key.byte)
  | .deferred value => value.listKeys?
  | _ => none

/-- The keys of a leaf's items. -/
def Leaf.keys? : Leaf → Option (List Key)
  | .slice chunk => chunk.keys?
  | .finger first rest => do return (← first.keys?) ++ (← chunkKeys? rest)

/-- The keys of the items of some chunks. -/
def chunkKeys? : List Chunk → Option (List Key)
  | [] => some []
  | chunk :: chunks => do return (← chunk.keys?) ++ (← chunkKeys? chunks)

/-- The keys of a chunk's items. A byte has the key of its number. -/
def Chunk.keys? : Chunk → Option (List Key)
  | .bytes first rest => some (Key.byte first :: rest.map Key.byte)
  | .values first rest => do return (← first.key?) :: (← valueKeys? rest)

/-- The keys of some values. -/
def valueKeys? : List Value → Option (List Key)
  | [] => some []
  | value :: values => do return (← value.key?) :: (← valueKeys? values)

end

mutual

/-- The lazy chunks of a list, those inside its chunks included. -/
def Rope.thunks : Rope → Nat
  | .empty | .leaf _ => 0
  | .concat left right => left.thunks + right.thunks
  | .thunk chunk => chunk.thunks + 1

/-- The chunks that are still to be computed, in a list. -/
def Value.thunks : Value → Nat
  | .list items => items.thunks
  | .deferred value => value.thunks
  | _ => 0

end

/-- Demanding a value that has been evaluated. -/
def Value.whnf : Value → Value
  | .deferred value => value.whnf
  | value => value

theorem Value.key?_whnf : ∀ value : Value, value.whnf.key? = value.key?
  | .deferred value => by rw [whnf, key?_whnf value, key?]
  | .atom _ | .number _ | .binary _ | .list _ | .dict .. | .other _ => rfl

theorem Value.listKeys?_whnf : ∀ value : Value, value.whnf.listKeys? = value.listKeys?
  | .deferred value => by rw [whnf, listKeys?_whnf value, listKeys?]
  | .atom _ | .number _ | .binary _ | .list _ | .dict .. | .other _ => rfl

theorem Value.thunks_whnf : ∀ value : Value, value.whnf.thunks = value.thunks
  | .deferred value => by rw [whnf, thunks_whnf value, thunks]
  | .atom _ | .number _ | .binary _ | .list _ | .dict .. | .other _ => rfl

theorem Value.whnf_ne_deferred : ∀ value inner : Value, value.whnf ≠ .deferred inner
  | .deferred value, inner => by rw [whnf]; exact whnf_ne_deferred value inner
  | .atom _, _ | .number _, _ | .binary _, _ | .list _, _ | .dict .., _ | .other _, _ => by
    simp [whnf]

/-! ### Dictionaries -/

/-- The entries of a dictionary, in the order of its keys. -/
def dictEntries (keys : List Key) (members : Fin keys.length → Value) : List (Key × Value) :=
  (List.finRange keys.length).map fun i => (keys.get i, members i)

@[simp] theorem dictEntries_keys (keys : List Key) (members : Fin keys.length → Value) :
    (dictEntries keys members).map Prod.fst = keys := by
  simp [dictEntries, Function.comp_def]

/-- The entries stand for the entries, each member for its own key. -/
def EntriesFor : List (Key × Value) → List (Key × Key) → Prop :=
  List.Forall₂ fun entry entry' => entry.1 = entry'.1 ∧ entry.2.key? = some entry'.2

theorem EntriesFor.keys_eq {entries : List (Key × Value)} {entries' : List (Key × Key)}
    (h : EntriesFor entries entries') : entries.map Prod.fst = entries'.map Prod.fst := by
  induction h with
  | nil => rfl
  | cons h _ ih => rw [List.map_cons, List.map_cons, h.1, ih]

variable {keys : List Key}

/-- The key of a dictionary has the keys of its members. -/
theorem Value.key?_dict {ordered : keys.Pairwise fun left right => left.compare right = .lt}
    {members : Fin keys.length → Value} {key : Key}
    (h : (Value.dict keys ordered members).key? = some key) :
    ∃ entries, key = .dict entries ∧ EntriesFor (dictEntries keys members) entries := by
  rw [key?, Option.map_eq_some_iff] at h
  obtain ⟨entries, hentries, rfl⟩ := h
  refine ⟨entries, rfl, ?_⟩
  rw [dictEntries]
  generalize List.finRange keys.length = indices at hentries
  induction indices generalizing entries with
  | nil =>
    obtain rfl : entries = [] := by simpa using hentries.symm
    exact .nil
  | cons i indices ih =>
    simp only [List.mapM_cons, Option.pure_def, Option.bind_eq_bind, Option.bind_eq_some_iff,
      Option.map_eq_some_iff, Option.some.injEq] at hentries
    obtain ⟨_, ⟨member, hmember, rfl⟩, rest, hrest, rfl⟩ := hentries
    exact .cons ⟨rfl, hmember⟩ (ih rest hrest)

/-- A keyable value in weak head normal form and the key it stands for. -/
inductive KeyShape : Value → Key → Prop
  | atom (key : Key) : KeyShape (.atom key) (.atom key)
  | number (value : Rat) : KeyShape (.number value) (.number value)
  | binary (bytes : List UInt8) : KeyShape (.binary bytes) (.binary bytes)
  | list {items : Rope} {keys : List Key} (h : items.keys? = some keys) :
      KeyShape (.list items) (.list keys)
  | dict {keys : List Key} {ordered : keys.Pairwise fun left right => left.compare right = .lt}
      {members : Fin keys.length → Value} {entries : List (Key × Key)}
      (h : EntriesFor (dictEntries keys members) entries) :
      KeyShape (.dict keys ordered members) (.dict entries)

/-- A value that has a key has a weak head normal form of the key's kind. -/
theorem Value.keyShape_whnf {value : Value} {key : Key} (h : value.key? = some key) :
    KeyShape value.whnf key := by
  rw [← key?_whnf] at h
  cases hvalue : value.whnf with
  | atom | number | binary =>
    rw [hvalue, key?, Option.some.injEq] at h
    subst h
    constructor
  | list =>
    rw [hvalue, key?, Option.map_eq_some_iff] at h
    obtain ⟨keys, hkeys, rfl⟩ := h
    exact .list hkeys
  | dict =>
    obtain ⟨entries, rfl, hentries⟩ := key?_dict (hvalue ▸ h)
    exact .dict hentries
  | deferred => exact absurd hvalue (whnf_ne_deferred _ _)
  | other => simp [hvalue, key?] at h

theorem Value.exists_keyShape {value : Value} {key : Key} (h : value.key? = some key) :
    ∃ w, value.whnf = w ∧ KeyShape w key :=
  ⟨_, rfl, keyShape_whnf h⟩

/-! ### Lists -/

namespace Rope

/-- The list of some bytes. -/
def fromBytes : List UInt8 → Rope
  | [] => .empty
  | first :: rest => .leaf (.slice (.bytes first rest))

/-- The list of some values. -/
def fromValueSlice : List Value → Rope
  | [] => .empty
  | first :: rest => .leaf (.slice (.values first rest))

/-- The list of some chunks' items. -/
def fromFinger : List Chunk → Rope
  | [] => .empty
  | first :: rest => .leaf (.finger first rest)

/-- `List::concat`: a side that is empty is dropped. -/
def concatenate : Rope → Rope → Rope
  | .empty, right => right
  | left, .empty => left
  | left, right => .concat left right

end Rope

/-- An item of a list. -/
inductive ListItem
  | byte (byte : UInt8)
  | value (value : Value)

/-- `item_value_in`: an item as a value. -/
def ListItem.toValue : ListItem → Value
  | .byte b => .number b.toNat
  | .value v => v

/-- The first item of a chunk and the chunk of the others, if any. -/
def Chunk.popFront : Chunk → ListItem × Option Chunk
  | .bytes first [] => (.byte first, none)
  | .bytes first (next :: rest) => (.byte first, some (.bytes next rest))
  | .values first [] => (.value first, none)
  | .values first (next :: rest) => (.value first, some (.values next rest))

/-- `pop_leaf_front_by`: the first item of a leaf and the rest of it. -/
def Leaf.popFront : Leaf → ListItem × Rope
  | .slice (.bytes first rest) => (.byte first, .fromBytes rest)
  | .slice (.values first rest) => (.value first, .fromValueSlice rest)
  | .finger first rest => (first.popFront.1, .fromFinger (first.popFront.2.toList ++ rest))

/-- The first leaf of a list, or the lazy chunk before it. -/
inductive ListFrontLeafStep
  | empty
  | leaf (leaf : Leaf) (tail : Rope)
  | deferred (chunk : Value) (suffix : Rope)

/-- The first item of a list, or the lazy chunk before it. -/
inductive ListFrontStep
  | empty
  | item (item : ListItem) (tail : Rope)
  | deferred (chunk : Value) (suffix : Rope)

namespace Rope

/-- `join_logical_suffix`: the right siblings met on the way down, nearest first, as one list. -/
def joinLogicalSuffix (pending : List Rope) : Rope := pending.foldr concatenate .empty

/-- `pop_front_leaf_step`. Its worklist is the list being looked at and, below it, `pending`. -/
def popFrontLeafStep : Rope → List Rope → ListFrontLeafStep
  | .empty, _ => .empty
  | .leaf first, pending => .leaf first (joinLogicalSuffix pending)
  | .thunk chunk, pending => .deferred chunk (joinLogicalSuffix pending)
  | .concat left right, pending =>
    match left.popFrontLeafStep (right :: pending) with
    -- the worklist has come down to `right`
    | .empty => right.popFrontLeafStep pending
    | step => step

/-- `pop_front_step_by`. -/
def popFrontStep (list : Rope) : ListFrontStep :=
  match list.popFrontLeafStep [] with
  | .empty => .empty
  | .leaf first tail => .item first.popFront.1 (concatenate first.popFront.2 tail)
  | .deferred chunk suffix => .deferred chunk suffix

/-! #### The keys of what the operations build -/

theorem keys?_fromBytes (bytes : List UInt8) :
    (fromBytes bytes).keys? = some (bytes.map Key.byte) := by
  cases bytes <;> rfl

theorem keys?_fromValueSlice (values : List Value) :
    (fromValueSlice values).keys? = valueKeys? values := by
  cases values <;> rfl

theorem keys?_fromFinger (chunks : List Chunk) :
    (fromFinger chunks).keys? = chunkKeys? chunks := by
  cases chunks <;> rfl

theorem keys?_concatenate {left right : Rope} {ls rs : List Key} (hl : left.keys? = some ls)
    (hr : right.keys? = some rs) : (concatenate left right).keys? = some (ls ++ rs) := by
  unfold concatenate
  split
  · simp_all [keys?]
  · simp_all [keys?]
  · simp [keys?, hl, hr]

theorem thunks_concatenate (left right : Rope) :
    (concatenate left right).thunks = left.thunks + right.thunks := by
  unfold concatenate
  split <;> simp [thunks]

@[simp] theorem thunks_fromBytes (bytes : List UInt8) : (fromBytes bytes).thunks = 0 := by
  cases bytes <;> rfl

@[simp] theorem thunks_fromValueSlice (values : List Value) :
    (fromValueSlice values).thunks = 0 := by
  cases values <;> rfl

@[simp] theorem thunks_fromFinger (chunks : List Chunk) : (fromFinger chunks).thunks = 0 := by
  cases chunks <;> rfl

end Rope

/-- The key of an item. -/
def ListItem.key? (item : ListItem) : Option Key := item.toValue.key?

/-- The first item of a chunk, and the chunk without it. -/
theorem Chunk.popFront_spec {chunk : Chunk} (h : chunk.keys? = some keys) :
    ∃ key rest, keys = key :: rest ∧ chunk.popFront.1.key? = some key ∧
      chunkKeys? chunk.popFront.2.toList = some rest := by
  cases chunk with
  | bytes first rest =>
    refine ⟨Key.byte first, rest.map Key.byte, ?_, ?_⟩
    · simpa [keys?] using h.symm
    · cases rest <;> exact ⟨rfl, by simp [popFront, chunkKeys?, keys?]⟩
  | values first rest =>
    simp only [keys?, Option.pure_def, Option.bind_eq_bind, Option.bind_eq_some_iff,
      Option.some.injEq] at h
    obtain ⟨key, hkey, keys', hrest, rfl⟩ := h
    refine ⟨key, keys', rfl, ?_⟩
    cases rest with
    | nil => exact ⟨hkey, by simpa [popFront, chunkKeys?, valueKeys?] using hrest⟩
    | cons => exact ⟨hkey, by simpa [popFront, chunkKeys?, keys?, valueKeys?] using hrest⟩

theorem chunkKeys?_append {left right : List Chunk} {ls rs : List Key}
    (hl : chunkKeys? left = some ls) (hr : chunkKeys? right = some rs) :
    chunkKeys? (left ++ right) = some (ls ++ rs) := by
  induction left generalizing ls with
  | nil => simp_all [chunkKeys?]
  | cons chunk left ih =>
    simp only [chunkKeys?, Option.pure_def, Option.bind_eq_bind, Option.bind_eq_some_iff,
      Option.some.injEq] at hl
    obtain ⟨first, hfirst, rest, hrest, rfl⟩ := hl
    simp [chunkKeys?, hfirst, ih hrest]

/-- The first item of a leaf, and the leaf without it. -/
theorem Leaf.popFront_spec {leaf : Leaf} (h : leaf.keys? = some keys) :
    ∃ key rest, keys = key :: rest ∧ leaf.popFront.1.key? = some key ∧
      leaf.popFront.2.keys? = some rest ∧ leaf.popFront.2.thunks = 0 := by
  cases leaf with
  | slice chunk =>
    cases chunk with
    | bytes first rest =>
      refine ⟨Key.byte first, rest.map Key.byte, ?_, rfl, Rope.keys?_fromBytes rest, ?_⟩
      · simpa [keys?, Chunk.keys?] using h.symm
      · simp [popFront]
    | values =>
      simp only [keys?, Chunk.keys?, Option.pure_def, Option.bind_eq_bind,
        Option.bind_eq_some_iff, Option.some.injEq] at h
      obtain ⟨key, hkey, keys', hrest, rfl⟩ := h
      exact ⟨key, keys', rfl, hkey, by rw [popFront, Rope.keys?_fromValueSlice, hrest],
        by simp [popFront]⟩
  | finger =>
    simp only [keys?, Option.pure_def, Option.bind_eq_bind, Option.bind_eq_some_iff,
      Option.some.injEq] at h
    obtain ⟨firstKeys, hfirst, restKeys, hrest, rfl⟩ := h
    obtain ⟨key, others, rfl, hkey, hothers⟩ := Chunk.popFront_spec hfirst
    refine ⟨key, others ++ restKeys, rfl, hkey, ?_, by simp [popFront]⟩
    rw [popFront, Rope.keys?_fromFinger]
    exact chunkKeys?_append hothers hrest

namespace Rope

variable {ks : List Key}

theorem keys?_joinLogicalSuffix_cons {next : Rope} {pending : List Rope} {ps : List Key}
    (hnext : next.keys? = some ks) (hpending : (joinLogicalSuffix pending).keys? = some ps) :
    (joinLogicalSuffix (next :: pending)).keys? = some (ks ++ ps) :=
  keys?_concatenate hnext hpending

theorem thunks_joinLogicalSuffix_cons (next : Rope) (pending : List Rope) :
    (joinLogicalSuffix (next :: pending)).thunks =
      next.thunks + (joinLogicalSuffix pending).thunks :=
  thunks_concatenate next _

/-- What the first leaf step leaves of a list `ks` long, with `ps` pending after it. -/
def LeafStepSpec (step : ListFrontLeafStep) (ks ps : List Key) (thunks : Nat) : Prop :=
  match step with
  | .empty => ks = []
  | .leaf first tail => ∃ fs ts, first.keys? = some fs ∧ tail.keys? = some ts ∧
      ks ++ ps = fs ++ ts ∧ tail.thunks ≤ thunks
  | .deferred chunk suffix => ∃ cs ss, chunk.listKeys? = some cs ∧ suffix.keys? = some ss ∧
      ks ++ ps = cs ++ ss ∧ chunk.thunks + suffix.thunks < thunks

theorem LeafStepSpec.mono {step : ListFrontLeafStep} {ps : List Key} {thunks more : Nat}
    (h : LeafStepSpec step ks ps thunks) (hmore : thunks ≤ more) :
    LeafStepSpec step ks ps more := by
  cases step with
  | empty => exact h
  | leaf =>
    obtain ⟨fs, ts, hfs, hts, hsplit, hthunks⟩ := h
    exact ⟨fs, ts, hfs, hts, hsplit, hthunks.trans hmore⟩
  | deferred =>
    obtain ⟨cs, ss, hcs, hss, hsplit, hthunks⟩ := h
    exact ⟨cs, ss, hcs, hss, hsplit, hthunks.trans_le hmore⟩

/-- Taking the first leaf off a list keeps its keys and leaves fewer thunks. -/
theorem popFrontLeafStep_spec : ∀ {list : Rope} {pending : List Rope} {ks ps : List Key},
    list.keys? = some ks → (joinLogicalSuffix pending).keys? = some ps →
    LeafStepSpec (list.popFrontLeafStep pending) ks ps
      (list.thunks + (joinLogicalSuffix pending).thunks)
  | .empty, _, _, _, hks, _ => by simpa [popFrontLeafStep, LeafStepSpec, keys?] using hks.symm
  | .leaf _, _, ks, ps, hks, hps => ⟨ks, ps, hks, hps, rfl, by simp [thunks]⟩
  | .thunk _, _, ks, ps, hks, hps => ⟨ks, ps, hks, hps, rfl, by simp [thunks]⟩
  | .concat left right, pending, ks, ps, hks, hps => by
    simp only [keys?, Option.pure_def, Option.bind_eq_bind, Option.bind_eq_some_iff,
      Option.some.injEq] at hks
    obtain ⟨ls, hls, rs, hrs, rfl⟩ := hks
    have hleft := popFrontLeafStep_spec hls (keys?_joinLogicalSuffix_cons hrs hps)
    rw [thunks_joinLogicalSuffix_cons, ← Nat.add_assoc] at hleft
    rw [popFrontLeafStep]
    cases hstep : left.popFrontLeafStep (right :: pending) with
    | empty =>
      rw [hstep] at hleft
      obtain rfl : ls = [] := hleft
      have hright := popFrontLeafStep_spec hrs hps
      exact hright.mono (by simp [thunks])
    | leaf | deferred =>
      rw [hstep] at hleft
      simpa only [LeafStepSpec, thunks, List.append_assoc] using hleft

/-- **Taking the first item.** The step gives the first item and the list of the others, or the lazy
chunk that comes first and the list after it, with one lazy chunk less to force. -/
theorem popFrontStep_spec {list : Rope} (h : list.keys? = some ks) :
    match list.popFrontStep with
    | .empty => ks = []
    | .item first tail => ∃ k rest, ks = k :: rest ∧ first.key? = some k ∧
        tail.keys? = some rest ∧ tail.thunks ≤ list.thunks
    | .deferred chunk suffix => ∃ cs ss, ks = cs ++ ss ∧ chunk.listKeys? = some cs ∧
        suffix.keys? = some ss ∧ chunk.thunks + suffix.thunks < list.thunks := by
  have hspec := popFrontLeafStep_spec h (show (joinLogicalSuffix []).keys? = some [] from rfl)
  unfold popFrontStep
  cases hstep : list.popFrontLeafStep [] with
  | empty => simpa [LeafStepSpec, hstep] using hspec
  | leaf =>
    rw [hstep] at hspec
    obtain ⟨fs, ts, hfs, hts, hsplit, hthunks⟩ := hspec
    obtain ⟨k, rest, rfl, hk, hrest, hnone⟩ := Leaf.popFront_spec hfs
    refine ⟨k, rest ++ ts, by simpa using hsplit, hk, keys?_concatenate hrest hts, ?_⟩
    rw [thunks_concatenate, hnone, Nat.zero_add]
    exact hthunks
  | deferred =>
    rw [hstep] at hspec
    obtain ⟨cs, ss, hcs, hss, hsplit, hthunks⟩ := hspec
    exact ⟨cs, ss, by simpa using hsplit, hcs, hss, hthunks⟩

end Rope
end Glam.Eval
