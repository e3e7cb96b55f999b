import Glam.Eval.KeyConversion

/-!
# What comparison sees of a value

Comparison looks through representations. `Value.form` is what it sees: a deferred value is the value
itself, a text the list of its bytes, an atom the dictionary it stands for, and a list its items in
order, however it is split into leaves, fingers and lazy chunks. The values that do not compare all
have the form `other`. A list is `broken` after an item if its next lazy chunk is no list; comparison
may answer before it gets there.

Forms are this development's own. `Rope.popFrontStep_items` relates the function of the source that
takes a list apart to them, and `Value.key?_form` says that the form of a keyable value is its
canonical key.
-/

namespace Glam.Eval

mutual

/-- The form of a value. -/
inductive Form
  | number (value : Rat)
  /-- the unit atom, which stands for no dictionary -/
  | unit
  | list (items : Items)
  | dict (entries : Members)
  | other

/-- The items of a list, to its end or to a lazy chunk that is no list. -/
inductive Items
  | done
  | broken
  | item (first : Form) (rest : Items)

/-- The members of a dictionary, by their keys. -/
inductive Members
  | done
  | entry (key : Key) (member : Form) (rest : Members)

end

/-- The bytes of a text as the first items of a list. -/
def byteItems (bytes : List UInt8) (rest : Items) : Items :=
  bytes.foldr (fun b rest => .item (.number b.toNat) rest) rest

mutual

/-- The form of a value. -/
def Value.form : Value → Form
  | .atom key => if key = .unit then .unit else .dict (.entry key .unit .done)
  | .number value => .number value
  | .binary bytes => .list (byteItems bytes .done)
  | .list items => .list (items.items .done)
  | .dict keys _ members => .dict <|
    (List.finRange keys.length).foldr
      (fun i rest => .entry (keys.get i) (members i).form rest) .done
  | .deferred value => value.form
  | .other _ => .other

/-- The items of a list and those after it. -/
def Rope.items : Rope → Items → Items
  | .empty, rest => rest
  | .leaf leaf, rest => leaf.items rest
  | .concat left right, rest => left.items (right.items rest)
  | .thunk chunk, rest => chunk.chunkItems rest

/-- The items of a lazy chunk and those after it. -/
def Value.chunkItems : Value → Items → Items
  | .list items, rest => items.items rest
  | .binary bytes, rest => byteItems bytes rest
  | .deferred value, rest => value.chunkItems rest
  | _, _ => .broken

/-- The items of a leaf, before others. -/
def Leaf.items : Leaf → Items → Items
  | .slice chunk, rest => chunk.items rest
  | .finger first chunks, rest => first.items (chunksItems chunks rest)

/-- The items of some chunks, before others. -/
def chunksItems : List Chunk → Items → Items
  | [], rest => rest
  | chunk :: chunks, rest => chunk.items (chunksItems chunks rest)

/-- The items of a chunk, before others. A byte is the number that it is. -/
def Chunk.items : Chunk → Items → Items
  | .bytes first bytes, rest => .item (.number first.toNat) (byteItems bytes rest)
  | .values first values, rest => .item first.form (valuesItems values rest)

/-- The items of some values, before others. -/
def valuesItems : List Value → Items → Items
  | [], rest => rest
  | value :: values, rest => .item value.form (valuesItems values rest)

end

/-- The items of a list. -/
def Rope.allItems (list : Rope) : Items := list.items .done

theorem Value.form_whnf : ∀ value : Value, value.whnf.form = value.form
  | .deferred value => by rw [whnf, form_whnf value, form]
  | .atom _ | .number _ | .binary _ | .list _ | .dict .. | .other _ => rfl

/-- The entries of a dictionary. -/
def entriesForm (entries : List (Key × Value)) : Members :=
  entries.foldr (fun entry rest => .entry entry.1 entry.2.form rest) .done

theorem Value.form_dict (keys : List Key)
    (ordered : keys.Pairwise fun left right => left.compare right = .lt)
    (members : Fin keys.length → Value) :
    (Value.dict keys ordered members).form = .dict (entriesForm (dictEntries keys members)) := by
  rw [form, entriesForm, dictEntries, List.foldr_map]

/-! ### Taking lists apart -/

theorem chunksItems_append (left right : List Chunk) (rest : Items) :
    chunksItems (left ++ right) rest = chunksItems left (chunksItems right rest) := by
  induction left with
  | nil => simp [chunksItems]
  | cons chunk left ih => simp [chunksItems, ih]

theorem Chunk.items_popFront (chunk : Chunk) (rest : Items) :
    chunk.items rest =
      .item chunk.popFront.1.toValue.form (chunksItems chunk.popFront.2.toList rest) := by
  cases chunk with
  | bytes first bytes =>
    cases bytes <;>
      simp [items, popFront, chunksItems, byteItems, ListItem.toValue, Value.form]
  | values first values =>
    cases values <;> simp [items, popFront, chunksItems, valuesItems, ListItem.toValue]

namespace Rope

theorem items_fromBytes (bytes : List UInt8) (rest : Items) :
    (fromBytes bytes).items rest = byteItems bytes rest := by
  cases bytes <;> simp [fromBytes, items, Leaf.items, Chunk.items, byteItems]

theorem items_fromValueSlice (values : List Value) (rest : Items) :
    (fromValueSlice values).items rest = valuesItems values rest := by
  cases values <;> simp [fromValueSlice, items, Leaf.items, Chunk.items, valuesItems]

theorem items_fromFinger (chunks : List Chunk) (rest : Items) :
    (fromFinger chunks).items rest = chunksItems chunks rest := by
  cases chunks <;> simp [fromFinger, items, Leaf.items, chunksItems]

theorem items_concatenate (left right : Rope) (rest : Items) :
    (concatenate left right).items rest = left.items (right.items rest) := by
  unfold concatenate
  split <;> simp [items]

theorem allItems_concatenate (left right : Rope) :
    (concatenate left right).allItems = left.items right.allItems :=
  items_concatenate left right _

end Rope

theorem Leaf.items_popFront (leaf : Leaf) (rest : Items) :
    leaf.items rest = .item leaf.popFront.1.toValue.form (leaf.popFront.2.items rest) := by
  cases leaf with
  | slice chunk =>
    cases chunk with
    | bytes =>
      simp [items, Chunk.items, popFront, Rope.items_fromBytes, ListItem.toValue, Value.form]
    | values =>
      simp [items, Chunk.items, popFront, Rope.items_fromValueSlice, ListItem.toValue]
  | finger first chunks =>
    rw [items, Chunk.items_popFront, popFront, Rope.items_fromFinger, chunksItems_append]

namespace Rope

/-- What the first leaf step leaves of the items of a list, with `pending` after it. -/
def LeafStepItems (step : ListFrontLeafStep) (list pending : Rope) : Prop :=
  match step with
  | .empty => ∀ rest, list.items rest = rest
  | .leaf first tail => ∀ rest, list.items (pending.items rest) = first.items (tail.items rest)
  | .deferred chunk suffix =>
    (∀ rest, list.items (pending.items rest) = chunk.chunkItems (suffix.items rest)) ∧
      chunk.thunks + suffix.thunks < list.thunks + pending.thunks

/-- Taking the first leaf off a list keeps its items. -/
theorem popFrontLeafStep_items : ∀ (list : Rope) (pending : List Rope),
    LeafStepItems (list.popFrontLeafStep pending) list (joinLogicalSuffix pending)
  | .empty, _ => fun _ => by rw [items]
  | .leaf _, _ => fun _ => by rw [items]
  | .thunk _, _ => ⟨fun _ => by rw [items], by simp [thunks]⟩
  | .concat left right, pending => by
    have hleft := popFrontLeafStep_items left (right :: pending)
    have hjoin : joinLogicalSuffix (right :: pending) =
        concatenate right (joinLogicalSuffix pending) := rfl
    rw [popFrontLeafStep]
    cases hstep : left.popFrontLeafStep (right :: pending) with
    | empty =>
      -- the left side has no items, so the step is that of the right side
      simp only [hstep, LeafStepItems] at hleft
      have hright := popFrontLeafStep_items right pending
      simp only
      cases hstep' : right.popFrontLeafStep pending with
      | empty =>
        simp only [hstep', LeafStepItems, items, hleft] at hright ⊢
        exact hright
      | leaf =>
        simp only [hstep', LeafStepItems, items, hleft] at hright ⊢
        exact hright
      | deferred =>
        simp only [hstep', LeafStepItems, items, hleft, thunks] at hright ⊢
        exact ⟨hright.1, by omega⟩
    | leaf | deferred =>
      simp only [hstep, LeafStepItems, hjoin, items_concatenate, thunks_concatenate] at hleft
      simpa only [LeafStepItems, items, thunks, Nat.add_assoc] using hleft

/-- **Taking the first item.** The step gives the first item and the list of the others, or the lazy
chunk that comes first and the list after it, with one lazy chunk less to force. -/
theorem popFrontStep_items (list : Rope) :
    match list.popFrontStep with
    | .empty => list.allItems = .done
    | .item first tail => list.allItems = .item first.toValue.form tail.allItems
    | .deferred chunk suffix => list.allItems = chunk.chunkItems suffix.allItems ∧
        chunk.thunks + suffix.thunks < list.thunks := by
  have hspec := popFrontLeafStep_items list []
  unfold popFrontStep
  cases hstep : list.popFrontLeafStep [] with
  | empty =>
    rw [hstep] at hspec
    exact hspec .done
  | leaf first tail =>
    rw [hstep] at hspec
    calc list.allItems
        = first.items tail.allItems := hspec .done
      _ = _ := by rw [Leaf.items_popFront, allItems_concatenate]
  | deferred =>
    rw [hstep] at hspec
    exact ⟨hspec.1 .done, hspec.2⟩

end Rope

/-- A demanded chunk is a list with its items, or breaks the list it is in. -/
theorem Value.chunkItems_cases (value : Value) :
    (∃ list, valueAsList value.whnf true = .ok list ∧ list.thunks = value.thunks ∧
      ∀ rest, value.chunkItems rest = list.items rest) ∨
    ∃ failure, valueAsList value.whnf true = .error failure ∧
      ∀ rest, value.chunkItems rest = .broken := by
  induction value using Value.whnf.induct with
  | case1 value ih => simpa only [whnf, chunkItems, thunks] using ih
  | case2 value hne =>
    cases value with
    | deferred inner => exact absurd rfl (hne inner)
    | list items => exact .inl ⟨items, rfl, by rw [thunks], fun _ => by rw [chunkItems]⟩
    | binary bytes =>
      refine .inl ⟨.fromBytes bytes, rfl, by simp [thunks], fun rest => ?_⟩
      rw [chunkItems, Rope.items_fromBytes]
    | atom | number | dict | other => exact .inr ⟨_, rfl, fun _ => by simp [chunkItems]⟩

/-! ### Forms and canonical keys -/

mutual

/-- The canonical key of a form that is made of comparable values only. -/
def Form.key? : Form → Option Key
  | .number value => some (.number value)
  | .unit => some (.atom .unit)
  | .list items => items.keys?.map .list
  | .dict entries => entries.keys?.map .dict
  | .other => none

/-- The keys of a list's items. A broken list has none. -/
def Items.keys? : Items → Option (List Key)
  | .done => some []
  | .broken => none
  | .item first rest => do return (← first.key?) :: (← rest.keys?)

/-- The entries of a dictionary's key. -/
def Members.keys? : Members → Option (List (Key × Key))
  | .done => some []
  | .entry key member rest => do return (key, ← member.key?) :: (← rest.keys?)

end

theorem Items.keys?_item {first : Form} {rest : Items} {keys : List Key}
    (h : (Items.item first rest).keys? = some keys) :
    ∃ key others, first.key? = some key ∧ rest.keys? = some others ∧ keys = key :: others := by
  simp only [keys?, Option.pure_def, Option.bind_eq_bind, Option.bind_eq_some_iff,
    Option.some.injEq] at h
  obtain ⟨key, hkey, others, hothers, rfl⟩ := h
  exact ⟨key, others, hkey, hothers, rfl⟩

theorem Members.keys?_entry {name : Key} {member : Form} {rest : Members} {keys : List (Key × Key)}
    (h : (Members.entry name member rest).keys? = some keys) :
    ∃ key others, member.key? = some key ∧ rest.keys? = some others ∧
      keys = (name, key) :: others := by
  simp only [keys?, Option.pure_def, Option.bind_eq_bind, Option.bind_eq_some_iff,
    Option.some.injEq] at h
  obtain ⟨key, hkey, others, hothers, rfl⟩ := h
  exact ⟨key, others, hkey, hothers, rfl⟩

theorem Key.canonicalItems_append (left right : List Key) :
    canonicalItems (left ++ right) = canonicalItems left ++ canonicalItems right := by
  induction left with
  | nil => rfl
  | cons item left ih => simp [canonicalItems, ih]

theorem keys?_byteItems (bytes : List UInt8) {rest : Items} {keys : List Key}
    (h : rest.keys? = some keys) :
    (byteItems bytes rest).keys? = some (Key.canonicalItems (bytes.map Key.byte) ++ keys) := by
  induction bytes with
  | nil => exact h
  | cons b bytes ih =>
    simp only [byteItems, List.foldr_cons, Items.keys?, Form.key?] at ih ⊢
    simp [ih, Key.canonicalItems, Key.canonical, Key.byte]

theorem keys?_entriesForm {entries : List (Key × Value)} {keys : List (Key × Key)}
    (h : EntriesFor entries keys)
    (hmembers : ∀ entry ∈ entries, ∀ key, entry.2.key? = some key →
      entry.2.form.key? = some key.canonical) :
    (entriesForm entries).keys? = some (Key.canonicalEntries keys) := by
  induction h with
  | nil => rfl
  | @cons entry entry' entries keys hentry _ ih =>
    obtain ⟨hmember, hrest⟩ := List.forall_mem_cons.mp hmembers
    simp only [entriesForm, List.foldr_cons, Members.keys?] at ih ⊢
    simp [ih hrest, hmember _ hentry.2, hentry.1, Key.canonicalEntries]

mutual

/-- **The form of a keyable value** is that of its canonical key. -/
theorem Value.key?_form : ∀ {value : Value} {key : Key}, value.key? = some key →
    value.form.key? = some key.canonical
  | .atom key, _, h => by
    rw [← Option.some.inj h, Value.form, Key.canonical]
    split <;> simp [Form.key?, Members.keys?]
  | .number _, _, h => by rw [← Option.some.inj h]; rfl
  | .binary bytes, _, h => by
    rw [← Option.some.inj h, Value.form, Form.key?, keys?_byteItems bytes rfl]
    simp [Key.canonical, Key.canonicalItems_map_byte]
  | .list items, _, h => by
    obtain ⟨keys, hkeys, rfl⟩ := Option.map_eq_some_iff.mp h
    rw [Value.form, Form.key?, Rope.keys?_items hkeys rfl, List.append_nil]
    rfl
  | .dict keys _ members, _, h => by
    obtain ⟨entries, rfl, hentries⟩ := Value.key?_dict h
    have hmember : ∀ i key, (members i).key? = some key →
        (members i).form.key? = some key.canonical := fun i key hkey => Value.key?_form hkey
    have hmembers : ∀ entry ∈ dictEntries keys members, ∀ key, entry.2.key? = some key →
        entry.2.form.key? = some key.canonical := by
      intro entry hentry key hkey
      obtain ⟨i, -, rfl⟩ := List.mem_map.mp hentry
      exact hmember i key hkey
    rw [Value.form_dict, Form.key?, keys?_entriesForm hentries hmembers]
    rfl
  | .deferred value, _, h => by
    rw [Value.form]
    exact Value.key?_form (show value.key? = some _ from h)

/-- The keys of a list are those of its items, in canonical form. -/
theorem Rope.keys?_items : ∀ {list : Rope} {keys : List Key}, list.keys? = some keys →
    ∀ {rest : Items} {after : List Key}, rest.keys? = some after →
      (list.items rest).keys? = some (Key.canonicalItems keys ++ after)
  | .empty, _, h, _, _, hrest => by
    rw [← Option.some.inj h, Rope.items, hrest]
    rfl
  | .leaf leaf, _, h, _, _, hrest => by
    rw [Rope.items]
    exact Leaf.keys?_items h hrest
  | .concat left right, _, h, _, _, hrest => by
    simp only [Rope.keys?, Option.pure_def, Option.bind_eq_bind, Option.bind_eq_some_iff,
      Option.some.injEq] at h
    obtain ⟨ls, hls, rs, hrs, rfl⟩ := h
    rw [Rope.items, Rope.keys?_items hls (Rope.keys?_items hrs hrest), Key.canonicalItems_append,
      List.append_assoc]
  | .thunk chunk, _, h, _, _, hrest => by
    rw [Rope.items]
    exact Value.keys?_chunkItems h hrest

theorem Value.keys?_chunkItems : ∀ {value : Value} {keys : List Key}, value.listKeys? = some keys →
    ∀ {rest : Items} {after : List Key}, rest.keys? = some after →
      (value.chunkItems rest).keys? = some (Key.canonicalItems keys ++ after)
  | .list items, _, h, _, _, hrest => by
    rw [Value.chunkItems]
    exact Rope.keys?_items h hrest
  | .binary bytes, _, h, _, _, hrest => by
    rw [← Option.some.inj h, Value.chunkItems, keys?_byteItems bytes hrest]
  | .deferred value, _, h, _, _, hrest => by
    rw [Value.chunkItems]
    exact Value.keys?_chunkItems (show value.listKeys? = some _ from h) hrest

/-- The same for a leaf. -/
theorem Leaf.keys?_items : ∀ {leaf : Leaf} {keys : List Key}, leaf.keys? = some keys →
    ∀ {rest : Items} {after : List Key}, rest.keys? = some after →
      (leaf.items rest).keys? = some (Key.canonicalItems keys ++ after)
  | .slice chunk, _, h, _, _, hrest => by
    rw [Leaf.items]
    exact Chunk.keys?_items h hrest
  | .finger first chunks, _, h, _, _, hrest => by
    simp only [Leaf.keys?, Option.pure_def, Option.bind_eq_bind, Option.bind_eq_some_iff,
      Option.some.injEq] at h
    obtain ⟨fs, hfs, rs, hrs, rfl⟩ := h
    rw [Leaf.items, Chunk.keys?_items hfs (keys?_chunksItems hrs hrest), Key.canonicalItems_append,
      List.append_assoc]

/-- The same for chunks. -/
theorem keys?_chunksItems : ∀ {chunks : List Chunk} {keys : List Key},
    chunkKeys? chunks = some keys → ∀ {rest : Items} {after : List Key}, rest.keys? = some after →
      (chunksItems chunks rest).keys? = some (Key.canonicalItems keys ++ after)
  | [], _, h, _, _, hrest => by
    rw [← Option.some.inj h, chunksItems, hrest]
    rfl
  | chunk :: chunks, _, h, _, _, hrest => by
    simp only [chunkKeys?, Option.pure_def, Option.bind_eq_bind, Option.bind_eq_some_iff,
      Option.some.injEq] at h
    obtain ⟨fs, hfs, rs, hrs, rfl⟩ := h
    rw [chunksItems, Chunk.keys?_items hfs (keys?_chunksItems hrs hrest),
      Key.canonicalItems_append, List.append_assoc]

/-- The same for a chunk. -/
theorem Chunk.keys?_items : ∀ {chunk : Chunk} {keys : List Key}, chunk.keys? = some keys →
    ∀ {rest : Items} {after : List Key}, rest.keys? = some after →
      (chunk.items rest).keys? = some (Key.canonicalItems keys ++ after)
  | .bytes first bytes, _, h, _, _, hrest => by
    rw [← Option.some.inj h, Chunk.items]
    exact keys?_byteItems (first :: bytes) hrest
  | .values first values, _, h, _, _, hrest => by
    simp only [Chunk.keys?, Option.pure_def, Option.bind_eq_bind, Option.bind_eq_some_iff,
      Option.some.injEq] at h
    obtain ⟨key, hkey, keys, hkeys, rfl⟩ := h
    simp [Chunk.items, Items.keys?, Value.key?_form hkey, keys?_valuesItems hkeys hrest,
      Key.canonicalItems]

/-- The same for values. -/
theorem keys?_valuesItems : ∀ {values : List Value} {keys : List Key},
    valueKeys? values = some keys → ∀ {rest : Items} {after : List Key}, rest.keys? = some after →
      (valuesItems values rest).keys? = some (Key.canonicalItems keys ++ after)
  | [], _, h, _, _, hrest => by
    rw [← Option.some.inj h, valuesItems, hrest]
    rfl
  | value :: values, _, h, _, _, hrest => by
    simp only [valueKeys?, Option.pure_def, Option.bind_eq_bind, Option.bind_eq_some_iff,
      Option.some.injEq] at h
    obtain ⟨key, hkey, keys, hkeys, rfl⟩ := h
    simp [valuesItems, Items.keys?, Value.key?_form hkey, keys?_valuesItems hkeys hrest,
      Key.canonicalItems]

end

end Glam.Eval
