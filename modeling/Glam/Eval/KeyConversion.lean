import Glam.Eval.Demand

/-!
# Converting a value to a key

The machine of `eval/access_machine.rs` that converts a value to a dictionary key: a focus, which
demands a value or works through a dictionary or a list, and a stack of the dictionaries and lists
around it. It keeps representations: a text becomes a binary key, an atom an atom key, a list of
byte numbers a list key.

The demanded values have been evaluated, so the machine never waits for one; the checkpoints that
carry a conversion over a wait are left out. `KeyConversion.poll` is a poll that the step budget lasts
for, and `KeyConversion.pollIn` one under a budget, which may run out while a value is demanded.

`convert_leads` says that the machine ends with `Value.key?`, for every keyable value.
-/

namespace Glam.Eval

/-- Why a value has no key. -/
inductive ConversionFailure
  /-- "path-list operand must evaluate to a list value" -/
  | pathListOperand
  /-- "lazy list chunk must evaluate to a list or binary value, got …" -/
  | lazyListChunk (got : Value)
  /-- an index past the end of a dictionary's members -/
  | outOfBounds

/-- What a value in weak head normal form is to the conversion. -/
inductive ClassifiedKeyValue
  | ready (key : Key)
  | dict (members : List (Key × Value))
  | list (items : Rope)
  | invalid

/-- `classify_regional_key_value`. -/
def classifyKeyValue : Value → ClassifiedKeyValue
  | .atom key => .ready (.atom key)
  | .number value => .ready (.number value)
  | .binary bytes => .ready (.binary bytes)
  | .list items => .list items
  | .dict keys _ members => .dict (dictEntries keys members)
  | .deferred _ | .other _ => .invalid

/-- `value_as_regional_list`. -/
def valueAsList (value : Value) (allowBinary : Bool) : Except ConversionFailure Rope :=
  match value with
  | .list items => .ok items
  | .binary bytes => if allowBinary then .ok (.fromBytes bytes) else .error .pathListOperand
  | other => if allowBinary then .error (.lazyListChunk other) else .error .pathListOperand

/-- A dictionary under conversion. -/
structure DictConversion where
  members : List (Key × Value)
  next : Nat
  converted : List (Key × Key)

/-- A list under conversion: the lists still to take items from, first on top. -/
structure KeyListState where
  source : Option Value
  lists : List Rope
  chunk : Option Value
  chunkSuffix : Option Rope
  converted : List Key

/-- What a conversion is at. -/
inductive KeyConversionState
  | demand (value : Value)
  | dict (dict : DictConversion)
  | list (list : KeyListState)

/-- What a conversion goes back to. -/
inductive KeyConversionParent
  | dict (dict : DictConversion)
  | list (list : KeyListState)

/-- The conversion of a value to a key, with those it is a part of, innermost first. -/
structure KeyConversion where
  focus : KeyConversionState
  parents : List KeyConversionParent

/-- The next state, or the result: a key, or none for a value that is not keyable. -/
abbrev ConversionPoll := KeyConversion ⊕ Except ConversionFailure (Option Key)

/-- `finish`: hands a converted key to the parent. -/
def KeyConversion.finish (parents : List KeyConversionParent) : Option Key → ConversionPoll
  | none => .inr (.ok none)
  | some key =>
    match parents with
    | [] => .inr (.ok (some key))
    | .dict conversion :: parents =>
      match conversion.members[conversion.next - 1]? with
      | none => .inr (.error .outOfBounds)
      | some (name, _) =>
        .inl ⟨.dict { conversion with converted := conversion.converted ++ [(name, key)] }, parents⟩
    | .list items :: parents =>
      .inl ⟨.list { items with converted := items.converted ++ [key] }, parents⟩

/-- One poll of a list under conversion. -/
def KeyListState.poll (items : KeyListState) (parents : List KeyConversionParent) :
    ConversionPoll :=
  match items.source with
  | some value =>
    match valueAsList value.whnf false with
    | .error failure => .inr (.error failure)
    | .ok list => .inl ⟨.list { items with source := none, lists := list :: items.lists }, parents⟩
  | none =>
    match items.chunk with
    | some value =>
      match valueAsList value.whnf true with
      | .error failure => .inr (.error failure)
      | .ok list =>
        .inl ⟨.list { items with
          chunk := none
          chunkSuffix := none
          lists := list :: (items.chunkSuffix.toList ++ items.lists) }, parents⟩
    | none =>
      match items.lists with
      | [] => KeyConversion.finish parents (some (.list items.converted))
      | list :: lists =>
        match list.popFrontStep with
        | .empty => .inl ⟨.list { items with lists := lists }, parents⟩
        | .item (.byte b) tail =>
          .inl ⟨.list { items with
            lists := tail :: lists
            converted := items.converted ++ [.byte b] }, parents⟩
        | .item (.value value) tail =>
          .inl ⟨.demand value, .list { items with lists := tail :: lists } :: parents⟩
        | .deferred chunk suffix =>
          .inl ⟨.list { items with
            lists := lists
            chunk := some chunk
            chunkSuffix := some suffix }, parents⟩

/-- One poll of a conversion, with what a demand is ready with. -/
def KeyConversion.poll (conversion : KeyConversion) : ConversionPoll :=
  match conversion.focus with
  | .demand value =>
    match classifyKeyValue value.whnf with
    | .ready key => finish conversion.parents (some key)
    | .list items => .inl ⟨.list ⟨none, [items], none, none, []⟩, conversion.parents⟩
    | .dict members => .inl ⟨.dict ⟨members, 0, []⟩, conversion.parents⟩
    | .invalid => finish conversion.parents none
  | .dict conversion' =>
    match conversion'.members[conversion'.next]? with
    | none => finish conversion.parents (some (.dict conversion'.converted))
    | some (_, value) =>
      .inl ⟨.demand value,
        .dict { conversion' with next := conversion'.next + 1 } :: conversion.parents⟩
  | .list items => items.poll conversion.parents

/-- What the next poll demands: the value at the focus, or the source or the chunk of the list there,
which `poll_optional_in` puts back where the budget runs out. -/
def KeyConversion.demand (conversion : KeyConversion) : Option (Value × (Value → KeyConversion)) :=
  match conversion.focus with
  | .demand value => some (value, fun focus => { conversion with focus := .demand focus })
  | .dict _ => none
  | .list items =>
    match items.source, items.chunk with
    | some value, _ => some (value, fun focus =>
        { conversion with focus := .list { items with source := some focus } })
    | none, some value => some (value, fun focus =>
        { conversion with focus := .list { items with chunk := some focus } })
    | none, none => none

/-- **`poll_optional_in`**: one poll of a conversion under a budget. -/
def KeyConversion.pollIn : Nat → KeyConversion →
    Polled KeyConversion (Except ConversionFailure (Option Key)) × Nat :=
  Eval.pollIn demand poll

/-- A conversion at its start. -/
def KeyConversion.new (value : Value) : KeyConversion := ⟨.demand value, []⟩

/-- A conversion that is interrupted demands the same value again. -/
theorem KeyConversion.keepsDemand : KeepsDemand demand poll := by
  rintro ⟨focus, parents⟩ value putBack h focus' hwhnf
  cases focus with
  | demand =>
    obtain ⟨rfl, rfl⟩ := Prod.mk.inj (Option.some.inj h)
    exact ⟨rfl, by simp only [poll, hwhnf]⟩
  | dict => cases h
  | list items =>
    obtain ⟨_ | source, lists, _ | chunk, suffix, converted⟩ := items
    case none.none => cases h
    all_goals
      obtain ⟨rfl, rfl⟩ := Prod.mk.inj (Option.some.inj h)
      exact ⟨rfl, by simp only [poll, KeyListState.poll, hwhnf]⟩

/-! ### The conversion ends with the key the value stands for -/

open KeyConversion

/-- Conversion reaches every key smaller than `bound`. -/
def ConvertsBelow (bound : Nat) : Prop :=
  ∀ (value : Value) (key : Key) (parents : List KeyConversionParent), sizeOf key < bound →
    value.key? = some key → Leads poll ⟨.demand value, parents⟩ (finish parents (some key))

variable {bound : Nat} {parents : List KeyConversionParent}

/-- The machine converts a dictionary's members from any index on. -/
theorem dict_leads (below : ConvertsBelow bound) (done : List (Key × Value))
    {rest : List (Key × Value)} (converted : List (Key × Key)) {entries : List (Key × Key)}
    (hrest : EntriesFor rest entries)
    (hbound : ∀ entry ∈ entries, sizeOf entry.2 < bound) :
    Leads poll ⟨.dict ⟨done ++ rest, done.length, converted⟩, parents⟩
      (finish parents (some (.dict (converted ++ entries)))) := by
  induction hrest generalizing done converted with
  | nil =>
    refine .of_eq ?_
    simp [poll]
  | @cons entry entry' rest entries hentry hrest ih =>
    obtain ⟨name, value⟩ := entry
    obtain ⟨name', key⟩ := entry'
    obtain ⟨rfl, hkey⟩ : name = name' ∧ value.key? = some key := hentry
    have hdemand : poll ⟨.dict ⟨done ++ (name, value) :: rest, done.length, converted⟩, parents⟩ =
        .inl ⟨.demand value,
          .dict ⟨done ++ (name, value) :: rest, done.length + 1, converted⟩ :: parents⟩ := by
      simp [poll]
    have hmember := below value key
      (.dict ⟨done ++ (name, value) :: rest, done.length + 1, converted⟩ :: parents)
      (hbound _ (.head _)) hkey
    have hnext := ih (done ++ [(name, value)]) (converted ++ [(name, key)])
      fun entry hentry => hbound entry (.tail _ hentry)
    simp only [finish, Nat.add_sub_cancel, List.getElem?_append_right (Nat.le_refl _),
      Nat.sub_self, List.getElem?_cons_zero] at hmember
    simp only [List.append_assoc, List.singleton_append, List.length_append,
      List.length_singleton] at hnext
    exact .later hdemand (hmember.trans hnext)

/-- The keys that the lists of a stack give one after the other. -/
def StackFor : List Rope → List (List Key) → Prop :=
  List.Forall₂ fun list keys => list.keys? = some keys

/-- What is left to do on a stack of lists: an item is taken, a list that is empty dropped, and a
lazy chunk replaced by its list and the list after it. -/
def stackWork (lists : List Rope) (keys : List (List Key)) : Nat :=
  keys.flatten.length + 2 * (lists.map Rope.thunks).sum + lists.length

/-- A value whose items have keys is a list once it is evaluated. -/
theorem valueAsList_chunk {value : Value} {keys : List Key} (h : value.listKeys? = some keys) :
    ∃ list, valueAsList value.whnf true = .ok list ∧ list.keys? = some keys ∧
      list.thunks = value.thunks := by
  rw [← Value.listKeys?_whnf] at h
  rw [← Value.thunks_whnf]
  cases hvalue : value.whnf with
  | list items => exact ⟨items, rfl, by simpa [hvalue, Value.listKeys?] using h, by rw [Value.thunks]⟩
  | binary bytes =>
    refine ⟨.fromBytes bytes, rfl, ?_, by simp [Value.thunks]⟩
    rw [Rope.keys?_fromBytes, ← h, hvalue, Value.listKeys?]
  | deferred => exact absurd hvalue (Value.whnf_ne_deferred _ _)
  | atom | number | dict | other => simp [hvalue, Value.listKeys?] at h

/-- The machine converts what is left on the stack of a list. -/
theorem list_leads (below : ConvertsBelow bound) (lists : List Rope) (keys : List (List Key))
    (converted : List Key) (hlists : StackFor lists keys)
    (hbound : ∀ key ∈ keys.flatten, sizeOf key < bound) :
    Leads poll ⟨.list ⟨none, lists, none, none, converted⟩, parents⟩
      (finish parents (some (.list (converted ++ keys.flatten)))) := by
  -- on the keys and thunks that are left: a poll takes an item, or replaces a thunk by its chunk
  induction hwork : stackWork lists keys using Nat.strong_induction_on
    generalizing lists keys converted with
  | _ work ih =>
  subst hwork
  cases hlists with
  | nil => exact .of_eq (by simp [poll, KeyListState.poll])
  | @cons list ks lists keys hlist hlists =>
    have hspec := Rope.popFrontStep_spec hlist
    cases hstep : list.popFrontStep with
    | empty =>
      rw [hstep] at hspec
      obtain rfl : ks = [] := hspec
      refine .later (by simp only [poll, KeyListState.poll, hstep]; rfl) ?_
      exact ih _ (by simp [stackWork]; omega) lists keys converted hlists hbound rfl
    | item first tail =>
      rw [hstep] at hspec
      obtain ⟨k, rest, rfl, hk, hrest, hthunks⟩ := hspec
      have hnext := ih _ (by simp [stackWork]; omega) (tail :: lists) (rest :: keys)
        (converted ++ [k]) (.cons hrest hlists)
        (fun key hkey => hbound key (by simp at hkey ⊢; tauto)) rfl
      simp only [List.append_assoc, List.flatten_cons, List.singleton_append] at hnext
      cases first with
      | byte b =>
        obtain rfl : Key.byte b = k := Option.some.inj hk
        exact .later (by simp only [poll, KeyListState.poll, hstep]) hnext
      | value value =>
        -- the item is converted above the list, which then goes on
        have hitem := below value k (.list ⟨none, tail :: lists, none, none, converted⟩ :: parents)
          (hbound k (by simp)) hk
        exact .later (by simp only [poll, KeyListState.poll, hstep]) (hitem.trans hnext)
    | deferred chunk suffix =>
      rw [hstep] at hspec
      obtain ⟨cs, ss, rfl, hcs, hss, hthunks⟩ := hspec
      obtain ⟨chunkList, hchunk, hkeys, hsame⟩ := valueAsList_chunk hcs
      have hnext := ih _ (by simp [stackWork]; omega) (chunkList :: suffix :: lists)
        (cs :: ss :: keys) converted (.cons hkeys (.cons hss hlists))
        (fun key hkey => hbound key (by simpa using hkey)) rfl
      simp only [List.flatten_cons, List.append_assoc] at hnext ⊢
      refine .later (by simp only [poll, KeyListState.poll, hstep]; rfl) (.later ?_ hnext)
      simp only [poll, KeyListState.poll, hchunk]
      rfl

/-- By induction on the size of the key: the machine converts every value that has one. -/
theorem convertsBelow (bound : Nat) : ConvertsBelow bound := by
  induction bound with
  | zero => exact fun _ _ _ h => absurd h (Nat.not_lt_zero _)
  | succ bound ih =>
    intro value key parents hsize hkey
    obtain ⟨shell, hvalue, hshape⟩ := Value.exists_keyShape hkey
    cases hshape with
    | atom | number | binary => exact .of_eq (by simp [poll, hvalue, classifyKeyValue])
    | @list items keys hkeys =>
      refine .later (by simp only [poll, hvalue, classifyKeyValue]; rfl) ?_
      have hsmall : ∀ k ∈ [keys].flatten, sizeOf k < bound := by
        intro k hk
        have := List.sizeOf_lt_of_mem (show k ∈ keys by simpa using hk)
        simp only [Key.list.sizeOf_spec] at hsize
        omega
      simpa only [List.flatten_singleton, List.nil_append] using
        list_leads ih [items] [keys] [] (.cons hkeys .nil) hsmall
    | dict hentries =>
      refine .later (by simp only [poll, hvalue, classifyKeyValue]; rfl) ?_
      refine dict_leads ih [] [] hentries ?_
      rintro ⟨name, member⟩ hentry
      have := List.sizeOf_lt_of_mem hentry
      simp only [Prod.mk.sizeOf_spec, Key.dict.sizeOf_spec] at this hsize ⊢
      omega

/-- **Key conversion.** A keyable value is converted to the key it stands for. -/
theorem convert_leads {value : Value} {key : Key} (h : value.key? = some key) :
    Leads poll (KeyConversion.new value) (.inr (.ok (some key))) :=
  convertsBelow _ value key [] (Nat.lt_succ_self _) h

end Glam.Eval
