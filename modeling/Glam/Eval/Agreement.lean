import Glam.Eval.Answers

/-!
# Where equality and keys agree

Dictionary entries, prompts and store locations are found by key, so values that are equal should
have one key. Equality sees through representations: it compares a text with a list byte by byte,
and an atom with a dictionary as the dictionary it stands for. Key conversion does not. The two
agree on a pair of values exactly if keys with one canonical form have one representation, at the top
and at every place inside (`equal_iff_sameKey_iff`).

What does hold of all keyable values is that equality is equality of canonical forms
(`equal_iff_canonical`), hence an equivalence, and that values with one key are equal.
-/

namespace Glam.Eval

/-! ### Forms with canonical keys -/

theorem Members.keys_of_keys? : ∀ {entries : Members} {keys : List (Key × Key)},
    entries.keys? = some keys → entries.keys = keys.map Prod.fst
  | .done, _, h => by
    rw [← Option.some.inj h]
    rfl
  | .entry .., _, h => by
    obtain ⟨key, others, -, hothers, rfl⟩ := keys?_entry h
    rw [Members.keys, keys_of_keys? hothers, List.map_cons]

mutual

/-- Forms with canonical keys are equal exactly if the keys are. -/
theorem Form.equal_keys : ∀ {left right : Form} {key key' : Key}, left.key? = some key →
    right.key? = some key' → left.compare .equality right = some (.equality (key = key'))
  | .number value, right, _, _, h, h' => by
    obtain rfl := Option.some.inj h
    cases right with
    | number value' =>
      obtain rfl := Option.some.inj h'
      simp [Form.compare, ComparisonMode.result]
    | unit =>
      obtain rfl := Option.some.inj h'
      rfl
    | list | dict =>
      obtain ⟨_, _, rfl⟩ := Option.map_eq_some_iff.mp h'
      rfl
    | other => cases h'
  | .unit, right, _, _, h, h' => by
    obtain rfl := Option.some.inj h
    cases right with
    | number | unit =>
      obtain rfl := Option.some.inj h'
      rfl
    | list | dict =>
      obtain ⟨_, _, rfl⟩ := Option.map_eq_some_iff.mp h'
      rfl
    | other => cases h'
  | .list items, right, _, _, h, h' => by
    obtain ⟨keys, hkeys, rfl⟩ := Option.map_eq_some_iff.mp h
    cases right with
    | list items' =>
      obtain ⟨keys', hkeys', rfl⟩ := Option.map_eq_some_iff.mp h'
      rw [Form.compare, Items.equal_keys hkeys hkeys']
      simp
    | number | unit =>
      obtain rfl := Option.some.inj h'
      rfl
    | dict =>
      obtain ⟨_, _, rfl⟩ := Option.map_eq_some_iff.mp h'
      rfl
    | other => cases h'
  | .dict entries, right, _, _, h, h' => by
    obtain ⟨keys, hkeys, rfl⟩ := Option.map_eq_some_iff.mp h
    cases right with
    | dict entries' =>
      obtain ⟨keys', hkeys', rfl⟩ := Option.map_eq_some_iff.mp h'
      rw [Form.compare]
      split
      next hsame =>
        rw [Members.equal_keys hkeys hkeys' hsame]
        simp
      -- the names of the members are part of the keys
      next hdiffer =>
        have hne : keys ≠ keys' := by
          rintro rfl
          exact hdiffer ((Members.keys_of_keys? hkeys).trans (Members.keys_of_keys? hkeys').symm)
        simp [ComparisonMode.unlike, hne]
    | number | unit =>
      obtain rfl := Option.some.inj h'
      rfl
    | list =>
      obtain ⟨_, _, rfl⟩ := Option.map_eq_some_iff.mp h'
      rfl
    | other => cases h'

/-- Lists are equal exactly if the keys of their items are. -/
theorem Items.equal_keys : ∀ {left right : Items} {keys keys' : List Key}, left.keys? = some keys →
    right.keys? = some keys' → left.compare .equality right = some (.equality (keys = keys'))
  | .done, right, _, _, h, h' => by
    obtain rfl := Option.some.inj h
    cases right with
    | done =>
      obtain rfl := Option.some.inj h'
      rfl
    | item =>
      obtain ⟨key, others, -, -, rfl⟩ := Items.keys?_item h'
      rfl
    | broken => cases h'
  | .item first rest, right, _, _, h, h' => by
    obtain ⟨key, others, hkey, hothers, rfl⟩ := Items.keys?_item h
    cases right with
    | done =>
      obtain rfl := Option.some.inj h'
      rfl
    | item =>
      obtain ⟨key', others', hkey', hothers', rfl⟩ := Items.keys?_item h'
      rw [Items.compare, Form.equal_keys hkey hkey', Items.equal_keys hothers hothers']
      by_cases hsame : key = key' <;> simp [firstDifference, ComparisonResult.isSame, hsame]
    | broken => cases h'

/-- Members under the same names are equal exactly if their keys are. -/
theorem Members.equal_keys : ∀ {left right : Members} {keys keys' : List (Key × Key)},
    left.keys? = some keys → right.keys? = some keys' → left.keys = right.keys →
    left.compareMembers .equality right = some (.equality (keys = keys'))
  | .done, right, _, _, h, h', hnames => by
    obtain rfl := Option.some.inj h
    cases right with
    | done =>
      obtain rfl := Option.some.inj h'
      rfl
    | entry => cases hnames
  | .entry name member rest, right, _, _, h, h', hnames => by
    obtain ⟨key, others, hkey, hothers, rfl⟩ := Members.keys?_entry h
    cases right with
    | done => cases hnames
    | entry =>
      obtain ⟨key', others', hkey', hothers', rfl⟩ := Members.keys?_entry h'
      obtain ⟨rfl, hrest⟩ := List.cons.inj hnames
      rw [Members.compareMembers, Form.equal_keys hkey hkey',
        Members.equal_keys hothers hothers' hrest]
      by_cases hsame : key = key' <;> simp [firstDifference, ComparisonResult.isSame, hsame]

end

/-! ### Equality and keys of values -/

/-- A fully evaluated value made of numbers, atoms, texts, and lists and dictionaries of them, in
any representation, with the key it stands for. -/
structure KeyableValue where
  value : Value
  key : Key
  keyable : value.key? = some key

/-- The builtin ends with the answer. -/
def Compares (builtin : ComparisonBuiltin) (left right : Value) (answer : Bool) : Prop :=
  ∃ fuel, runPolls (ComparisonMachine.poll builtin) fuel (.new builtin left right) =
    some (.ok answer)

/-- `left == right` succeeds. -/
def Equal (left right : Value) : Prop := Compares .equal left right true

/-- `left == right` ends without an error. -/
def Compared (left right : Value) : Prop := ∃ answer, Compares .equal left right answer

/-- The conversion of `value` ends with `key`. -/
def ConvertsTo (value : Value) (key : Key) : Prop :=
  ∃ fuel, runPolls KeyConversion.poll fuel (.new value) = some (.ok (some key))

/-- Both values convert to one key. -/
def SameKey (left right : Value) : Prop := ∃ key, ConvertsTo left key ∧ ConvertsTo right key

/-- **The answers by forms.** -/
theorem compares_iff (builtin : ComparisonBuiltin) (left right : Value) (answer : Bool) :
    Compares builtin left right answer ↔
      ∃ result, left.form.compare builtin.mode right.form = some result ∧
        builtin.finish result = .ok answer := by
  have hleads := comparison_leads builtin left right
  rw [Compares, ← leads_result_iff]
  cases hcompare : left.form.compare builtin.mode right.form with
  | none =>
    rw [hcompare] at hleads
    obtain ⟨failure, hleads⟩ := hleads
    constructor
    · intro h
      cases h.result_unique hleads
    · rintro ⟨_, h, -⟩
      cases h
  | some result =>
    rw [hcompare] at hleads
    constructor
    · exact fun h => ⟨result, rfl, hleads.result_unique h⟩
    · rintro ⟨result', hresult, hanswer⟩
      obtain rfl := Option.some.inj hresult
      exact hanswer ▸ hleads

variable (v w : KeyableValue)

theorem convertsTo_iff (key : Key) : ConvertsTo v.value key ↔ v.key = key := by
  have hleads := convert_leads v.keyable
  constructor
  · intro h
    simpa using hleads.result_unique (leads_result_iff.mpr h)
  · rintro rfl
    exact leads_result_iff.mp hleads

/-- **Conversion ends with the key of the value**, whatever the budgets it is run under, also those
that run out while a value is demanded. -/
theorem conversion_slices : AnySlices KeyConversion.pollIn (.new v.value) (.ok (some v.key)) :=
  (convert_leads v.keyable).anySlices KeyConversion.keepsDemand.interruptible

/-- Equal values are those with one canonical form, and comparison ends for all. -/
theorem compare_forms : v.value.form.compare .equality w.value.form =
    some (.equality (v.key.canonical = w.key.canonical)) :=
  Form.equal_keys (Value.key?_form v.keyable) (Value.key?_form w.keyable)

theorem compared : Compared v.value w.value :=
  ⟨_, (compares_iff .equal ..).mpr ⟨_, compare_forms v w, rfl⟩⟩

/-- Equal values are those with one canonical form. -/
theorem equal_iff_canonical : Equal v.value w.value ↔ v.key.canonical = w.key.canonical := by
  rw [Equal, compares_iff, ComparisonBuiltin.mode, compare_forms]
  simp [ComparisonBuiltin.finish]

theorem sameKey_iff : SameKey v.value w.value ↔ v.key = w.key := by
  simp [SameKey, convertsTo_iff, eq_comm]

theorem equal_of_sameKey (h : SameKey v.value w.value) : Equal v.value w.value := by
  rw [equal_iff_canonical, (sameKey_iff v w).mp h]

/-- **Equality and keys.** Comparison and conversion both end. That the values are equal exactly if
they have one key holds exactly if keys with one canonical form are represented alike. -/
theorem equal_iff_sameKey_iff :
    Compared v.value w.value ∧ (∃ key, ConvertsTo v.value key) ∧
    ((Equal v.value w.value ↔ SameKey v.value w.value) ↔
      (v.key.canonical = w.key.canonical → v.key.Alike w.key)) := by
  refine ⟨compared v w, ⟨v.key, (convertsTo_iff v _).mpr rfl⟩, ?_⟩
  constructor
  · intro h hcanonical
    have hsame := h.mp ((equal_iff_canonical v w).mpr hcanonical)
    rw [(sameKey_iff v w).mp hsame]
    exact Key.alike_self _
  · intro h
    refine ⟨fun hequal => ?_, equal_of_sameKey v w⟩
    have hcanonical := (equal_iff_canonical v w).mp hequal
    rw [sameKey_iff]
    exact Key.eq_of_canonical_of_alike hcanonical (h hcanonical)

/-- The text `"a"` equals the list `[97]` and the atom `'a` the dictionary `["a"]:()`, yet the two
texts and the two atoms are keys of different entries. -/
theorem equal_values_with_two_keys :
    (Equal (.binary [97]) (.list (.fromValueSlice [.number 97])) ∧
      ¬SameKey (.binary [97]) (.list (.fromValueSlice [.number 97]))) ∧
    (Equal (.atom (.binary [97])) (.dict [.binary [97]] (List.pairwise_singleton ..)
        fun _ => .atom .unit) ∧
      ¬SameKey (.atom (.binary [97])) (.dict [.binary [97]] (List.pairwise_singleton ..)
        fun _ => .atom .unit)) := by
  let text : KeyableValue := ⟨.binary [97], .binary [97], rfl⟩
  let list : KeyableValue := ⟨.list (.fromValueSlice [.number 97]), .list [.number 97], rfl⟩
  let atom : KeyableValue := ⟨.atom (.binary [97]), .atom (.binary [97]), rfl⟩
  let dict : KeyableValue := ⟨.dict [.binary [97]] (List.pairwise_singleton ..)
    fun _ => .atom .unit, .dict [(.binary [97], .atom .unit)], rfl⟩
  refine ⟨⟨(equal_iff_canonical text list).mpr ?_, ?_⟩,
    ⟨(equal_iff_canonical atom dict).mpr ?_, ?_⟩⟩
  · simp [text, list, Key.canonical, Key.canonicalItems, Key.byte]
  · rw [sameKey_iff text list]
    simp [text, list]
  · simp [atom, dict, Key.canonical, Key.canonicalEntries, Key.unit]
  · rw [sameKey_iff atom dict]
    simp [atom, dict]

end Glam.Eval
