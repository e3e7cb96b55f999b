import Glam.Eval.Agreement
import Glam.Eval.PatternBuiltins

/-!
# Do equal values match alike?

Patterns, as `g_syntax/resolve/pattern.rs` lowers them to pattern builtins: captures, literals,
quoted paths, two patterns for one subject, lists from either end and dictionaries entry by entry.
Views, predicates and guards run code of their own and are left out, and the paths of a pattern are
given as keys.

`Pattern.Matches` says what a pattern binds, by what the builtins answer on the values it meets.
What it binds depends on the key its subject stands for alone (`Pattern.agrees`): `Pattern.on` is
the pattern on keys, which is this development's own.

Equality sees through representations and patterns do not. An atom matches the pattern `'tag`, and
the dictionary `["tag"]:()` that it equals does not. A quoted path is compared by its keys, and with
it and an optional entry a pattern tells apart the representations of whatever is inside a list or a
dictionary. Only a text and the list of its bytes are one to every pattern (`Key.listed`). So equal
values match alike exactly if they differ in nothing but that
(`equal_match_alike_iff`): whatever else differs, the pattern `Key.pattern` sees it.
-/

namespace Glam.Eval

mutual
/-- The patterns of a match. -/
inductive Pattern
  | capture
  | wildcard
  | literal (literal : PatternLiteral)
  | quotedPath (path : List Key)
  /-- `left as right` -/
  | both (left right : Pattern)
  | list (items : ListPattern)
  | dict (entries : DictPattern)
/-- What is left of a list pattern: items from the front, items from the back, and then the pattern
of the middle or the end of the list. -/
inductive ListPattern
  | first (head : Pattern) (rest : ListPattern)
  | last (init : ListPattern) (last : Pattern)
  | middle (pattern : Pattern)
  | done
/-- What is left of a dictionary pattern: entries, each with its path, and then the pattern of the
remainder or the end of the dictionary. -/
inductive DictPattern
  | take (optional : Bool) (key : Key) (path : List Key) (value : Pattern) (rest : DictPattern)
  | remainder (pattern : Pattern)
  | done
end

/-- Polling ends with the result. -/
def Yields {S R : Type} (poll : S → S ⊕ R) (s : S) (r : R) : Prop :=
  ∃ fuel, runPolls poll fuel s = some r

theorem yields_iff {S R : Type} {poll : S → S ⊕ R} {s : S} {r r' : R}
    (h : Leads poll s (.inr r)) : Yields poll s r' ↔ r' = r := by
  rw [Yields, ← leads_result_iff]
  refine ⟨fun h' => h'.result_unique h, ?_⟩
  rintro rfl
  exact h

mutual
/-- **Matching** (`append_match_steps`): the pattern accepts the value and binds the values listed,
in the order of its captures. -/
def Pattern.Matches : Pattern → Value → List Value → Prop
  | .capture, value, bound => bound = [value]
  | .wildcard, _, bound => bound = []
  | .literal literal, value, bound => Yields literal.poll (.subject value) .succeeds ∧ bound = []
  | .quotedPath path, value, bound =>
    Yields (patternPathPoll path) (.subject value) .succeeds ∧ bound = []
  | .both left right, value, bound =>
    ∃ b c, left.Matches value b ∧ right.Matches value c ∧ bound = b ++ c
  | .list items, value, bound =>
    Yields (PatternListOperation.poll .isList) (.source value) .succeeds ∧
      items.Matches value bound
  | .dict entries, value, bound => patternIsDict value = .succeeds ∧ entries.Matches value bound
/-- `append_list_match`. The items at the back are all taken before the middle is matched, and
matched after it. -/
def ListPattern.Matches : ListPattern → Value → List Value → Prop
  | .first head rest, value, bound =>
    ∃ first tail b c, Yields (PatternListOperation.poll .tryUncons) (.source value)
        (.parts first tail) ∧
      head.Matches first b ∧ rest.Matches tail c ∧ bound = b ++ c
  | .last init last, value, bound =>
    ∃ front item b c, Yields (PatternListOperation.poll .tryUnsnoc) (.source value)
        (.parts front item) ∧
      init.Matches front b ∧ last.Matches item c ∧ bound = b ++ c
  | .middle pattern, value, bound => pattern.Matches value bound
  | .done, value, bound =>
    Yields (PatternListOperation.poll .isEmpty) (.source value) .succeeds ∧ bound = []
/-- `append_dict_match`. -/
def DictPattern.Matches : DictPattern → Value → List Value → Prop
  | .take optional key path pattern rest, value, bound =>
    ∃ member remainder b c,
      patternDictTryTake optional (key :: path) value = .parts member remainder ∧
      pattern.Matches member b ∧ rest.Matches remainder c ∧ bound = b ++ c
  | .remainder pattern, value, bound => pattern.Matches value bound
  | .done, value, bound => patternDictIsEmpty value = .succeeds ∧ bound = []
end

/-! ### Matching by keys -/

mutual
/-- What a pattern binds on a key. -/
def Pattern.on : Pattern → Key → Option (List Key)
  | .capture, key => some [key]
  | .wildcard, _ => some []
  | .literal literal, key => if literal.Accepts key then some [] else none
  | .quotedPath path, key => if key.items? = some path then some [] else none
  | .both left right, key =>
    (left.on key).bind fun b => (right.on key).map fun c => b ++ c
  | .list items, key => if key.items?.isSome then items.on key else none
  | .dict entries, key => if key.isDict then entries.on key else none
/-- What a list pattern captures of a key. -/
def ListPattern.on : ListPattern → Key → Option (List Key)
  | .first head rest, key =>
    key.uncons?.bind fun parts =>
      (head.on parts.1).bind fun b => (rest.on parts.2).map fun c => b ++ c
  | .last init last, key =>
    key.unsnoc?.bind fun parts =>
      (init.on parts.1).bind fun b => (last.on parts.2).map fun c => b ++ c
  | .middle pattern, key => pattern.on key
  | .done, key => if key.items? = some [] then some [] else none
/-- What a dictionary pattern captures of a key. -/
def DictPattern.on : DictPattern → Key → Option (List Key)
  | .take optional key path pattern rest, subject =>
    (subject.take? optional (key :: path)).bind fun parts =>
      (pattern.on parts.1).bind fun b => (rest.on parts.2).map fun c => b ++ c
  | .remainder pattern, key => pattern.on key
  | .done, key => if key = .dict [] then some [] else none
end

/-- The values stand for the keys. -/
def KeysFor : List Value → List Key → Prop :=
  List.Forall₂ fun value key => value.key? = some key

/-- What is bound are values for the keys expected, and something is bound where some are. -/
structure Agrees (binds : List Value → Prop) (expected : Option (List Key)) : Prop where
  sound : ∀ bound, binds bound → ∃ keys, expected = some keys ∧ KeysFor bound keys
  complete : ∀ keys, expected = some keys → ∃ bound, binds bound ∧ KeysFor bound keys

section Agrees

variable {binds first second : List Value → Prop} {expected expected' : Option (List Key)}

/-- A test binds nothing. -/
theorem Agrees.test {p q : Prop} [Decidable q] (h : p ↔ q) :
    Agrees (fun bound => p ∧ bound = []) (if q then some [] else none) where
  sound := by
    rintro bound ⟨hp, rfl⟩
    exact ⟨[], if_pos (h.mp hp), .nil⟩
  complete keys hkeys := by
    by_cases hq : q
    · rw [if_pos hq, Option.some.injEq] at hkeys
      subst hkeys
      exact ⟨[], ⟨h.mpr hq, rfl⟩, .nil⟩
    · rw [if_neg hq] at hkeys
      cases hkeys

/-- A guard stands before what binds. -/
theorem Agrees.guard {p q : Prop} [Decidable q] (h : p ↔ q) (hagrees : Agrees binds expected) :
    Agrees (fun bound => p ∧ binds bound) (if q then expected else none) where
  sound := by
    rintro bound ⟨hp, hbound⟩
    rw [if_pos (h.mp hp)]
    exact hagrees.sound bound hbound
  complete keys hkeys := by
    by_cases hq : q
    · rw [if_pos hq] at hkeys
      obtain ⟨bound, hbound, hfor⟩ := hagrees.complete keys hkeys
      exact ⟨bound, ⟨h.mpr hq, hbound⟩, hfor⟩
    · rw [if_neg hq] at hkeys
      cases hkeys

/-- Two patterns on one value bind what each binds. -/
theorem Agrees.both (hfirst : Agrees first expected) (hsecond : Agrees second expected') :
    Agrees (fun bound => ∃ b c, first b ∧ second c ∧ bound = b ++ c)
      (expected.bind fun b => expected'.map fun c => b ++ c) where
  sound := by
    rintro bound ⟨b, c, hb, hc, rfl⟩
    obtain ⟨keys, rfl, hkeys⟩ := hfirst.sound b hb
    obtain ⟨keys', rfl, hkeys'⟩ := hsecond.sound c hc
    exact ⟨keys ++ keys', rfl, List.rel_append hkeys hkeys'⟩
  complete keys hkeys := by
    simp only [Option.bind_eq_some_iff, Option.map_eq_some_iff] at hkeys
    obtain ⟨ks, hks, ks', hks', rfl⟩ := hkeys
    obtain ⟨b, hb, hbk⟩ := hfirst.complete ks hks
    obtain ⟨c, hc, hck⟩ := hsecond.complete ks' hks'
    exact ⟨b ++ c, ⟨b, c, hb, hc, rfl⟩, List.rel_append hbk hck⟩

/-- A subject that is taken into two parts, each of which is matched. -/
theorem Agrees.parts {answers : PatternResult → Prop} {result : PatternResult}
    {parts? : Option (Key × Key)} {first second : Value → List Value → Prop}
    {on on' : Key → Option (List Key)} (hanswers : ∀ r, answers r ↔ r = result)
    (hparts : PartsFor parts? result)
    (hfirst : ∀ value key, value.key? = some key → Agrees (first value) (on key))
    (hsecond : ∀ value key, value.key? = some key → Agrees (second value) (on' key)) :
    Agrees (fun bound => ∃ v w b c, answers (.parts v w) ∧ first v b ∧ second w c ∧ bound = b ++ c)
      (parts?.bind fun parts => (on parts.1).bind fun b => (on' parts.2).map fun c => b ++ c) := by
  cases parts? with
  | none =>
    -- the builtin fails, so it answers with no parts
    refine ⟨?_, nofun⟩
    rintro bound ⟨v, w, b, c, hvw, -⟩
    cases ((hanswers _).mp hvw).trans hparts
  | some keys =>
    obtain ⟨value, value', rfl, hvalue, hvalue'⟩ := hparts
    have hboth := (hfirst value _ hvalue).both (hsecond value' _ hvalue')
    refine ⟨?_, fun keys hkeys => ?_⟩
    · rintro bound ⟨v, w, b, c, hvw, hb, hc, rfl⟩
      obtain ⟨rfl, rfl⟩ := PatternResult.parts.inj ((hanswers _).mp hvw)
      exact hboth.sound _ ⟨b, c, hb, hc, rfl⟩
    · obtain ⟨bound, ⟨b, c, hb, hc, rfl⟩, hfor⟩ := hboth.complete keys hkeys
      exact ⟨b ++ c, ⟨value, value', b, c, (hanswers _).mpr rfl, hb, hc, rfl⟩, hfor⟩

end Agrees

theorem patternPredicate_eq_succeeds {passes : Bool} :
    patternPredicate passes = .succeeds ↔ passes := by
  cases passes <;> simp [patternPredicate]

theorem yields_succeeds_iff {S : Type} {poll : S → S ⊕ PatternResult} {s : S} {p : Prop}
    [Decidable p] (h : Leads poll s (.inr (patternPredicate p))) :
    Yields poll s .succeeds ↔ p := by
  rw [yields_iff h, eq_comm, patternPredicate_eq_succeeds, decide_eq_true_iff]

mutual
/-- **Patterns see keys.** What a pattern binds on a keyable value is what it binds on its key. -/
theorem Pattern.agrees : ∀ (p : Pattern) {value : Value} {key : Key}, value.key? = some key →
    Agrees (p.Matches value) (p.on key)
  | .capture, value, key, h => by
    refine ⟨?_, ?_⟩
    · rintro _ rfl
      exact ⟨[key], rfl, .cons h .nil⟩
    · rintro _ ⟨⟩
      exact ⟨[value], rfl, .cons h .nil⟩
  | .wildcard, _, _, _ => by
    refine ⟨?_, ?_⟩
    · rintro _ rfl
      exact ⟨[], rfl, .nil⟩
    · rintro _ ⟨⟩
      exact ⟨[], rfl, .nil⟩
  -- a test binds nothing; a guard stands before the patterns of the parts
  | .literal literal, _, _, h => .test (yields_succeeds_iff (equal_spec literal h))
  | .quotedPath path, _, _, h => .test (yields_succeeds_iff (path_spec path h))
  | .both left right, _, _, h => (left.agrees h).both (right.agrees h)
  | .list items, _, _, h => by
    refine .guard ?_ (items.agrees h)
    rw [yields_iff (isList_spec h), eq_comm, patternPredicate_eq_succeeds]
  | .dict entries, _, _, h => by
    refine .guard ?_ (entries.agrees h)
    rw [isDict_spec h, patternPredicate_eq_succeeds]
/-- A list pattern matches by the key alone. -/
theorem ListPattern.agrees : ∀ (p : ListPattern) {value : Value} {key : Key},
    value.key? = some key → Agrees (p.Matches value) (p.on key)
  | .first head rest, _, _, h => by
    obtain ⟨result, hleads, hparts⟩ := tryUncons_spec h
    exact .parts (fun _ => yields_iff hleads) hparts (fun _ _ => head.agrees) fun _ _ => rest.agrees
  | .last init last, _, _, h => by
    obtain ⟨result, hleads, hparts⟩ := tryUnsnoc_spec h
    exact .parts (fun _ => yields_iff hleads) hparts (fun _ _ => init.agrees) fun _ _ => last.agrees
  | .middle pattern, _, _, h => pattern.agrees h
  | .done, _, _, h => .test (yields_succeeds_iff (isEmpty_spec h))
theorem DictPattern.agrees : ∀ (p : DictPattern) {value : Value} {key : Key},
    value.key? = some key → Agrees (p.Matches value) (p.on key)
  | .take optional key path pattern rest, value, _, h =>
    .parts (fun r => eq_comm) (tryTake_spec optional (List.cons_ne_nil key path) h)
      (fun _ _ => pattern.agrees) fun _ _ => rest.agrees
  | .remainder pattern, _, _, h => pattern.agrees h
  | .done, _, _, h => by
    refine .test ?_
    rw [dictIsEmpty_spec h, patternPredicate_eq_succeeds, decide_eq_true_iff]
end

/-- **Matching refines matching on keys.** Whatever represents a key, a pattern binds values for
what it binds on the key, and it matches where it does there. -/
theorem matches_by_key (p : Pattern) (v : KeyableValue) :
    (∀ bound, p.Matches v.value bound → ∃ keys, p.on v.key = some keys ∧ KeysFor bound keys) ∧
      ∀ keys, p.on v.key = some keys → ∃ bound, p.Matches v.value bound ∧ KeysFor bound keys :=
  ⟨(p.agrees v.keyable).sound, (p.agrees v.keyable).complete⟩

/-! ### Texts and lists of bytes -/

/-- The key with a text written as the list of its bytes, but not inside it. -/
def Key.listed : Key → Key
  | .binary bytes => .list (bytes.map Key.byte)
  | key => key

theorem Key.map_byte_inj {bytes bytes' : List UInt8} :
    bytes.map Key.byte = bytes'.map Key.byte ↔ bytes = bytes' :=
  (List.map_injective_iff.mpr Key.byte_injective).eq_iff

theorem Key.canonical_listed (key : Key) : key.listed.canonical = key.canonical := by
  cases key <;> simp [listed, canonical, canonicalItems_map_byte]

variable {key : Key} {entries : List (Key × Key)}

/-- Keys with one listed form are one key, or a text and the list of its bytes. -/
theorem Key.listed_cases {key' : Key} (h : key.listed = key'.listed) :
    key = key' ∨ (∃ bytes, key = .binary bytes ∧ key' = .list (bytes.map Key.byte)) ∨
      ∃ bytes, key = .list (bytes.map Key.byte) ∧ key' = .binary bytes := by
  cases key <;> cases key' <;> simp_all [listed, Key.map_byte_inj]

theorem PatternLiteral.accepts_iff (literal : PatternLiteral) (key : Key) :
    literal.Accepts key ↔ literal.key.listed = key.listed := by
  cases literal <;> cases key <;>
    simp [PatternLiteral.Accepts, PatternLiteral.key, Key.listed, Key.map_byte_inj, eq_comm]

theorem Key.items?_eq_some_iff {items : List Key} :
    key.items? = some items ↔ (Key.list items).listed = key.listed := by
  cases key <;> simp [Key.items?, Key.listed, eq_comm]

/-- Both patterns bind nothing, or keys with the same listed forms. -/
def BindsAlike : Option (List Key) → Option (List Key) → Prop :=
  Option.Rel (List.Forall₂ fun key key' => key.listed = key'.listed)

section BindsAlike

variable {x y x' y' : Option (List Key)}

theorem BindsAlike.refl (x : Option (List Key)) : BindsAlike x x := by
  cases x with
  | none => exact .none
  | some keys => exact .some (List.forall₂_refl keys)

theorem BindsAlike.both (h : BindsAlike x y) (h' : BindsAlike x' y') :
    BindsAlike (x.bind fun b => x'.map fun c => b ++ c)
      (y.bind fun b => y'.map fun c => b ++ c) := by
  cases h with
  | none => exact .none
  | some hkeys =>
    cases h' with
    | none => exact .none
    | some hkeys' => exact .some (List.rel_append hkeys hkeys')

end BindsAlike

mutual
/-- A binary and the list of its bytes are matched alike. -/
theorem Pattern.on_text : ∀ (p : Pattern) (bytes : List UInt8),
    BindsAlike (p.on (.binary bytes)) (p.on (.list (bytes.map Key.byte)))
  | .capture, _ => .some (.cons rfl .nil)
  | .wildcard, _ => .refl _
  | .literal literal, bytes => by
    simp only [Pattern.on, PatternLiteral.accepts_iff, Key.listed]
    exact .refl _
  | .quotedPath _, _ => .refl _
  | .both left right, bytes => (left.on_text bytes).both (right.on_text bytes)
  | .list items, bytes => items.on_text bytes
  | .dict _, _ => .none
/-- The same for list patterns. -/
theorem ListPattern.on_text : ∀ (p : ListPattern) (bytes : List UInt8),
    BindsAlike (p.on (.binary bytes)) (p.on (.list (bytes.map Key.byte)))
  | .first _ _, [] => .none
  | .first head rest, _ :: bytes => (BindsAlike.refl (head.on _)).both (rest.on_text bytes)
  | .last init last, bytes => by
    simp only [ListPattern.on, Key.unsnoc?, List.getLast?_map]
    cases bytes.getLast? with
    | none => exact .none
    | some byte =>
      have hinit := (init.on_text bytes.dropLast).both (BindsAlike.refl (last.on (Key.byte byte)))
      simpa [List.map_dropLast] using hinit
  | .middle pattern, bytes => pattern.on_text bytes
  | .done, _ => .refl _
end

/-- **Patterns see a text as a list.** -/
theorem Pattern.on_listed (p : Pattern) {key' : Key} (h : key.listed = key'.listed) :
    BindsAlike (p.on key) (p.on key') := by
  rcases Key.listed_cases h with rfl | ⟨bytes, rfl, rfl⟩ | ⟨bytes, rfl, rfl⟩
  · exact .refl _
  · exact p.on_text bytes
  · have hflip := p.on_text bytes
    generalize p.on (.binary bytes) = x, p.on (.list (bytes.map Key.byte)) = y at hflip
    cases hflip with
    | none => exact .none
    | some hkeys => exact .some (hkeys.flip.imp fun _ _ => Eq.symm)

/-! ### A pattern for every key -/

/-- Each entry is taken as an optional one and compared as the only item of a path. -/
def Key.entriesPattern : List (Key × Key) → DictPattern
  | [] => .done
  | (key, member) :: entries => .take true key [] (.quotedPath [member]) (entriesPattern entries)

/-- A pattern that accepts the key, and no other but for a text and the list of its bytes. -/
def Key.pattern : Key → Pattern
  | .atom key => .literal (.atom key)
  | .number value => .literal (.number value)
  | .binary bytes => .literal (.binary bytes)
  | .list items => .quotedPath items
  | .dict entries => .dict (entriesPattern entries)
  -- no value stands for it
  | .abstractGlobalPath _ => .wildcard

theorem Key.entriesPattern_cons (key member : Key) (rest entries : List (Key × Key)) :
    (entriesPattern ((key, member) :: rest)).on (.dict entries) =
      if entries.lookup key = some member then
        (entriesPattern rest).on (.dict (entries.filter fun entry => entry.1 ≠ key))
      else none := by
  rw [entriesPattern, DictPattern.on]
  cases hlookup : entries.lookup key with
  | none => simp [Key.take?, Key.takeEntry, hlookup, Pattern.on, Key.items?]
  | some value =>
    by_cases hvalue : value = member <;>
      simp [Key.take?, Key.takeEntry, hlookup, Pattern.on, Key.items?, hvalue]

theorem filter_ne_of_notMem (h : key ∉ entries.map Prod.fst) :
    (entries.filter fun entry => entry.1 ≠ key) = entries := by
  refine List.filter_eq_self.mpr fun entry hentry => ?_
  simpa using fun heq => h (List.mem_map.mpr ⟨entry, hentry, heq⟩)

/-- Entries are the one of a key and the others. -/
theorem perm_of_lookup {member : Key} (hnodup : (entries.map Prod.fst).Nodup)
    (h : entries.lookup key = some member) :
    entries.Perm ((key, member) :: entries.filter fun entry => entry.1 ≠ key) := by
  induction entries with
  | nil => cases h
  | cons entry entries ih =>
    obtain ⟨name, value⟩ := entry
    rw [List.map_cons, List.nodup_cons] at hnodup
    by_cases hname : key = name
    · subst hname
      obtain rfl : value = member := by simpa [List.lookup] using h
      rw [List.filter_cons_of_neg (by simp), filter_ne_of_notMem hnodup.1]
    · have hlookup : entries.lookup key = some member := by
        simpa [List.lookup, beq_false_of_ne hname] using h
      rw [List.filter_cons_of_pos (by simpa using Ne.symm hname)]
      exact ((ih hnodup.2 hlookup).cons _).trans (.swap ..)

/-- A dictionary that the pattern of some entries accepts has those entries. -/
theorem Key.perm_of_entriesPattern : ∀ {entries entries' : List (Key × Key)},
    (entries'.map Prod.fst).Nodup → ((entriesPattern entries).on (.dict entries')).isSome →
    entries'.Perm entries
  | [], entries', _, h => by
    by_cases hnil : entries' = []
    · rw [hnil]
    · simp [entriesPattern, DictPattern.on, hnil] at h
  | (key, member) :: rest, entries', hnodup, h => by
    rw [entriesPattern_cons] at h
    split at h
    next hlookup =>
      have hsub := (List.filter_sublist (p := fun entry => entry.1 ≠ key) (l := entries')).map
        Prod.fst
      have hrest := perm_of_entriesPattern (hnodup.sublist hsub) h
      exact (perm_of_lookup hnodup hlookup).trans (hrest.cons _)
    next => cases h

theorem Key.entriesPattern_self : ∀ {entries : List (Key × Key)}, (entries.map Prod.fst).Nodup →
    ((entriesPattern entries).on (.dict entries)).isSome
  | [], _ => rfl
  | (key, member) :: rest, h => by
    rw [List.map_cons, List.nodup_cons] at h
    rw [entriesPattern_cons, if_pos (by simp [List.lookup]), List.filter_cons_of_neg (by simp),
      filter_ne_of_notMem h.1]
    exact entriesPattern_self h.2

theorem ordered_of_key? {value : Value} (h : value.key? = some (.dict entries)) :
    (entries.map Prod.fst).Pairwise fun left right => left.compare right = .lt := by
  obtain ⟨w, -, hshape⟩ := Value.exists_keyShape h
  cases hshape with
  | @dict keys ordered members _ hentries => rwa [← hentries.keys_eq, dictEntries_keys]

theorem eq_of_perm_of_ordered {entries' : List (Key × Key)}
    (h : (entries.map Prod.fst).Pairwise fun left right => left.compare right = .lt)
    (h' : (entries'.map Prod.fst).Pairwise fun left right => left.compare right = .lt)
    (hperm : entries.Perm entries') : entries = entries' := by
  refine hperm.eq_of_pairwise ?_ (List.pairwise_map.mp h) (List.pairwise_map.mp h')
  intro entry entry' _ _ hlt hgt
  exact absurd hgt (Key.not_compare_lt_of_compare_lt hlt)

/-- **A pattern tells apart what is not one listed form.** -/
theorem Key.pattern_on_iff (v w : KeyableValue) :
    (v.key.pattern.on w.key).isSome ↔ v.key.listed = w.key.listed := by
  obtain ⟨value, key, h⟩ := v
  obtain ⟨value', key', h'⟩ := w
  show (key.pattern.on key').isSome ↔ key.listed = key'.listed
  cases key with
  | abstractGlobalPath =>
    obtain ⟨shell, -, ⟨⟩⟩ := Value.exists_keyShape h
  | dict entries =>
    cases key' with
    | dict entries' =>
      have hordered := ordered_of_key? h
      have hordered' := ordered_of_key? h'
      constructor
      · -- the pattern takes the entries in its own order; the order of keys makes the lists equal
        intro hsome
        have hperm := perm_of_entriesPattern (nodup_of_ordered hordered') hsome
        rw [eq_of_perm_of_ordered hordered' hordered hperm]
      · intro heq
        obtain rfl : entries = entries' := by simpa [Key.listed] using heq
        exact entriesPattern_self (nodup_of_ordered hordered)
    | _ => simp [Key.pattern, Pattern.on, Key.isDict, Key.listed]
  | list items =>
    show (if key'.items? = some items then some [] else none : Option (List Key)).isSome ↔ _
    simp only [Key.items?_eq_some_iff, Option.isSome_ite]
  | atom | number | binary =>
    simp only [Key.pattern, Pattern.on, PatternLiteral.accepts_iff, PatternLiteral.key,
      Option.isSome_ite]

/-! ### Equal values -/

/-- The pattern matches the one value exactly if it matches the other, and binds equal values. -/
def MatchAlike (p : Pattern) (left right : Value) : Prop :=
  (∀ bound, p.Matches left bound → ∃ bound', p.Matches right bound' ∧
    List.Forall₂ Equal bound bound') ∧
  ∀ bound', p.Matches right bound' → ∃ bound, p.Matches left bound ∧ List.Forall₂ Equal bound bound'

/-- Values whose keys agree up to texts are equal. -/
theorem equal_of_listed {bound bound' : List Value} {keys keys' : List Key}
    (h : KeysFor bound keys) (h' : KeysFor bound' keys')
    (hkeys : List.Forall₂ (fun key key' => Key.listed key = Key.listed key') keys keys') :
    List.Forall₂ Equal bound bound' := by
  induction hkeys generalizing bound bound' with
  | nil =>
    cases h
    cases h'
    exact .nil
  | @cons key key' _ _ hkey _ ih =>
    cases h with
    | @cons value _ _ _ hvalue hrest =>
      cases h' with
      | @cons value' _ _ _ hvalue' hrest' =>
        refine .cons ((equal_iff_canonical ⟨value, key, hvalue⟩ ⟨value', key', hvalue'⟩).mpr ?_)
          (ih hrest hrest')
        rw [← Key.canonical_listed key, hkey, Key.canonical_listed]

variable (v w : KeyableValue)

/-- **What patterns see.** Every pattern matches both values alike exactly if they have the same
keys, or are a text and the list of its bytes. -/
theorem matchAlike_iff :
    (∀ p, MatchAlike p v.value w.value) ↔ v.key.listed = w.key.listed := by
  constructor
  · -- the pattern of the one key matches its own value, so it matches the other value too
    intro h
    have hself := (Key.pattern_on_iff v v).mpr rfl
    obtain ⟨keys, hkeys⟩ := Option.isSome_iff_exists.mp hself
    obtain ⟨bound, hbound, -⟩ := (v.key.pattern.agrees v.keyable).complete keys hkeys
    obtain ⟨bound', hbound', -⟩ := (h v.key.pattern).1 bound hbound
    obtain ⟨keys', hkeys', -⟩ := (v.key.pattern.agrees w.keyable).sound bound' hbound'
    exact (Key.pattern_on_iff v w).mp (by rw [hkeys']; rfl)
  · -- what a pattern binds on a value is determined by the key, and listed forms bind alike
    intro h p
    have halike := p.on_listed h
    have hv := p.agrees v.keyable
    have hw := p.agrees w.keyable
    generalize p.on v.key = x at halike hv
    generalize p.on w.key = y at halike hw
    refine ⟨fun bound hbound => ?_, fun bound' hbound' => ?_⟩
    · obtain ⟨keys, rfl, hkeys⟩ := hv.sound bound hbound
      cases halike with
      | @some _ keys' hsame =>
        obtain ⟨bound', hbound', hkeys'⟩ := hw.complete keys' rfl
        exact ⟨bound', hbound', equal_of_listed hkeys hkeys' hsame⟩
    · obtain ⟨keys', rfl, hkeys'⟩ := hw.sound bound' hbound'
      cases halike with
      | @some keys _ hsame =>
        obtain ⟨bound, hbound, hkeys⟩ := hv.complete keys rfl
        exact ⟨bound, hbound, equal_of_listed hkeys hkeys' hsame⟩

/-- The value of a literal. -/
def PatternLiteral.value : PatternLiteral → Value
  | .atom key => .atom key
  | .number value => .number value
  | .binary bytes => .binary bytes

/-- The value of a literal, with its key. -/
def PatternLiteral.keyable (literal : PatternLiteral) : KeyableValue :=
  ⟨literal.value, literal.key, by cases literal <;> rfl⟩

/-- A literal matches what has its listed form. -/
theorem literal_matches_iff (literal : PatternLiteral) :
    (Pattern.literal literal).Matches v.value [] ↔ literal.key.listed = v.key.listed := by
  rw [Pattern.Matches, yields_succeeds_iff (equal_spec literal v.keyable), literal.accepts_iff]
  exact and_iff_left rfl

/-- **Equal values and patterns.** That equal values match alike holds exactly if they are not equal
in two representations, other than one being a text and the other the list of its bytes. The same
holds of a literal pattern and the values its literal equals. -/
theorem equal_match_alike_iff :
    ((Equal v.value w.value → ∀ p, MatchAlike p v.value w.value) ↔
      (Equal v.value w.value → v.key.listed = w.key.listed)) ∧
    ∀ literal : PatternLiteral,
      ((Pattern.literal literal).Matches v.value [] ↔ Equal literal.value v.value) ↔
        (Equal literal.value v.value → literal.key.listed = v.key.listed) := by
  refine ⟨by rw [matchAlike_iff], fun literal => ?_⟩
  have hequal : literal.key.listed = v.key.listed → Equal literal.value v.value := by
    intro h
    refine (equal_iff_canonical literal.keyable v).mpr ?_
    show literal.key.canonical = v.key.canonical
    rw [← Key.canonical_listed, h, Key.canonical_listed]
  rw [literal_matches_iff]
  exact ⟨fun h heq => h.mpr heq, fun h => ⟨hequal, h⟩⟩

/-- `'tag` equals `["tag"]:()`, and the pattern `'tag` matches only the one. -/
theorem atom_pattern_misses_equal_dict :
    Equal (.atom (.binary [116, 97, 103])) (.dict [.binary [116, 97, 103]]
        (List.pairwise_singleton ..) fun _ => .atom .unit) ∧
    (Pattern.literal (.atom (.binary [116, 97, 103]))).Matches
      (.atom (.binary [116, 97, 103])) [] ∧
    ¬ ∃ bound, (Pattern.literal (.atom (.binary [116, 97, 103]))).Matches
      (.dict [.binary [116, 97, 103]] (List.pairwise_singleton ..) fun _ => .atom .unit) bound := by
  let atom : KeyableValue := ⟨.atom (.binary [116, 97, 103]), .atom (.binary [116, 97, 103]), rfl⟩
  let dict : KeyableValue := ⟨.dict [.binary [116, 97, 103]] (List.pairwise_singleton ..)
    fun _ => .atom .unit, .dict [(.binary [116, 97, 103], .atom .unit)], rfl⟩
  refine ⟨(equal_iff_canonical atom dict).mpr ?_, (literal_matches_iff atom _).mpr rfl, ?_⟩
  · simp [atom, dict, Key.canonical, Key.canonicalEntries, Key.unit]
  · rintro ⟨bound, hmatches, rfl⟩
    have h := (literal_matches_iff dict (.atom (.binary [116, 97, 103]))).mp ⟨hmatches, rfl⟩
    cases h

end Glam.Eval
