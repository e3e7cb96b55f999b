import Glam.Eval.DictMachine

/-!
# The dictionary path laws

What the walks see of a dictionary after an insertion or a removal at a path, for dictionaries that
are evaluated only in part. As in `Store/Frame`, the lemmas go by where the read path lies from the
edited one: apart from it, at or below it, and above it.

For an insertion everything comes from `dictInsert_cons`, which says what the machine leaves at the
first key of the path. An insertion that stops at a suspended dictionary and one that goes on below
it are not told apart there, since both leave a member of the same normal form. A removal demands
every dictionary on its way, so it leaves none suspended that it touched; its lemmas go by the
recursive form of its pruning (`pruned`).

Two values are the same if every walk sees the same (`Same`). That, and not equality, is what two
insertions in either order agree in: each leaves its suspended call inside the other's.
-/

namespace Glam.Eval.DictMachine

open Glam.Store (insertKey removeKey lookup_insertKey lookup_removeKey Apart Builtin)

variable {K A : Type} [DecidableEq K]

/-! ### What an insertion leaves -/

/-- The insertion by recursion on the rest of `path`, from which `depth` keys are walked. -/
def inserted (path : List K) (newValue : Value K A) : Nat → Dict K A → List K → Dict K A
  | _, entries, [] => entries
  | _, entries, [key] => insertKey entries key newValue
  | depth, entries, key :: next :: rest =>
    insertKey entries key
      (match entries.lookup key with
      | none => .dict (inserted path newValue (depth + 1) [] (next :: rest))
      | some (.dict nested) => .dict (inserted path newValue (depth + 1) nested (next :: rest))
      | some (.data _) => .error (.traverses Update.dictInsert.name (path.take (depth + 1)))
      | some suspended => .call .dictInsert (next :: rest) newValue suspended)

/-- The loop rebuilds the dictionaries it walked through around what it inserts. -/
theorem insertDictPathLoop_eq (path : List K) (newValue : Value K A)
    (parents : List (Dict K A × K)) (current : Dict K A) (rest : List K) :
    insertDictPathLoop .dictInsert path newValue parents current rest =
      .ok (rebuild parents (inserted path newValue parents.length current rest)) := by
  induction rest generalizing parents current with
  | nil => rw [insertDictPathLoop, inserted]
  | cons head rest ih =>
    cases rest with
    | nil => simp [insertDictPathLoop, inserted]
    | cons =>
      rw [insertDictPathLoop, inserted]
      cases current.lookup head with
      | none => exact ih _ _
      | some found =>
        cases found with
        | dict => exact ih _ _
        | _ => rfl

variable {path rest p q : List K} {entries : Dict K A} {value after newValue found v w : Value K A}
  {members : Store.Dict K A} {evaluated newEvaluated : Store.Value K A}

/-- An insertion is one into the dictionary's weak head normal form. -/
theorem dictInsert_eq (hpath : path ≠ []) (newValue value : Value K A) :
    dictInsert path newValue value =
      (whnf value).bind fun
        | .dict entries => .ok (.dict (inserted path newValue 0 entries path))
        | _ => .error (.requiresDictionary Update.dictInsert.name) := by
  rw [dictInsert, whnf, if_neg hpath]
  cases whnf value with
  | error => rfl
  | ok normal =>
    cases normal with
    | dict =>
      simp only [Except.bind, finishInsert, insertDictPath, insertDictPathLoop_eq]
      rfl
    | _ => rfl

/-- Under inner dictionaries an insertion leaves no failure behind, so nothing in its result names
the path it was called with. -/
theorem inserted_congr (path path' : List K) (newValue : Value K A) (depth depth' : Nat)
    (h : InnerDicts (.dict entries) rest) :
    inserted path newValue depth entries rest = inserted path' newValue depth' entries rest := by
  induction rest generalizing entries depth depth' with
  | nil => rw [inserted, inserted]
  | cons key rest ih =>
    cases rest with
    | nil => rw [inserted, inserted]
    | cons =>
      obtain ⟨found, hfound, hrest⟩ := h.cons
      cases hfound
      rw [inserted, inserted]
      cases hl : entries.lookup key with
      | none =>
        rw [hl] at hrest
        simp only [ih (depth + 1) (depth' + 1) hrest]
      | some member =>
        rw [hl] at hrest
        cases member with
        | dict => simp only [ih (depth + 1) (depth' + 1) hrest]
        | data a =>
          -- a datum on the way is no inner dictionary
          obtain ⟨below, hbelow, -⟩ := hrest.cons
          cases hbelow
        | _ => rfl

/-- **What an insertion leaves at the first key.** The new value itself at the end of the path, and
else a member with the normal form of the insertion, for the rest of the path, into what was
there. -/
theorem dictInsert_cons {key : K} (newValue : Value K A) (h : InnerDicts value (key :: rest)) :
    ∃ entries member, whnf value = .ok (.dict entries) ∧
      InnerDicts ((entries.lookup key).getD (.dict [])) rest ∧
      dictInsert (key :: rest) newValue value = .ok (.dict (insertKey entries key member)) ∧
      (rest = [] → member = newValue) ∧
      (rest ≠ [] →
        whnf member = dictInsert rest newValue ((entries.lookup key).getD (.dict []))) := by
  obtain ⟨entries, hwhnf, hrest⟩ := h.cons
  have heq : dictInsert (key :: rest) newValue value =
      .ok (.dict (inserted (key :: rest) newValue 0 entries (key :: rest))) := by
    rw [dictInsert_eq (by simp), hwhnf]
    rfl
  cases rest with
  | nil =>
    refine ⟨entries, newValue, hwhnf, hrest, ?_, fun _ => rfl, fun hne => absurd rfl hne⟩
    rw [heq, inserted]
  | cons next rest =>
    -- below the first key the insertion is one with the rest of the path
    have hdict : ∀ {nested}, InnerDicts (.dict nested) (next :: rest) →
        whnf (.dict (inserted (key :: next :: rest) newValue 1 nested (next :: rest))) =
          dictInsert (next :: rest) newValue (.dict nested) := by
      intro nested hnested
      rw [dictInsert_eq (by simp), whnf_dict, whnf_dict,
        inserted_congr _ (next :: rest) newValue _ 0 hnested]
      rfl
    refine ⟨entries, _, hwhnf, hrest, by rw [heq, inserted], fun hnil => absurd hnil (by simp),
      fun _ => ?_⟩
    cases hl : entries.lookup key with
    | none =>
      rw [hl] at hrest
      exact hdict hrest
    | some prior =>
      rw [hl] at hrest
      cases prior with
      | dict => exact hdict hrest
      | data =>
        obtain ⟨below, hbelow, -⟩ := hrest.cons
        cases hbelow
      | _ => rfl

theorem exists_dictInsert (hpath : path ≠ []) (newValue : Value K A) (h : InnerDicts value path) :
    ∃ entries, dictInsert path newValue value = .ok (.dict entries) := by
  cases path with
  | nil => exact absurd rfl hpath
  | cons =>
    obtain ⟨entries, member, -, -, hinsert, -⟩ := dictInsert_cons newValue h
    exact ⟨_, hinsert⟩

/-! ### Reading after an insertion -/

/-- **Insertion leaves the rest alone.** -/
theorem read_insert_of_apart (h : InnerDicts value p) (hq : Apart p q)
    (hafter : whnf after = dictInsert p newValue value) : read after q = read value q := by
  induction p generalizing value after q with
  | nil => exact absurd rfl hq.ne_nil_left
  | cons key rest ih =>
    obtain ⟨entries, member, hwhnf, hrest, hinsert, hlast, hmore⟩ := dictInsert_cons newValue h
    rw [hinsert] at hafter
    cases q with
    | nil => exact absurd rfl hq.ne_nil_right
    | cons j q =>
      rw [read_cons hafter, read_cons hwhnf, lookup_insertKey]
      by_cases hj : j = key
      · -- the paths part below the first key
        have hapart := hq.cons_cons hj
        subst hj
        rw [if_pos rfl]
        dsimp only
        rw [ih hrest hapart (hmore hapart.ne_nil_left)]
        cases entries.lookup j with
        | none => exact read_empty hapart.ne_nil_right
        | some => rfl
      · rw [if_neg hj]

/-- **At and below an inserted value, a read sees that value.** -/
theorem read_insert_append (hne : p ≠ []) (h : InnerDicts value p)
    (hafter : whnf after = dictInsert p newValue value) (below : List K) :
    read after (p ++ below) = read newValue below := by
  induction p generalizing value after with
  | nil => exact absurd rfl hne
  | cons key rest ih =>
    obtain ⟨entries, member, hwhnf, hrest, hinsert, hlast, hmore⟩ := dictInsert_cons newValue h
    rw [hinsert] at hafter
    rw [List.cons_append, read_cons hafter, lookup_insertKey, if_pos rfl]
    dsimp only
    by_cases hnil : rest = []
    · rw [hnil, hlast hnil, List.nil_append]
    · exact ih hnil hrest (hmore hnil)

/-- **Above an insertion there are dictionaries.** -/
theorem read_insert_above {above below : List K} (hne : below ≠ [])
    (h : InnerDicts value (above ++ below))
    (hafter : whnf after = dictInsert (above ++ below) newValue value) :
    ∃ found entries, read after above = .value found ∧ whnf found = .ok (.dict entries) := by
  induction above generalizing value after with
  | nil =>
    obtain ⟨entries, hinsert⟩ := exists_dictInsert hne newValue h
    exact ⟨after, entries, read_nil after, hafter.trans hinsert⟩
  | cons key above ih =>
    rw [List.cons_append] at h hafter
    obtain ⟨entries, member, hwhnf, hrest, hinsert, hlast, hmore⟩ := dictInsert_cons newValue h
    rw [hinsert] at hafter
    rw [read_cons hafter, lookup_insertKey, if_pos rfl]
    exact ih hrest (hmore (List.append_ne_nil_of_right_ne_nil _ hne))

/-- An insertion keeps the inner dictionaries of a path apart from its own. -/
theorem InnerDicts.insert (hq : InnerDicts value q) (hp : InnerDicts value p) (hpq : Apart p q)
    (hafter : whnf after = dictInsert p newValue value) : InnerDicts after q := by
  intro above habove hne
  by_cases hprefix : above <+: p
  · -- what lies on both ways is a dictionary now
    obtain ⟨below, rfl⟩ := hprefix
    have hbelow : below ≠ [] := by
      rintro rfl
      rw [List.append_nil] at hpq
      exact hpq.1 habove
    exact .inr (read_insert_above hbelow hp hafter)
  · have hapart : Apart p above := ⟨fun h => hpq.1 (h.trans habove), hprefix⟩
    rw [read_insert_of_apart hp hapart hafter]
    exact hq above habove hne

/-! ### Removal -/

/-- The dictionary at `key`, or the empty one where there is none. -/
def subDict (entries : Dict K A) (key : K) : Dict K A :=
  match whnf ((entries.lookup key).getD (.dict [])) with
  | .ok (.dict nested) => nested
  | _ => []

/-- `entries` without what is at `path`, which is defined, and without the dictionaries this
empties. -/
def pruned : Dict K A → List K → Dict K A
  | entries, [] => entries
  | entries, [key] => removeKey entries key
  | entries, key :: next :: path =>
    let nested := pruned (subDict entries key) (next :: path)
    if nested.isEmpty then removeKey entries key else insertKey entries key (.dict nested)

theorem pruned_cons_cons (entries : Dict K A) (key next : K) (path : List K) :
    pruned entries (key :: next :: path) =
      if (pruned (subDict entries key) (next :: path)).isEmpty then removeKey entries key
      else insertKey entries key (.dict (pruned (subDict entries key) (next :: path))) := by
  rw [pruned]

/-- Where a longer path has a value, its first key has a dictionary. -/
theorem lookup_of_read_value {key next : K}
    (h : read (.dict entries) (key :: next :: path) = .value found) :
    ∃ member, entries.lookup key = some member ∧
      whnf member = .ok (.dict (subDict entries key)) ∧
      read (.dict (subDict entries key)) (next :: path) = .value found := by
  rw [read_cons (whnf_dict entries)] at h
  cases hl : entries.lookup key with
  | none =>
    rw [hl] at h
    cases h
  | some member =>
    rw [hl] at h
    dsimp only at h
    cases hwhnf : whnf member with
    | error =>
      rw [read, hwhnf] at h
      cases h
    | ok normal =>
      cases normal with
      | dict nested =>
        have hsub : subDict entries key = nested := by
          simp only [subDict, hl, Option.getD_some, hwhnf]
        rw [hsub]
        refine ⟨member, rfl, hwhnf, ?_⟩
        rw [← h]
        exact read_congr_whnf (by simp) (by rw [whnf_dict, hwhnf])
      | _ =>
        rw [read, hwhnf] at h
        cases h

theorem finishRemove_concat (inner : List (Dict K A × K)) (hinner : inner ≠ [])
    (outer : Dict K A) (key : K) :
    finishRemove (inner ++ [(outer, key)]) =
      if (finishRemove inner).isEmpty then removeKey outer key
      else insertKey outer key (.dict (finishRemove inner)) := by
  cases inner with
  | nil => exact absurd rfl hinner
  | cons => simp [finishRemove, List.foldl_append]

/-- **Rebuilding prunes.** After a walk to a defined path, removing the leaf and rebuilding the
walked dictionaries from the inside gives the pruned dictionary. -/
theorem finishRemove_eq (hvalue : whnf value = .ok (.dict entries)) (hpath : path ≠ [])
    (h : read (.dict entries) path = .value found) :
    finishRemove ((dictsAlong value path).zip path).reverse = pruned entries path := by
  induction path generalizing value entries with
  | nil => exact absurd rfl hpath
  | cons key path ih =>
    cases path with
    | nil =>
      rw [read_cons (whnf_dict entries)] at h
      cases hl : entries.lookup key <;>
        simp [dictsAlong, hvalue, hl, finishRemove, pruned]
    | cons next path =>
      obtain ⟨member, hl, hmember, hsub⟩ := lookup_of_read_value h
      have hne : ((dictsAlong member (next :: path)).zip (next :: path)).reverse ≠ [] := by
        obtain ⟨inner, hinner⟩ := dictsAlong_eq_cons hmember next path
        simp [hinner]
      rw [dictsAlong_cons hvalue hl, List.zip_cons_cons, List.reverse_cons,
        finishRemove_concat _ hne, ih hmember (by simp) hsub, pruned_cons_cons]

/-- **What a removal returns**: the dictionary pruned where the path is defined, and as it is where
it is undefined. -/
theorem dictRemove_eq (hpath : path ≠ []) (h : InnerDicts value path) :
    ∃ entries, whnf value = .ok (.dict entries) ∧
      ((read (.dict entries) path = .undefined ∧
          dictRemove path value = .ok (.value (.dict entries))) ∨
        ∃ found, read (.dict entries) path = .value found ∧
          dictRemove path value = .ok (.value (.dict (pruned entries path)))) := by
  obtain ⟨key, rest, rfl⟩ := List.exists_cons_of_ne_nil hpath
  obtain ⟨entries, hwhnf, -⟩ := h.cons
  have hread : read (.dict entries) (key :: rest) = read value (key :: rest) :=
    read_congr_whnf hpath (by rw [whnf_dict, hwhnf])
  refine ⟨entries, hwhnf, ?_⟩
  rw [hread, dictRemove, dictPathWalk, if_neg hpath, pathWalk_eq]
  rcases innerDicts_iff_read.mp h with hundefined | ⟨found, hfound⟩
  · left
    refine ⟨hundefined, ?_⟩
    obtain ⟨inner, hinner⟩ := dictsAlong_eq_cons hwhnf key rest
    simp only [hundefined, hinner, List.nil_append, List.headD_cons]
  · right
    refine ⟨found, hfound, ?_⟩
    rw [hfound]
    simp only [List.nil_append]
    rw [finishRemove_eq hwhnf hpath (hread.trans hfound)]

theorem lookup_pruned_of_ne (entries : Dict K A) {key j : K} (path : List K) (hj : j ≠ key) :
    (pruned entries (key :: path)).lookup j = entries.lookup j := by
  cases path with
  | nil => rw [pruned, lookup_removeKey, if_neg hj]
  | cons =>
    rw [pruned_cons_cons]
    split
    · rw [lookup_removeKey, if_neg hj]
    · rw [lookup_insertKey, if_neg hj]

theorem lookup_pruned_self (entries : Dict K A) (key next : K) (path : List K) :
    (pruned entries (key :: next :: path)).lookup key =
      if (pruned (subDict entries key) (next :: path)).isEmpty then none
      else some (.dict (pruned (subDict entries key) (next :: path))) := by
  rw [pruned_cons_cons]
  split
  · rw [lookup_removeKey, if_pos rfl]
  · rw [lookup_insertKey, if_pos rfl]

/-- **Removal leaves the rest alone.** -/
theorem read_pruned_of_apart (hp : read (.dict entries) p = .value found) (h : Apart p q) :
    read (.dict (pruned entries p)) q = read (.dict entries) q := by
  induction p generalizing entries q with
  | nil => exact absurd rfl h.ne_nil_left
  | cons key p ih =>
    cases q with
    | nil => exact absurd rfl h.ne_nil_right
    | cons j q =>
      rw [read_cons (whnf_dict _), read_cons (whnf_dict _)]
      by_cases hj : j = key
      · have hpq := h.cons_cons hj
        subst hj
        cases p with
        | nil => exact absurd rfl hpq.ne_nil_left
        | cons next p =>
          obtain ⟨member, hl, hmember, hsub⟩ := lookup_of_read_value hp
          have hread : read member q = read (.dict (subDict entries j)) q :=
            read_congr_whnf hpq.ne_nil_right (by rw [whnf_dict, hmember])
          rw [lookup_pruned_self, hl]
          dsimp only
          rw [hread, ← ih hsub hpq]
          by_cases hempty : (pruned (subDict entries j) (next :: p)).isEmpty = true
          · -- the pruned dictionary is gone, and it had nothing at `q` to lose
            rw [if_pos hempty, List.isEmpty_iff.mp hempty, read_empty hpq.ne_nil_right]
          · rw [if_neg hempty]
      · rw [lookup_pruned_of_ne entries p hj]

/-- **Nothing is left at a removed path.** -/
theorem read_pruned_self (hne : p ≠ []) (hp : read (.dict entries) p = .value found) :
    read (.dict (pruned entries p)) p = .undefined := by
  induction p generalizing entries with
  | nil => exact absurd rfl hne
  | cons key p ih =>
    rw [read_cons (whnf_dict _)]
    cases p with
    | nil => rw [pruned, lookup_removeKey, if_pos rfl]
    | cons next p =>
      obtain ⟨-, -, -, hsub⟩ := lookup_of_read_value hp
      rw [lookup_pruned_self]
      by_cases hempty : (pruned (subDict entries key) (next :: p)).isEmpty = true
      · rw [if_pos hempty]
      · rw [if_neg hempty]
        exact ih (by simp) hsub

/-! ### Sameness -/

/-- What a walk to `path` and evaluating what it finds shows: a datum, or none where there is a
dictionary, or the failure. -/
def observe (value : Value K A) (path : List K) : Except (Failure K) (Option A) :=
  match dictLookup path value with
  | .ok (.value found) =>
    (whnf found).map fun
      | .data a => some a
      | _ => none
  | .ok (.predicate _) => .ok none
  | .error failure => .error failure

/-- No walk tells the two values apart. -/
def Same (v w : Value K A) : Prop := ∀ path, observe v path = observe w path

theorem observe_of_read (h : read value path = .value found) :
    observe value path = (whnf found).map fun
      | .data a => some a
      | _ => none := by
  rw [observe, dictLookup_of_read h]

theorem observe_congr (hpath : path ≠ []) (h : read v path = read w path) :
    observe v path = observe w path := by
  have hlookup : dictLookup path v = dictLookup path w := by
    have hfallback : ∀ fallback fallback' value : Value K A,
        dictPathWalk .dictLookup path fallback value =
          dictPathWalk .dictLookup path fallback' value := fun _ _ _ => rfl
    rw [dictLookup, dictLookup, hfallback w v, dictPathWalk_congr (by simp) hpath v h]
  rw [observe, observe, hlookup]

theorem observe_insert_above {above : List K} (h : InnerDicts value p)
    (hafter : whnf after = dictInsert p newValue value) (habove : above <+: p) (hne : above ≠ p) :
    observe after above = .ok none := by
  obtain ⟨below, rfl⟩ := habove
  have hbelow : below ≠ [] := by
    rintro rfl
    exact hne (List.append_nil above).symm
  obtain ⟨found, entries, hread, hwhnf⟩ := read_insert_above hbelow h hafter
  rw [observe_of_read hread, hwhnf]
  rfl

/-- After insertions at `p` and `q`, a path that meets `p` sees only the insertion at `p`, whichever
came last. Here `v` holds the one at `p`, `vw` the one at `q` over it, and `wv` the one at `p` over
some `w`. -/
theorem observe_inserts_of_meets {vw wv : Value K A} {x y : Value K A} (hp : InnerDicts value p)
    (hvq : InnerDicts v q) (hwp : InnerDicts w p) (hpq : Apart p q)
    (hv : whnf v = dictInsert p x value) (hvw : whnf vw = dictInsert q y v)
    (hwv : whnf wv = dictInsert p x w) (hmeets : ¬ Apart p path) :
    observe vw path = observe wv path := by
  by_cases hbelow : p <+: path
  · obtain ⟨below, rfl⟩ := hbelow
    have hapart : Apart q (p ++ below) := by
      constructor
      · intro h
        rcases List.prefix_or_prefix_of_prefix h (List.prefix_append p below) with hle | hle
        · exact hpq.2 hle
        · exact hpq.1 hle
      · intro h
        exact hpq.1 ((List.prefix_append p below).trans h)
    apply observe_congr (List.append_ne_nil_of_left_ne_nil hpq.ne_nil_left below)
    calc read vw (p ++ below)
        = read v (p ++ below) := read_insert_of_apart hvq hapart hvw
      _ = read x below := read_insert_append hpq.ne_nil_left hp hv below
      _ = read wv (p ++ below) := (read_insert_append hpq.ne_nil_left hwp hwv below).symm
  · have habove : path <+: p := by
      by_contra hnot
      exact hmeets ⟨hbelow, hnot⟩
    have hne : path ≠ p := by
      rintro rfl
      exact hbelow (List.prefix_refl _)
    rw [observe_insert_above hwp hwv habove hne]
    by_cases hq : path <+: q
    · refine observe_insert_above hvq hvw hq ?_
      rintro rfl
      exact hpq.2 habove
    · have hapart : Apart q path := ⟨fun h => hpq.2 (h.trans habove), hq⟩
      rw [observe_congr hapart.ne_nil_right (read_insert_of_apart hvq hapart hvw)]
      exact observe_insert_above hp hv habove hne

/-- **Insertions apart commute**, as far as walks can tell. -/
theorem same_of_inserts {vw wv : Value K A} {x y : Value K A} (hp : InnerDicts value p)
    (hq : InnerDicts value q) (hpq : Apart p q) (hv : whnf v = dictInsert p x value)
    (hvw : whnf vw = dictInsert q y v) (hw : whnf w = dictInsert q y value)
    (hwv : whnf wv = dictInsert p x w) : Same vw wv := by
  have hqp : Apart q p := ⟨hpq.2, hpq.1⟩
  have hvq : InnerDicts v q := hq.insert hp hpq hv
  have hwp : InnerDicts w p := hp.insert hq hqp hw
  intro path
  by_cases hpath : Apart p path
  · by_cases hpath' : Apart q path
    · apply observe_congr hpath.ne_nil_right
      calc read vw path
          = read v path := read_insert_of_apart hvq hpath' hvw
        _ = read value path := read_insert_of_apart hp hpath hv
        _ = read w path := (read_insert_of_apart hq hpath' hw).symm
        _ = read wv path := (read_insert_of_apart hwp hpath hwv).symm
    · exact (observe_inserts_of_meets hq hwp hvq hqp hw hwv hvw hpath').symm
  · exact observe_inserts_of_meets hp hvq hwp hpq hv hvw hwv hpath

/-! ### The laws -/

/-- **The dictionary path laws.** For a value, partially evaluated in any way, and paths whose inner
values are dictionaries or undefined, the edited path being non-empty:

* an insertion at `p` succeeds, and reading `p` then gives the value inserted;
* an insertion or a removal at `p` leaves what every reading builtin gives at any `q` apart from
  `p`;
* a removal of `p` succeeds, and `p` is undefined then;
* a removal of an undefined path gives what the value evaluates to;
* insertions at `p` and at `q`, apart from each other, give the same in either order. -/
theorem dict_path_laws {value : Value K A} {p : List K} (hne : p ≠ []) (hp : InnerDicts value p)
    (q : List K) (x y : Value K A) :
    (∃ after, dictInsert p x value = .ok after ∧ dictLookup p after = .ok (.value x)) ∧
    (Apart p q → ∀ builtin, builtin ≠ Builtin.dictRemove → ∀ fallback,
      (∃ after, dictInsert p x value = .ok after ∧
        dictPathWalk builtin q fallback after = dictPathWalk builtin q fallback value) ∧
      ∃ after, dictRemove p value = .ok (.value after) ∧
        dictPathWalk builtin q fallback after = dictPathWalk builtin q fallback value) ∧
    (∃ after, dictRemove p value = .ok (.value after) ∧
      dictPathWalk .dictDefines p x after = .ok (.predicate false)) ∧
    (dictPathWalk .dictDefines p x value = .ok (.predicate false) →
      dictRemove p value = (whnf value).map .value) ∧
    (Apart p q → InnerDicts value q →
      ∃ v vw w wv, dictInsert p x value = .ok v ∧ dictInsert q y v = .ok vw ∧
        dictInsert q y value = .ok w ∧ dictInsert p x w = .ok wv ∧ Same vw wv) := by
  obtain ⟨inserts, hinsert⟩ := exists_dictInsert hne x hp
  have hafter : whnf (.dict inserts) = dictInsert p x value := by rw [whnf_dict, hinsert]
  obtain ⟨entries, hwhnf, hremove⟩ := dictRemove_eq hne hp
  -- paths are read in the weak head normal form
  have hread : ∀ path ≠ [], read (.dict entries) path = read value path := by
    intro path hpath
    exact read_congr_whnf hpath (by rw [whnf_dict, hwhnf])
  refine ⟨⟨_, hinsert, ?_⟩, ?_, ?_, ?_, ?_⟩
  · apply dictLookup_of_read
    have hself := read_insert_append hne hp hafter []
    rwa [List.append_nil, read_nil] at hself
  · intro hpq builtin hbuiltin fallback
    have hq : q ≠ [] := hpq.ne_nil_right
    refine ⟨⟨_, hinsert, ?_⟩, ?_⟩
    · exact dictPathWalk_congr hbuiltin hq fallback (read_insert_of_apart hp hpq hafter)
    · -- removing changes nothing where the path is undefined, and prunes otherwise
      rcases hremove with ⟨-, hsame⟩ | ⟨found, hfound, hpruned⟩
      · exact ⟨_, hsame, dictPathWalk_congr hbuiltin hq fallback (hread q hq)⟩
      · refine ⟨_, hpruned, dictPathWalk_congr hbuiltin hq fallback ?_⟩
        rw [read_pruned_of_apart hfound hpq, hread q hq]
  · rcases hremove with ⟨hundefined, hsame⟩ | ⟨found, hfound, hpruned⟩
    · exact ⟨_, hsame, dictDefines_eq_false_iff.mpr hundefined⟩
    · exact ⟨_, hpruned, dictDefines_eq_false_iff.mpr (read_pruned_self hne hfound)⟩
  · intro hundefined
    rw [dictDefines_eq_false_iff, ← hread p hne] at hundefined
    rcases hremove with ⟨-, hsame⟩ | ⟨found, hfound, -⟩
    · rw [hsame, hwhnf]
      rfl
    · rw [hundefined] at hfound
      cases hfound
  · intro hpq hq
    -- each insertion leaves the dictionaries on the other's way
    have hqp : Apart q p := ⟨hpq.2, hpq.1⟩
    obtain ⟨inserts', hinsert'⟩ := exists_dictInsert hpq.ne_nil_right y hq
    have hafter' : whnf (.dict inserts') = dictInsert q y value := by rw [whnf_dict, hinsert']
    obtain ⟨both, hboth⟩ := exists_dictInsert hpq.ne_nil_right y (hq.insert hp hpq hafter)
    obtain ⟨both', hboth'⟩ := exists_dictInsert hne x (hp.insert hq hqp hafter')
    exact ⟨_, _, _, _, hinsert, hboth, hinsert', hboth',
      same_of_inserts hp hq hpq hafter (by rw [whnf_dict, hboth]) hafter'
        (by rw [whnf_dict, hboth'])⟩

/-- The empty path is no path to insert at, nor to remove: both builtins fail on it. -/
theorem not_dict_path_laws_of_empty_path :
    InnerDicts (.dict [] : Value Nat Nat) [] ∧
      dictInsert [] (.data 1) (.dict [] : Value Nat Nat) = .error (.requiresPath "dict.insert") ∧
      dictRemove [] (.dict [] : Value Nat Nat) = .error (.requiresPath "dict.remove") ∧
      ¬ ∀ (value : Value Nat Nat) (p : List Nat) (x : Value Nat Nat), InnerDicts value p →
        ∃ after, dictInsert p x value = .ok after ∧ dictLookup p after = .ok (.value x) := by
  have hinsert : dictInsert [] (.data 1) (.dict [] : Value Nat Nat) =
      .error (.requiresPath "dict.insert") := rfl
  refine ⟨innerDicts_nil _, hinsert, rfl, ?_⟩
  intro h
  obtain ⟨after, hok, -⟩ := h (.dict []) [] (.data 1) (innerDicts_nil _)
  rw [hinsert] at hok
  cases hok

/-- The laws at `0.1` and `0.2` where the dictionary at `0` is not evaluated yet. -/
theorem dict_path_laws_lazy :
    let value : Value Nat Nat := .dict [(0, .lazy (.dict [(2, .data 7)]))]
    InnerDicts value [0, 1] ∧
      ∃ after, dictInsert [0, 1] (.data 5) value = .ok after ∧
        dictLookup [0, 1] after = .ok (.value (.data 5)) := by
  intro value
  have hp : InnerDicts value [0, 1] := innerDicts_iff_read.mpr (.inl rfl)
  exact ⟨hp, (dict_path_laws (by simp) hp [0, 2] (.data 5) (.data 6)).1⟩

end Glam.Eval.DictMachine
