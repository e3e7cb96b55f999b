import Mathlib.Data.List.Basic
import Mathlib.Data.List.Infix

/-!
# Dictionaries and the paths through them

The contents of a volume are a value: a dictionary of values, or anything else. The store never
evaluates them. Its edits and reads are calls of the dictionary builtins, evaluated when someone
demands the result, so a volume is modelled by what it evaluates to: a dictionary, some other
datum, or an error. The texts of errors are left out, since they depend on how far a value had been
evaluated when the builtin met it.

Three functions of `eval/dict_machine.rs` are translated as they compute: the path walk shared by
the lookups and the removal (`pathWalk`), the rebuilding of the walked dictionaries after a removal
(`finishRemove`), and the insertion with its stack of parents (`insertDictPath`). The rest of the
module restates them by recursion on the path (`read`, `pruned`, `insertAt`), which is the form the
later proofs use, and proves that the two agree.
-/

namespace Glam.Store

/-- What a value evaluates to: a dictionary, a datum of another kind, or an error. -/
inductive Value (K A : Type)
  | data (a : A)
  | dict (entries : List (K × Value K A))
  | error

/-- The entries of a dictionary. Their order means nothing, and no key occurs twice in one that
the operations below built. -/
abbrev Dict (K A : Type) := List (K × Value K A)

section Entries

variable {K V : Type} [DecidableEq K]

/-- The entries without a key. -/
def removeKey (entries : List (K × V)) (k : K) : List (K × V) :=
  entries.filter fun entry => entry.1 ≠ k

/-- The entries with a key's value replaced. -/
def insertKey (entries : List (K × V)) (k : K) (v : V) : List (K × V) :=
  (k, v) :: removeKey entries k

theorem lookup_cons_ite (entries : List (K × V)) (k j : K) (v : V) :
    ((k, v) :: entries).lookup j = if j = k then some v else entries.lookup j := by
  rw [List.lookup_cons]
  by_cases hj : j = k
  · simp [hj]
  · simp [hj, beq_eq_false_iff_ne.mpr hj]

/-- Only the key is removed. -/
theorem lookup_removeKey (entries : List (K × V)) (k j : K) :
    (removeKey entries k).lookup j = if j = k then none else entries.lookup j := by
  induction entries with
  | nil => simp [removeKey]
  | cons entry entries ih =>
    obtain ⟨i, v⟩ := entry
    unfold removeKey at ih ⊢
    rw [lookup_cons_ite]
    by_cases hi : i = k
    · subst hi
      rw [List.filter_cons_of_neg (by simp), ih]
      split <;> rfl
    · rw [List.filter_cons_of_pos (by simpa using hi), lookup_cons_ite, ih]
      by_cases hj : j = i
      · subst hj; rw [if_pos rfl, if_neg hi, if_pos rfl]
      · rw [if_neg hj, if_neg hj]

theorem lookup_insertKey (entries : List (K × V)) (k j : K) (v : V) :
    (insertKey entries k v).lookup j = if j = k then some v else entries.lookup j := by
  rw [insertKey, lookup_cons_ite, lookup_removeKey]
  split <;> rfl

end Entries

variable {K A : Type} [DecidableEq K]

/-! ### The path walk -/

/-- Where a walk along a path ended. -/
inductive WalkEnd (K A : Type)
  /-- every key was found; `walked` are the dictionaries on the way, outermost first -/
  | defined (walked : List (Dict K A)) (member : Value K A)
  /-- a dictionary on the way lacks its key -/
  | undefined
  /-- a value on the way is no dictionary, or fails to evaluate -/
  | failed

/-- Demands the dictionaries along `keys` one after the other, each from the one before. The last
member is not demanded. -/
def pathWalk (walked : List (Dict K A)) : List K → Value K A → WalkEnd K A
  | [], member => .defined walked member
  | key :: keys, .dict entries =>
    match entries.lookup key with
    | none => .undefined
    | some member => pathWalk (walked ++ [entries]) keys member
  | _ :: _, _ => .failed

/-- What the builtins that walk a path return. -/
inductive WalkResult (K A : Type)
  | ready (value : Value K A)
  | predicate (holds : Bool)
  | failed

/-- The builtins that walk a path. -/
inductive Builtin
  | dictLookup
  | dictDefines
  | dictDefault
  | dictRequire
  | dictRemove
deriving DecidableEq

/-- Removes the leaf from the innermost walked dictionary, then prunes each dictionary on the way
that the removal left empty. The dictionaries stand with the key taken in each, innermost first. -/
def finishRemove : List (Dict K A × K) → Dict K A
  | [] => []
  | (leaf, key) :: parents =>
    parents.foldl
      (fun result parent =>
        if result.isEmpty then removeKey parent.1 parent.2
        else insertKey parent.1 parent.2 (.dict result))
      (removeKey leaf key)

/-- The walk of `builtin` along `keys` in `dict`. `fallback` is the default of `dictDefault` and
the answer of `dictRequire`. -/
def dictPathWalk (builtin : Builtin) (keys : List K) (fallback dict : Value K A) :
    WalkResult K A :=
  if keys = [] then
    -- the empty path names the dictionary itself, which is defined
    match builtin with
    | .dictLookup | .dictDefault => .ready dict
    | .dictDefines => .predicate true
    | .dictRequire => .ready fallback
    | .dictRemove => .failed
  else
    match pathWalk [] keys dict with
    | .failed => .failed
    | .undefined =>
      match builtin with
      | .dictLookup | .dictRequire => .failed
      | .dictDefines => .predicate false
      | .dictDefault => .ready fallback
      | .dictRemove => .ready dict
    | .defined walked member =>
      match builtin with
      | .dictLookup | .dictDefault => .ready member
      | .dictDefines => .predicate true
      | .dictRequire => .ready fallback
      | .dictRemove => .ready (.dict (finishRemove (walked.zip keys).reverse))

/-- A builtin's result as the value its lazy call evaluates to. -/
def WalkResult.value : WalkResult K A → Value K A
  | .ready value => value
  | _ => .error

/-! ### Insertion -/

/-- Puts `result` into the dictionary it was reached from, and that one into its own parent. -/
def rebuild : List (Dict K A × K) → Dict K A → Dict K A
  | [], result => result
  | (parent, head) :: parents, result => rebuild parents (insertKey parent head (.dict result))

/-- The loop of `insert_dict_path_in`: descends along `path` from `current`, with the dictionaries
left behind in `parents`, innermost first. A lazy dictionary on the way takes the rest of the
insertion lazily, which evaluates to what this descent gives. -/
def insertDictPathLoop (newValue : Value K A) :
    List (Dict K A × K) → Dict K A → List K → Dict K A
  | parents, current, [] => rebuild parents current
  | parents, current, [head] => rebuild parents (insertKey current head newValue)
  | parents, current, head :: next :: rest =>
    match current.lookup head with
    | none => insertDictPathLoop newValue ((current, head) :: parents) [] (next :: rest)
    | some (.dict nested) =>
      insertDictPathLoop newValue ((current, head) :: parents) nested (next :: rest)
    -- an insertion below what is no dictionary fails there, and only there
    | some _ => rebuild parents (insertKey current head .error)

/-- `dict` with `newValue` at `path`, adding the dictionaries on the way where absent. -/
def insertDictPath (dict : Dict K A) (path : List K) (newValue : Value K A) : Dict K A :=
  insertDictPathLoop newValue [] dict path

/-- The builtin `dict.insert`: it requires a path and a dictionary. -/
def dictInsert (path : List K) (newValue dict : Value K A) : Value K A :=
  match path, dict with
  | _ :: _, .dict entries => .dict (insertDictPath entries path newValue)
  | _, _ => .error

/-! ### The same by recursion on the path -/

/-- What reading a path gives. -/
inductive Reading (K A : Type)
  | value (found : Value K A)
  | undefined
  | failed

/-- Goes on reading from the value a first part of the path led to. -/
def Reading.andThen (reading : Reading K A) (next : Value K A → Reading K A) : Reading K A :=
  match reading with
  | .value found => next found
  | .undefined => .undefined
  | .failed => .failed

/-- What reading `path` in a value gives: the member there, `undefined` where a dictionary on the
way lacks its key, and `failed` where something on the way is no dictionary. -/
def read : Value K A → List K → Reading K A
  | value, [] => .value value
  | .dict entries, key :: path =>
    match entries.lookup key with
    | none => .undefined
    | some member => read member path
  | .data _, _ :: _ => .failed
  | .error, _ :: _ => .failed

/-- The dictionary at `key`, or the empty one where there is none. -/
def subDict (entries : Dict K A) (key : K) : Dict K A :=
  match entries.lookup key with
  | some (.dict nested) => nested
  | _ => []

/-- `entries` without what is at `path`, which is defined, and without the dictionaries this
empties. -/
def pruned : Dict K A → List K → Dict K A
  | entries, [] => entries
  | entries, [key] => removeKey entries key
  | entries, key :: next :: path =>
    let nested := pruned (subDict entries key) (next :: path)
    if nested.isEmpty then removeKey entries key else insertKey entries key (.dict nested)

/-- Puts a value at a path, through dictionaries that are made where there are none. -/
def insertAt (newValue : Value K A) : Value K A → List K → Value K A
  | _, [] => newValue
  | .dict entries, key :: path =>
    .dict (insertKey entries key
      (insertAt newValue ((entries.lookup key).getD (.dict [])) path))
  | .data _, _ :: _ => .error
  | .error, _ :: _ => .error

/-- Takes what is at a path away, if there is something. -/
def removeAt (value : Value K A) (path : List K) : Value K A :=
  match read value path with
  | .failed => .error
  | .undefined => value
  | .value _ =>
    match value with
    | .dict entries => .dict (pruned entries path)
    | _ => .error

/-- The dictionaries a walk along the path meets, outermost first. -/
def dictsAlong : Value K A → List K → List (Dict K A)
  | .dict entries, key :: path =>
    match entries.lookup key with
    | none => [entries]
    | some member => entries :: dictsAlong member path
  | _, _ => []

variable {entries : Dict K A} {member : Value K A} {path : List K}

theorem dictsAlong_cons {key : K} (h : entries.lookup key = some member) (path : List K) :
    dictsAlong (.dict entries) (key :: path) = entries :: dictsAlong member path := by
  simp only [dictsAlong, h]

/-- **The walk reads.** -/
theorem pathWalk_eq (walked : List (Dict K A)) (keys : List K) (value : Value K A) :
    pathWalk walked keys value =
      match read value keys with
      | .value member => .defined (walked ++ dictsAlong value keys) member
      | .undefined => .undefined
      | .failed => .failed := by
  induction keys generalizing walked value with
  | nil => cases value <;> simp [pathWalk, read, dictsAlong]
  | cons key keys ih =>
    cases value with
    | data | error => simp [pathWalk, read]
    | dict entries =>
      cases h : entries.lookup key with
      | none => simp [pathWalk, read, h]
      | some member =>
        simp only [pathWalk, read, h, dictsAlong, ih]
        cases read member keys <;> simp

theorem finishRemove_concat (inner : List (Dict K A × K)) (hinner : inner ≠ [])
    (outer : Dict K A) (key : K) :
    finishRemove (inner ++ [(outer, key)]) =
      if (finishRemove inner).isEmpty then removeKey outer key
      else insertKey outer key (.dict (finishRemove inner)) := by
  cases inner with
  | nil => exact absurd rfl hinner
  | cons => simp [finishRemove, List.foldl_append]

/-- Where a longer path has a value, its first key has a dictionary. -/
theorem lookup_of_read_value {key next : K}
    (h : read (.dict entries) (key :: next :: path) = .value member) :
    entries.lookup key = some (.dict (subDict entries key)) ∧
      read (.dict (subDict entries key)) (next :: path) = .value member := by
  cases hl : entries.lookup key with
  | none => simp [read, hl] at h
  | some found =>
    cases found with
    | data | error => simp [read, hl] at h
    | dict nested =>
      have hsub : subDict entries key = nested := by simp [subDict, hl]
      rw [hsub]
      refine ⟨rfl, ?_⟩
      simpa only [read, hl] using h

/-- **Rebuilding prunes.** After a walk to a defined path, removing the leaf and rebuilding the
walked dictionaries from the inside gives the pruned dictionary. -/
theorem finishRemove_eq (hpath : path ≠ []) (h : read (.dict entries) path = .value member) :
    finishRemove ((dictsAlong (.dict entries) path).zip path).reverse = pruned entries path := by
  induction path generalizing entries with
  | nil => exact absurd rfl hpath
  | cons key path ih =>
    cases path with
    | nil =>
      cases hl : entries.lookup key <;> simp [dictsAlong, hl, finishRemove, pruned]
    | cons next path =>
      obtain ⟨hl, hsub⟩ := lookup_of_read_value h
      have hne : ((dictsAlong (.dict (subDict entries key)) (next :: path)).zip
          (next :: path)).reverse ≠ [] := by
        cases hn : (subDict entries key).lookup next <;> simp [dictsAlong, hn]
      rw [dictsAlong_cons hl, List.zip_cons_cons, List.reverse_cons, finishRemove_concat _ hne,
        ih (by simp) hsub, pruned]

/-- **The removal builtin**, by recursion on the path. -/
theorem dictRemove_eq (hpath : path ≠ []) (fallback root : Value K A) :
    (dictPathWalk .dictRemove path fallback root).value = removeAt root path := by
  rw [dictPathWalk, if_neg hpath, pathWalk_eq]
  unfold removeAt
  cases hr : read root path with
  | failed | undefined => cases root <;> simp [WalkResult.value]
  | value =>
    cases root with
    | data | error => cases path <;> simp_all [read]
    | dict =>
      simp only [WalkResult.value, List.nil_append]
      rw [finishRemove_eq hpath hr]

/-- The loop rebuilds the dictionaries that it walked through. -/
theorem insertDictPathLoop_eq (newValue : Value K A) (parents : List (Dict K A × K))
    (current result : Dict K A) (head : K) (rest : List K)
    (h : insertAt newValue (.dict current) (head :: rest) = .dict result) :
    insertDictPathLoop newValue parents current (head :: rest) = rebuild parents result := by
  induction rest generalizing parents current result head with
  | nil =>
    simp only [insertAt, Value.dict.injEq] at h
    rw [insertDictPathLoop, h]
  | cons next rest ih =>
    simp only [insertAt, Value.dict.injEq] at h
    subst h
    rw [insertDictPathLoop]
    cases hl : current.lookup head with
    | none => exact ih _ _ _ _ rfl
    | some found =>
      cases found with
      | data => rfl
      | error => rfl
      | dict => exact ih _ _ _ _ rfl

/-- **The insertion builtin**, by recursion on the path. -/
theorem dictInsert_eq (hpath : path ≠ []) (newValue root : Value K A) :
    dictInsert path newValue root = insertAt newValue root path := by
  cases path with
  | nil => exact absurd rfl hpath
  | cons head rest =>
    cases root with
    | data => rfl
    | error => rfl
    | dict entries =>
      rw [dictInsert, insertDictPath, insertDictPathLoop_eq newValue [] entries _ head rest rfl]
      rfl

end Glam.Store
