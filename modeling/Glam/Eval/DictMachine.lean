import Glam.Store.Frame

/-!
# The dictionary machine on partially evaluated dictionaries

The dictionary builtins work on values as the runtime holds them, in which a member may still be
suspended: a lazy value, a promise, or a builtin call that nobody has demanded yet. This module
translates `RegionalDictPathWalk` and `insert_dict_path_in` of `eval/dict_machine.rs` on such
values.

Evaluation proceeds to weak head normal form only (`whnf`). A path walk demands the dictionaries on
its way and nothing else. An insertion demands only the outermost one: it descends through members
that are dictionaries already, and where it meets a suspended one it leaves a suspended call of
itself, for the rest of the path, in its place. So an insertion is never finished at one time, and
what it did is only seen by later walks.

The laws are therefore stated by what walks see. Whatever is read at a path depends on a value only
through its normal form (`read_congr_whnf`), and the member that an insertion leaves at the first
key has the normal form of the insertion, for the rest of the path, into the member that was there
(`dictInsert_cons`). This one step carries every law about insertion, by induction on the path. The
empty path is no path to the updating builtins: they fail on it.

`Store/Dict` models a volume by what it evaluates to. `Eval/Volume` connects the two.
-/

namespace Glam.Eval.DictMachine

open Glam.Store (insertKey removeKey lookup_insertKey lookup_removeKey Apart Builtin)

/-- The builtins that put a value at a path. -/
inductive Update
  | dictInsert
  | dictIntroduce
deriving DecidableEq

/-- The name of an update, as messages have it. -/
def Update.name : Update → String
  | .dictInsert => "dict.insert"
  | .dictIntroduce => "dict.introduce"

/-- The walking builtins' names in failures. -/
def walkName : Builtin → String
  | .dictLookup => "dict.lookup"
  | .dictDefines => "dict.defines"
  | .dictDefault => "dict.default"
  | .dictRequire => "dict_require"
  | .dictRemove => "dict.remove"

/-- Why an evaluation fails. `K` are the keys of the paths the failures name. -/
inductive Failure (K : Type)
  /-- `name` requires a non-empty path -/
  | requiresPath (name : String)
  /-- `name` requires a dictionary -/
  | requiresDictionary (name : String)
  /-- `name`'s path runs into a value that is no dictionary, at `path` -/
  | traverses (name : String) (path : List K)
  /-- a required read of `path` runs into a value that is no dictionary -/
  | readTraverses (path : List K)
  | alreadyDefined (path : List K)
  | undefined (path : List K)
  /-- a failure of something other than the dictionary builtins -/
  | message (text : String)

/-- A value as the runtime holds it. Everything that is neither a dictionary nor suspended is a
datum. -/
inductive Value (K A : Type)
  | data (a : A)
  | dict (entries : List (K × Value K A))
  /-- a lazy or promised value, which evaluates to what `value` evaluates to -/
  | lazy (value : Value K A)
  /-- a lazy value whose evaluation fails -/
  | error (failure : Failure K)
  /-- a suspended call of an updating builtin -/
  | call (update : Update) (path : List K) (newValue dict : Value K A)

/-- The entries of a dictionary. -/
abbrev Dict (K A : Type) := List (K × Value K A)

variable {K A : Type} [DecidableEq K]

/-! ### Insertion -/

/-- Puts `result` into the dictionary it was reached from, and that one into its own parent. -/
def rebuild : List (Dict K A × K) → Dict K A → Dict K A
  | [], result => result
  | (parent, head) :: parents, result => rebuild parents (insertKey parent head (.dict result))

/-- The loop of `insert_dict_path_in` along `path`, at the rest of it: `current` is the dictionary
reached, and `parents` are those left behind, innermost first. -/
def insertDictPathLoop (update : Update) (path : List K) (newValue : Value K A) :
    List (Dict K A × K) → Dict K A → List K → Except (Failure K) (Dict K A)
  | parents, current, [] => .ok (rebuild parents current)
  | parents, current, [head] =>
    if update = .dictIntroduce ∧ (current.lookup head).isSome then
      .error (.alreadyDefined path)
    else .ok (rebuild parents (insertKey current head newValue))
  | parents, current, head :: next :: rest =>
    match current.lookup head with
    | none => insertDictPathLoop update path newValue ((current, head) :: parents) [] (next :: rest)
    | some (.dict nested) =>
      insertDictPathLoop update path newValue ((current, head) :: parents) nested (next :: rest)
    | some (.data _) =>
      let failure := .traverses update.name (path.take (parents.length + 1))
      match update with
      | .dictIntroduce => .error failure
      -- an insertion below what is no dictionary fails when someone looks there
      | .dictInsert => .ok (rebuild parents (insertKey current head (.error failure)))
    | some suspended =>
      .ok (rebuild parents
        (insertKey current head (.call update (next :: rest) newValue suspended)))

/-- `dict` with `newValue` at `path`, adding the dictionaries on the way where absent. -/
def insertDictPath (update : Update) (dict : Dict K A) (path : List K) (newValue : Value K A) :
    Except (Failure K) (Dict K A) :=
  insertDictPathLoop update path newValue [] dict path

/-- What an updating builtin returns, given what its dictionary evaluates to. -/
def finishInsert (update : Update) (path : List K) (newValue : Value K A) :
    Value K A → Except (Failure K) (Value K A)
  | .dict entries => (insertDictPath update entries path newValue).map .dict
  | _ => .error (.requiresDictionary update.name)

/-- Evaluation to weak head normal form: a datum or a dictionary. -/
def whnf : Value K A → Except (Failure K) (Value K A)
  | .data a => .ok (.data a)
  | .dict entries => .ok (.dict entries)
  | .lazy value => whnf value
  | .error failure => .error failure
  | .call update path newValue dict =>
    if path = [] then .error (.requiresPath update.name)
    else (whnf dict).bind (finishInsert update path newValue)

/-- The result of inserting at a path. -/
def dictInsert (path : List K) (newValue dict : Value K A) : Except (Failure K) (Value K A) :=
  whnf (.call .dictInsert path newValue dict)

/-! ### The path walk -/

/-- Where a walk along a path ended, with the dictionaries it walked, outermost first. -/
inductive WalkEnd (K A : Type)
  | defined (walked : List (Dict K A)) (member : Value K A)
  | undefined (walked : List (Dict K A))
  /-- a value on the way evaluates to what is no dictionary -/
  | blocked (walked : List (Dict K A))
  /-- a value on the way fails to evaluate -/
  | failed (failure : Failure K)

/-- Demands the dictionaries along the keys, each from the one before. The last member is not
demanded. -/
def pathWalk (walked : List (Dict K A)) : List K → Value K A → WalkEnd K A
  | [], member => .defined walked member
  | key :: keys, value =>
    match whnf value with
    | .error failure => .failed failure
    | .ok (.dict entries) =>
      match entries.lookup key with
      | none => .undefined (walked ++ [entries])
      | some member => pathWalk (walked ++ [entries]) keys member
    | .ok _ => .blocked walked

/-- What a walk along a path answers: a value, or whether there is one. -/
inductive Answer (K A : Type)
  | value (value : Value K A)
  | predicate (holds : Bool)

/-- Removes the leaf from the innermost walked dictionary, then prunes each dictionary on the way
that the removal left empty. The dictionaries stand with the key taken in each, innermost first. -/
def finishRemove : List (Dict K A × K) → Dict K A
  | [] => []
  | (leaf, key) :: parents =>
    parents.foldl
      (fun result parent =>
        if result.isEmpty then removeKey parent.1 parent.2
        else insertKey parent.1 parent.2 (.dict result))
      (removeKey leaf key)

/-- The walk of `builtin` along `keys` in `dict`. `fallback` is the default of `dictDefault` and
the answer of `dictRequire`. -/
def dictPathWalk (builtin : Builtin) (keys : List K) (fallback dict : Value K A) :
    Except (Failure K) (Answer K A) :=
  if keys = [] then
    -- the empty path names the dictionary itself, which is defined
    match builtin with
    | .dictLookup | .dictDefault => .ok (.value dict)
    | .dictDefines => .ok (.predicate true)
    | .dictRequire => .ok (.value fallback)
    | .dictRemove => .error (.requiresPath (walkName .dictRemove))
  else
    match pathWalk [] keys dict with
    | .failed failure => .error failure
    | .blocked walked =>
      -- a read names the whole path it reads
      if builtin = .dictRequire then .error (.readTraverses keys)
      else .error (.traverses (walkName builtin) (keys.take walked.length))
    | .undefined walked =>
      match builtin with
      | .dictLookup | .dictRequire => .error (.undefined keys)
      | .dictDefines => .ok (.predicate false)
      | .dictDefault => .ok (.value fallback)
      | .dictRemove => .ok (.value (.dict (walked.headD [])))
    | .defined walked member =>
      match builtin with
      | .dictLookup | .dictDefault => .ok (.value member)
      | .dictDefines => .ok (.predicate true)
      | .dictRequire => .ok (.value fallback)
      | .dictRemove => .ok (.value (.dict (finishRemove (walked.zip keys).reverse)))

/-- The value at a path. -/
def dictLookup (keys : List K) (dict : Value K A) : Except (Failure K) (Answer K A) :=
  dictPathWalk .dictLookup keys dict dict

/-- The dictionary without a path. -/
def dictRemove (keys : List K) (dict : Value K A) : Except (Failure K) (Answer K A) :=
  dictPathWalk .dictRemove keys dict dict

/-! ### Reading by recursion on the path -/

/-- What reading a path gives. -/
inductive Reading (K A : Type)
  | value (found : Value K A)
  | undefined
  /-- no dictionary where `left` keys of the path are left to walk -/
  | blocked (left : Nat)
  | failed (failure : Failure K)

/-- What reading `path` in a value gives. -/
def read : Value K A → List K → Reading K A
  | value, [] => .value value
  | value, key :: path =>
    match whnf value with
    | .error failure => .failed failure
    | .ok (.dict entries) =>
      match entries.lookup key with
      | none => .undefined
      | some member => read member path
    | .ok _ => .blocked (path.length + 1)

/-- Everything on the way along `path` is a dictionary or undefined. -/
def InnerDicts (value : Value K A) (path : List K) : Prop :=
  ∀ above, above <+: path → above ≠ path →
    read value above = .undefined ∨
      ∃ found entries, read value above = .value found ∧ whnf found = .ok (.dict entries)

@[simp] theorem read_nil (value : Value K A) : read value [] = .value value := by
  rw [read]

@[simp] theorem whnf_dict (entries : Dict K A) :
    whnf (.dict entries) = .ok (.dict entries) := by
  rw [whnf]

variable {value : Value K A} {entries : Dict K A}

theorem read_cons (h : whnf value = .ok (.dict entries)) (key : K) (path : List K) :
    read value (key :: path) =
      match entries.lookup key with
      | none => .undefined
      | some member => read member path := by
  rw [read, h]

variable {path : List K}

theorem read_congr_whnf {v w : Value K A} (hpath : path ≠ []) (h : whnf v = whnf w) :
    read v path = read w path := by
  cases path with
  | nil => exact absurd rfl hpath
  | cons => rw [read, read, h]

theorem read_empty (hpath : path ≠ []) : read (.dict [] : Value K A) path = .undefined := by
  cases path with
  | nil => exact absurd rfl hpath
  | cons => rw [read_cons (whnf_dict [])]; rfl

/-- Under its inner dictionaries a path starts in a dictionary, and its rest has inner
dictionaries in the member at its first key, or in the empty dictionary where there is none. -/
theorem InnerDicts.cons {key : K} (h : InnerDicts value (key :: path)) :
    ∃ entries, whnf value = .ok (.dict entries) ∧
      InnerDicts ((entries.lookup key).getD (.dict [])) path := by
  obtain hroot | ⟨found, entries, hfound, hwhnf⟩ := h [] (List.nil_prefix) (by simp)
  · rw [read_nil] at hroot
    cases hroot
  · rw [read_nil] at hfound
    cases hfound
    refine ⟨entries, hwhnf, ?_⟩
    intro above habove hne
    have hlong := h (key :: above) (List.cons_prefix_cons.mpr ⟨rfl, habove⟩) (by simpa using hne)
    rw [read_cons hwhnf] at hlong
    cases hl : entries.lookup key with
    | some => simpa only [hl, Option.getD_some] using hlong
    | none =>
      rw [Option.getD_none]
      cases above with
      | nil => exact .inr ⟨_, [], read_nil _, whnf_dict _⟩
      | cons => exact .inl (read_empty (by simp))

theorem innerDicts_nil (value : Value K A) : InnerDicts value [] := by
  intro above habove hne
  exact absurd (List.prefix_nil.mp habove) hne

/-- A path has inner dictionaries if and only if it is read: it is defined or undefined. -/
theorem innerDicts_iff_read :
    InnerDicts value path ↔
      read value path = .undefined ∨ ∃ found, read value path = .value found := by
  induction path generalizing value with
  | nil => simp [innerDicts_nil]
  | cons key path ih =>
    constructor
    · intro h
      obtain ⟨entries, hwhnf, hrest⟩ := h.cons
      rw [read_cons hwhnf]
      cases hl : entries.lookup key with
      | none => exact .inl rfl
      | some =>
        rw [hl] at hrest
        exact ih.mp hrest
    · intro h above habove hne
      cases hwhnf : whnf value with
      | error => simp [read, hwhnf] at h
      | ok normal =>
        cases normal with
        | dict entries =>
          cases above with
          | nil => exact .inr ⟨value, entries, read_nil value, hwhnf⟩
          | cons first above =>
            obtain ⟨rfl, habove'⟩ := List.cons_prefix_cons.mp habove
            rw [read_cons hwhnf] at h ⊢
            cases hl : entries.lookup first with
            | none => exact .inl rfl
            | some =>
              rw [hl] at h
              exact ih.mpr h above habove' (by simpa using hne)
        | _ => simp [read, hwhnf] at h

/-! ### The walk reads -/

/-- The dictionaries a walk along the path meets, outermost first. -/
def dictsAlong : Value K A → List K → List (Dict K A)
  | _, [] => []
  | value, key :: path =>
    match whnf value with
    | .ok (.dict entries) =>
      match entries.lookup key with
      | none => [entries]
      | some member => entries :: dictsAlong member path
    | _ => []

theorem dictsAlong_cons {member : Value K A} {key : K} (hwhnf : whnf value = .ok (.dict entries))
    (hl : entries.lookup key = some member) (path : List K) :
    dictsAlong value (key :: path) = entries :: dictsAlong member path := by
  simp only [dictsAlong, hwhnf, hl]

theorem dictsAlong_eq_cons (hwhnf : whnf value = .ok (.dict entries)) (key : K) (path : List K) :
    ∃ inner, dictsAlong value (key :: path) = entries :: inner := by
  simp only [dictsAlong, hwhnf]
  cases entries.lookup key with
  | none => exact ⟨[], rfl⟩
  | some => exact ⟨_, rfl⟩

/-- **The walk reads.** -/
theorem pathWalk_eq (walked : List (Dict K A)) (keys : List K) (value : Value K A) :
    pathWalk walked keys value =
      match read value keys with
      | .value member => .defined (walked ++ dictsAlong value keys) member
      | .undefined => .undefined (walked ++ dictsAlong value keys)
      | .blocked _ => .blocked (walked ++ dictsAlong value keys)
      | .failed failure => .failed failure := by
  induction keys generalizing walked value with
  | nil => simp [pathWalk, dictsAlong]
  | cons key keys ih =>
    rw [pathWalk, read, dictsAlong]
    cases whnf value with
    | error => rfl
    | ok normal =>
      cases normal with
      | dict entries =>
        cases hl : entries.lookup key with
        | none => simp only [hl]
        | some member =>
          simp only [hl, ih]
          cases read member keys <;> simp
      | _ => simp

/-- A reading is blocked at one of the path's keys. -/
theorem read_blocked_le {left : Nat} (h : read value path = .blocked left) :
    left ≤ path.length := by
  induction path generalizing value with
  | nil =>
    rw [read_nil] at h
    cases h
  | cons key path ih =>
    rw [read] at h
    rw [List.length_cons]
    split at h
    · cases h
    · split at h
      · cases h
      · exact Nat.le_succ_of_le (ih h)
    · cases h
      exact le_rfl

/-- A blocked walk has walked all but the keys left. -/
theorem length_dictsAlong {left : Nat} (h : read value path = .blocked left) :
    (dictsAlong value path).length = path.length - left := by
  induction path generalizing value with
  | nil =>
    rw [read_nil] at h
    cases h
  | cons key path ih =>
    rw [read] at h
    rw [dictsAlong]
    cases hwhnf : whnf value with
    | error =>
      rw [hwhnf] at h
      cases h
    | ok normal =>
      rw [hwhnf] at h
      cases normal with
      | dict entries =>
        dsimp only at h ⊢
        cases hl : entries.lookup key with
        | none =>
          rw [hl] at h
          cases h
        | some =>
          rw [hl] at h
          have hle : left ≤ path.length := read_blocked_le h
          rw [List.length_cons, ih h, List.length_cons]
          omega
      | _ =>
        cases h
        simp

variable {keys : List K}

/-- **What the reading builtins return** depends on the value only through what reading the path
gives. -/
theorem dictPathWalk_congr {builtin : Builtin} (hbuiltin : builtin ≠ .dictRemove)
    (hkeys : keys ≠ []) (fallback : Value K A) {v w : Value K A} (h : read v keys = read w keys) :
    dictPathWalk builtin keys fallback v = dictPathWalk builtin keys fallback w := by
  unfold dictPathWalk
  rw [if_neg hkeys, if_neg hkeys, pathWalk_eq, pathWalk_eq, h]
  cases hr : read w keys with
  | value | undefined => cases builtin <;> first | rfl | exact absurd rfl hbuiltin
  | blocked =>
    simp only [List.nil_append, length_dictsAlong hr, length_dictsAlong (h.trans hr)]
  | failed => rfl

theorem dictLookup_of_read {found : Value K A} (h : read value keys = .value found) :
    dictLookup keys value = .ok (.value found) := by
  unfold dictLookup dictPathWalk
  split
  · next hkeys =>
    subst hkeys
    rw [read_nil] at h
    cases h
    rfl
  · rw [pathWalk_eq, h]

theorem dictDefines_eq_false_iff {fallback : Value K A} :
    dictPathWalk .dictDefines keys fallback value = .ok (.predicate false) ↔
      read value keys = .undefined := by
  unfold dictPathWalk
  split
  · next hkeys =>
    subst hkeys
    simp
  · rw [pathWalk_eq]
    cases read value keys <;> simp

end Glam.Eval.DictMachine
