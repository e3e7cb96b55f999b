import Glam.Store.Frame

/-!
# Taking an entry out of a dictionary

Dictionary patterns take the entry at a path and match what is left
(`RegionalPatternDictTakeMachine` in `eval/pattern_machine.rs`). The machine walks the dictionaries
on the way with a stack of parents. Where it finds the entry, it removes it and rebuilds the parents
from the inside, leaving out each one that the removal has emptied. Values are those of
`Store/Dict`: what members evaluate to.

The walk reads the path and the rebuilding prunes it (`takeLoop_eq`), so the laws follow from what
`Store/Frame` says of reading after a removal. Dictionaries keep no order of entries, so two values
count as equal when every path sees the same in both (`Same`).
-/

namespace Glam.Eval.PatternTake

open Glam.Store

variable {K A : Type} [DecidableEq K]

/-! ### The machine -/

/-- What a take hands to its pattern: the entry, or for an optional entry a list of at most one. -/
inductive Taken (K A : Type)
  | value (value : Store.Value K A)
  | list (values : List (Store.Value K A))

/-- What becomes of a pattern that takes a path out of a dictionary. -/
inductive TakeResult (K A : Type)
  | success (value : Taken K A) (rest : Dict K A)
  /-- the pattern does not match -/
  | failure
  /-- the evaluation fails -/
  | failed

/-- Where the walk of a take ended. -/
inductive Selection (K A : Type)
  | found (value : Store.Value K A) (rest : Dict K A)
  | absent
  | failure
  | failed

/-- The walk along the keys left, in the dictionary reached, with the parents left behind and the
key taken in each, innermost first. -/
def takeLoop : List (Dict K A × K) → Dict K A → List K → Selection K A
  | _, _, [] => .failed
  | frames, current, [key] =>
    match current.lookup key with
    | none => .absent
    -- the entry itself stays unforced
    | some value => .found value (finishRemove ((current, key) :: frames))
  | frames, current, key :: next :: keys =>
    match current.lookup key with
    | none => .absent
    | some (.dict nested) => takeLoop ((current, key) :: frames) nested (next :: keys)
    | some (.data _) => .failure
    | some .error => .failed

/-- The builtins `pattern-dict-try-take` and, where `optional`, its variant for optional entries. -/
def patternDictTryTake (optional : Bool) (path : List K) (source : Store.Value K A) :
    TakeResult K A :=
  if path = [] then .failed
  else match source with
    | .dict original =>
      match takeLoop [] original path with
      | .found value rest => .success (if optional then .list [value] else .value value) rest
      | .absent => if optional then .success (.list []) original else .failure
      | .failure => .failure
      | .failed => .failed
    | .data _ => .failure
    | .error => .failed

/-- The loop of `insert_dict_path_in` for `dict.introduce`, which fails where the path is defined or
runs into a value that is no dictionary. -/
def introduceDictPathLoop (newValue : Store.Value K A) :
    List (Dict K A × K) → Dict K A → List K → Option (Dict K A)
  | parents, current, [] => some (rebuild parents current)
  | parents, current, [head] =>
    if (current.lookup head).isSome then none
    else some (rebuild parents (insertKey current head newValue))
  | parents, current, head :: next :: rest =>
    match current.lookup head with
    | none => introduceDictPathLoop newValue ((current, head) :: parents) [] (next :: rest)
    | some (.dict nested) =>
      introduceDictPathLoop newValue ((current, head) :: parents) nested (next :: rest)
    | some _ => none

/-- The builtin `dict.introduce` on a dictionary. -/
def dictIntroduce (path : List K) (newValue : Store.Value K A) (dict : Dict K A) :
    Option (Dict K A) :=
  if path = [] then none else introduceDictPathLoop newValue [] dict path

/-! ### Equal dictionaries -/

/-- What a path sees, without the order of a dictionary's entries. -/
inductive Sight (A : Type)
  | data (a : A)
  | dict
  | error
  | undefined
  | failed

/-- What a reading shows. -/
def sight : Reading K A → Sight A
  | .value (.data a) => .data a
  | .value (.dict _) => .dict
  | .value .error => .error
  | .undefined => .undefined
  | .failed => .failed

/-- **Equality of dictionaries**: every path sees the same. -/
def Same (d e : Dict K A) : Prop :=
  ∀ path, sight (Store.read (.dict d) path) = sight (Store.read (.dict e) path)

omit [DecidableEq K] in
theorem sight_undefined {reading : Reading K A} (h : sight reading = .undefined) :
    reading = .undefined := by
  match reading, h with
  | .undefined, _ => rfl
  | .value (.data _), h | .value (.dict _), h | .value .error, h | .failed, h => cases h

variable {d e : Dict K A}

theorem Same.lookup_none (h : Same d e) {key : K} (hkey : d.lookup key = none) :
    e.lookup key = none := by
  have hsight := h [key]
  rw [read_cons_of_lookup_none hkey] at hsight
  have hundefined := sight_undefined hsight.symm
  cases hlookup : e.lookup key with
  | none => rfl
  | some =>
    rw [read_cons_of_lookup hlookup, read_nil] at hundefined
    cases hundefined

theorem Same.isEmpty (h : Same d e) (hempty : d.isEmpty = true) : e.isEmpty = true := by
  cases e with
  | nil => rfl
  | cons entry e =>
    obtain rfl := List.isEmpty_iff.mp hempty
    have := h.lookup_none (rfl : ([] : Dict K A).lookup entry.1 = none)
    simp at this

/-! ### The walk reads and the rebuilding prunes -/

/-- The loop reads the path, and prunes the dictionaries on the way back. -/
theorem takeLoop_eq (frames : List (Dict K A × K)) (current : Dict K A) (path : List K)
    (hpath : path ≠ []) :
    (∀ member, Store.read (.dict current) path = .value member →
      takeLoop frames current path = .found member
        (finishRemove (((dictsAlong (.dict current) path).zip path).reverse ++ frames))) ∧
    (Store.read (.dict current) path = .undefined → takeLoop frames current path = .absent) ∧
    (Store.read (.dict current) path = .failed →
      takeLoop frames current path = .failure ∨ takeLoop frames current path = .failed) := by
  induction path generalizing frames current with
  | nil => exact absurd rfl hpath
  | cons key path ih =>
    cases hlookup : current.lookup key with
    | none =>
      rw [read_cons_of_lookup_none hlookup]
      cases path <;> simp [takeLoop, hlookup]
    | some member =>
      cases path with
      | nil =>
        rw [read_cons_of_lookup hlookup, read_nil]
        simp [takeLoop, hlookup, dictsAlong]
      | cons next path =>
        rw [read_cons_of_lookup hlookup]
        cases member with
        | dict nested =>
          have ih := ih ((current, key) :: frames) nested (List.cons_ne_nil next path)
          simpa [takeLoop, hlookup, dictsAlong_cons hlookup] using ih
        | data | error => simp [Store.read, hlookup, takeLoop]

variable {path : List K}

/-- **What a take returns**, by what its path reads. -/
theorem patternDictTryTake_eq (optional : Bool) (hpath : path ≠ []) (dict : Dict K A) :
    (∀ member, Store.read (.dict dict) path = .value member →
      patternDictTryTake optional path (.dict dict) =
        .success (if optional then .list [member] else .value member) (pruned dict path)) ∧
    (Store.read (.dict dict) path = .undefined →
      patternDictTryTake optional path (.dict dict) =
        if optional then .success (.list []) dict else .failure) ∧
    (Store.read (.dict dict) path = .failed →
      ∀ value rest, patternDictTryTake optional path (.dict dict) ≠ .success value rest) := by
  obtain ⟨hvalue, hundefined, hfailed⟩ := takeLoop_eq [] dict path hpath
  refine ⟨fun member hread => ?_, fun hread => ?_, fun hread value rest => ?_⟩
  · have hloop := hvalue member hread
    rw [List.append_nil, finishRemove_eq hpath hread] at hloop
    simp [patternDictTryTake, hpath, hloop]
  · simp [patternDictTryTake, hpath, hundefined hread]
  · rcases hfailed hread with hloop | hloop <;> simp [patternDictTryTake, hpath, hloop]

/-- At an undefined path, introducing is inserting. -/
theorem introduceDictPathLoop_eq (newValue : Store.Value K A) :
    ∀ {parents : List (Dict K A × K)} {current : Dict K A},
      Store.read (.dict current) path = .undefined →
      introduceDictPathLoop newValue parents current path =
        some (insertDictPathLoop newValue parents current path) := by
  induction path with
  | nil => intro parents current h; rw [read_nil] at h; cases h
  | cons head rest ih =>
    intro parents current h
    cases rest with
    | nil =>
      cases hlookup : current.lookup head with
      | none => simp [introduceDictPathLoop, insertDictPathLoop, hlookup]
      | some => rw [read_cons_of_lookup hlookup, read_nil] at h; cases h
    | cons next rest =>
      cases hlookup : current.lookup head with
      | none =>
        -- both go on in a fresh dictionary, where the rest of the path is undefined again
        simp only [introduceDictPathLoop, insertDictPathLoop, hlookup]
        exact ih (read_empty (List.cons_ne_nil next rest))
      | some member =>
        rw [read_cons_of_lookup hlookup] at h
        cases member with
        | dict =>
          simp only [introduceDictPathLoop, insertDictPathLoop, hlookup]
          exact ih h
        | data => cases h
        | error => cases h

variable {dict : Dict K A}

theorem dictIntroduce_eq (hpath : path ≠ []) (newValue : Store.Value K A)
    (h : Store.read (.dict dict) path = .undefined) :
    ∃ result, dictIntroduce path newValue dict = some result ∧
      (.dict result : Store.Value K A) = insertAt newValue (.dict dict) path := by
  refine ⟨insertDictPathLoop newValue [] dict path, ?_, ?_⟩
  · rw [dictIntroduce, if_neg hpath, introduceDictPathLoop_eq newValue h]
  · rw [← dictInsert_eq hpath]
    cases path with
    | nil => exact absurd rfl hpath
    | cons => rfl

/-! ### The laws -/

/-- What a pattern leaves is the dictionary without the path. -/
theorem patternDictTryTake_success {optional : Bool} {rest : Dict K A} {taken : Taken K A}
    (hpath : path ≠ []) (h : patternDictTryTake optional path (.dict dict) = .success taken rest) :
    Store.read (.dict dict) path ≠ .failed ∧
      (.dict rest : Store.Value K A) = removeAt (.dict dict) path := by
  obtain ⟨hvalue, hundefined, hfailed⟩ := patternDictTryTake_eq optional hpath dict
  cases hread : Store.read (.dict dict) path with
  | value member =>
    rw [hvalue member hread] at h
    cases h
    exact ⟨nofun, by simp [removeAt, hread]⟩
  | undefined =>
    rw [hundefined hread] at h
    obtain ⟨-, heq⟩ := (ite_eq_iff.mp h).resolve_right (fun h => by cases h.2)
    cases heq
    exact ⟨nofun, (removeAt_of_undefined hread).symm⟩
  | failed => exact absurd h (hfailed hread taken rest)

/-- A take does what the reading of its path says, so equal readings give the same success. -/
theorem patternDictTryTake_congr {optional : Bool} {other rest : Dict K A} {taken : Taken K A}
    (hpath : path ≠ []) (hread : Store.read (.dict other) path = Store.read (.dict dict) path)
    (h : patternDictTryTake optional path (.dict dict) = .success taken rest) :
    ∃ rest', patternDictTryTake optional path (.dict other) = .success taken rest' := by
  obtain ⟨hvalue, hundefined, hfailed⟩ := patternDictTryTake_eq optional hpath dict
  obtain ⟨hvalue', hundefined', -⟩ := patternDictTryTake_eq optional hpath other
  cases hcase : Store.read (.dict dict) path with
  | value member =>
    rw [hvalue member hcase] at h
    cases h
    exact ⟨_, hvalue' member (hread.trans hcase)⟩
  | undefined =>
    rw [hundefined hcase] at h
    obtain ⟨hoptional, heq⟩ := (ite_eq_iff.mp h).resolve_right (fun h => by cases h.2)
    cases heq
    exact ⟨other, by rw [hundefined' (hread.trans hcase), if_pos hoptional]⟩
  | failed => exact absurd h (hfailed hcase taken rest)

/-- What was taken out and is put back makes the same dictionary. -/
theorem same_insertAt_pruned {result : Dict K A} {member : Store.Value K A} (hpath : path ≠ [])
    (hread : Store.read (.dict dict) path = .value member)
    (hresult : (.dict result : Store.Value K A) = insertAt member (.dict (pruned dict path)) path) :
    Same result dict := by
  intro q
  rw [hresult]
  have hself := read_pruned_self hpath hread
  by_cases hbelow : path <+: q
  · -- at the path or below it both read the member
    obtain ⟨more, rfl⟩ := hbelow
    rw [read_insertAt_append member _ more (by rw [hself]; nofun), read_append, hread]
    rfl
  by_cases habove : q <+: path
  · -- above the path both see a dictionary
    obtain ⟨more, rfl⟩ := habove
    have hmore : more ≠ [] := by
      rintro rfl
      exact hbelow (by simp)
    obtain ⟨key, keys, rfl⟩ := List.exists_cons_of_ne_nil hmore
    rw [read_append] at hread
    obtain ⟨sub, hsub⟩ : ∃ sub, Store.read (.dict dict) q = .value (.dict sub) := by
      cases hq : Store.read (.dict dict) q with
      | value found =>
        rw [hq] at hread
        cases found with
        | dict sub => exact ⟨sub, rfl⟩
        | data | error => cases hread
      | undefined | failed => rw [hq] at hread; cases hread
    rw [hsub, read_insertAt_above]
    by_cases hq : q = []
    · subst hq
      rfl
    · rw [read_pruned_above hq hmore hsub]
      by_cases hempty : (pruned sub (key :: keys)).isEmpty = true
      · rw [if_pos hempty]
        rfl
      · rw [if_neg hempty]
        rfl
  · rw [read_insertAt_of_apart member _ ⟨hbelow, habove⟩,
      read_pruned_of_apart hread ⟨hbelow, habove⟩]

theorem same_of_lookup (h : ∀ key, d.lookup key = e.lookup key) : Same d e := by
  intro path
  cases path with
  | nil => rw [read_nil, read_nil]; rfl
  | cons => rw [read_dict_cons, read_dict_cons, h]

theorem lookup_pruned_congr {key : K} (h : d.lookup key = e.lookup key) (path : List K) :
    (pruned d (key :: path)).lookup key = (pruned e (key :: path)).lookup key := by
  cases path with
  | nil => simp [pruned, lookup_removeKey]
  | cons =>
    have hsub : subDict d key = subDict e key := by unfold subDict; rw [h]
    rw [lookup_pruned_self, lookup_pruned_self, hsub]

variable {p q : List K}

/-- Two paths below one key are taken out of its dictionary one after another. -/
theorem lookup_pruned_pruned {sub : Dict K A} {key : K} {m n : Store.Value K A}
    (hsub : dict.lookup key = some (.dict sub)) (hp : Store.read (.dict sub) p = .value m)
    (hq : Store.read (.dict sub) q = .value n) (h : Apart p q) :
    (pruned (pruned dict (key :: p)) (key :: q)).lookup key =
      if (pruned (pruned sub p) q).isEmpty then none
      else some (.dict (pruned (pruned sub p) q)) := by
  obtain ⟨a, p, rfl⟩ := List.exists_cons_of_ne_nil h.ne_nil_left
  obtain ⟨b, q, rfl⟩ := List.exists_cons_of_ne_nil h.ne_nil_right
  -- after the first removal the entry at `q` is still there, so its dictionary is not pruned
  have hleft : ¬ (pruned sub (a :: p)).isEmpty = true := by
    intro hempty
    have hread := read_pruned_of_apart hp h
    rw [List.isEmpty_iff.mp hempty, hq] at hread
    cases hread
  have hlookup := lookup_pruned_self dict key a p
  rw [subDict, hsub, if_neg hleft] at hlookup
  rw [lookup_pruned_self, subDict, hlookup]

/-- **Removals apart from each other commute.** -/
theorem same_pruned_comm {m n : Store.Value K A} (h : Apart p q)
    (hp : Store.read (.dict dict) p = .value m) (hq : Store.read (.dict dict) q = .value n) :
    Same (pruned (pruned dict p) q) (pruned (pruned dict q) p) := by
  induction p generalizing q dict with
  | nil => exact absurd rfl h.ne_nil_left
  | cons k p ih =>
    obtain ⟨j, q, rfl⟩ := List.exists_cons_of_ne_nil h.ne_nil_right
    by_cases hjk : j = k
    · -- below one key: both orders leave what they leave of the dictionary there
      subst hjk
      have hrest := h.cons_cons rfl
      obtain ⟨a, p, rfl⟩ := List.exists_cons_of_ne_nil hrest.ne_nil_left
      obtain ⟨b, q, rfl⟩ := List.exists_cons_of_ne_nil hrest.ne_nil_right
      obtain ⟨hsub, hp⟩ := lookup_of_read_value hp
      obtain ⟨-, hq⟩ := lookup_of_read_value hq
      have ih := ih hrest hp hq
      have hone := lookup_pruned_pruned hsub hp hq hrest
      have hother := lookup_pruned_pruned hsub hq hp ⟨hrest.2, hrest.1⟩
      intro path
      cases path with
      | nil => rw [read_nil, read_nil]; rfl
      | cons i path =>
        rw [read_dict_cons, read_dict_cons]
        by_cases hi : i = j
        · subst hi
          rw [hone, hother]
          by_cases hempty : (pruned (pruned (subDict dict i) (a :: p)) (b :: q)).isEmpty = true
          · rw [if_pos hempty, if_pos (ih.isEmpty hempty)]
          · have hempty' : ¬ (pruned (pruned (subDict dict i) (b :: q)) (a :: p)).isEmpty = true :=
              fun hempty' => hempty (Same.isEmpty (fun path => (ih path).symm) hempty')
            rw [if_neg hempty, if_neg hempty']
            exact ih path
        · rw [lookup_pruned_of_ne _ _ hi, lookup_pruned_of_ne _ _ hi, lookup_pruned_of_ne _ _ hi,
            lookup_pruned_of_ne _ _ hi]
    · -- below different keys: each removal changes what is at its own key only
      apply same_of_lookup
      intro i
      by_cases hi : i = j
      · subst hi
        rw [lookup_pruned_congr (lookup_pruned_of_ne dict p hjk), lookup_pruned_of_ne _ _ hjk]
      · by_cases hik : i = k
        · subst hik
          rw [lookup_pruned_of_ne _ _ hi,
            lookup_pruned_congr (lookup_pruned_of_ne dict q hi)]
        · rw [lookup_pruned_of_ne _ _ hi, lookup_pruned_of_ne _ _ hik, lookup_pruned_of_ne _ _ hik,
            lookup_pruned_of_ne _ _ hi]

/-- Paths that are apart can be taken out in either order. -/
theorem same_removeAt_comm {one other : Dict K A} (h : Apart p q)
    (hp : Store.read (.dict dict) p ≠ .failed) (hq : Store.read (.dict dict) q ≠ .failed)
    (hone : (.dict one : Store.Value K A) = removeAt (removeAt (.dict dict) p) q)
    (hother : (.dict other : Store.Value K A) = removeAt (removeAt (.dict dict) q) p) :
    Same one other := by
  -- neither removal changes what the other reads
  have hqp : Store.read (removeAt (.dict dict) p) q = Store.read (.dict dict) q :=
    read_removeAt_of_apart hp h
  have hpq : Store.read (removeAt (.dict dict) q) p = Store.read (.dict dict) p :=
    read_removeAt_of_apart hq ⟨h.2, h.1⟩
  have hsame : ∀ {one other : Dict K A}, (.dict one : Store.Value K A) = .dict other →
      Same one other := by
    intro one other heq
    cases heq
    exact fun _ => rfl
  cases hpcase : Store.read (.dict dict) p with
  | failed => exact absurd hpcase hp
  | undefined =>
    rw [removeAt_of_undefined (hpq.trans hpcase)] at hother
    rw [removeAt_of_undefined hpcase] at hone
    exact hsame (hone.trans hother.symm)
  | value =>
    cases hqcase : Store.read (.dict dict) q with
    | failed => exact absurd hqcase hq
    | undefined =>
      rw [removeAt_of_undefined (hqp.trans hqcase)] at hone
      rw [removeAt_of_undefined hqcase] at hother
      exact hsame (hone.trans hother.symm)
    | value =>
      have hcomm := same_pruned_comm h hpcase hqcase
      have hprunedP : removeAt (.dict dict) p = .dict (pruned dict p) := by simp [removeAt, hpcase]
      have hprunedQ : removeAt (.dict dict) q = .dict (pruned dict q) := by simp [removeAt, hqcase]
      rw [hprunedP] at hone hqp
      rw [hprunedQ] at hother hpq
      simp only [removeAt, hqp.trans hqcase] at hone
      simp only [removeAt, hpq.trans hpcase] at hother
      cases hone
      cases hother
      exact hcomm

/-- **The laws of taking an entry out of a dictionary.** A take succeeds where its path is defined
through dictionaries, an optional one also where a key on the way is missing; it leaves alone every
path neither above nor below its own; introducing the entry again gives the dictionary back; and
takes at paths neither of which is above the other can be made in either order. -/
theorem patternDictTryTake_laws (dict : Dict K A) :
    (∀ path, path ≠ [] → ∀ taken rest,
      (patternDictTryTake false path (.dict dict) = .success taken rest →
        ∃ member, Store.read (.dict dict) path = .value member ∧ taken = .value member) ∧
      (patternDictTryTake true path (.dict dict) = .success taken rest →
        (∃ member, Store.read (.dict dict) path = .value member ∧ taken = .list [member]) ∨
          Store.read (.dict dict) path = .undefined ∧ taken = .list [] ∧ rest = dict)) ∧
    (∀ path, path ≠ [] → ∀ member, Store.read (.dict dict) path = .value member →
      ∃ rest result, patternDictTryTake false path (.dict dict) = .success (.value member) rest ∧
        patternDictTryTake true path (.dict dict) = .success (.list [member]) rest ∧
        dictIntroduce path member rest = some result ∧ Same result dict) ∧
    (∀ path, path ≠ [] → Store.read (.dict dict) path = .undefined →
      patternDictTryTake true path (.dict dict) = .success (.list []) dict) ∧
    (∀ optional path taken rest,
      patternDictTryTake optional path (.dict dict) = .success taken rest →
      ∀ other, Apart path other →
        Store.read (.dict rest) other = Store.read (.dict dict) other) ∧
    ∀ optional optional' p q taken taken' rest final, Apart p q →
      patternDictTryTake optional p (.dict dict) = .success taken rest →
      patternDictTryTake optional' q (.dict rest) = .success taken' final →
      ∃ rest' final', patternDictTryTake optional' q (.dict dict) = .success taken' rest' ∧
        patternDictTryTake optional p (.dict rest') = .success taken final' ∧
        Same final final' := by
  refine ⟨fun path hpath taken rest => ?_, fun path hpath member hread => ?_,
    fun path hpath hread => ?_, fun optional path taken rest htake other hapart => ?_, ?_⟩
  · obtain ⟨hvalue, hundefined, hfailed⟩ := patternDictTryTake_eq false hpath dict
    obtain ⟨hvalue', hundefined', hfailed'⟩ := patternDictTryTake_eq true hpath dict
    cases hread : Store.read (.dict dict) path with
    | value member =>
      rw [hvalue member hread, hvalue' member hread]
      constructor
      · intro heq
        cases heq
        exact ⟨member, rfl, rfl⟩
      · intro heq
        cases heq
        exact .inl ⟨member, rfl, rfl⟩
    | undefined =>
      rw [hundefined hread, hundefined' hread]
      refine ⟨nofun, fun heq => ?_⟩
      cases heq
      exact .inr ⟨rfl, rfl, rfl⟩
    | failed => exact ⟨fun h => absurd h (hfailed hread taken rest),
        fun h => absurd h (hfailed' hread taken rest)⟩
  · obtain ⟨result, hintroduce, hresult⟩ :=
      dictIntroduce_eq hpath member (read_pruned_self hpath hread)
    exact ⟨pruned dict path, result, (patternDictTryTake_eq false hpath dict).1 member hread,
      (patternDictTryTake_eq true hpath dict).1 member hread, hintroduce,
      same_insertAt_pruned hpath hread hresult⟩
  · exact (patternDictTryTake_eq true hpath dict).2.1 hread
  · obtain ⟨hread, hrest⟩ := patternDictTryTake_success hapart.ne_nil_left htake
    rw [hrest, read_removeAt_of_apart hread hapart]
  · intro optional optional' p q taken taken' rest final hapart htake htake'
    obtain ⟨hread, hrest⟩ := patternDictTryTake_success hapart.ne_nil_left htake
    obtain ⟨hread', hfinal⟩ := patternDictTryTake_success hapart.ne_nil_right htake'
    -- the first take leaves the second path as it was, so the second take can come first
    have hq : Store.read (.dict rest) q = Store.read (.dict dict) q := by
      rw [hrest, read_removeAt_of_apart hread hapart]
    obtain ⟨rest', hsecond⟩ := patternDictTryTake_congr hapart.ne_nil_right hq.symm htake'
    obtain ⟨-, hrest'⟩ := patternDictTryTake_success hapart.ne_nil_right hsecond
    rw [hq] at hread'
    have hp : Store.read (.dict rest') p = Store.read (.dict dict) p := by
      rw [hrest', read_removeAt_of_apart hread' ⟨hapart.2, hapart.1⟩]
    obtain ⟨final', hthird⟩ := patternDictTryTake_congr hapart.ne_nil_left hp htake
    obtain ⟨-, hfinal'⟩ := patternDictTryTake_success hapart.ne_nil_left hthird
    rw [hrest] at hfinal
    rw [hrest'] at hfinal'
    exact ⟨rest', final', hsecond, hthird, same_removeAt_comm hapart hread hread' hfinal hfinal'⟩

end Glam.Eval.PatternTake
