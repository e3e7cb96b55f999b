import Glam.Store.Dict

/-!
# What an insertion or a removal changes

The lemmas come in three kinds, by where the read path lies from the edited one. Apart from it, a
read sees what it saw before (`read_insertAt_of_apart`, `read_removeAt_of_apart`). At or below it,
a read sees only what was written (`read_insertAt_append`, `read_removeAt_append`). Above it, what
a read sees is a function of what it saw before (`read_insertAt_above`, `read_removeAt_above`).

An insertion below a value that is no dictionary fails at that value only, so the first law needs
no assumption for it. A removal there fails as a whole.
-/

namespace Glam.Store

variable {K A : Type} [DecidableEq K]

/-- Paths of which none leads to the other. -/
def Apart (p q : List K) : Prop := ¬ p <+: q ∧ ¬ q <+: p

instance (p q : List K) : Decidable (Apart p q) := inferInstanceAs (Decidable (_ ∧ _))

variable {p q : List K} {entries : Dict K A} {member v w value : Value K A}

omit [DecidableEq K] in
theorem Apart.cons_cons {k j : K} (h : Apart (k :: p) (j :: q)) (hkj : j = k) : Apart p q := by
  subst hkj
  exact ⟨fun hp => h.1 (List.cons_prefix_cons.mpr ⟨rfl, hp⟩),
    fun hq => h.2 (List.cons_prefix_cons.mpr ⟨rfl, hq⟩)⟩

omit [DecidableEq K] in
theorem Apart.ne_nil_right (h : Apart p q) : q ≠ [] := by
  rintro rfl
  exact h.2 List.nil_prefix

omit [DecidableEq K] in
theorem Apart.ne_nil_left (h : Apart p q) : p ≠ [] := by
  rintro rfl
  exact h.1 List.nil_prefix

/-! ### Reading -/

@[simp] theorem read_nil (value : Value K A) : read value [] = .value value := by
  cases value <;> rfl

theorem read_dict_cons (entries : Dict K A) (key : K) (path : List K) :
    read (.dict entries) (key :: path) =
      match entries.lookup key with
      | none => .undefined
      | some member => read member path := rfl

theorem read_cons_of_lookup {key : K} (h : entries.lookup key = some member) (path : List K) :
    read (.dict entries) (key :: path) = read member path := by
  rw [read_dict_cons, h]

theorem read_cons_of_lookup_none {key : K} (h : entries.lookup key = none) (path : List K) :
    read (.dict entries) (key :: path) = .undefined := by
  rw [read_dict_cons, h]

theorem read_error {path : List K} (h : path ≠ []) :
    read (.error : Value K A) path = .failed := by
  cases path with
  | nil => exact absurd rfl h
  | cons => rfl

theorem read_empty {path : List K} (h : path ≠ []) :
    read (.dict [] : Value K A) path = .undefined := by
  cases path with
  | nil => exact absurd rfl h
  | cons => rfl

/-- A longer path is read in two parts. -/
theorem read_append (value : Value K A) (p q : List K) :
    read value (p ++ q) = (read value p).andThen fun found => read found q := by
  induction p generalizing value with
  | nil => simp [Reading.andThen]
  | cons key p ih =>
    cases value with
    | data | error => rfl
    | dict entries =>
      rw [List.cons_append, read_dict_cons, read_dict_cons]
      cases entries.lookup key with
      | none => rfl
      | some member => exact ih member

theorem read_eq_of_prefix (hpq : p <+: q) (h : read v p = read w p) : read v q = read w q := by
  obtain ⟨r, rfl⟩ := hpq
  rw [read_append, read_append, h]

/-! ### Insertion -/

theorem insertAt_dict_cons (newValue : Value K A) (entries : Dict K A) (key : K)
    (path : List K) :
    insertAt newValue (.dict entries) (key :: path) =
      .dict (insertKey entries key
        (insertAt newValue ((entries.lookup key).getD (.dict [])) path)) := rfl

section

variable (newValue value : Value K A)

@[simp] theorem insertAt_nil : insertAt newValue value [] = newValue := by
  cases value <;> rfl

/-- **Insertion leaves the rest alone**, whatever it meets on the way. -/
theorem read_insertAt_of_apart (h : Apart p q) :
    read (insertAt newValue value p) q = read value q := by
  induction p generalizing value q with
  | nil => exact absurd rfl h.ne_nil_left
  | cons key p ih =>
    cases q with
    | nil => exact absurd rfl h.ne_nil_right
    | cons j q =>
      cases value with
      | data | error => rfl
      | dict entries =>
        rw [insertAt_dict_cons, read_dict_cons, read_dict_cons, lookup_insertKey]
        by_cases hj : j = key
        · have hpq := h.cons_cons hj
          subst hj
          rw [if_pos rfl]
          simp only [ih _ hpq]
          cases entries.lookup j with
          | none => exact read_empty hpq.ne_nil_right
          | some => rfl
        · rw [if_neg hj]

/-- At and below the path, the inserted value is read. -/
theorem read_insertAt_append (q : List K) (h : read value p ≠ .failed) :
    read (insertAt newValue value p) (p ++ q) = read newValue q := by
  induction p generalizing value with
  | nil => simp
  | cons key p ih =>
    cases value with
    | data | error => exact absurd rfl h
    | dict entries =>
      rw [insertAt_dict_cons, List.cons_append, read_dict_cons, lookup_insertKey, if_pos rfl]
      refine ih _ ?_
      cases hl : entries.lookup key with
      | none =>
        cases p with
        | nil => simp
        | cons => simp [read_empty]
      | some => rwa [read_cons_of_lookup hl] at h

/-- Above an insertion, what a read sees is the insertion into what it saw before. -/
theorem read_insertAt_above (p q : List K) :
    read (insertAt newValue value (p ++ q)) p =
      match read value p with
      | .value found => .value (insertAt newValue found q)
      | .undefined => .value (insertAt newValue (.dict []) q)
      | .failed => .failed := by
  induction p generalizing value with
  | nil => simp
  | cons key p ih =>
    cases value with
    | data | error => rfl
    | dict entries =>
      rw [List.cons_append, insertAt_dict_cons, read_dict_cons, lookup_insertKey, if_pos rfl,
        read_dict_cons]
      simp only [ih]
      cases entries.lookup key with
      | none =>
        cases p with
        | nil => simp
        | cons => simp [read_empty]
      | some => rfl

/-- At and below a path that runs into a value that is no dictionary, an insertion leaves nothing
to read. -/
theorem read_insertAt_append_of_failed (q : List K) (h : read value p = .failed) :
    read (insertAt newValue value p) (p ++ q) = .failed := by
  induction p generalizing value with
  | nil =>
    rw [read_nil] at h
    cases h
  | cons key p ih =>
    cases value with
    | data | error => rfl
    | dict entries =>
      rw [insertAt_dict_cons, List.cons_append, read_dict_cons, lookup_insertKey, if_pos rfl]
      apply ih
      cases hl : entries.lookup key with
      | none =>
        rw [read_cons_of_lookup_none hl] at h
        cases h
      | some => rwa [read_cons_of_lookup hl] at h

end

/-- After an insertion at `p`, two values read alike at `q` if they read alike there before it,
which they need not where the insertion decides `q`, if the insertion then gets there in both or in
neither, and if what is inserted is the same, which it need not be where `q` is apart from it. -/
theorem read_insertAt_congr_of_alike {newV newW : Value K A}
    (halike : p <+: q → (read v p = .failed ↔ read w p = .failed))
    (hnew : ¬ Apart p q → newV = newW) (h : ¬ p <+: q → read v q = read w q) :
    read (insertAt newV v p) q = read (insertAt newW w p) q := by
  by_cases hpq : p <+: q
  · obtain rfl := hnew fun hapart => hapart.1 hpq
    have hiff := halike hpq
    obtain ⟨r, rfl⟩ := hpq
    by_cases hv : read v p = .failed
    · rw [read_insertAt_append_of_failed newV v r hv,
        read_insertAt_append_of_failed newV w r (hiff.mp hv)]
    · rw [read_insertAt_append newV v r hv, read_insertAt_append newV w r (mt hiff.mpr hv)]
  by_cases hqp : q <+: p
  · obtain rfl := hnew fun hapart => hapart.2 hqp
    obtain ⟨r, rfl⟩ := hqp
    rw [read_insertAt_above, read_insertAt_above, h hpq]
  · rw [read_insertAt_of_apart newV v ⟨hpq, hqp⟩, read_insertAt_of_apart newW w ⟨hpq, hqp⟩, h hpq]

/-! ### Removal -/

theorem pruned_cons_cons (entries : Dict K A) (key next : K) (path : List K) :
    pruned entries (key :: next :: path) =
      if (pruned (subDict entries key) (next :: path)).isEmpty then removeKey entries key
      else insertKey entries key (.dict (pruned (subDict entries key) (next :: path))) := rfl

theorem lookup_pruned_of_ne (entries : Dict K A) {key j : K} (path : List K) (hj : j ≠ key) :
    (pruned entries (key :: path)).lookup j = entries.lookup j := by
  cases path with
  | nil => rw [pruned, lookup_removeKey, if_neg hj]
  | cons =>
    rw [pruned_cons_cons]
    split
    · rw [lookup_removeKey, if_neg hj]
    · rw [lookup_insertKey, if_neg hj]

/-- The pruned dictionary at the first key of the path: the dictionary there pruned, or nothing
where that leaves it empty. -/
theorem lookup_pruned_self (entries : Dict K A) (key next : K) (path : List K) :
    (pruned entries (key :: next :: path)).lookup key =
      if (pruned (subDict entries key) (next :: path)).isEmpty then none
      else some (.dict (pruned (subDict entries key) (next :: path))) := by
  rw [pruned_cons_cons]
  split
  · rw [lookup_removeKey, if_pos rfl]
  · rw [lookup_insertKey, if_pos rfl]

/-- Pruning changes no reading apart from it. -/
theorem read_pruned_of_apart (hp : read (.dict entries) p = .value member) (h : Apart p q) :
    read (.dict (pruned entries p)) q = read (.dict entries) q := by
  induction p generalizing entries q with
  | nil => exact absurd rfl h.ne_nil_left
  | cons key p ih =>
    cases q with
    | nil => exact absurd rfl h.ne_nil_right
    | cons j q =>
      by_cases hj : j = key
      · have hpq := h.cons_cons hj
        subst hj
        cases p with
        | nil => exact absurd rfl hpq.ne_nil_left
        | cons next p =>
          obtain ⟨hl, hsub⟩ := lookup_of_read_value hp
          rw [read_cons_of_lookup hl, ← ih hsub hpq, read_dict_cons, lookup_pruned_self]
          by_cases hempty : (pruned (subDict entries j) (next :: p)).isEmpty = true
          · -- the pruned dictionary is gone, and it had nothing at `q` to lose
            rw [if_pos hempty, List.isEmpty_iff.mp hempty, read_empty hpq.ne_nil_right]
          · rw [if_neg hempty]
      · rw [read_dict_cons, read_dict_cons, lookup_pruned_of_ne entries p hj]

/-- What was pruned is undefined. -/
theorem read_pruned_self (hne : p ≠ []) (hp : read (.dict entries) p = .value member) :
    read (.dict (pruned entries p)) p = .undefined := by
  induction p generalizing entries with
  | nil => exact absurd rfl hne
  | cons key p ih =>
    cases p with
    | nil =>
      refine read_cons_of_lookup_none ?_ []
      rw [pruned, lookup_removeKey, if_pos rfl]
    | cons next p =>
      obtain ⟨-, hsub⟩ := lookup_of_read_value hp
      rw [read_dict_cons, lookup_pruned_self]
      by_cases hempty : (pruned (subDict entries key) (next :: p)).isEmpty = true
      · rw [if_pos hempty]
      · rw [if_neg hempty]
        exact ih (by simp) hsub

/-- Above a removal and below the root, a read sees the pruned dictionary, or nothing where the
removal emptied it. -/
theorem read_pruned_above {sub : Dict K A} (hpne : p ≠ []) (hqne : q ≠ [])
    (hp : read (.dict entries) p = .value (.dict sub)) :
    read (.dict (pruned entries (p ++ q))) p =
      if (pruned sub q).isEmpty then .undefined else .value (.dict (pruned sub q)) := by
  induction p generalizing entries with
  | nil => exact absurd rfl hpne
  | cons key p ih =>
    obtain ⟨j, q', hj⟩ := List.exists_cons_of_ne_nil (List.append_ne_nil_of_right_ne_nil p hqne)
    rw [List.cons_append, hj, read_dict_cons, lookup_pruned_self, ← hj]
    cases p with
    | nil =>
      -- the dictionary at `key` is the one `q` is removed from
      have hl : entries.lookup key = some (.dict sub) := by
        cases hl : entries.lookup key with
        | none => rw [read_cons_of_lookup_none hl] at hp; simp at hp
        | some =>
          rw [read_cons_of_lookup hl, read_nil] at hp
          rw [Reading.value.inj hp]
      have hsub : subDict entries key = sub := by simp [subDict, hl]
      rw [List.nil_append, hsub]
      by_cases hempty : (pruned sub q).isEmpty = true
      · rw [if_pos hempty, if_pos hempty]
      · rw [if_neg hempty, if_neg hempty]
        exact read_nil _
    | cons next p =>
      obtain ⟨hl, hrest⟩ := lookup_of_read_value hp
      rw [← ih (by simp) hrest]
      by_cases hempty : (pruned (subDict entries key) (next :: p ++ q)).isEmpty = true
      · rw [if_pos hempty, List.isEmpty_iff.mp hempty, read_empty (by simp)]
      · rw [if_neg hempty]

theorem removeAt_of_failed (h : read value p = .failed) : removeAt value p = .error := by
  unfold removeAt
  rw [h]

theorem removeAt_of_undefined (h : read value p = .undefined) : removeAt value p = value := by
  unfold removeAt
  rw [h]

/-- Where a path is defined, the value is a dictionary and the removal prunes it. -/
theorem removeAt_of_value (hne : p ≠ []) (h : read value p = .value member) :
    ∃ entries, value = .dict entries ∧ removeAt value p = .dict (pruned entries p) := by
  cases p with
  | nil => exact absurd rfl hne
  | cons =>
    cases value with
    | data | error => simp [read] at h
    | dict entries =>
      refine ⟨entries, rfl, ?_⟩
      unfold removeAt
      rw [h]

/-- **Removal leaves the rest alone** where everything on its way is a dictionary or undefined. -/
theorem read_removeAt_of_apart (hp : read value p ≠ .failed) (h : Apart p q) :
    read (removeAt value p) q = read value q := by
  cases hr : read value p with
  | failed => exact absurd hr hp
  | undefined => rw [removeAt_of_undefined hr]
  | value =>
    obtain ⟨entries, rfl, he⟩ := removeAt_of_value h.ne_nil_left hr
    rw [he, read_pruned_of_apart hr h]

theorem read_removeAt_append (hne : p ≠ []) (q : List K) (hp : read value p ≠ .failed) :
    read (removeAt value p) (p ++ q) = .undefined := by
  have hself : read (removeAt value p) p = .undefined := by
    cases hr : read value p with
    | failed => exact absurd hr hp
    | undefined => rw [removeAt_of_undefined hr, hr]
    | value =>
      obtain ⟨entries, rfl, he⟩ := removeAt_of_value hne hr
      rw [he, read_pruned_self hne hr]
  rw [read_append, hself]
  rfl

/-- Above a removal, what a read sees is determined by what it saw before. -/
theorem read_removeAt_above (hne : p ≠ []) (hqp : q <+: p) (hv : read v p ≠ .failed)
    (hw : read w p ≠ .failed) (h : read v q = read w q) :
    read (removeAt v p) q = read (removeAt w p) q := by
  have hpeq : read v p = read w p := read_eq_of_prefix hqp h
  cases hr : read v p with
  | failed => exact absurd hr hv
  | undefined => rw [removeAt_of_undefined hr, removeAt_of_undefined (hpeq ▸ hr), h]
  | value member =>
    obtain ⟨r, rfl⟩ := hqp
    obtain ⟨es, rfl, hes⟩ := removeAt_of_value hne hr
    obtain ⟨es', rfl, hes'⟩ := removeAt_of_value hne (hpeq ▸ hr)
    by_cases hq : q = []
    · -- the root: the two values are equal
      subst hq
      rw [read_nil, read_nil] at h
      rw [Reading.value.inj h]
    by_cases hrne : r = []
    · subst hrne
      rw [List.append_nil] at *
      rw [hes, hes', read_pruned_self hq hr, read_pruned_self hq (hpeq ▸ hr)]
    -- between the two: the dictionary there is the same, and so is what pruning leaves of it
    obtain ⟨sub, hsub⟩ : ∃ sub, read (.dict es) q = .value (.dict sub) := by
      rw [read_append] at hr
      cases hfound : read (.dict es) q with
      | undefined | failed => rw [hfound] at hr; simp [Reading.andThen] at hr
      | value found =>
        rw [hfound] at hr
        obtain ⟨sub, rfl, -⟩ := removeAt_of_value hrne (show read found r = .value member from hr)
        exact ⟨sub, rfl⟩
    rw [hes, hes', read_pruned_above hq hrne hsub, read_pruned_above hq hrne (h ▸ hsub)]

/-- After a removal of `p`, two values read alike at `q` if they read alike there before it, which
they need not where the removal decides `q`. -/
theorem read_removeAt_congr (hne : p ≠ []) (hv : read v p ≠ .failed) (hw : read w p ≠ .failed)
    (h : ¬ p <+: q → read v q = read w q) : read (removeAt v p) q = read (removeAt w p) q := by
  by_cases hpq : p <+: q
  · obtain ⟨r, rfl⟩ := hpq
    rw [read_removeAt_append hne r hv, read_removeAt_append hne r hw]
  by_cases hqp : q <+: p
  · exact read_removeAt_above hne hqp hv hw (h hpq)
  · rw [read_removeAt_of_apart hv ⟨hpq, hqp⟩, read_removeAt_of_apart hw ⟨hpq, hqp⟩, h hpq]

end Glam.Store
