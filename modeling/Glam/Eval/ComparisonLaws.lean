import Glam.Eval.Agreement

/-!
# The laws of comparison

Equality and order as the machine answers. Its answers are functions of the forms of the two values
(`compares_iff`), so they cannot depend on how a list is split into leaves, fingers and lazy chunks
or on whether bytes are a text or a list, and the laws are laws of `Form.compare`.

The laws hold wherever there is an answer, also for values that hold a function, say, behind the
place that decides it. Forms that compare as the same are one form (`Form.eq_of_same`), in either
mode. So the one law that needs an argument of its own is that less-than chains (`Form.less_trans`):
wherever two lists are the same up to their first difference, one of them can be put in the other's
place. Each law goes over the parts of the left form.
-/

namespace Glam.Eval

/-- The result from the other side. -/
def ComparisonResult.swap : ComparisonResult → ComparisonResult
  | .equality same => .equality same
  | .ordering order => .ordering order.swap

variable {mode : ComparisonMode} {result : ComparisonResult}

/-! ### From the other side -/

theorem ComparisonMode.swap_result (mode : ComparisonMode) (order : Ordering) :
    (mode.result order).swap = mode.result order.swap := by
  cases mode with
  | equality => cases order <;> rfl
  | ordering => rfl

theorem ComparisonMode.swap_unlike (mode : ComparisonMode) :
    mode.unlike = mode.unlike.map ComparisonResult.swap := by
  cases mode <;> rfl

theorem firstDifference_swap (first rest : Option ComparisonResult) :
    (firstDifference first rest).map ComparisonResult.swap =
      firstDifference (first.map ComparisonResult.swap) (rest.map ComparisonResult.swap) := by
  rcases first with _ | same | order
  · rfl
  · cases same <;> rfl
  · cases order <;> rfl

/-- Dictionaries compare the other way round if their members do. -/
theorem Form.compare_dict_swap {left right : Members}
    (hmembers : right.compareMembers mode left =
      (left.compareMembers mode right).map ComparisonResult.swap)
    (htuples : right.compareTuples mode left =
      (left.compareTuples mode right).map ComparisonResult.swap) :
    (Form.dict right).compare mode (.dict left) =
      ((Form.dict left).compare mode (.dict right)).map ComparisonResult.swap := by
  cases mode with
  | equality =>
    by_cases hkeys : left.keys = right.keys
    · rw [compare, compare, if_pos hkeys.symm, if_pos hkeys, hmembers]
    · rw [compare, compare, if_neg (Ne.symm hkeys), if_neg hkeys]
      exact ComparisonMode.swap_unlike _
  | ordering => exact htuples

mutual

/-- **The comparison the other way round** is the comparison, reversed. -/
theorem Form.compare_swap : ∀ left right : Form,
    right.compare mode left = (left.compare mode right).map ComparisonResult.swap
  | .number left, right => by
    cases right with
    | number right =>
      rw [Form.compare, Form.compare, Option.map_some, mode.swap_result, ← Std.OrientedOrd.eq_swap]
    | other => rfl
    | unit | list | dict => exact mode.swap_unlike
  | .unit, right => by
    cases right with
    | unit => cases mode <;> rfl
    | other => rfl
    | number | list | dict => exact mode.swap_unlike
  | .list left, right => by
    cases right with
    | list right => exact Items.compare_swap left right
    | other => rfl
    | number | unit | dict => exact mode.swap_unlike
  | .dict left, right => by
    cases right with
    | dict right =>
      exact Form.compare_dict_swap (Members.compareMembers_swap left right)
        (Members.compareTuples_swap left right)
    | other => rfl
    | number | unit | list => exact mode.swap_unlike
  | .other, right => by cases right <;> rfl

/-- The same for lists. -/
theorem Items.compare_swap : ∀ left right : Items,
    right.compare mode left = (left.compare mode right).map ComparisonResult.swap
  | .done, right => by
    cases right with
    | broken => rfl
    | done | item => cases mode <;> rfl
  | .broken, right => by cases right <;> rfl
  | .item left lefts, right => by
    cases right with
    | broken => rfl
    | done => cases mode <;> rfl
    | item right rights =>
      rw [Items.compare, Items.compare, firstDifference_swap, Form.compare_swap left right,
        Items.compare_swap lefts rights]

theorem Members.compareMembers_swap : ∀ left right : Members,
    right.compareMembers mode left =
      (left.compareMembers mode right).map ComparisonResult.swap
  | .done, right => by cases right <;> cases mode <;> rfl
  | .entry key left lefts, right => by
    cases right with
    | done => cases mode <;> rfl
    | entry key' right rights =>
      rw [Members.compareMembers, Members.compareMembers, firstDifference_swap,
        Form.compare_swap left right, Members.compareMembers_swap lefts rights]

/-- The same for tuples. -/
theorem Members.compareTuples_swap : ∀ left right : Members,
    right.compareTuples mode left = (left.compareTuples mode right).map ComparisonResult.swap
  | .done, right => by
    obtain _ | ⟨_, _, _ | _⟩ := right <;> rfl
  | .entry _ _ (.entry _ _ _), right => by
    obtain _ | ⟨_, _, _ | _⟩ := right <;> rfl
  | .entry key left .done, right => by
    obtain _ | ⟨key', right, _ | _⟩ := right
    · rfl
    · rw [Members.compareTuples, Members.compareTuples, Form.comparePayloads_swap left right]
      by_cases hkeys : key = .tuple ∧ key' = .tuple
      · rw [if_pos hkeys, if_pos hkeys.symm]
      · rw [if_neg hkeys, if_neg fun h => hkeys h.symm]
        rfl
    · rfl

theorem Form.comparePayloads_swap : ∀ left right : Form,
    right.comparePayloads mode left = (left.comparePayloads mode right).map ComparisonResult.swap
  | .list left, right => by
    cases right with
    | list right => exact Items.compare_swap left right
    | number | unit | dict | other => rfl
  | .number _, right | .unit, right | .dict _, right | .other, right => by cases right <;> rfl

end

/-! ### The same -/

/-- Dictionaries that compare as the same do so by their members or as tuples. -/
theorem Form.compare_dict_same {left right : Members}
    (h : (Form.dict left).compare mode (.dict right) = some result) (hsame : result.isSame) :
    left.keys = right.keys ∧ left.compareMembers mode right = some result ∨
      left.compareTuples mode right = some result := by
  cases mode with
  | equality =>
    rw [compare] at h
    split at h
    next hkeys => exact .inl ⟨hkeys, h⟩
    next =>
      rw [← Option.some.inj h] at hsame
      cases hsame
  | ordering => exact .inr h

/-- Values of two kinds are never the same. -/
theorem ComparisonMode.unlike_not_same (h : mode.unlike = some result) : ¬result.isSame := by
  cases mode with
  | equality => rw [← Option.some.inj h]; decide
  | ordering => cases h

theorem ComparisonMode.eq_of_same {order : Ordering} (h : some (mode.result order) = some result)
    (hsame : result.isSame) : order = .eq := by
  rw [← Option.some.inj h, mode.isSame_result] at hsame
  exact of_decide_eq_true hsame

theorem firstDifference_same {first rest : Option ComparisonResult}
    (h : firstDifference first rest = some result) (hsame : result.isSame) :
    ∃ result', first = some result' ∧ result'.isSame ∧ rest = some result := by
  rcases firstDifference_eq_some h with ⟨-, hnot⟩ | ⟨⟨result', hfirst, hsame'⟩, hrest⟩
  · exact absurd hsame hnot
  · exact ⟨result', hfirst, hsame', hrest⟩

theorem Members.compareTuples_some {key : Key} {left : Form} {right : Members}
    (h : (Members.entry key left .done).compareTuples mode right = some result) :
    ∃ right', key = .tuple ∧ right = .entry .tuple right' .done ∧
      left.comparePayloads mode right' = some result := by
  obtain _ | ⟨key', right, _ | _⟩ := right
  · cases h
  · rw [compareTuples] at h
    split at h
    next hkeys => exact ⟨right, hkeys.1, by rw [hkeys.2], h⟩
    next => cases h
  · cases h

mutual

/-- Forms that compare as the same are one form. -/
theorem Form.eq_of_same : ∀ {left right : Form} {result : ComparisonResult},
    left.compare mode right = some result → result.isSame → left = right
  | .number left, right, _, h, hsame => by
    cases right with
    | number right => rw [compare_eq_iff_eq.mp (mode.eq_of_same h hsame)]
    | other => cases h
    | unit | list | dict => exact absurd hsame (mode.unlike_not_same h)
  | .unit, right, _, h, hsame => by
    cases right with
    | unit => rfl
    | other => cases h
    | number | list | dict => exact absurd hsame (mode.unlike_not_same h)
  | .list left, right, _, h, hsame => by
    cases right with
    | list right => rw [Items.eq_of_same (show left.compare mode right = _ from h) hsame]
    | other => cases h
    | number | unit | dict => exact absurd hsame (mode.unlike_not_same h)
  | .dict left, right, _, h, hsame => by
    cases right with
    | dict right =>
      rcases Form.compare_dict_same h hsame with ⟨hkeys, h⟩ | h
      · rw [Members.eq_of_same hkeys h hsame]
      · rw [Members.eq_of_same_tuples h hsame]
    | other => cases h
    | number | unit | list => exact absurd hsame (mode.unlike_not_same h)

/-- Lists that compare as the same are the same. -/
theorem Items.eq_of_same : ∀ {left right : Items} {result : ComparisonResult},
    left.compare mode right = some result → result.isSame → left = right
  | .done, right, _, h, hsame => by
    cases right with
    | done => rfl
    | item => cases mode.eq_of_same h hsame
    | broken => cases h
  | .item left lefts, right, _, h, hsame => by
    cases right with
    | item right rights =>
      obtain ⟨_, hfirst, hsame', hrest⟩ := firstDifference_same h hsame
      rw [Form.eq_of_same hfirst hsame', Items.eq_of_same hrest hsame]
    | done => cases mode.eq_of_same h hsame
    | broken => cases h

/-- Members that compare as the same are the same. -/
theorem Members.eq_of_same : ∀ {left right : Members} {result : ComparisonResult},
    left.keys = right.keys → left.compareMembers mode right = some result → result.isSame →
    left = right
  | .done, right, _, hkeys, h, hsame => by
    cases right with
    | done => rfl
    | entry => cases hkeys
  | .entry key left lefts, right, _, hkeys, h, hsame => by
    cases right with
    | done => cases hkeys
    | entry key' right rights =>
      obtain ⟨_, hfirst, hsame', hrest⟩ := firstDifference_same h hsame
      obtain ⟨rfl, hothers⟩ := List.cons.inj hkeys
      rw [Form.eq_of_same hfirst hsame', Members.eq_of_same hothers hrest hsame]

theorem Members.eq_of_same_tuples : ∀ {left right : Members} {result : ComparisonResult},
    left.compareTuples mode right = some result → result.isSame → left = right
  | .entry key left .done, right, _, h, hsame => by
    obtain ⟨right, rfl, rfl, h⟩ := Members.compareTuples_some h
    rw [Form.eq_of_same_payloads h hsame]
  | .done, right, _, h, _ | .entry _ _ (.entry _ _ _), right, _, h, _ => by
    cases h

theorem Form.eq_of_same_payloads : ∀ {left right : Form} {result : ComparisonResult},
    left.comparePayloads mode right = some result → result.isSame → left = right
  | .list left, right, _, h, hsame => by
    cases right with
    | list right => rw [Items.eq_of_same (show left.compare mode right = _ from h) hsame]
    | number | unit | dict | other => cases h
  | .number _, right, _, h, _ | .unit, right, _, h, _ | .dict _, right, _, h, _
  | .other, right, _, h, _ => by
    cases right <;> cases h

end

/-! ### Less -/

/-- The order of forms. -/
def Form.Less (left right : Form) : Prop := left.compare .ordering right = some (.ordering .lt)

/-- The order of lists. -/
def Items.Less (left right : Items) : Prop := left.compare .ordering right = some (.ordering .lt)

theorem Items.less_item {left right : Form} {lefts rights : Items} :
    (Items.item left lefts).Less (.item right rights) ↔
      left.Less right ∨ left.compare .ordering right = some (.ordering .eq) ∧ lefts.Less rights := by
  rw [Items.Less, Form.Less, compare]
  cases hfirst : left.compare .ordering right with
  | none => simp [firstDifference]
  | some result =>
    cases result with
    | equality => cases Form.mode_compare hfirst
    | ordering order => cases order <;> simp [firstDifference, ComparisonResult.isSame, Items.Less]

mutual

/-- **Less-than chains**: where it is answered from one form to the next and from there to a third,
it is answered from the first to the third. -/
theorem Form.less_trans : ∀ {left middle right : Form}, left.Less middle → middle.Less right →
    left.Less right
  | .number left, middle, right, h, h' => by
    cases middle with
    | number middle =>
      cases right with
      | number right =>
        simp only [Form.Less, Form.compare, ComparisonMode.result, Option.some.injEq,
          ComparisonResult.ordering.injEq, compare_lt_iff_lt] at h h' ⊢
        exact h.trans h'
      | unit | list | dict | other => cases h'
    | unit | list | dict | other => cases h
  | .list left, middle, right, h, h' => by
    cases middle with
    | list middle =>
      cases right with
      | list right =>
        exact Items.less_trans (show left.Less middle from h) (show middle.Less right from h')
      | number | unit | dict | other => cases h'
    | number | unit | dict | other => cases h
  | .dict left, middle, right, h, h' => by
    cases middle with
    | dict middle =>
      cases right with
      | dict right =>
        exact Members.less_trans (show left.compareTuples .ordering middle = _ from h) h'
      | number | unit | list | other => cases h'
    | number | unit | list | other => cases h
  | .unit, middle, _, h, _ | .other, middle, _, h, _ => by cases middle <;> cases h

/-- The order of lists is transitive. -/
theorem Items.less_trans : ∀ {left middle right : Items}, left.Less middle → middle.Less right →
    left.Less right
  | .done, middle, right, h, h' => by
    cases right with
    | item => rfl
    | done | broken => cases middle <;> cases h'
  | .broken, middle, _, h, _ => by cases middle <;> cases h
  | .item left lefts, middle, right, h, h' => by
    cases middle with
    | done | broken => cases h
    | item middle middles =>
      cases right with
      | done | broken => cases h'
      | item right rights =>
        rw [Items.less_item] at h h' ⊢
        -- items that are the same are one form, so one stands for the other
        rcases h with hlt | ⟨heq, hrest⟩
        · rcases h' with hlt' | ⟨heq', -⟩
          · exact .inl (Form.less_trans hlt hlt')
          · rw [← Form.eq_of_same heq' rfl]
            exact .inl hlt
        · rw [Form.eq_of_same heq rfl]
          rcases h' with hlt' | ⟨heq', hrest'⟩
          · exact .inl hlt'
          · exact .inr ⟨heq', Items.less_trans hrest hrest'⟩

theorem Members.less_trans : ∀ {left middle right : Members},
    left.compareTuples .ordering middle = some (.ordering .lt) →
    middle.compareTuples .ordering right = some (.ordering .lt) →
    left.compareTuples .ordering right = some (.ordering .lt)
  | .entry key left .done, middle, right, h, h' => by
    obtain ⟨middle, rfl, rfl, h⟩ := Members.compareTuples_some h
    obtain ⟨right, -, rfl, h'⟩ := Members.compareTuples_some h'
    exact Form.less_trans_payloads h h'
  | .done, _, _, h, _ | .entry _ _ (.entry _ _ _), _, _, h, _ => by cases h

/-- The order of payloads is transitive. -/
theorem Form.less_trans_payloads : ∀ {left middle right : Form},
    left.comparePayloads .ordering middle = some (.ordering .lt) →
    middle.comparePayloads .ordering right = some (.ordering .lt) →
    left.comparePayloads .ordering right = some (.ordering .lt)
  | .list left, middle, right, h, h' => by
    cases middle with
    | list middle =>
      cases right with
      | list right =>
        exact Items.less_trans (show left.Less middle from h) (show middle.Less right from h')
      | number | unit | dict | other => cases h'
    | number | unit | dict | other => cases h
  | .number _, middle, _, h, _ | .unit, middle, _, h, _ | .dict _, middle, _, h, _
  | .other, middle, _, h, _ => by
    cases middle <;> cases h

end

/-! ### Equality where there is an order -/

mutual

/-- Where ordering answers, equality does, and finds the same exactly if ordering does. -/
theorem Form.equality_of_ordering : ∀ {left right : Form} {result : ComparisonResult},
    left.compare .ordering right = some result →
    left.compare .equality right = some (.equality result.isSame)
  | .number left, right, _, h => by
    cases right with
    | number right => rw [← Option.some.inj h]; rfl
    | unit | list | dict | other => cases h
  | .list left, right, _, h => by
    cases right with
    | list right => exact Items.equality_of_ordering (show left.compare .ordering right = _ from h)
    | number | unit | dict | other => cases h
  | .dict left, right, _, h => by
    cases right with
    | dict right =>
      exact Members.equality_of_ordering (show left.compareTuples .ordering right = _ from h)
    | number | unit | list | other => cases h
  | .unit, right, _, h | .other, right, _, h => by cases right <;> cases h

/-- Where lists are ordered, equality agrees with the order. -/
theorem Items.equality_of_ordering : ∀ {left right : Items} {result : ComparisonResult},
    left.compare .ordering right = some result →
    left.compare .equality right = some (.equality result.isSame)
  | .done, right, _, h => by
    cases right with
    | done | item => rw [← Option.some.inj h]; rfl
    | broken => cases h
  | .broken, right, _, h => by cases right <;> cases h
  | .item left lefts, right, _, h => by
    cases right with
    | done => rw [← Option.some.inj h]; rfl
    | broken => cases h
    | item right rights =>
      rw [Items.compare]
      rcases firstDifference_eq_some h with ⟨hfirst, hnot⟩ | ⟨⟨_, hfirst, hsame⟩, hrest⟩
      · rw [Form.equality_of_ordering hfirst, Bool.eq_false_of_not_eq_true hnot]
        rfl
      · rw [Form.equality_of_ordering hfirst, hsame, Items.equality_of_ordering hrest]
        rfl

theorem Members.equality_of_ordering : ∀ {left right : Members} {result : ComparisonResult},
    left.compareTuples .ordering right = some result →
    (Form.dict left).compare .equality (.dict right) = some (.equality result.isSame)
  | .entry key left .done, right, _, h => by
    obtain ⟨right, rfl, rfl, h⟩ := Members.compareTuples_some h
    rw [Form.equal_single, if_pos rfl, Form.equality_of_ordering_payloads h]
    cases hsame : ComparisonResult.isSame _ <;> rfl
  | .done, _, _, h | .entry _ _ (.entry _ _ _), _, _, h => by cases h

theorem Form.equality_of_ordering_payloads : ∀ {left right : Form} {result : ComparisonResult},
    left.comparePayloads .ordering right = some result →
    left.compare .equality right = some (.equality result.isSame)
  | .list left, right, _, h => by
    cases right with
    | list right => exact Items.equality_of_ordering (show left.compare .ordering right = _ from h)
    | number | unit | dict | other => cases h
  | .number _, right, _, h | .unit, right, _, h | .dict _, right, _, h | .other, right, _, h => by
    cases right <;> cases h

end

/-! ### Lexicographic order -/

/-- The items of `same`, and `rest` after them. -/
def Items.prepend (same : List Form) (rest : Items) : Items := same.foldr .item rest

/-- **Lexicographic order**: after items that are equal in order, the one list ends where the other
goes on, or its next item is less. -/
def Items.LessLexicographic (left right : Items) : Prop :=
  ∃ same : List Form, (∀ item ∈ same, item.compare .ordering item = some (.ordering .eq)) ∧
    ((∃ next rest, left = prepend same .done ∧ right = prepend same (.item next rest)) ∨
      ∃ next next' rest rest', left = prepend same (.item next rest) ∧
        right = prepend same (.item next' rest') ∧ next.Less next')

/-- The order of lists is lexicographic. -/
theorem Items.lexicographic_of_less : ∀ {left right : Items}, left.Less right →
    left.LessLexicographic right
  | .done, right, h => by
    cases right with
    | done | broken => cases h
    | item next rest => exact ⟨[], by simp, .inl ⟨next, rest, rfl, rfl⟩⟩
  | .broken, right, h => by cases right <;> cases h
  | .item left lefts, right, h => by
    cases right with
    | done | broken => cases h
    | item right rights =>
      rcases Items.less_item.mp h with hlt | ⟨heq, hrest⟩
      · exact ⟨[], by simp, .inr ⟨left, right, lefts, rights, rfl, rfl, hlt⟩⟩
      · obtain rfl := Form.eq_of_same heq rfl
        obtain ⟨same, hsame, hends⟩ := Items.lexicographic_of_less hrest
        refine ⟨left :: same, List.forall_mem_cons.mpr ⟨heq, hsame⟩, ?_⟩
        rcases hends with ⟨next, rest, rfl, rfl⟩ | ⟨next, next', rest, rest', rfl, rfl, hlt⟩
        · exact .inl ⟨next, rest, rfl, rfl⟩
        · exact .inr ⟨next, next', rest, rest', rfl, rfl, hlt⟩

/-- Items that are equal in order can be put before both lists. -/
theorem Items.less_prepend {left right : Items} (h : left.Less right) {same : List Form}
    (hsame : ∀ item ∈ same, item.compare .ordering item = some (.ordering .eq)) :
    (prepend same left).Less (prepend same right) := by
  induction same with
  | nil => exact h
  | cons item same ih =>
    obtain ⟨hitem, hrest⟩ := List.forall_mem_cons.mp hsame
    exact Items.less_item.mpr (.inr ⟨hitem, ih hrest⟩)

theorem Items.less_iff {left right : Items} : left.Less right ↔ left.LessLexicographic right := by
  constructor
  · exact Items.lexicographic_of_less
  · rintro ⟨same, hsame, ⟨next, rest, rfl, rfl⟩ | ⟨next, next', rest, rest', rfl, rfl, hlt⟩⟩
    · exact Items.less_prepend (show Items.Less .done (.item next rest) from rfl) hsame
    · exact Items.less_prepend (Items.less_item.mpr (.inl hlt)) hsame

/-! ### The laws -/

/-- `left < right` succeeds. -/
def Less (left right : Value) : Prop := Compares .less left right true

/-- `left < right` ends without an error. -/
def Ordered (left right : Value) : Prop := ∃ answer, Compares .less left right answer

section Answers

variable {u v w : Value}

theorem less_iff : Less v w ↔ v.form.Less w.form := by
  rw [Less, compares_iff, Form.Less, ComparisonBuiltin.mode]
  constructor
  · rintro ⟨result, hresult, hfinish⟩
    cases result with
    | equality => cases hfinish
    | ordering order => simpa [ComparisonBuiltin.finish, hresult] using hfinish
  · exact fun h => ⟨_, h, rfl⟩

theorem equal_iff : Equal v w ↔ v.form.compare .equality w.form = some (.equality true) := by
  rw [Equal, compares_iff, ComparisonBuiltin.mode]
  constructor
  · rintro ⟨result, hresult, hfinish⟩
    cases result with
    | ordering => cases hfinish
    | equality same => simpa [ComparisonBuiltin.finish, hresult] using hfinish
  · exact fun h => ⟨_, h, rfl⟩

theorem ordered_iff : Ordered v w ↔ ∃ order, v.form.compare .ordering w.form =
    some (.ordering order) := by
  simp only [Ordered, compares_iff, ComparisonBuiltin.mode]
  constructor
  · rintro ⟨_, result, hresult, hfinish⟩
    cases result with
    | equality => cases hfinish
    | ordering order => exact ⟨order, hresult⟩
  · rintro ⟨order, horder⟩
    exact ⟨_, _, horder, rfl⟩

theorem form_eq_of_equal (h : Equal v w) : v.form = w.form :=
  Form.eq_of_same (equal_iff.mp h) rfl

theorem Equal.symm (h : Equal v w) : Equal w v := by
  rw [equal_iff] at h ⊢
  rw [Form.compare_swap, h]
  rfl

theorem Equal.trans (h : Equal u v) (h' : Equal v w) : Equal u w := by
  rw [equal_iff, form_eq_of_equal h]
  exact equal_iff.mp h'

/-- Where order answers, the three relations are read from the one answer. -/
theorem less_equal_greater (h : Ordered v w) :
    (Less v w ∧ ¬Equal v w ∧ ¬Less w v) ∨ (¬Less v w ∧ Equal v w ∧ ¬Less w v) ∨
      (¬Less v w ∧ ¬Equal v w ∧ Less w v) := by
  obtain ⟨order, horder⟩ := ordered_iff.mp h
  have hequality := Form.equality_of_ordering horder
  have hswap : w.form.compare .ordering v.form = some (.ordering order.swap) := by
    rw [Form.compare_swap, horder]
    rfl
  simp only [less_iff, equal_iff, Form.Less, horder, hequality, hswap]
  cases order <;> simp [ComparisonResult.isSame]

end Answers

/-- What comparison keeps to. `refl` is about the values that compare in full; the other laws are
about all values, wherever there is an answer. -/
structure ComparisonLaws : Prop where
  refl : ∀ v : KeyableValue, Equal v.value v.value
  symm : ∀ v w : Value, Equal v w → Equal w v
  trans : ∀ u v w : Value, Equal u v → Equal v w → Equal u w
  trichotomy : ∀ v w : Value, Ordered v w →
    (Less v w ∧ ¬Equal v w ∧ ¬Less w v) ∨ (¬Less v w ∧ Equal v w ∧ ¬Less w v) ∨
      (¬Less v w ∧ ¬Equal v w ∧ Less w v)
  less_trans : ∀ u v w : Value, Less u v → Less v w → Less u w
  /-- lists and texts -/
  lists : ∀ (v w : Value) (ls rs : Items), v.form = .list ls → w.form = .list rs →
    (Less v w ↔ ls.LessLexicographic rs)
  tuples : ∀ (v w : Value) (ls rs : Items), v.form = .dict (.entry .tuple (.list ls) .done) →
    w.form = .dict (.entry .tuple (.list rs) .done) → (Less v w ↔ ls.LessLexicographic rs)
  /-- no answer depends on more than the items of a list in their order -/
  splitting : ∀ (list list' : Rope) (w : Value), list.allItems = list'.allItems →
    ∀ builtin answer, (Compares builtin (.list list) w answer ↔
      Compares builtin (.list list') w answer) ∧
      (Compares builtin w (.list list) answer ↔ Compares builtin w (.list list') answer)
  /-- nor on whether bytes are a text or a list of numbers -/
  texts : ∀ (bytes : List UInt8) (list : Rope) (w : Value),
    list.allItems = valuesItems (bytes.map fun byte => .number byte.toNat) .done →
    ∀ builtin answer, (Compares builtin (.binary bytes) w answer ↔
      Compares builtin (.list list) w answer) ∧
      (Compares builtin w (.binary bytes) answer ↔ Compares builtin w (.list list) answer)
  /-- the same anywhere inside the values: equal values compare alike with all others -/
  representation : ∀ v v' w w' : Value, v.form = v'.form → w.form = w'.form →
    ∀ builtin answer, Compares builtin v w answer ↔ Compares builtin v' w' answer
  /-- the result, failures among them, is one however the work is sliced by budgets, also by such
  as run out inside a demand -/
  slices : ∀ (builtin : ComparisonBuiltin) (v w : Value),
    ∃ result, AnySlices (ComparisonMachine.pollIn builtin) (.new builtin v w) result

theorem compares_congr {v v' w w' : Value} (hv : v.form = v'.form) (hw : w.form = w'.form)
    (builtin : ComparisonBuiltin) (answer : Bool) :
    Compares builtin v w answer ↔ Compares builtin v' w' answer := by
  rw [compares_iff, compares_iff, hv, hw]

theorem byteItems_eq_valuesItems (bytes : List UInt8) (rest : Items) :
    byteItems bytes rest = valuesItems (bytes.map fun byte => .number byte.toNat) rest := by
  induction bytes with
  | nil => rw [List.map_nil, valuesItems]; rfl
  | cons byte bytes ih => rw [List.map_cons, valuesItems, ← ih, Value.form]; rfl

end Glam.Eval
