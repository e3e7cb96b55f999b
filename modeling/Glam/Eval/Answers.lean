import Glam.Eval.Comparison
import Mathlib.Data.List.Sort

/-!
# What comparison comes to

A list is compared up to its first difference, so an answer needs nothing of what comes after it.
`Form.compare` says what the comparison machine comes to on any two values, as a function of their
forms (`comparison_leads`): with a result, or with an error where there is none. The proof goes by the
height of the left form.
-/

namespace Glam.Eval

/-! ### Results by forms -/

/-- The result for values of two kinds. -/
def ComparisonMode.unlike : ComparisonMode → Option ComparisonResult
  | .equality => some (.equality false)
  | .ordering => none

/-- The result of the first parts that are not the same, or of what comes after. -/
def firstDifference (first rest : Option ComparisonResult) : Option ComparisonResult :=
  match first with
  | some result => if result.isSame then rest else some result
  | none => none

/-- The keys of a dictionary's members. -/
def Members.keys : Members → List Key
  | .done => []
  | .entry key _ rest => key :: rest.keys

mutual

/-- **What comparing two values comes to**, by their forms; nothing where it is an error. -/
def Form.compare (mode : ComparisonMode) : Form → Form → Option ComparisonResult
  | .number left, .number right => some (mode.result (Ord.compare left right))
  | .list left, .list right => left.compare mode right
  | .dict left, .dict right =>
    match mode with
    -- where the keys differ, the members are not looked at
    | .equality => if left.keys = right.keys then left.compareMembers mode right else mode.unlike
    | .ordering => left.compareTuples mode right
  | .unit, .unit => mode.unlike.map fun _ => mode.result .eq
  | .other, _ => none
  | _, .other => none
  | _, _ => mode.unlike
termination_by structural left => left

/-- The comparison of two lists: their first difference decides, and then the lengths. -/
def Items.compare (mode : ComparisonMode) : Items → Items → Option ComparisonResult
  | .item left lefts, .item right rights =>
    firstDifference (left.compare mode right) (lefts.compare mode rights)
  | .done, .done => some (mode.result .eq)
  | .done, .item _ _ => some (mode.result .lt)
  | .item _ _, .done => some (mode.result .gt)
  | .broken, _ => none
  | _, .broken => none
termination_by structural left => left

/-- The comparison of the members of two dictionaries with the same keys. -/
def Members.compareMembers (mode : ComparisonMode) : Members → Members → Option ComparisonResult
  | .entry _ left lefts, .entry _ right rights =>
    firstDifference (left.compare mode right) (lefts.compareMembers mode rights)
  | _, _ => some (mode.result .eq)
termination_by structural left => left

/-- The comparison of two dictionaries as tuples, which is none where one is no tuple. -/
def Members.compareTuples (mode : ComparisonMode) : Members → Members → Option ComparisonResult
  | .entry key left .done, .entry key' right .done =>
    if key = .tuple ∧ key' = .tuple then left.comparePayloads mode right else none
  | _, _ => none
termination_by structural left => left

/-- The comparison of two payloads, which have to be lists. -/
def Form.comparePayloads (mode : ComparisonMode) : Form → Form → Option ComparisonResult
  | .list left, .list right => left.compare mode right
  | _, _ => none
termination_by structural left => left

end

/-! #### Results have the mode -/

/-- What was asked for. -/
def ComparisonResult.mode : ComparisonResult → ComparisonMode
  | .equality _ => .equality
  | .ordering _ => .ordering

section Mode

variable {mode : ComparisonMode} {result : ComparisonResult}

theorem ComparisonMode.mode_result (mode : ComparisonMode) (order : Ordering) :
    (mode.result order).mode = mode := by
  cases mode <;> rfl

theorem ComparisonMode.mode_unlike (h : mode.unlike = some result) : result.mode = mode := by
  cases mode with
  | equality => rw [← Option.some.inj h, ComparisonResult.mode]
  | ordering => cases h

theorem firstDifference_eq_some {first rest : Option ComparisonResult}
    (h : firstDifference first rest = some result) :
    first = some result ∧ ¬result.isSame ∨
      (∃ same, first = some same ∧ same.isSame) ∧ rest = some result := by
  cases first with
  | none => cases h
  | some same =>
    rw [firstDifference] at h
    split at h
    next hsame => exact .inr ⟨⟨same, rfl, hsame⟩, h⟩
    next hsame => exact .inl ⟨h, Option.some.inj h ▸ hsame⟩

theorem Form.compare_dict_cases {left right : Members}
    (h : (Form.dict left).compare mode (.dict right) = some result) :
    left.compareMembers mode right = some result ∨ mode.unlike = some result ∨
      left.compareTuples mode right = some result := by
  cases mode with
  | equality =>
    simp only [compare] at h
    split at h
    · exact .inl h
    · exact .inr (.inl h)
  | ordering => exact .inr (.inr h)

mutual

/-- A comparison answers what it was asked. -/
theorem Form.mode_compare : ∀ {left right : Form} {result : ComparisonResult},
    left.compare mode right = some result → result.mode = mode
  | .number _, right, _, h => by
    cases right with
    | number => rw [← Option.some.inj h, mode.mode_result]
    | other => cases h
    | unit | list | dict => exact mode.mode_unlike h
  | .list left, right, _, h => by
    cases right with
    | list => exact Items.mode_compare h
    | other => cases h
    | number | unit | dict => exact mode.mode_unlike h
  | .dict left, right, _, h => by
    cases right with
    | dict right =>
      rcases Form.compare_dict_cases h with h | h | h
      · exact Members.mode_compareMembers h
      · exact mode.mode_unlike h
      · exact Members.mode_compareTuples h
    | other => cases h
    | number | unit | list => exact mode.mode_unlike h
  | .unit, right, _, h => by
    cases right with
    | unit =>
      obtain ⟨_, _, rfl⟩ := Option.map_eq_some_iff.mp h
      exact mode.mode_result _
    | other => cases h
    | number | list | dict => exact mode.mode_unlike h

/-- The same for lists. -/
theorem Items.mode_compare : ∀ {left right : Items} {result : ComparisonResult},
    left.compare mode right = some result → result.mode = mode
  | .item left lefts, right, _, h => by
    cases right with
    | item =>
      rcases firstDifference_eq_some h with ⟨h, -⟩ | ⟨-, h⟩
      · exact Form.mode_compare h
      · exact Items.mode_compare h
    | done => rw [← Option.some.inj h, mode.mode_result]
    | broken => cases h
  | .done, right, _, h => by
    cases right with
    | done | item => rw [← Option.some.inj h, mode.mode_result]
    | broken => cases h

theorem Members.mode_compareMembers : ∀ {left right : Members} {result : ComparisonResult},
    left.compareMembers mode right = some result → result.mode = mode
  | .entry _ left lefts, right, _, h => by
    cases right with
    | entry =>
      rcases firstDifference_eq_some h with ⟨h, -⟩ | ⟨-, h⟩
      · exact Form.mode_compare h
      · exact Members.mode_compareMembers h
    | done => rw [← Option.some.inj h, mode.mode_result]
  | .done, right, _, h => by
    cases right <;> rw [← Option.some.inj h, mode.mode_result]

theorem Members.mode_compareTuples : ∀ {left right : Members} {result : ComparisonResult},
    left.compareTuples mode right = some result → result.mode = mode
  | .entry _ left .done, .entry _ right .done, _, h => by
    simp only [Members.compareTuples] at h
    split at h
    · exact Form.mode_comparePayloads h
    · cases h

theorem Form.mode_comparePayloads : ∀ {left right : Form} {result : ComparisonResult},
    left.comparePayloads mode right = some result → result.mode = mode
  | .list left, .list right, _, h => 
    Items.mode_compare (show left.compare mode right = some _ from h)

end

end Mode

/-! #### Heights -/

mutual

/-- How deep comparison goes into a form. -/
def Form.height : Form → Nat
  | .number _ | .unit | .other => 0
  | .list items => items.height + 1
  | .dict entries => entries.height + 1

/-- How deep the items of a list are nested. -/
def Items.height : Items → Nat
  | .done | .broken => 0
  | .item first rest => max first.height rest.height

/-- How deep the members of a dictionary are nested. -/
def Members.height : Members → Nat
  | .done => 0
  | .entry _ member rest => max member.height rest.height

end

/-- The number of items before the end, or before what is broken. -/
def Items.length : Items → Nat
  | .done | .broken => 0
  | .item _ rest => rest.length + 1

/-! ### The machine comes to it -/

/-- What a list front has ready on a list of keys. -/
def FrontFor : Option (Value × Rope) → List Key → Prop
  | none, keys => keys = []
  | some (item, tail), keys => ∃ key rest, keys = key :: rest ∧ item.key? = some key ∧
      tail.keys? = some rest

/-- What a list front has ready on a list. -/
structure FrontOf (list : Rope) (item : Option (Value × Rope)) : Prop where
  items : list.allItems = item.elim .done fun item => .item item.1.form item.2.allItems
  keys : ∀ keys, list.keys? = some keys → FrontFor item keys

section Front

variable {M R : Type} {poll : M → M ⊕ R} (wrap : ListFront → M)
  (hagain : ∀ front next, front.poll = .again next → poll (wrap front) = .inl (wrap next))

include hagain

/-- A list front that a machine polls gets ready, or fails at a lazy chunk that is no list. `wrap` is
the machine while it polls the front. -/
theorem front_cases (list : Rope) :
    (∃ front item, front.poll = .ready item ∧ FrontOf list item ∧
      Leads poll (wrap (.new list)) (poll (wrap front))) ∨
    ∃ front failure, front.poll = .failed failure ∧ list.allItems = .broken ∧
      Leads poll (wrap (.new list)) (poll (wrap front)) := by
  -- each lazy chunk in front is forced once
  induction hthunks : list.thunks using Nat.strong_induction_on generalizing list with
  | _ thunks ih =>
  subst hthunks
  have hspec := list.popFrontStep_items
  cases hstep : list.popFrontStep with
  | empty =>
    rw [hstep] at hspec
    refine .inl ⟨.new list, none, by simp only [ListFront.poll, ListFront.new, hstep],
      ⟨hspec, fun keys hkeys => ?_⟩, .poll _⟩
    have := Rope.popFrontStep_spec hkeys
    rwa [hstep] at this
  | item first tail =>
    rw [hstep] at hspec
    refine .inl ⟨.new list, some (first.toValue, tail),
      by simp only [ListFront.poll, ListFront.new, hstep], ⟨hspec, fun keys hkeys => ?_⟩, .poll _⟩
    have hkeyed := Rope.popFrontStep_spec hkeys
    rw [hstep] at hkeyed
    obtain ⟨key, rest, rfl, hkey, hrest, -⟩ := hkeyed
    exact ⟨key, rest, rfl, hkey, hrest⟩
  | deferred chunk suffix =>
    rw [hstep] at hspec
    obtain ⟨hitems, hless⟩ := hspec
    have hdefer : poll (wrap (.new list)) = .inl (wrap ⟨list, some (chunk, suffix)⟩) :=
      hagain _ _ (by simp only [ListFront.poll, ListFront.new, hstep])
    rcases chunk.chunkItems_cases with ⟨chunkList, hchunk, hsame, hchunkItems⟩ |
      ⟨failure, hchunk, hbroken⟩
    · have hforce : poll (wrap ⟨list, some (chunk, suffix)⟩) =
          .inl (wrap (.new (.concatenate chunkList suffix))) :=
        hagain _ _ (by simp only [ListFront.poll, hchunk, ListFront.new])
      have hforced : (Rope.concatenate chunkList suffix).allItems = list.allItems := by
        rw [Rope.allItems_concatenate, hitems, hchunkItems]
      have hkeyed : ∀ keys, list.keys? = some keys →
          (Rope.concatenate chunkList suffix).keys? = some keys := by
        intro keys hkeys
        have hkeyed := Rope.popFrontStep_spec hkeys
        rw [hstep] at hkeyed
        obtain ⟨cs, ss, rfl, hcs, hss, -⟩ := hkeyed
        obtain ⟨_, hchunk', hcs', -⟩ := valueAsList_chunk hcs
        rw [hchunk, Except.ok.injEq] at hchunk'
        exact Rope.keys?_concatenate (hchunk' ▸ hcs') hss
      rcases ih _ (by rw [Rope.thunks_concatenate]; omega) (.concatenate chunkList suffix) rfl with
        ⟨front, item, hfront, hitem, hleads⟩ | ⟨front, failure, hfront, hitem, hleads⟩
      · exact .inl ⟨front, item, hfront,
          ⟨hforced ▸ hitem.items, fun keys hkeys => hitem.keys keys (hkeyed keys hkeys)⟩,
          .later hdefer (.later hforce hleads)⟩
      · exact .inr ⟨front, failure, hfront, hforced ▸ hitem,
          .later hdefer (.later hforce hleads)⟩
    · exact .inr ⟨⟨list, some (chunk, suffix)⟩, .lazyListChunk chunk.whnf,
        by simp only [ListFront.poll, hchunk], by rw [hitems, hbroken], .later hdefer (.poll _)⟩

/-- A front over keyable items gets ready. -/
theorem front_leads (ready : ListFront → Option (Value × Rope) → M ⊕ R)
    (hready : ∀ front item, front.poll = .ready item → poll (wrap front) = ready front item)
    (list : Rope) (keys : List Key) (hlist : list.keys? = some keys) :
    ∃ front item, FrontFor item keys ∧ Leads poll (wrap (.new list)) (ready front item) := by
  rcases front_cases wrap hagain list with ⟨front, item, hfront, hitem, hleads⟩ | ⟨_, _, _, hbroken, _⟩
  · exact ⟨front, item, hitem.keys keys hlist, hready front item hfront ▸ hleads⟩
  · have hkeys := Rope.keys?_items hlist (show Items.done.keys? = some [] from rfl)
    rw [show list.items .done = .broken from hbroken] at hkeys
    cases hkeys

end Front

section Answers

variable {builtin : ComparisonBuiltin} {mode : ComparisonMode} {machine next : ComparisonMachine}
  {frame : ComparisonFrame} {frames : List ComparisonFrame} {result : ComparisonResult}
  {answer : Option ComparisonResult} {left right : List (Key × Value)}

/-- The machine gets to the frames below with a result for the frame on top, or ends with it where
there are none. Without a result it ends with an error. -/
def Answers (builtin : ComparisonBuiltin) (machine : ComparisonMachine)
    (frames : List ComparisonFrame) : Option ComparisonResult → Prop
  | none => ∃ failure, Leads (ComparisonMachine.poll builtin) machine (.inr (.error failure))
  | some result => Leads (ComparisonMachine.poll builtin) machine
      (if frames.isEmpty then .inr (builtin.finish result) else .inl ⟨frames, some result⟩)

theorem Answers.trans (h : Leads (ComparisonMachine.poll builtin) machine (.inl next))
    (hnext : Answers builtin next frames answer) : Answers builtin machine frames answer := by
  cases answer with
  | none =>
    obtain ⟨failure, hfailure⟩ := hnext
    exact ⟨failure, h.trans hfailure⟩
  | some => exact Leads.trans h hnext

theorem Answers.later (h : machine.poll builtin = .inl next)
    (hnext : Answers builtin next frames answer) : Answers builtin machine frames answer :=
  .trans (.of_eq h) hnext

theorem Answers.of_complete (h : frame.poll builtin.name = .complete result) :
    Answers builtin ⟨frame :: frames, none⟩ frames (some result) :=
  .of_eq (by simp only [ComparisonMachine.poll, h])

theorem Answers.of_failed {failure : ComparisonFailure}
    (h : frame.poll builtin.name = .failed failure) :
    Answers builtin ⟨frame :: frames, none⟩ frames none :=
  ⟨failure, .of_eq (by simp only [ComparisonMachine.poll, h])⟩

theorem Answers.of_replace {frame' : ComparisonFrame}
    (h : frame.poll builtin.name = .replace frame')
    (hframe : Answers builtin ⟨frame' :: frames, none⟩ frames answer) :
    Answers builtin ⟨frame :: frames, none⟩ frames answer :=
  .later (by simp only [ComparisonMachine.poll, h]) hframe

/-- A frame that is done with its child's result passes it on. -/
theorem Answers.passed (h : Answers builtin machine (frame :: frames) (some result))
    (hchild : frame.acceptChild result = .ok none) :
    Answers builtin machine frames (some result) := by
  have hpop : ComparisonMachine.poll builtin ⟨frame :: frames, some result⟩ =
      .inl ⟨frames, some result⟩ := by
    simp only [ComparisonMachine.poll, hchild]
  refine .trans h ?_
  cases frames with
  | nil => exact .later hpop (.of_eq rfl)
  | cons => exact .of_eq hpop

theorem Answers.tuple {tuple : TupleOrderingFrame} (hphase : tuple.phase = .comparing)
    (h : Answers builtin machine (.tuple tuple :: frames) answer) :
    Answers builtin machine frames answer := by
  cases answer with
  | none => exact h
  | some => exact h.passed (by simp only [ComparisonFrame.acceptChild, hphase])

/-- A child that settles a part: the frame goes on where it was the same and answers for it where it
was not. -/
theorem Answers.child {parent : ComparisonFrame} {child rest : Option ComparisonResult}
    (h : Answers builtin machine (frame :: frames) child)
    (hsame : ∀ result, child = some result → result.isSame →
      frame.acceptChild result = .ok (some parent))
    (hother : ∀ result, child = some result → ¬result.isSame → frame.acceptChild result = .ok none)
    (hparent : Answers builtin ⟨parent :: frames, none⟩ frames rest) :
    Answers builtin machine frames (firstDifference child rest) := by
  cases child with
  | none => exact h
  | some result =>
    rw [firstDifference]
    split
    next hresult =>
      exact .trans h (.later (by simp only [ComparisonMachine.poll, hsame result rfl hresult])
        hparent)
    next hresult => exact h.passed (hother result rfl hresult)

/-- Comparison comes to what the forms say where the left one is lower than `bound`. -/
def AnswersBelow (builtin : ComparisonBuiltin) (mode : ComparisonMode) (bound : Nat) : Prop :=
  ∀ (left right : Value) (frames : List ComparisonFrame), left.form.height < bound →
    Answers builtin ⟨.value (.new mode left right) :: frames, none⟩ frames
      (left.form.compare mode right.form)

variable {bound : Nat}

/-! #### Lists -/

/-- Both fronts get ready, or one of them fails. -/
theorem fronts_lead (left right : Rope) :
    (∃ leftFront rightFront leftItem rightItem, FrontOf left leftItem ∧ FrontOf right rightItem ∧
      Leads (ComparisonMachine.poll builtin) ⟨.list (.new mode left right) :: frames, none⟩
        (.inl ⟨.list ⟨mode, leftFront, rightFront, some leftItem, some rightItem, false⟩ :: frames,
          none⟩)) ∨
    (left.allItems = .broken ∨ right.allItems = .broken) ∧
      Answers builtin ⟨.list (.new mode left right) :: frames, none⟩ frames none := by
  rcases @front_cases _ _ (ComparisonMachine.poll builtin)
    (fun front => ⟨.list ⟨mode, front, .new right, none, none, false⟩ :: frames, none⟩)
    (fun front next h => by
      simp [ComparisonMachine.poll, ComparisonFrame.poll, ListComparisonFrame.poll, h]) left with
    ⟨leftFront, leftItem, hleft, hleftItem, hleads⟩ | ⟨leftFront, failure, hleft, hbroken, hleads⟩
  · have hready : ComparisonMachine.poll builtin
        ⟨.list ⟨mode, leftFront, .new right, none, none, false⟩ :: frames, none⟩ =
        .inl ⟨.list ⟨mode, leftFront, .new right, some leftItem, none, false⟩ :: frames, none⟩ := by
      simp [ComparisonMachine.poll, ComparisonFrame.poll, ListComparisonFrame.poll, hleft]
    rw [hready] at hleads
    rcases @front_cases _ _ (ComparisonMachine.poll builtin)
      (fun front => ⟨.list ⟨mode, leftFront, front, some leftItem, none, false⟩ :: frames, none⟩)
      (fun front next h => by
        simp [ComparisonMachine.poll, ComparisonFrame.poll, ListComparisonFrame.poll, h]) right with
      ⟨rightFront, rightItem, hright, hrightItem, hleads'⟩ |
      ⟨rightFront, failure, hright, hbroken, hleads'⟩
    · refine .inl ⟨leftFront, rightFront, leftItem, rightItem, hleftItem, hrightItem, ?_⟩
      refine hleads.trans ?_
      simpa [ComparisonMachine.poll, ComparisonFrame.poll, ListComparisonFrame.poll, hright]
        using hleads'
    · refine .inr ⟨.inr hbroken, failure, hleads.trans ?_⟩
      simpa [ComparisonMachine.poll, ComparisonFrame.poll, ListComparisonFrame.poll, hright]
        using hleads'
  · refine .inr ⟨.inl hbroken, failure, ?_⟩
    simpa [ComparisonMachine.poll, ComparisonFrame.poll, ListComparisonFrame.poll, hleft,
      ListComparisonFrame.new] using hleads

theorem Items.compare_broken (items : Items) : items.compare mode .broken = none := by
  cases items <;> simp [compare]

/-- The machine compares lists as `Items.compare` does, if it compares smaller values so. -/
theorem list_answers (below : AnswersBelow builtin mode bound) (left right : Rope)
    (hbound : left.allItems.height < bound) :
    Answers builtin ⟨.list (.new mode left right) :: frames, none⟩ frames
      (left.allItems.compare mode right.allItems) := by
  -- on the number of items of the left list
  induction hlength : left.allItems.length using Nat.strong_induction_on generalizing left right with
  | _ length ih =>
  subst hlength
  rcases @fronts_lead builtin mode frames left right with
    ⟨leftFront, rightFront, leftItem, rightItem, hleft, hright, hleads⟩ | ⟨hbroken, hfails⟩
  swap
  · rcases hbroken with h | h
    · rw [h, Items.compare]
      exact hfails
    · rw [h, Items.compare_broken]
      exact hfails
  refine .trans hleads ?_
  replace hleft := hleft.items
  rw [hleft] at hbound ih ⊢
  rw [hright.items]
  obtain _ | ⟨item, tail⟩ := leftItem <;> obtain _ | ⟨item', tail'⟩ := rightItem
  case none.none | none.some | some.none =>
    simp only [Option.elim_none, Option.elim_some, Items.compare]
    exact .of_complete rfl
  case some.some =>
    -- the items are compared by a child, and the tails only if it finds them the same
    simp only [Option.elim_some, Items.height, max_lt_iff, Items.length] at hbound ih
    simp only [Option.elim_some, Items.compare]
    refine .later rfl ((below item item' _ hbound.1).child ?_ ?_
      (ih _ (Nat.lt_succ_self _) tail tail' hbound.2 rfl))
    · intro result _ hsame
      simp [ComparisonFrame.acceptChild, hsame, ListComparisonFrame.new]
    · intro result _ hsame
      simp [ComparisonFrame.acceptChild, hsame]

/-! #### Dictionaries -/

/-- The members that face each other. -/
def facing (left right : List (Key × Value)) : List (Value × Value) :=
  List.zipWith (fun entry entry' => (entry.2, entry'.2)) left right

theorem entriesForm_keys (entries : List (Key × Value)) :
    (entriesForm entries).keys = entries.map Prod.fst := by
  induction entries with
  | nil => rfl
  | cons entry entries ih =>
    rw [List.map_cons, ← ih]
    rfl

/-- The machine compares members from any index on. -/
theorem members_answer (below : AnswersBelow builtin .equality bound)
    (done : List (Value × Value)) (hkeys : left.map Prod.fst = right.map Prod.fst)
    (hbound : (entriesForm left).height < bound) :
    Answers builtin ⟨.dict ⟨done ++ facing left right, false, done.length, false⟩ :: frames, none⟩
      frames ((entriesForm left).compareMembers .equality (entriesForm right)) := by
  induction left generalizing right done with
  | nil =>
    obtain rfl : right = [] := by simpa using hkeys.symm
    simp only [entriesForm, List.foldr_nil, Members.compareMembers]
    exact .of_complete (by
      simp [ComparisonFrame.poll, DictEqualityFrame.poll, facing, ComparisonMode.result])
  | cons entry left ih =>
    cases right with
    | nil => simp at hkeys
    | cons entry' right =>
      simp only [List.map_cons, List.cons.injEq] at hkeys
      obtain ⟨hmember, hrest⟩ : entry.2.form.height < bound ∧ (entriesForm left).height < bound := by
        simpa [entriesForm, Members.height] using hbound
      have hnext := ih (done ++ [(entry.2, entry'.2)]) hkeys.2 hrest
      simp only [List.append_assoc, List.singleton_append, List.length_append,
        List.length_singleton] at hnext
      -- a poll pushes the comparison of the next two members
      have hpush : ComparisonMachine.poll builtin
          ⟨.dict ⟨done ++ facing (entry :: left) (entry' :: right), false, done.length, false⟩ ::
            frames, none⟩ =
          .inl ⟨.value (.new .equality entry.2 entry'.2) ::
            .dict ⟨done ++ (entry.2, entry'.2) :: facing left right, false, done.length + 1, true⟩ ::
            frames, none⟩ := by
        simp [ComparisonMachine.poll, ComparisonFrame.poll, DictEqualityFrame.poll, facing]
      refine .later hpush ((below entry.2 entry'.2 _ hmember).child ?_ ?_ hnext)
      · intro result hresult hsame
        cases result with
        | equality same =>
          obtain rfl : same = true := hsame
          rfl
        | ordering => cases Form.mode_compare hresult
      · intro result hresult hsame
        cases result with
        | equality same =>
          obtain rfl : same = false := Bool.eq_false_of_not_eq_true hsame
          rfl
        | ordering => cases Form.mode_compare hresult

theorem isSome_lookup_iff {entries : List (Key × Value)} {key : Key} :
    (entries.lookup key).isSome ↔ key ∈ entries.map Prod.fst := by
  rw [List.lookup_isSome_iff, List.mem_map]
  exact exists_congr fun entry => and_congr_right fun _ => beq_iff_eq.trans eq_comm

/-- Members found by key face each other where the keys are the same. -/
theorem filterMap_lookup_eq_facing (hkeys : left.map Prod.fst = right.map Prod.fst)
    (hnodup : (left.map Prod.fst).Nodup) :
    (left.filterMap fun entry => (right.lookup entry.1).map fun member => (entry.2, member)) =
      facing left right := by
  induction left generalizing right with
  | nil => rfl
  | cons entry left ih =>
    cases right with
    | nil => simp at hkeys
    | cons entry' right =>
      obtain ⟨key, member⟩ := entry
      obtain ⟨key', member'⟩ := entry'
      simp only [List.map_cons, List.cons.injEq] at hkeys
      obtain ⟨rfl, hkeys⟩ := hkeys
      obtain ⟨hkey, hnodup⟩ := List.nodup_cons.mp hnodup
      -- the other keys differ from the first one, so their lookups pass it by
      have hpass : ∀ other ∈ left, ((key, member') :: right).lookup other.1 =
          right.lookup other.1 := by
        intro other hother
        have hne : other.1 ≠ key := fun h => hkey (List.mem_map.mpr ⟨other, hother, h⟩)
        rw [List.lookup_cons, beq_eq_false_iff_ne.mpr hne]
      rw [List.filterMap_cons, facing, List.zipWith_cons_cons, ← facing, ← ih hkeys hnodup]
      have hfirst : ((key, member') :: right).lookup key = some member' := by
        rw [List.lookup_cons, beq_self_eq_true]
      simp only [hfirst, Option.map_some]
      exact congrArg _ (List.filterMap_congr fun other hother => by rw [hpass other hother])

theorem nodup_of_ordered {keys : List Key}
    (hkeys : keys.Pairwise fun left right => left.compare right = .lt) : keys.Nodup :=
  hkeys.imp fun {left right} h heq => by
    subst heq
    exact Key.not_compare_lt_of_compare_lt h h

/-- Two ordered lists of the same length are one if each key of the one is in the other. -/
theorem eq_of_ordered_of_subset {keys keys' : List Key}
    (hkeys : keys.Pairwise fun left right => left.compare right = .lt)
    (hkeys' : keys'.Pairwise fun left right => left.compare right = .lt)
    (hlength : keys.length = keys'.length) (hsubset : keys ⊆ keys') : keys = keys' := by
  have hperm : keys.Perm keys' :=
    (List.subperm_of_subset (nodup_of_ordered hkeys) hsubset).perm_of_length_le hlength.ge
  exact hperm.eq_of_pairwise
    (fun a b _ _ h h' => absurd h' (Key.not_compare_lt_of_compare_lt h)) hkeys hkeys'

/-- The machine compares dictionaries as `Form.compare` does. -/
theorem dict_answers (below : AnswersBelow builtin .equality bound)
    (hordered : (left.map Prod.fst).Pairwise fun left right => left.compare right = .lt)
    (hordered' : (right.map Prod.fst).Pairwise fun left right => left.compare right = .lt)
    (hbound : (entriesForm left).height < bound) :
    Answers builtin ⟨.dict (.new left right) :: frames, none⟩ frames
      ((Form.dict (entriesForm left)).compare .equality (.dict (entriesForm right))) := by
  simp only [Form.compare, entriesForm_keys]
  split
  next hkeys =>
    have hlength : left.length = right.length := by simpa using congrArg List.length hkeys
    have hall : ∀ entry ∈ left, (right.lookup entry.1).isSome := fun entry hentry =>
      isSome_lookup_iff.mpr (hkeys ▸ List.mem_map_of_mem hentry)
    have hframe : DictEqualityFrame.new left right =
        ⟨[] ++ facing left right, false, ([] : List (Value × Value)).length, false⟩ := by
      simp only [DictEqualityFrame.new]
      rw [if_pos ⟨hlength, hall⟩, filterMap_lookup_eq_facing hkeys (nodup_of_ordered hordered),
        decide_eq_false (not_not_intro ⟨hlength, hall⟩)]
      rfl
    rw [hframe]
    exact members_answer below [] hkeys hbound
  next hkeys =>
    have hdiffer : ¬(left.length = right.length ∧ ∀ entry ∈ left, (right.lookup entry.1).isSome) := by
      rintro ⟨hlength, hall⟩
      refine hkeys (eq_of_ordered_of_subset hordered hordered' (by simpa using hlength) ?_)
      intro key hkey
      obtain ⟨entry, hentry, rfl⟩ := List.mem_map.mp hkey
      exact isSome_lookup_iff.mp (hall entry hentry)
    exact .of_complete (by
      simp only [ComparisonFrame.poll, DictEqualityFrame.poll, DictEqualityFrame.new, hdiffer]
      rfl)

/-! #### Tuples -/

/-- A tuple's payload is a list or a text, or no list by its form either. -/
theorem demandTuplePayload_cases (payload : Value) (name : String) :
    (∃ list, demandTuplePayload payload name = .ok list ∧ payload.form = .list list.allItems) ∨
    ∃ failure, demandTuplePayload payload name = .error failure ∧
      ∀ items, payload.form ≠ .list items := by
  rw [← payload.form_whnf]
  cases hwhnf : payload.whnf with
  | binary bytes =>
    refine .inl ⟨.fromBytes bytes, by simp only [demandTuplePayload, hwhnf], ?_⟩
    rw [Value.form, Rope.allItems, Rope.items_fromBytes]
  | list items => exact .inl ⟨items, by simp only [demandTuplePayload, hwhnf], by rw [Value.form]; rfl⟩
  | deferred => exact absurd hwhnf (Value.whnf_ne_deferred _ _)
  | atom =>
    refine .inr ⟨_, by rw [demandTuplePayload, hwhnf], fun items => ?_⟩
    rw [Value.form]
    split <;> simp
  | number | dict | other =>
    exact .inr ⟨_, by rw [demandTuplePayload, hwhnf], fun items => by simp [Value.form]⟩

theorem tuplePayload_cases (entries : List (Key × Value)) :
    (∃ payload, tuplePayload entries = some payload ∧ entries = [(.tuple, payload)]) ∨
    tuplePayload entries = none ∧ ∀ member, entriesForm entries ≠ .entry .tuple member .done := by
  obtain _ | ⟨⟨key, member⟩, _ | ⟨entry', rest⟩⟩ := entries
  · exact .inr ⟨rfl, by simp [entriesForm]⟩
  · by_cases hkey : key = .tuple
    · subst hkey
      exact .inl ⟨member, by simp [tuplePayload], rfl⟩
    · exact .inr ⟨by simp [tuplePayload, List.lookup, beq_false_of_ne (Ne.symm hkey)],
        by simp [entriesForm, hkey]⟩
  · exact .inr ⟨by simp [tuplePayload], by simp [entriesForm]⟩

/-- What is no tuple has no order. -/
theorem Members.compareTuples_eq_none {left right : Members}
    (h : (∀ member, left ≠ .entry .tuple member .done) ∨
      ∀ member, right ≠ .entry .tuple member .done) : left.compareTuples mode right = none := by
  unfold compareTuples
  split
  next key left key' right =>
    refine if_neg ?_
    rintro ⟨rfl, rfl⟩
    rcases h with h | h
    · exact h left rfl
    · exact h right rfl
  next => rfl

theorem Form.comparePayloads_eq_none {left right : Form}
    (h : (∀ items, left ≠ .list items) ∨ ∀ items, right ≠ .list items) :
    left.comparePayloads mode right = none := by
  unfold comparePayloads
  split
  next left right =>
    rcases h with h | h
    · exact absurd rfl (h left)
    · exact absurd rfl (h right)
  next => rfl

/-- The machine orders tuples by their payloads. -/
theorem tuple_answers (below : AnswersBelow builtin .ordering bound)
    (hbound : (entriesForm left).height ≤ bound) :
    Answers builtin ⟨.tuple (.new left right) :: frames, none⟩ frames
      ((entriesForm left).compareTuples .ordering (entriesForm right)) := by
  have hfails : (TupleOrderingFrame.new left right).phase = .notTuples →
      Answers builtin ⟨.tuple (.new left right) :: frames, none⟩ frames none := fun hphase =>
    .of_failed (by simp only [ComparisonFrame.poll, TupleOrderingFrame.poll, hphase]; rfl)
  rcases tuplePayload_cases left with ⟨payload, hpayload, rfl⟩ | ⟨hnone, hkeys⟩
  swap
  · rw [Members.compareTuples_eq_none (.inl hkeys)]
    exact hfails (by simp [TupleOrderingFrame.new, hnone])
  rcases tuplePayload_cases right with ⟨payload', hpayload', rfl⟩ | ⟨hnone, hkeys⟩
  swap
  · rw [Members.compareTuples_eq_none (.inr hkeys)]
    exact hfails (by simp [TupleOrderingFrame.new, hnone])
  have hframe : TupleOrderingFrame.new [(.tuple, payload)] [(.tuple, payload')] =
      ⟨some payload, some payload', none, none, .leftPayload⟩ := by
    simp [TupleOrderingFrame.new, hpayload, hpayload']
  have hcompare : (entriesForm [(.tuple, payload)]).compareTuples .ordering
      (entriesForm [(.tuple, payload')]) = payload.form.comparePayloads .ordering payload'.form := by
    simp [entriesForm, Members.compareTuples]
  rw [hframe, hcompare]
  rcases demandTuplePayload_cases payload builtin.name with
    ⟨list, hdemand, hlist⟩ | ⟨failure, hdemand, hlist⟩
  swap
  · rw [Form.comparePayloads_eq_none (.inl hlist)]
    exact .of_failed (show _ = FrameAction.failed failure by
      simp only [ComparisonFrame.poll, TupleOrderingFrame.poll, Option.getD_none, hdemand])
  -- the payloads are demanded left before right, and a list frame is pushed over the tuple
  have hfirst : ComparisonMachine.poll builtin
      ⟨.tuple ⟨some payload, some payload', none, none, .leftPayload⟩ :: frames, none⟩ =
      .inl ⟨.tuple ⟨some payload, some payload', some list, none, .rightPayload⟩ :: frames, none⟩ := by
    simp only [ComparisonMachine.poll, ComparisonFrame.poll, TupleOrderingFrame.poll,
      Option.getD_none, hdemand]
  refine .later hfirst ?_
  rcases demandTuplePayload_cases payload' builtin.name with
    ⟨list', hdemand', hlist'⟩ | ⟨failure, hdemand', hlist'⟩
  swap
  · rw [Form.comparePayloads_eq_none (.inr hlist')]
    exact .of_failed (show _ = FrameAction.failed failure by
      simp only [ComparisonFrame.poll, TupleOrderingFrame.poll, Option.getD_none, hdemand'])
  have hsecond : ComparisonMachine.poll builtin
      ⟨.tuple ⟨some payload, some payload', some list, none, .rightPayload⟩ :: frames, none⟩ =
      .inl ⟨.list (.new .ordering list list') ::
        .tuple ⟨some payload, some payload', some list, none, .comparing⟩ :: frames, none⟩ := by
    simp only [ComparisonMachine.poll, ComparisonFrame.poll, TupleOrderingFrame.poll,
      Option.getD_none, hdemand']
  refine .later hsecond ?_
  have hitems : list.allItems.height < bound := by
    simpa [entriesForm, Members.height, hlist, Form.height] using hbound
  rw [hlist, hlist', Form.comparePayloads]
  exact (list_answers below list list' hitems).tuple rfl

/-! #### Values -/

theorem Form.compare_other_left (form : Form) : Form.other.compare mode form = none := by
  cases form <;> rfl

theorem Form.compare_other_right (form : Form) : form.compare mode .other = none := by
  cases form <;> rfl

/-- Atoms have no order, not even as the dictionaries they stand for. -/
theorem Form.order_atom_left (key : Key) (form : Form) :
    (Value.atom key).form.compare .ordering form = none := by
  rw [Value.form]
  split
  · cases form <;> rfl
  · cases form with
    | dict entries =>
      obtain _ | ⟨key', member, _ | _⟩ := entries
      · rfl
      · show (if _ then Form.unit.comparePayloads .ordering member else none) = none
        rw [comparePayloads_eq_none (.inl (by simp)), ite_self]
      · rfl
    | _ => rfl

/-- The same with the atom on the right. -/
theorem Form.order_atom_right (key : Key) (form : Form) :
    form.compare .ordering (Value.atom key).form = none := by
  rw [Value.form]
  split
  · cases form <;> rfl
  · cases form with
    | dict entries =>
      obtain _ | ⟨key', member, _ | _⟩ := entries
      · rfl
      · show (if _ then member.comparePayloads .ordering .unit else none) = none
        rw [comparePayloads_eq_none (.inr (by simp)), ite_self]
      · rfl
    | _ => rfl

theorem ComparisonMode.isSame_result (mode : ComparisonMode) (order : Ordering) :
    (mode.result order).isSame = (order = .eq : Bool) := by
  cases mode <;> rfl

theorem compare_byte (left right : UInt8) :
    compare left right = compare (left.toNat : Rat) (right.toNat : Rat) := by
  -- texts are compared by bytes, lists of bytes by the numbers the bytes are
  have hcast : compare (left.toNat : Rat) (right.toNat : Rat) =
      compare left.toNat right.toNat := by
    rcases lt_trichotomy left.toNat right.toNat with h | h | h
    · rw [compare_lt_iff_lt.mpr h, compare_lt_iff_lt.mpr (by exact_mod_cast h)]
    · rw [compare_eq_iff_eq.mpr h, compare_eq_iff_eq.mpr (by exact_mod_cast h)]
    · rw [compare_gt_iff_gt.mpr h, compare_gt_iff_gt.mpr (by exact_mod_cast h)]
  rw [hcast]
  simp [compare, compareOfLessAndEq, UInt8.lt_iff_toNat_lt, ← UInt8.toNat_inj]

/-- Two texts compare as the lists of their bytes. -/
theorem compare_byteItems (mode : ComparisonMode) (left right : List UInt8) :
    (byteItems left .done).compare mode (byteItems right .done) =
      some (mode.result (compare left right)) := by
  induction left generalizing right with
  | nil => cases right <;> rfl
  | cons b left ih =>
    cases right with
    | nil => rfl
    | cons c right =>
      show firstDifference (some (mode.result (compare (b.toNat : Rat) c.toNat)))
        ((byteItems left .done).compare mode (byteItems right .done)) = _
      rw [ih, ← compare_byte, List.compare_cons_cons, firstDifference, mode.isSame_result]
      cases compare b c <;> rfl

theorem Value.form_binary (bytes : List UInt8) :
    (Value.binary bytes).form = .list (Rope.fromBytes bytes).allItems := by
  rw [form, Rope.allItems, Rope.items_fromBytes]

theorem Form.equal_single (key key' : Key) (member member' : Form) :
    (Form.dict (.entry key member .done)).compare .equality (.dict (.entry key' member' .done)) =
      if key = key' then firstDifference (member.compare .equality member') (some (.equality true))
      else some (.equality false) := by
  by_cases h : key = key'
  · rw [compare, if_pos (by rw [h]; rfl), if_pos h]
    rfl
  · rw [compare, if_neg (by simpa [Members.keys] using h), if_neg h]
    rfl

/-- An atom equals what equals it. -/
theorem Form.equal_atom_comm (key : Key) (form : Form) :
    form.compare .equality (Value.atom key).form =
      (Value.atom key).form.compare .equality form := by
  rw [Value.form]
  split
  · cases form <;> rfl
  · cases form with
    | dict entries =>
      obtain _ | ⟨key', member, _ | ⟨key'', member', rest⟩⟩ := entries
      · simp [compare, Members.keys]
      · have hmember : member.compare .equality .unit = Form.unit.compare .equality member := by
          cases member <;> rfl
        simp only [equal_single, hmember, eq_comm]
      · simp [compare, Members.keys]
    | _ => rfl

/-- Atoms are equal exactly if their keys are. -/
theorem Form.equal_atoms (left right : Key) :
    (Value.atom left).form.compare .equality (Value.atom right).form =
      some (.equality (left = right)) := by
  by_cases hleft : left = .unit <;> by_cases hright : right = .unit
  · simp [Value.form, hleft, hright, compare, ComparisonMode.unlike, ComparisonMode.result]
  · simp [Value.form, hleft, hright, compare, ComparisonMode.unlike, Ne.symm hright]
  · simp [Value.form, hleft, hright, compare, ComparisonMode.unlike]
  · rw [Value.form, Value.form, if_neg hleft, if_neg hright, equal_single]
    split
    next h => simp [h, compare, ComparisonMode.unlike, ComparisonMode.result, firstDifference,
      ComparisonResult.isSame]
    next h => simp [h]

variable {leftValue rightValue first second : Value}

/-- Two values that were demanded are classified by their mode. -/
theorem Answers.of_classify (hequality : classifyEquality leftValue rightValue builtin.name =
      .complete (.equality false)) {failure : ComparisonFailure}
    (hordering : classifyOrdering leftValue rightValue builtin.name = .failed failure) :
    Answers builtin
      ⟨.value ⟨mode, first, second, some leftValue, some rightValue, none⟩ :: frames, none⟩ frames
      mode.unlike := by
  cases mode with
  | equality => exact .of_complete hequality
  | ordering => exact .of_failed hordering

theorem lists_answer (below : AnswersBelow builtin mode bound) (left right : Rope)
    (hclassify : classifyValues mode leftValue rightValue builtin.name =
      .replace (.list (.new mode left right)))
    (hleft : leftValue.form = .list left.allItems) (hright : rightValue.form = .list right.allItems)
    (hheight : leftValue.form.height < bound + 1) :
    Answers builtin
      ⟨.value ⟨mode, first, second, some leftValue, some rightValue, none⟩ :: frames, none⟩ frames
      (leftValue.form.compare mode rightValue.form) := by
  rw [hleft, Form.height] at hheight
  rw [hleft, hright]
  exact .of_replace hclassify (list_answers below left right (Nat.lt_of_succ_lt_succ hheight))

/-- An atom compares with a dictionary as the dictionary it stands for, and unit as none. -/
theorem atom_answers (below : AnswersBelow builtin .equality bound) {key : Key}
    (hheight : key ≠ .unit → 0 < bound) {entries : List (Key × Value)}
    (hordered : (entries.map Prod.fst).Pairwise fun left right => left.compare right = .lt)
    (hclassify : classifyEquality leftValue rightValue builtin.name =
      if key = .unit then .complete (.equality false)
      else .replace (.dict (.new (atomDict key) entries))) :
    Answers builtin
      ⟨.value ⟨.equality, first, second, some leftValue, some rightValue, none⟩ :: frames, none⟩
      frames ((Value.atom key).form.compare .equality (.dict (entriesForm entries))) := by
  by_cases hkey : key = .unit
  · rw [if_pos hkey] at hclassify
    rw [Value.form, if_pos hkey]
    exact .of_complete hclassify
  · rw [if_neg hkey] at hclassify
    have hform : (Value.atom key).form = .dict (entriesForm (atomDict key)) := by
      rw [Value.form, if_neg hkey]
      rfl
    rw [hform]
    exact .of_replace hclassify
      (dict_answers below (List.pairwise_singleton ..) hordered (hheight hkey))

/-- Two values in weak head normal form: each pair of kinds has its own answer. -/
theorem classify_answers (below : AnswersBelow builtin mode bound)
    (hleft : ∀ inner, leftValue ≠ .deferred inner) (hright : ∀ inner, rightValue ≠ .deferred inner)
    (hheight : leftValue.form.height < bound + 1) :
    Answers builtin
      ⟨.value ⟨mode, first, second, some leftValue, some rightValue, none⟩ :: frames, none⟩ frames
      (leftValue.form.compare mode rightValue.form) := by
  cases leftValue with
  | deferred inner => exact absurd rfl (hleft inner)
  | other =>
    rw [Value.form, Form.compare_other_left]
    exact .of_failed (by cases mode <;> rfl)
  | number value =>
    cases rightValue with
    | deferred inner => exact absurd rfl (hright inner)
    | other => exact .of_failed (by cases mode <;> rfl)
    | number value' =>
      refine .of_complete ?_
      cases mode with
      | equality => simp [ComparisonFrame.poll, ValueComparisonFrame.poll, classifyValues,
          classifyEquality, incomparable, ComparisonMode.result]
      | ordering => rfl
    | atom =>
      simp only [Value.form]
      split <;> exact .of_classify rfl rfl
    | binary | list | dict => exact .of_classify rfl rfl
  | binary bytes =>
    cases rightValue with
    | deferred inner => exact absurd rfl (hright inner)
    | other => exact .of_failed (by cases mode <;> rfl)
    | binary bytes' =>
      -- two texts are compared at once
      rw [Value.form, Value.form, Form.compare, compare_byteItems]
      refine .of_complete ?_
      cases mode with
      | equality => simp [ComparisonFrame.poll, ValueComparisonFrame.poll, classifyValues,
          classifyEquality, incomparable, ComparisonMode.result]
      | ordering => rfl
    | list items' =>
      exact lists_answer below (.fromBytes bytes) items' (by cases mode <;> rfl)
        (Value.form_binary bytes) rfl hheight
    | atom =>
      simp only [Value.form]
      split <;> exact .of_classify rfl rfl
    | number | dict => exact .of_classify rfl rfl
  | list items =>
    cases rightValue with
    | deferred inner => exact absurd rfl (hright inner)
    | other => exact .of_failed (by cases mode <;> rfl)
    | binary bytes' =>
      exact lists_answer below items (.fromBytes bytes') (by cases mode <;> rfl) rfl
        (Value.form_binary bytes') hheight
    | list items' =>
      exact lists_answer below items items' (by cases mode <;> rfl) rfl rfl hheight
    | atom =>
      simp only [Value.form]
      split <;> exact .of_classify rfl rfl
    | number | dict => exact .of_classify rfl rfl
  | dict keys ordered members =>
    rw [Value.form_dict, Form.height] at hheight
    cases rightValue with
    | deferred inner => exact absurd rfl (hright inner)
    | other => exact .of_failed (by cases mode <;> rfl)
    | dict keys' ordered' members' =>
      rw [Value.form_dict, Value.form_dict]
      cases mode with
      | equality =>
        exact .of_replace rfl
          (dict_answers below (by simpa) (by simpa) (Nat.lt_of_succ_lt_succ hheight))
      | ordering =>
        exact .of_replace rfl
          (tuple_answers below (Nat.le_of_lt (Nat.lt_of_succ_lt_succ hheight)))
    | atom key =>
      cases mode with
      | equality =>
        rw [Form.equal_atom_comm, Value.form_dict]
        exact atom_answers below (fun _ => Nat.zero_lt_of_lt (Nat.lt_of_succ_lt_succ hheight))
          (by simpa) rfl
      | ordering =>
        rw [Form.order_atom_right]
        exact .of_failed rfl
    | number | binary | list => exact .of_classify rfl rfl
  | atom key =>
    cases rightValue with
    | deferred inner => exact absurd rfl (hright inner)
    | other =>
      rw [Value.form, Value.form, Form.compare_other_right]
      exact .of_failed (by cases mode <;> rfl)
    | atom key' =>
      cases mode with
      | equality =>
        rw [Form.equal_atoms]
        exact .of_complete rfl
      | ordering =>
        rw [Form.order_atom_left]
        exact .of_failed rfl
    | dict keys ordered members =>
      cases mode with
      | equality =>
        rw [Value.form_dict]
        refine atom_answers below (fun hkey => ?_) (by simpa) rfl
        rw [Value.form, if_neg hkey, Form.height] at hheight
        omega
      | ordering =>
        rw [Form.order_atom_left]
        exact .of_failed rfl
    | number | binary | list =>
      simp only [Value.form]
      split <;> exact .of_classify rfl rfl

theorem answersBelow (builtin : ComparisonBuiltin) (mode : ComparisonMode) (bound : Nat) :
    AnswersBelow builtin mode bound := by
  induction bound with
  | zero => exact fun _ _ _ h => absurd h (Nat.not_lt_zero _)
  | succ bound below =>
    intro left right frames hheight
    -- both values are demanded before they are classified
    refine .later rfl (.later rfl ?_)
    rw [← left.form_whnf, ← right.form_whnf]
    rw [← left.form_whnf] at hheight
    exact classify_answers below (Value.whnf_ne_deferred _) (Value.whnf_ne_deferred _) hheight

/-- **Comparison.** On any two values the machine comes to the result that their forms have, and ends
with an error where they have none. -/
theorem comparison_leads (builtin : ComparisonBuiltin) (left right : Value) :
    match left.form.compare builtin.mode right.form with
    | some result => Leads (ComparisonMachine.poll builtin) (.new builtin left right)
        (.inr (builtin.finish result))
    | none => ∃ failure, Leads (ComparisonMachine.poll builtin) (.new builtin left right)
        (.inr (.error failure)) := by
  have hanswers := answersBelow builtin builtin.mode _ left right [] (Nat.lt_succ_self _)
  cases hcompare : left.form.compare builtin.mode right.form with
  | none => rwa [hcompare] at hanswers
  | some result => rwa [hcompare] at hanswers

end Answers

end Glam.Eval
