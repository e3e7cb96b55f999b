import Glam.Eval.Form

/-!
# Comparing two values

The machine of `eval/comparison_machine.rs` for the builtins `==`, `<>`, `<`, `<=`, `>=` and `>`: a
stack of frames and the result of the frame that ended last. A frame compares two values, two lists
item by item, two dictionaries member by member, or, for order, two tuples: dictionaries with the
single entry `tuple`, whose payloads are compared as lists. In the mode for equality all comparable
values compare. In the mode for ordering numbers do, and lists, texts and tuples of what is ordered.

The compared values have been evaluated, so the machine never waits for one.
`ComparisonMachine.poll` is a poll that the step budget lasts for; under a budget, a poll may run out
of it while a value is demanded.

Running out of the budget makes no difference to what comes after (`ComparisonMachine.keepsDemand`).
-/

namespace Glam.Eval

/-- Why a comparison fails. -/
inductive ComparisonFailure
  /-- the text of the failure -/
  | message (text : String)
  /-- "lazy list chunk must evaluate to a list or binary value, got …" -/
  | lazyListChunk (got : Value)
  /-- "… builtin cannot order values … and …" -/
  | unordered (name : String) (left right : Value)
  /-- "… builtin requires tuple payloads to be lists or binaries, got …" -/
  | tuplePayload (name : String) (got : Value)
  /-- a failed assertion or a branch said to be unreachable -/
  | panicked

/-- The builtins that compare. -/
inductive ComparisonBuiltin
  | equal
  | notEqual
  | greater
  | greaterEqual
  | lessEqual
  | less
deriving DecidableEq

/-- What a comparison is asked for. -/
inductive ComparisonMode
  | equality
  | ordering

/-- What a comparison finds. -/
inductive ComparisonResult
  | equality (equal : Bool)
  | ordering (ordering : Ordering)

/-- `comparison_name`. -/
def ComparisonBuiltin.name : ComparisonBuiltin → String
  | .equal => "equal"
  | .notEqual => "not-equal"
  | .greater => "greater-than"
  | .greaterEqual => "greater-than-or-equal"
  | .lessEqual => "less-than-or-equal"
  | .less => "less-than"

/-- `comparison_mode`. -/
def ComparisonBuiltin.mode : ComparisonBuiltin → ComparisonMode
  | .equal | .notEqual => .equality
  | .greater | .greaterEqual | .lessEqual | .less => .ordering

/-- `finish`: whether the builtin succeeds on a result. -/
def ComparisonBuiltin.finish : ComparisonBuiltin → ComparisonResult → Except ComparisonFailure Bool
  | .greater, .ordering ordering => .ok (ordering = .gt)
  | .greaterEqual, .ordering ordering => .ok (ordering ≠ .lt)
  | .lessEqual, .ordering ordering => .ok (ordering ≠ .gt)
  | .less, .ordering ordering => .ok (ordering = .lt)
  | .equal, .equality answer => .ok answer
  | .notEqual, .equality answer => .ok !answer
  | _, _ => .error .panicked

/-- `diagnostic_kind_name` of the values that do not compare. -/
def OtherKind.name : OtherKind → String
  | .builtin | .partialBuiltin | .function => "Function"
  | .net => "Net"
  | .metadata => "Sealed"
  | .opaqueHandle => "Opaque"
  | .volume => "Volume"
  | .resolver => "Resolver"

/-- The key of a tuple's payload, the atom `'tuple`. -/
def Key.tuple : Key := .atom (.binary [116, 117, 112, 108, 101])

/-! ### List fronts -/

/-- `RegionalListFront`: a list whose first item is asked for, and the lazy chunk it waits for with
the list after the chunk. -/
structure ListFront where
  current : Rope
  chunk : Option (Value × Rope)

/-- What a poll for a list's first item returns. -/
inductive ListFrontPoll
  | ready (front : Option (Value × Rope))
  | again (front : ListFront)
  | failed (failure : ComparisonFailure)

/-- `RegionalListFront::new_in`. -/
def ListFront.new (list : Rope) : ListFront := ⟨list, none⟩

/-- `RegionalListFront::poll_in`, where the budget lasts for the chunk. -/
def ListFront.poll (front : ListFront) : ListFrontPoll :=
  match front.chunk with
  | some (chunk, suffix) =>
    match valueAsList chunk.whnf true with
    | .ok list => .again ⟨.concatenate list suffix, none⟩
    | .error _ => .failed (.lazyListChunk chunk.whnf)
  | none =>
    match front.current.popFrontStep with
    | .empty => .ready none
    | .item item tail => .ready (some (item.toValue, tail))
    | .deferred chunk suffix => .again { front with chunk := some (chunk, suffix) }

/-- What the next poll demands. -/
def ListFront.demand (front : ListFront) : Option (Value × (Value → ListFront)) :=
  front.chunk.map fun chunk => (chunk.1, fun focus => { front with chunk := some (focus, chunk.2) })

/-! ### The frames -/

/-- Two values to compare, of which each is brought to weak head normal form first. -/
structure ValueComparisonFrame where
  mode : ComparisonMode
  left : Value
  right : Value
  leftReady : Option Value
  rightReady : Option Value
  demand : Option Value

/-- Two lists to compare, item by item, and the items they are at. -/
structure ListComparisonFrame where
  mode : ComparisonMode
  left : ListFront
  right : ListFront
  leftItem : Option (Option (Value × Rope))
  rightItem : Option (Option (Value × Rope))
  awaitingChild : Bool

/-- Two dictionaries to compare: the values of the keys that both have, and whether the keys differ.
-/
structure DictEqualityFrame where
  pairs : List (Value × Value)
  unequal : Bool
  next : Nat
  awaitingChild : Bool

/-- How far the ordering of two tuples is. -/
inductive TupleOrderingPhase
  /-- one side is no tuple: exactly the one entry `tuple` -/
  | notTuples
  | leftPayload
  | rightPayload
  | comparing

/-- Two tuples to order by their payloads. -/
structure TupleOrderingFrame where
  leftPayload : Option Value
  rightPayload : Option Value
  leftList : Option Rope
  demand : Option Value
  phase : TupleOrderingPhase

/-- A comparison that is under way. -/
inductive ComparisonFrame
  | value (frame : ValueComparisonFrame)
  | list (frame : ListComparisonFrame)
  | dict (frame : DictEqualityFrame)
  | tuple (frame : TupleOrderingFrame)

/-- What a poll of a frame asks of the machine. The frame it leaves behind is in the action. -/
inductive FrameAction
  | replace (frame : ComparisonFrame)
  | push (frame child : ComparisonFrame)
  | complete (result : ComparisonResult)
  | again (frame : ComparisonFrame)
  | failed (failure : ComparisonFailure)

/-- A comparison of two values at its start. -/
def ValueComparisonFrame.new (mode : ComparisonMode) (left right : Value) : ValueComparisonFrame :=
  ⟨mode, left, right, none, none, none⟩

/-- A comparison of two lists at its start. -/
def ListComparisonFrame.new (mode : ComparisonMode) (left right : Rope) : ListComparisonFrame :=
  ⟨mode, .new left, .new right, none, none, false⟩

/-- The same keys, then equal members: where the keys differ, no member is looked at. -/
def DictEqualityFrame.new (left right : List (Key × Value)) : DictEqualityFrame :=
  let sameKeys := left.length = right.length ∧ ∀ entry ∈ left, (right.lookup entry.1).isSome
  { pairs :=
      if sameKeys then
        left.filterMap fun entry => (right.lookup entry.1).map fun member => (entry.2, member)
      else []
    unequal := ¬sameKeys
    next := 0
    awaitingChild := false }

/-- The payload of a tuple: by its keys alone, forcing nothing. -/
def tuplePayload (entries : List (Key × Value)) : Option Value :=
  if entries.length = 1 then entries.lookup .tuple else none

/-- An ordering of two dictionaries at its start. -/
def TupleOrderingFrame.new (left right : List (Key × Value)) : TupleOrderingFrame :=
  let left := tuplePayload left
  let right := tuplePayload right
  ⟨left, right, none, none, if left.isSome ∧ right.isSome then .leftPayload else .notTuples⟩

/-- `incomparable_in`: the kind of the first value that does not compare. -/
def incomparable (left right : Value) (name : String) : Option ComparisonFailure :=
  let kind : Value → Option String
    | .other kind => some kind.name
    | _ => none
  match (kind left).or (kind right) with
  | none => none
  | some kind => some (.message (s!"{name} builtin cannot compare {kind}" ++
      ": only numbers, lists and dicts of them are comparable"))

/-- **`classify_ordering`**, on values in weak head normal form. -/
def classifyOrdering (left right : Value) (name : String) : FrameAction :=
  match incomparable left right name with
  | some failure => .failed failure
  | none =>
    match left, right with
    | .deferred _, _ | _, .deferred _ => .failed .panicked
    | .number left, .number right => .complete (.ordering (compare left right))
    | .binary left, .binary right => .complete (.ordering (compare left right))
    | .binary left, .list right => .replace (.list (.new .ordering (.fromBytes left) right))
    | .list left, .binary right => .replace (.list (.new .ordering left (.fromBytes right)))
    | .list left, .list right => .replace (.list (.new .ordering left right))
    | .dict leftKeys _ left, .dict rightKeys _ right =>
      .replace (.tuple (.new (dictEntries leftKeys left) (dictEntries rightKeys right)))
    | left, right => .failed (.unordered name left right)

/-- The dictionary an atom stands for. -/
def atomDict (key : Key) : List (Key × Value) := [(key, .atom .unit)]

/-- **`classify_equality`**, on values in weak head normal form. -/
def classifyEquality (left right : Value) (name : String) : FrameAction :=
  match incomparable left right name with
  | some failure => .failed failure
  | none =>
    match left, right with
    | .deferred _, _ | _, .deferred _ => .failed .panicked
    | .atom left, .atom right => .complete (.equality (left = right))
    | .number left, .number right => .complete (.equality (left = right))
    | .binary left, .binary right => .complete (.equality (left = right))
    | .binary left, .list right => .replace (.list (.new .equality (.fromBytes left) right))
    | .list left, .binary right => .replace (.list (.new .equality left (.fromBytes right)))
    | .list left, .list right => .replace (.list (.new .equality left right))
    | .dict leftKeys _ left, .dict rightKeys _ right =>
      .replace (.dict (.new (dictEntries leftKeys left) (dictEntries rightKeys right)))
    | .atom key, .dict keys _ members | .dict keys _ members, .atom key =>
      -- unit stands for no dictionary
      if key = .unit then .complete (.equality false)
      else .replace (.dict (.new (atomDict key) (dictEntries keys members)))
    | _, _ => .complete (.equality false)

/-- `classify_values`. -/
def classifyValues (mode : ComparisonMode) (left right : Value) (name : String) : FrameAction :=
  match mode with
  | .ordering => classifyOrdering left right name
  | .equality => classifyEquality left right name

/-- `ValueComparisonFrame::poll_in`: demands the left value, then the right one, then classifies. -/
def ValueComparisonFrame.poll (frame : ValueComparisonFrame) (name : String) : FrameAction :=
  match frame.leftReady, frame.rightReady with
  | none, _ => .again (.value { frame with
      leftReady := some (frame.demand.getD frame.left).whnf
      demand := none })
  | some _, none => .again (.value { frame with
      rightReady := some (frame.demand.getD frame.right).whnf
      demand := none })
  | some left, some right => classifyValues frame.mode left right name

/-- What the next poll demands: the value being made ready, from where its demand got to. -/
def ValueComparisonFrame.demanded (frame : ValueComparisonFrame) :
    Option (Value × (Value → ValueComparisonFrame)) :=
  match frame.leftReady, frame.rightReady with
  | none, _ =>
    some (frame.demand.getD frame.left, fun focus => { frame with demand := some focus })
  | some _, none =>
    some (frame.demand.getD frame.right, fun focus => { frame with demand := some focus })
  | some _, some _ => none

/-- The result of a list that ends: both do, only the left one, or only the right one. -/
def ComparisonMode.result : ComparisonMode → Ordering → ComparisonResult
  | .equality, order => .equality (order = .eq)
  | .ordering, order => .ordering order

/-- `ListComparisonFrame::poll_in`. -/
def ListComparisonFrame.poll (frame : ListComparisonFrame) : FrameAction :=
  if frame.awaitingChild then .failed .panicked
  else
    match frame.leftItem, frame.rightItem with
    | none, _ =>
      match frame.left.poll with
      | .ready item => .again (.list { frame with leftItem := some item })
      | .again front => .again (.list { frame with left := front })
      | .failed failure => .failed failure
    | some _, none =>
      match frame.right.poll with
      | .ready item => .again (.list { frame with rightItem := some item })
      | .again front => .again (.list { frame with right := front })
      | .failed failure => .failed failure
    | some none, some none => .complete (frame.mode.result .eq)
    | some none, some (some _) => .complete (frame.mode.result .lt)
    | some (some _), some none => .complete (frame.mode.result .gt)
    | some (some (left, leftTail)), some (some (right, rightTail)) =>
      .push (.list ⟨frame.mode, .new leftTail, .new rightTail, none, none, true⟩)
        (.value (.new frame.mode left right))

/-- What the next poll demands: a chunk at the front that is being made ready. -/
def ListComparisonFrame.demanded (frame : ListComparisonFrame) :
    Option (Value × (Value → ListComparisonFrame)) :=
  if frame.awaitingChild then none
  else
    match frame.leftItem, frame.rightItem with
    | none, _ => frame.left.demand.map fun demand =>
        (demand.1, fun focus => { frame with left := demand.2 focus })
    | some _, none => frame.right.demand.map fun demand =>
        (demand.1, fun focus => { frame with right := demand.2 focus })
    | some _, some _ => none

/-- `DictEqualityFrame::poll`. -/
def DictEqualityFrame.poll (frame : DictEqualityFrame) : FrameAction :=
  if frame.awaitingChild then .failed .panicked
  else if frame.unequal then .complete (.equality false)
  else
    match frame.pairs[frame.next]? with
    | none => .complete (.equality true)
    | some (left, right) =>
      .push (.dict { frame with next := frame.next + 1, awaitingChild := true })
        (.value (.new .equality left right))

/-- `demand_tuple_payload`. -/
def demandTuplePayload (payload : Value) (name : String) : Except ComparisonFailure Rope :=
  match payload.whnf with
  | .binary bytes => .ok (.fromBytes bytes)
  | .list items => .ok items
  | other => .error (.tuplePayload name other)

/-- `TupleOrderingFrame::poll_in`. -/
def TupleOrderingFrame.poll (frame : TupleOrderingFrame) (name : String) : FrameAction :=
  match frame.phase with
  | .notTuples =>
    .failed (.message s!"{name} builtin can only order dictionaries tagged as `tuple`")
  | .leftPayload =>
    match frame.leftPayload with
    | none => .failed .panicked
    | some payload =>
      match demandTuplePayload (frame.demand.getD payload) name with
      | .ok list => .again (.tuple { frame with
          leftList := some list
          demand := none
          phase := .rightPayload })
      | .error failure => .failed failure
  | .rightPayload =>
    match frame.leftList, frame.rightPayload with
    | some left, some payload =>
      match demandTuplePayload (frame.demand.getD payload) name with
      | .ok list => .push (.tuple { frame with demand := none, phase := .comparing })
          (.list (.new .ordering left list))
      | .error failure => .failed failure
    | _, _ => .failed .panicked
  | .comparing => .failed .panicked

/-- What the next poll demands: a payload, from where its demand got to. -/
def TupleOrderingFrame.demanded (frame : TupleOrderingFrame) :
    Option (Value × (Value → TupleOrderingFrame)) :=
  let putBack (focus : Value) : TupleOrderingFrame := { frame with demand := some focus }
  match frame.phase with
  | .leftPayload => frame.leftPayload.map fun payload => (frame.demand.getD payload, putBack)
  | .rightPayload => frame.rightPayload.map fun payload => (frame.demand.getD payload, putBack)
  | .notTuples | .comparing => none

/-- One poll of the innermost comparison. -/
def ComparisonFrame.poll (frame : ComparisonFrame) (name : String) : FrameAction :=
  match frame with
  | .value frame => frame.poll name
  | .list frame => frame.poll
  | .dict frame => frame.poll
  | .tuple frame => frame.poll name

/-- The value that a frame waits for, and the frame once that is in weak head normal form. -/
def ComparisonFrame.demanded : ComparisonFrame → Option (Value × (Value → ComparisonFrame))
  | .value frame => frame.demanded.map fun demand => (demand.1, fun focus => .value (demand.2 focus))
  | .list frame => frame.demanded.map fun demand => (demand.1, fun focus => .list (demand.2 focus))
  | .dict _ => none
  | .tuple frame => frame.demanded.map fun demand => (demand.1, fun focus => .tuple (demand.2 focus))

/-- Whether a frame goes on after a child with this result. -/
def ComparisonResult.isSame : ComparisonResult → Bool
  | .equality answer => answer
  | .ordering order => order = .eq

/-- `accept_child`: a list or a dictionary goes on after a child that was the same, and any other
result is its own; a tuple's result is that of its list. -/
def ComparisonFrame.acceptChild (frame : ComparisonFrame) (result : ComparisonResult) :
    Except ComparisonFailure (Option ComparisonFrame) :=
  match frame with
  | .value _ => .error .panicked
  | .list frame =>
    if frame.awaitingChild then
      .ok (if result.isSame then some (.list { frame with awaitingChild := false }) else none)
    else .error .panicked
  | .dict frame =>
    if frame.awaitingChild then
      match result with
      | .equality equal =>
        .ok (if equal then some (.dict { frame with awaitingChild := false }) else none)
      | .ordering _ => .error .panicked
    else .error .panicked
  | .tuple frame =>
    match frame.phase with
    | .comparing => .ok none
    | _ => .error .panicked

/-! ### The machine -/

/-- `RegionalComparisonMachine`, the innermost frame first. -/
structure ComparisonMachine where
  frames : List ComparisonFrame
  childResult : Option ComparisonResult

/-- What a poll of a comparison returns: the machine to go on with, or the answer. -/
abbrev ComparisonPoll := ComparisonMachine ⊕ Except ComparisonFailure Bool

/-- `RegionalComparisonMachine::new_in`. -/
def ComparisonMachine.new (builtin : ComparisonBuiltin) (left right : Value) : ComparisonMachine :=
  ⟨[.value (.new builtin.mode left right)], none⟩

/-- One poll of the machine, with what a demand is ready with. The result says whether the builtin
succeeds. -/
def ComparisonMachine.poll (builtin : ComparisonBuiltin) (machine : ComparisonMachine) :
    ComparisonPoll :=
  match machine.childResult, machine.frames with
  | some result, [] => .inr (builtin.finish result)
  | some result, parent :: frames =>
    match parent.acceptChild result with
    | .error failure => .inr (.error failure)
    | .ok (some parent) => .inl ⟨parent :: frames, none⟩
    -- the parent is done as well, and the child's result is its own
    | .ok none => .inl ⟨frames, some result⟩
  | none, [] => .inr (.error .panicked)
  | none, frame :: frames =>
    match frame.poll builtin.name with
    | .replace frame => .inl ⟨frame :: frames, none⟩
    | .push frame child => .inl ⟨child :: frame :: frames, none⟩
    | .again frame => .inl ⟨frame :: frames, none⟩
    | .failed failure => .inr (.error failure)
    | .complete result =>
      if frames.isEmpty then .inr (builtin.finish result) else .inl ⟨frames, some result⟩

/-- What the next poll demands. -/
def ComparisonMachine.demanded (machine : ComparisonMachine) :
    Option (Value × (Value → ComparisonMachine)) :=
  match machine.childResult, machine.frames with
  | none, frame :: frames => frame.demanded.map fun demand =>
      (demand.1, fun focus => ⟨demand.2 focus :: frames, none⟩)
  | _, _ => none

/-- **`RegionalComparisonMachine::poll_in`**: one poll under a budget. -/
def ComparisonMachine.pollIn (builtin : ComparisonBuiltin) :
    Nat → ComparisonMachine → Polled ComparisonMachine (Except ComparisonFailure Bool) × Nat :=
  Eval.pollIn demanded (poll builtin)

/-! ### Demands are kept -/

theorem ListFront.poll_putBack {front : ListFront} {focus : Value} {putBack : Value → ListFront}
    (h : front.demand = some (focus, putBack)) {focus' : Value} (hwhnf : focus'.whnf = focus.whnf) :
    (putBack focus').demand = some (focus', putBack) ∧ (putBack focus').poll = front.poll ∧
      ∀ item, front.poll ≠ .ready item := by
  obtain ⟨current, _ | ⟨chunk, suffix⟩⟩ := front
  · cases h
  · obtain ⟨rfl, rfl⟩ := Prod.mk.inj (Option.some.inj h)
    refine ⟨rfl, by simp only [poll, hwhnf], fun item => ?_⟩
    simp only [poll]
    split <;> simp

/-- A poll does not tell a value from one with the same weak head normal form. -/
theorem ComparisonFrame.poll_putBack {frame : ComparisonFrame} {focus : Value}
    {putBack : Value → ComparisonFrame} (h : frame.demanded = some (focus, putBack))
    {focus' : Value} (hwhnf : focus'.whnf = focus.whnf) :
    (putBack focus').demanded = some (focus', putBack) ∧
      ∀ name, (putBack focus').poll name = frame.poll name := by
  cases frame with
  | value frame =>
    obtain ⟨mode, left, right, _ | leftReady, _ | rightReady, demand⟩ := frame
    -- with both sides ready, nothing is demanded
    case some.some => cases h
    all_goals
      obtain ⟨rfl, rfl⟩ := Prod.mk.inj (Option.some.inj h)
      refine ⟨rfl, fun name => ?_⟩
      simp only [poll, ValueComparisonFrame.poll, Option.getD_some, hwhnf]
  | list frame =>
    obtain ⟨mode, left, right, leftItem, rightItem, _ | _⟩ := frame
    case true => cases h
    obtain ⟨_, hframe, hput⟩ := Option.map_eq_some_iff.mp h
    obtain ⟨rfl, rfl⟩ := Prod.mk.inj hput
    cases leftItem with
    | none =>
      obtain ⟨⟨chunk, back⟩, hfront, rfl⟩ := Option.map_eq_some_iff.mp hframe
      obtain ⟨hdemand, hpoll, hnot⟩ := ListFront.poll_putBack hfront hwhnf
      refine ⟨by simp [demanded, ListComparisonFrame.demanded, hdemand], fun name => ?_⟩
      simp only [poll, ListComparisonFrame.poll, hpoll]
      cases hfront : left.poll with
      -- a front that still demands a chunk has no item yet
      | ready item => exact absurd hfront (hnot item)
      | again | failed => rfl
    | some leftItem =>
      cases rightItem with
      | none =>
        obtain ⟨⟨chunk, back⟩, hfront, rfl⟩ := Option.map_eq_some_iff.mp hframe
        obtain ⟨hdemand, hpoll, hnot⟩ := ListFront.poll_putBack hfront hwhnf
        refine ⟨by simp [demanded, ListComparisonFrame.demanded, hdemand], fun name => ?_⟩
        simp only [poll, ListComparisonFrame.poll, hpoll]
        cases hfront : right.poll with
        | ready item => exact absurd hfront (hnot item)
        | again | failed => rfl
      | some => cases hframe
  | dict => cases h
  | tuple frame =>
    obtain ⟨left, right, leftList, demand, phase⟩ := frame
    cases phase with
    | notTuples | comparing => cases h
    | leftPayload =>
      cases left with
      | none => cases h
      | some payload =>
        obtain ⟨rfl, rfl⟩ := Prod.mk.inj (Option.some.inj h)
        refine ⟨rfl, fun name => ?_⟩
        simp only [poll, TupleOrderingFrame.poll, demandTuplePayload, Option.getD_some, hwhnf]
    | rightPayload =>
      cases right with
      | none => cases h
      | some payload =>
        obtain ⟨rfl, rfl⟩ := Prod.mk.inj (Option.some.inj h)
        refine ⟨rfl, fun name => ?_⟩
        cases leftList with
        | none => rfl
        | some =>
          simp only [poll, TupleOrderingFrame.poll, demandTuplePayload, Option.getD_some, hwhnf]

theorem ComparisonMachine.keepsDemand (builtin : ComparisonBuiltin) :
    KeepsDemand demanded (poll builtin) := by
  rintro ⟨_ | ⟨frame, frames⟩, _ | result⟩ focus putBack h focus' hwhnf
  case cons.none =>
    obtain ⟨⟨focus, back⟩, hframe, hput⟩ := Option.map_eq_some_iff.mp h
    obtain ⟨rfl, rfl⟩ := Prod.mk.inj hput
    obtain ⟨hdemand, hpoll⟩ := ComparisonFrame.poll_putBack hframe hwhnf
    exact ⟨by simp [demanded, hdemand], by simp only [poll, hpoll]⟩
  all_goals cases h

end Glam.Eval
