import Mathlib

/-!
# Persistent lists

The lists of `list.rs`: a rope whose leaves are byte slices, value slices and finger trees of such
slices, with lazy chunks of unknown length in between. The value type `V` and the type `T` of lazy
chunks are opaque to every operation. A slice is the list of what it shows, a finger tree (a library
type) the list of its chunks; a failed assertion, an index out of range and an `unreachable!` are
`none`.

Nothing in the node type forbids an empty slice, a finger tree without chunks or a concatenation
with an empty side. The smart constructors keep them out: `Strict` says that they do, and `Built`
collects every rope that the operations can make. The walks depend on it, since they index into the
first slice they meet without looking at its length.

A pop takes concatenations apart with a worklist. What a worklist stands for is the concatenation of
what its entries denote (`spread`), and each turn of the loop keeps that; the sequence of a rope
lists the lazy chunks themselves, so a pop that keeps the sequence has forced none of them. -/

namespace Glam

/-- An item of a list. A byte is stored as one, and not as a value. -/
inductive ListItem (V : Type)
  | byte (byte : UInt8)
  | value (value : V)
deriving DecidableEq, Repr

/-- A run of items of one kind. -/
inductive ListChunk (V : Type)
  | bytes (bytes : List UInt8)
  | values (values : List V)
deriving DecidableEq, Repr

/-- A finger tree, as the sequence of its chunks. -/
abbrev FingerList (V : Type) := List (ListChunk V)

/-- A list (`List` and `ListNode` of the source, which share one heap cell). -/
inductive ListNode (V T : Type)
  | empty
  | bytes (bytes : List UInt8)
  | values (values : List V)
  | concat (left right : ListNode V T)
  | finger (finger : FingerList V)
  | thunk (thunk : T)
deriving DecidableEq, Repr

/-- One non-forcing decomposition of the front of a list. -/
inductive ListFrontStep (U D V T : Type)
  | empty
  | item (item : ListItem U) (tail : ListNode V T)
  | deferred (deferred : D) (suffix : ListNode V T)

/-- One non-forcing decomposition of the back of a list. -/
inductive ListBackStep (U D V T : Type)
  | empty
  | item (init : ListNode V T) (item : ListItem U)
  | deferred (before : ListNode V T) (deferred : D)

/-- One non-forcing decomposition of the front of a list into its first strict leaf. -/
inductive ListFrontLeafStep (D V T : Type)
  | empty
  | leaf (leaf tail : ListNode V T)
  | deferred (deferred : D) (suffix : ListNode V T)

/-- The back-oriented counterpart of `ListFrontLeafStep`. -/
inductive ListBackLeafStep (D V T : Type)
  | empty
  | leaf (init leaf : ListNode V T)
  | deferred (before : ListNode V T) (deferred : D)

variable {V U T S D : Type}

/-- `items[start..stop]`. -/
def slice {α : Type} (items : List α) (start stop : Nat) : Option (List α) :=
  if start ≤ stop ∧ stop ≤ items.length then some ((items.take stop).drop start) else none

namespace ListChunk

/-- The number of a chunk's items. -/
def len : ListChunk V → Nat
  | .bytes data => data.length
  | .values items => items.length

/-- A part of a chunk, if it is not empty. -/
def slice (chunk : ListChunk V) (start stop : Nat) : Option (Option (ListChunk V)) :=
  if start ≤ stop ∧ stop ≤ chunk.len then
    if start = stop then some none
    else match chunk with
      | .bytes data => (Glam.slice data start stop).map (some ∘ .bytes)
      | .values items => (Glam.slice items start stop).map (some ∘ .values)
  else none

/-- The item of a chunk at an index, with its value duplicated. -/
def itemAtBy (chunk : ListChunk V) (index : Nat) (duplicateValue : V → U) : Option (ListItem U) :=
  match chunk with
  | .bytes data => data[index]?.map .byte
  | .values items => items[index]?.map fun value => .value (duplicateValue value)

end ListChunk

namespace FingerList

/-- The number of items of a finger tree. -/
def measure (chunks : FingerList V) : Nat :=
  (chunks.map ListChunk.len).sum

/-- The longest front whose measures, `before` included, all fail the predicate, and the rest. -/
def split (predicate : Nat → Bool) (before : Nat) : FingerList V → FingerList V × FingerList V
  | [] => ([], [])
  | chunk :: rest =>
    if predicate (before + chunk.len) then ([], chunk :: rest)
    else ((chunk :: (split predicate (before + chunk.len) rest).1),
      (split predicate (before + chunk.len) rest).2)

/-- The first chunk, and the others. -/
def viewLeft : FingerList V → Option (ListChunk V × FingerList V)
  | [] => none
  | chunk :: rest => some (chunk, rest)

/-- The last chunk, and the others. -/
def viewRight (chunks : FingerList V) : Option (ListChunk V × FingerList V) :=
  chunks.getLast?.map fun chunk => (chunk, chunks.dropLast)

/-- Puts a chunk before the others. -/
def pushLeft (chunks : FingerList V) (chunk : ListChunk V) : FingerList V :=
  chunk :: chunks

/-- Puts a chunk after the others. -/
def pushRight (chunks : FingerList V) (chunk : ListChunk V) : FingerList V :=
  chunks ++ [chunk]

end FingerList

namespace ListNode

/-- Whether the list is the empty node. A concatenation of empty ones is not. -/
def isEmpty : ListNode V T → Bool
  | .empty => true
  | _ => false

/-- The list of some bytes. -/
def fromBytes (data : List UInt8) : ListNode V T :=
  if data.isEmpty then .empty else .bytes data

/-- The list of some values. -/
def fromValues (items : List V) : ListNode V T :=
  if items.isEmpty then .empty else .values items

/-- The list of a slice of values. -/
def fromValueSlice (items : List V) : ListNode V T :=
  if items.length = 0 then .empty else .values items

/-- The list of a finger tree's items. -/
def fromFinger (chunks : FingerList V) : ListNode V T :=
  if chunks.isEmpty then .empty else .finger chunks

/-- The list of some values, as a finger tree. -/
def fromValuesBalanced (items : List V) : ListNode V T :=
  if items.isEmpty then .empty else fromFinger (FingerList.pushRight [] (.values items))

/-- A list that is still to be computed. -/
def fromThunk (lazy : T) : ListNode V T :=
  .thunk lazy

/-- The concatenation of two lists (`List::concat`); `concat` is the node it makes. -/
def join (left right : ListNode V T) : ListNode V T :=
  if left.isEmpty then right
  else if right.isEmpty then left
  else .concat left right

/-- One round of `concatBalanced`: joins neighbours. -/
def concatPairs : List (ListNode V T) → List (ListNode V T)
  | left :: right :: rest => join left right :: concatPairs rest
  | lists => lists

theorem length_concatPairs : ∀ lists : List (ListNode V T),
    (concatPairs lists).length = (lists.length + 1) / 2
  | [] | [_] => by simp [concatPairs]
  | _ :: _ :: rest => by
    simp only [concatPairs, List.length_cons, length_concatPairs rest]
    omega

/-- Joins lists round by round, so that the concatenation is balanced. -/
def concatBalanced : List (ListNode V T) → ListNode V T
  | [] => .empty
  | [root] => root
  | left :: right :: rest => concatBalanced (concatPairs (left :: right :: rest))
termination_by lists => lists.length
decreasing_by
  simp only [length_concatPairs, List.length_cons]
  omega

/-- Maps one representation node without forcing a lazy chunk. The callbacks share a state. -/
def mapRootStep {σ : Type} (mapByte : UInt8 → StateM σ U) (mapValue : V → StateM σ U)
    (deferList : ListNode V T → StateM σ S) (deferThunk : T → StateM σ S) :
    ListNode V T → StateM σ (ListNode U S)
  | .empty => pure .empty
  | .bytes data => do return fromValues (← data.mapM mapByte)
  | .values items => do return fromValues (← items.mapM mapValue)
  | .concat left right => do
    let first ← deferList left
    let second ← deferList right
    return join (fromThunk first) (fromThunk second)
  | .finger chunks => do
    let mapped ← chunks.mapM fun
      | .bytes data => data.mapM mapByte
      | .values items => items.mapM mapValue
    return fromFinger
      (mapped.foldl (fun rope items => FingerList.pushRight rope (.values items)) [])
  | .thunk lazy => do return fromThunk (← deferThunk lazy)

/-- Flat-maps one representation node without forcing a lazy chunk. -/
def flatMapRootStep {σ E : Type} (mapByte : UInt8 → StateT σ (Except E) (ListNode U S))
    (mapValue : V → StateT σ (Except E) (ListNode U S))
    (deferList : ListNode V T → StateT σ (Except E) S) (deferThunk : T → StateT σ (Except E) S) :
    ListNode V T → StateT σ (Except E) (ListNode U S)
  | .empty => pure .empty
  | .bytes data => do return concatBalanced (← data.mapM mapByte)
  | .values items => do return concatBalanced (← items.mapM mapValue)
  | .concat left right => do
    let first ← deferList left
    let second ← deferList right
    return join (fromThunk first) (fromThunk second)
  | .finger chunks => do
    let parts ← chunks.mapM fun
      | .bytes data => data.mapM mapByte
      | .values items => items.mapM mapValue
    return concatBalanced parts.flatten
  | .thunk lazy => do return fromThunk (← deferThunk lazy)

/-! ### Pops

A worklist is a stack with its top first; the siblings left in it are handed over bottom first, as
the source's vector has them. -/

/-- What follows a leaf, from the siblings that the descent to it passed. -/
def joinLogicalSuffix (front : ListNode V T) (pending : List (ListNode V T)) : ListNode V T :=
  join front (pending.foldl (fun suffix sibling => join sibling suffix) .empty)

/-- What precedes a leaf, from the siblings that the descent to it passed. -/
def joinLogicalPrefix (suffix : ListNode V T) (pending : List (ListNode V T)) : ListNode V T :=
  join (pending.foldl (fun before sibling => join before sibling) .empty) suffix

/-- The number of a list's nodes, which a descent takes apart one by one. -/
def size : ListNode V T → Nat
  | .concat left right => left.size + right.size + 1
  | _ => 1

/-- The number of nodes of a worklist. -/
def sizes (worklist : List (ListNode V T)) : Nat :=
  (worklist.map size).sum

/-- The descent to the first leaf, over a stack of the lists that are still to be searched. -/
def popFrontLeafLoop (duplicateDeferred : T → D) :
    List (ListNode V T) → ListFrontLeafStep D V T
  | [] => .empty
  | .empty :: worklist => popFrontLeafLoop duplicateDeferred worklist
  | .bytes data :: worklist =>
    .leaf (.bytes data) (joinLogicalSuffix .empty worklist.reverse)
  | .values items :: worklist =>
    .leaf (.values items) (joinLogicalSuffix .empty worklist.reverse)
  | .finger chunks :: worklist =>
    .leaf (.finger chunks) (joinLogicalSuffix .empty worklist.reverse)
  | .concat left right :: worklist => popFrontLeafLoop duplicateDeferred (left :: right :: worklist)
  | .thunk lazy :: worklist =>
    .deferred (duplicateDeferred lazy) (joinLogicalSuffix .empty worklist.reverse)
termination_by worklist => sizes worklist
decreasing_by all_goals simp only [sizes, size, List.map_cons, List.sum_cons]; omega

/-- The first strict leaf of a list, without forcing a lazy chunk. -/
def popFrontLeafStep (list : ListNode V T) (duplicateDeferred : T → D) : ListFrontLeafStep D V T :=
  popFrontLeafLoop duplicateDeferred [list]

/-- The descent to the last leaf. -/
def popBackLeafLoop (duplicateDeferred : T → D) :
    List (ListNode V T) → ListBackLeafStep D V T
  | [] => .empty
  | .empty :: worklist => popBackLeafLoop duplicateDeferred worklist
  | .bytes data :: worklist =>
    .leaf (joinLogicalPrefix .empty worklist.reverse) (.bytes data)
  | .values items :: worklist =>
    .leaf (joinLogicalPrefix .empty worklist.reverse) (.values items)
  | .finger chunks :: worklist =>
    .leaf (joinLogicalPrefix .empty worklist.reverse) (.finger chunks)
  | .concat left right :: worklist => popBackLeafLoop duplicateDeferred (right :: left :: worklist)
  | .thunk lazy :: worklist =>
    .deferred (joinLogicalPrefix .empty worklist.reverse) (duplicateDeferred lazy)
termination_by worklist => sizes worklist
decreasing_by all_goals simp only [sizes, size, List.map_cons, List.sum_cons]; omega

/-- The last strict leaf of a list, without forcing a lazy chunk. -/
def popBackLeafStep (list : ListNode V T) (duplicateDeferred : T → D) : ListBackLeafStep D V T :=
  popBackLeafLoop duplicateDeferred [list]

/-- A strict leaf's first item and the rest of it. -/
def popLeafFrontBy (duplicateValue : V → U) : ListNode V T → Option (ListItem U × ListNode V T)
  | .bytes data => do
    let byte ← data[0]?
    return (.byte byte, fromBytes (← slice data 1 data.length))
  | .values items => do
    let value ← items[0]?
    return (.value (duplicateValue value), fromValueSlice (← slice items 1 items.length))
  | .finger chunks => do
    let (chunk, rest) ← chunks.viewLeft
    let item ← chunk.itemAtBy 0 duplicateValue
    -- an empty remainder is dropped, so that no chunk of the tree is empty
    match ← chunk.slice 1 chunk.len with
    | some chunkTail => return (item, fromFinger (FingerList.pushLeft rest chunkTail))
    | none => return (item, fromFinger rest)
  | .empty | .concat .. | .thunk _ => none

/-- A strict leaf's last item and the rest of it. -/
def popLeafBackBy (duplicateValue : V → U) : ListNode V T → Option (ListNode V T × ListItem U)
  | .bytes data => do
    let before ← slice data 0 (data.length - 1)
    return (fromBytes before, .byte (← data[data.length - 1]?))
  | .values items => do
    let before ← slice items 0 (items.length - 1)
    return (fromValueSlice before, .value (duplicateValue (← items[items.length - 1]?)))
  | .finger chunks => do
    let (chunk, rest) ← chunks.viewRight
    let item ← chunk.itemAtBy (chunk.len - 1) duplicateValue
    match ← chunk.slice 0 (chunk.len - 1) with
    | some chunkInit => return (fromFinger (FingerList.pushRight rest chunkInit), item)
    | none => return (fromFinger rest, item)
  | .empty | .concat .. | .thunk _ => none

/-- Takes one item from the front of a list without forcing a lazy chunk. -/
def popFrontStepBy (list : ListNode V T) (duplicateValue : V → U) (duplicateDeferred : T → D) :
    Option (ListFrontStep U D V T) :=
  match list.popFrontLeafStep duplicateDeferred with
  | .empty => some .empty
  | .leaf leaf tail => do
    let (item, rest) ← leaf.popLeafFrontBy duplicateValue
    return .item item (join rest tail)
  | .deferred deferred suffix => some (.deferred deferred suffix)

/-- Takes one item from the back of a list without forcing a lazy chunk. -/
def popBackStepBy (list : ListNode V T) (duplicateValue : V → U) (duplicateDeferred : T → D) :
    Option (ListBackStep U D V T) :=
  match list.popBackLeafStep duplicateDeferred with
  | .empty => some .empty
  | .leaf init leaf => do
    let (rest, item) ← leaf.popLeafBackBy duplicateValue
    return .item (join init rest) item
  | .deferred before deferred => some (.deferred before deferred)

/-! ### Cutting and joining strict leaves -/

/-- Splits a finger tree at an index, within a chunk if need be. -/
def splitFingerAt (chunks : FingerList V) (index : Nat) :
    Option (FingerList V × FingerList V) :=
  if chunks.measure < index then none
  else if index = 0 then some ([], chunks)
  else if index = chunks.measure then some (chunks, [])
  else
    let (left, right) := chunks.split (fun measure => index < measure) 0
    if FingerList.measure left = index then some (left, right)
    else do
      let (chunk, tail) ← right.viewLeft
      let offset := index - FingerList.measure left
      let left := match ← chunk.slice 0 offset with
        | some chunkLeft => FingerList.pushRight left chunkLeft
        | none => left
      let right := match ← chunk.slice offset chunk.len with
        | some chunkRight => FingerList.pushLeft tail chunkRight
        | none => tail
      return (left, right)

/-- Cuts a strict leaf at an index. -/
def splitLeafAt (index : Nat) : ListNode V T → Option (ListNode V T × ListNode V T)
  | .empty => if index = 0 then some (.empty, .empty) else none
  | .bytes data => do
    return (fromBytes (← slice data 0 index), fromBytes (← slice data index data.length))
  | .values items => do
    let before ← slice items 0 index
    return (fromValueSlice before, fromValueSlice (← slice items index items.length))
  | .finger chunks => do
    let (left, right) ← splitFingerAt chunks index
    return (fromFinger left, fromFinger right)
  | .concat .. | .thunk _ => none

/-- Pieces shorter than this are copied into shared runs. -/
def ropeRunItems : Nat := 32

/-- The rope under construction and the runs not yet pushed. -/
structure Runs (V : Type) where
  rope : FingerList V
  byteRun : List UInt8
  valueRun : List V

namespace Runs

/-- Moves the bytes that were gathered to the rope, as one chunk. -/
def flushByteRun (runs : Runs V) : Runs V :=
  if runs.byteRun.isEmpty then runs
  else { runs with rope := FingerList.pushRight runs.rope (.bytes runs.byteRun), byteRun := [] }

/-- Moves the values that were gathered to the rope, as one chunk. -/
def flushValueRun (runs : Runs V) : Runs V :=
  if runs.valueRun.isEmpty then runs
  else { runs with rope := FingerList.pushRight runs.rope (.values runs.valueRun), valueRun := [] }

/-- Adds a leaf to the rope. Short leaves are gathered to runs, and long ones taken as they are. -/
def addPiece (duplicateValue : V → V) (runs : Runs V) : ListNode V T → Option (Runs V)
  | .bytes data =>
    if data.length < ropeRunItems then
      let runs := runs.flushValueRun
      let runs := { runs with byteRun := runs.byteRun ++ data }
      some (if ropeRunItems ≤ runs.byteRun.length then runs.flushByteRun else runs)
    else
      let runs := runs.flushByteRun.flushValueRun
      some { runs with rope := FingerList.pushRight runs.rope (.bytes data) }
  | .values items =>
    if items.length < ropeRunItems then
      let runs := runs.flushByteRun
      let runs := { runs with valueRun := runs.valueRun ++ items.map duplicateValue }
      some (if ropeRunItems ≤ runs.valueRun.length then runs.flushValueRun else runs)
    else
      let runs := runs.flushByteRun.flushValueRun
      some { runs with rope := FingerList.pushRight runs.rope (.values items) }
  | .finger chunks =>
    let runs := runs.flushByteRun.flushValueRun
    some { runs with rope := runs.rope ++ chunks }
  | .empty | .concat .. | .thunk _ => none

end Runs

/-- Joins strict leaves, in order, into a list shaped for indexing. -/
def joinStrictPieces (pieces : List (ListNode V T)) (duplicateValue : V → V) :
    Option (ListNode V T) :=
  match pieces.filter (!·.isEmpty) with
  | [] => some .empty
  | [piece] => some piece
  | pieces => do
    let runs ← pieces.foldlM (Runs.addPiece duplicateValue) ⟨[], [], []⟩
    let rope := runs.flushByteRun.flushValueRun.rope
    match rope with
    | [.bytes data] => return fromBytes data
    | [.values items] => return fromValueSlice items
    | rope => return fromFinger rope

end ListNode

end Glam
