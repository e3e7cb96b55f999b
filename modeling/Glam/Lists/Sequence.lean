import Glam.Lists.Rope

/-!
# What a list denotes

A list denotes a sequence of items and lazy chunks. The sequence lists a lazy chunk itself and not
what it may turn out to hold, so an operation that keeps the sequence has forced nothing.

`Strict` is the invariant of the smart constructors: no slice and no chunk is empty, no finger tree
is without chunks, no concatenation has an empty side. Each constructor and each cut gets one lemma
that says what the result denotes and that it is strict; the walks use these and never look inside.
-/

namespace Glam

variable {V U T S D : Type}

/-- A part of a sequence: an item, or a lazy chunk that stands for items not yet known. -/
inductive ListPart (V T : Type)
  | item (item : ListItem V)
  | deferred (deferred : T)
deriving DecidableEq

/-- An item as its reader duplicates it. -/
def ListItem.map (duplicateValue : V → U) : ListItem V → ListItem U
  | .byte b => .byte b
  | .value v => .value (duplicateValue v)

namespace ListChunk

/-- The items of a chunk. -/
def items : ListChunk V → List (ListItem V)
  | .bytes data => data.map .byte
  | .values slots => slots.map .value

@[simp] theorem length_items : ∀ chunk : ListChunk V, chunk.items.length = chunk.len
  | .bytes _ | .values _ => List.length_map ..

theorem itemAtBy_eq (chunk : ListChunk V) (index : Nat) (duplicateValue : V → U) :
    chunk.itemAtBy index duplicateValue =
      chunk.items[index]?.map (ListItem.map duplicateValue) := by
  cases chunk with
  | bytes data | values data =>
    cases h : data[index]? <;> simp [itemAtBy, items, ListItem.map, h]

/-- A slice of a chunk has the items between its bounds. -/
theorem slice_spec (chunk : ListChunk V) {start stop : Nat} (hle : start ≤ stop)
    (hstop : stop ≤ chunk.len) :
    ∃ part, chunk.slice start stop = some part ∧
      part.toList.flatMap items = (chunk.items.take stop).drop start ∧ ∀ c ∈ part, c.len ≠ 0 := by
  rcases Nat.eq_or_lt_of_le hle with rfl | hlt
  · refine ⟨none, by simp [slice, hstop], ?_, by simp⟩
    simp
  · have hne : start ≠ stop := Nat.ne_of_lt hlt
    have hlength : min stop chunk.len - start ≠ 0 := by omega
    cases chunk with
    | bytes data =>
      refine ⟨some (.bytes ((data.take stop).drop start)), ?_, ?_, ?_⟩
      · simp only [len] at hstop
        simp [slice, len, Glam.slice, hle, hstop, hne]
      · simp [items, List.map_take, List.map_drop]
      · simpa [len] using hlength
    | values slots =>
      refine ⟨some (.values ((slots.take stop).drop start)), ?_, ?_, ?_⟩
      · simp only [len] at hstop
        simp [slice, len, Glam.slice, hle, hstop, hne]
      · simp [items, List.map_take, List.map_drop]
      · simpa [len] using hlength

end ListChunk

variable {chunks : FingerList V}

namespace FingerList

/-- The items of a finger tree. -/
def items (chunks : FingerList V) : List (ListItem V) :=
  chunks.flatMap ListChunk.items

/-- No chunk of a finger tree is empty. -/
def Strict (chunks : FingerList V) : Prop :=
  ∀ chunk ∈ chunks, chunk.len ≠ 0

@[simp] theorem items_nil : items ([] : FingerList V) = [] := rfl

@[simp] theorem items_cons (chunk : ListChunk V) (chunks : FingerList V) :
    items (chunk :: chunks) = chunk.items ++ items chunks := by
  simp [items]

@[simp] theorem items_append (left right : FingerList V) :
    items (left ++ right) = items left ++ items right := by
  simp [items]

@[simp] theorem items_pushRight (chunks : FingerList V) (chunk : ListChunk V) :
    items (pushRight chunks chunk) = items chunks ++ chunk.items := by
  simp [pushRight]

theorem length_items (chunks : FingerList V) : (items chunks).length = measure chunks := by
  induction chunks with
  | nil => rfl
  | cons chunk chunks ih => simp [ih, measure]

@[simp] theorem strict_nil : Strict ([] : FingerList V) := by simp [Strict]

@[simp] theorem strict_cons {chunk : ListChunk V} :
    Strict (chunk :: chunks) ↔ chunk.len ≠ 0 ∧ Strict chunks := by
  simp [Strict]

@[simp] theorem strict_append {left right : FingerList V} :
    Strict (left ++ right) ↔ Strict left ∧ Strict right := by
  simp only [Strict, List.forall_mem_append]

@[simp] theorem strict_pushRight {chunk : ListChunk V} :
    Strict (pushRight chunks chunk) ↔ Strict chunks ∧ chunk.len ≠ 0 := by
  simp [pushRight]

theorem eq_nil_of_items (hstrict : chunks.Strict) (h : chunks.items = []) : chunks = [] := by
  cases chunks with
  | nil => rfl
  | cons =>
    have hlength := congrArg List.length h
    simp only [items_cons, List.length_append, ListChunk.length_items, List.length_nil] at hlength
    exact absurd (Nat.eq_zero_of_add_eq_zero_right hlength) (strict_cons.mp hstrict).1

/-- A split cuts the chunks in two, the front within the bound and the next chunk across it. -/
theorem split_spec {index : Nat} : ∀ {before : Nat} {chunks left right : FingerList V},
    split (fun measure => index < measure) before chunks = (left, right) → before ≤ index →
      left ++ right = chunks ∧ before + measure left ≤ index ∧
        ∀ chunk rest, right = chunk :: rest → index < before + measure left + chunk.len
  | before, [], left, right, h, hbefore => by
    obtain ⟨rfl, rfl⟩ := Prod.mk.inj h
    simpa [measure] using hbefore
  | before, chunk :: chunks, left, right, h, hbefore => by
    rw [split] at h
    split at h
    next hlt =>
      obtain ⟨rfl, rfl⟩ := Prod.mk.inj h
      simpa [measure, hbefore] using hlt
    next hle =>
      obtain ⟨rfl, rfl⟩ := Prod.mk.inj h
      obtain ⟨happend, hfront, hnext⟩ := split_spec rfl (by simpa using hle)
      have hmeasure : ∀ rest : FingerList V, measure (chunk :: rest) = chunk.len + measure rest :=
        fun rest => by simp [measure]
      refine ⟨by rw [List.cons_append, happend], ?_, fun next rest hrest => ?_⟩
      · rw [hmeasure, ← Nat.add_assoc]
        exact hfront
      · rw [hmeasure, ← Nat.add_assoc]
        exact hnext next rest hrest

end FingerList

namespace ListNode

/-- **The sequence a list denotes.** -/
def sequence : ListNode V T → List (ListPart V T)
  | .empty => []
  | .bytes data => (ListChunk.bytes data).items.map .item
  | .values items => (ListChunk.values items).items.map .item
  | .concat left right => left.sequence ++ right.sequence
  | .finger chunks => chunks.items.map .item
  | .thunk lazy => [.deferred lazy]

/-- **No leaf and no chunk of a list is empty**, and no concatenation has an empty side. -/
def Strict : ListNode V T → Prop
  | .empty => True
  | .bytes data => data ≠ []
  | .values items => items ≠ []
  | .concat left right =>
    (left.Strict ∧ left.isEmpty = false) ∧ right.Strict ∧ right.isEmpty = false
  | .finger chunks => chunks ≠ [] ∧ chunks.Strict
  | .thunk _ => True

/-- A strict leaf: a byte slice, a value slice or a finger tree. -/
def IsLeaf : ListNode V T → Prop
  | .bytes _ | .values _ | .finger _ => True
  | .empty | .concat .. | .thunk _ => False

/-- What a worklist of lists denotes, its top first. -/
def spread (worklist : List (ListNode V T)) : List (ListPart V T) :=
  worklist.flatMap sequence

@[simp] theorem spread_nil : spread ([] : List (ListNode V T)) = [] := rfl

@[simp] theorem spread_cons (list : ListNode V T) (worklist : List (ListNode V T)) :
    spread (list :: worklist) = list.sequence ++ spread worklist := by
  simp [spread]

@[simp] theorem spread_append (front back : List (ListNode V T)) :
    spread (front ++ back) = spread front ++ spread back := by
  simp [spread]

@[simp] theorem sequence_empty : (.empty : ListNode V T).sequence = [] := rfl

@[simp] theorem strict_empty : (.empty : ListNode V T).Strict := trivial

theorem eq_empty_of_isEmpty : ∀ {list : ListNode V T}, list.isEmpty = true → list = .empty
  | .empty, _ => rfl

/-- `isEmpty` looks at the root only; a strict list that denotes nothing has nothing else. -/
theorem Strict.isEmpty_iff : ∀ {list : ListNode V T}, list.Strict →
    (list.isEmpty = true ↔ list.sequence = [])
  | .empty, _ => by simp [isEmpty]
  | .bytes data, h => by simpa [isEmpty, sequence, ListChunk.items, Strict] using h
  | .values items, h => by simpa [isEmpty, sequence, ListChunk.items, Strict] using h
  | .thunk lazy, _ => by simp [isEmpty, sequence]
  | .finger chunks, h => by
    simp only [isEmpty, sequence, Bool.false_eq_true, List.map_eq_nil_iff, false_iff]
    exact fun hnil => h.1 (FingerList.eq_nil_of_items h.2 hnil)
  | .concat left right, h => by
    have hleft := h.1.1.isEmpty_iff
    simp only [h.1.2, Bool.false_eq_true, false_iff] at hleft
    simp [isEmpty, sequence, hleft]

/-! ### The smart constructors -/

@[simp] theorem strict_fromBytes (data : List UInt8) : (fromBytes data : ListNode V T).Strict := by
  cases data <;> simp [fromBytes, Strict]

@[simp] theorem sequence_fromBytes (data : List UInt8) :
    (fromBytes data : ListNode V T).sequence = (ListChunk.bytes data).items.map .item := by
  cases data <;> rfl

@[simp] theorem strict_fromValues (items : List V) : (fromValues items : ListNode V T).Strict := by
  cases items <;> simp [fromValues, Strict]

theorem fromValueSlice_eq (items : List V) :
    (fromValueSlice items : ListNode V T) = fromValues items := by
  cases items <;> rfl

@[simp] theorem sequence_fromValues (items : List V) :
    (fromValues items : ListNode V T).sequence = (ListChunk.values items).items.map .item := by
  cases items <;> rfl

theorem strict_fromFinger (h : chunks.Strict) : (fromFinger chunks : ListNode V T).Strict := by
  cases chunks with
  | nil => exact strict_empty
  | cons chunk chunks => exact ⟨List.cons_ne_nil chunk chunks, h⟩

@[simp] theorem sequence_fromFinger (chunks : FingerList V) :
    (fromFinger chunks : ListNode V T).sequence = chunks.items.map .item := by
  cases chunks <;> rfl

theorem strict_fromThunk (lazy : T) : (fromThunk lazy : ListNode V T).Strict := trivial

@[simp] theorem sequence_join (left right : ListNode V T) :
    (join left right).sequence = left.sequence ++ right.sequence := by
  unfold join
  split
  · next h => rw [eq_empty_of_isEmpty h, sequence_empty, List.nil_append]
  · split
    · next h => rw [eq_empty_of_isEmpty h, sequence_empty, List.append_nil]
    · rfl

theorem strict_join {left right : ListNode V T} (hleft : left.Strict) (hright : right.Strict) :
    (join left right).Strict := by
  unfold join
  split
  · exact hright
  · next hnot =>
    split
    · exact hleft
    · next hnot' => exact ⟨⟨hleft, by simpa using hnot⟩, hright, by simpa using hnot'⟩

theorem strict_concatPairs : ∀ {lists : List (ListNode V T)}, (∀ list ∈ lists, list.Strict) →
    ∀ list ∈ concatPairs lists, list.Strict
  | [], h | [_], h => h
  | left :: right :: rest, h => by
    simp only [List.forall_mem_cons] at h
    exact List.forall_mem_cons.mpr ⟨strict_join h.1 h.2.1, strict_concatPairs h.2.2⟩

theorem spread_concatPairs : ∀ lists : List (ListNode V T), spread (concatPairs lists) = spread lists
  | [] | [_] => rfl
  | left :: right :: rest => by simp [concatPairs, spread_concatPairs rest]

theorem strict_concatBalanced {lists : List (ListNode V T)} (h : ∀ list ∈ lists, list.Strict) :
    (concatBalanced lists).Strict := by
  fun_induction concatBalanced lists with
  | case1 => exact strict_empty
  | case2 root => exact h root (List.mem_singleton_self root)
  | case3 left right rest ih => exact ih (strict_concatPairs h)

/-- Each round of `concatBalanced` joins neighbours, so the order is kept. -/
@[simp] theorem sequence_concatBalanced (lists : List (ListNode V T)) :
    (concatBalanced lists).sequence = spread lists := by
  fun_induction concatBalanced lists with
  | case1 => rfl
  | case2 root => simp
  | case3 left right rest ih => rw [ih, spread_concatPairs]

end ListNode

end Glam
