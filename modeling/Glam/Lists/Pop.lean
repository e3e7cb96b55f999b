import Glam.Lib.Spec
import Glam.Lists.Sequence

/-!
# Popping, cutting and joining lists

Each operation of `list.rs` that takes a list apart gives back strict parts whose sequences make up
the sequence of the whole. A pop walks a tree of concatenations with a worklist; what the worklist
denotes never changes while the loop turns (`popFrontLeafLoop_spec`, `popBackLeafLoop_spec`), and at
the leaf it stops at, the siblings still pending are joined again in their order.

`Built` is inductive over the operations, so every rope the program can make is strict
(`Built.strict`). That no operation on a built rope meets an empty slice is then a consequence, and
the pops return. -/

namespace Glam.ListNode

variable {V U T S D : Type}

/-! ### Joining what is pending -/

@[simp] theorem sequence_joinLogicalSuffix (worklist : List (ListNode V T)) :
    (joinLogicalSuffix .empty worklist.reverse).sequence = spread worklist := by
  rw [joinLogicalSuffix, List.foldl_reverse, sequence_join]
  induction worklist with
  | nil => rfl
  | cons list worklist ih => simpa using ih

theorem strict_joinLogicalSuffix {worklist : List (ListNode V T)}
    (h : ∀ list ∈ worklist, list.Strict) : (joinLogicalSuffix .empty worklist.reverse).Strict := by
  rw [joinLogicalSuffix, List.foldl_reverse]
  refine strict_join strict_empty ?_
  induction worklist with
  | nil => exact strict_empty
  | cons list worklist ih =>
    obtain ⟨hlist, hworklist⟩ := List.forall_mem_cons.mp h
    exact strict_join hlist (ih hworklist)

/-- The stack of a back pop has the nearest sibling first, so it is joined in reverse. -/
@[simp] theorem sequence_joinLogicalPrefix (worklist : List (ListNode V T)) :
    (joinLogicalPrefix .empty worklist.reverse).sequence = spread worklist.reverse := by
  rw [joinLogicalPrefix, List.foldl_reverse, sequence_join, sequence_empty, List.append_nil]
  induction worklist with
  | nil => rfl
  | cons list worklist ih => simp [ih]

theorem strict_joinLogicalPrefix {worklist : List (ListNode V T)}
    (h : ∀ list ∈ worklist, list.Strict) : (joinLogicalPrefix .empty worklist.reverse).Strict := by
  rw [joinLogicalPrefix, List.foldl_reverse]
  refine strict_join ?_ strict_empty
  induction worklist with
  | nil => exact strict_empty
  | cons list worklist ih =>
    obtain ⟨hlist, hworklist⟩ := List.forall_mem_cons.mp h
    exact strict_join (ih hworklist) hlist

/-! ### The first and the last leaf -/

/-- What a leaf step at the front says about the list it was taken from. -/
def FrontLeafStep (duplicateDeferred : T → D) (whole : List (ListPart V T)) :
    ListFrontLeafStep D V T → Prop
  | .empty => whole = []
  | .leaf leaf tail =>
    leaf.IsLeaf ∧ leaf.Strict ∧ tail.Strict ∧ whole = leaf.sequence ++ tail.sequence
  | .deferred deferred suffix =>
    suffix.Strict ∧
      ∃ lazy, deferred = duplicateDeferred lazy ∧ whole = .deferred lazy :: suffix.sequence

/-- What a leaf step at the back says about the list it was taken from. -/
def BackLeafStep (duplicateDeferred : T → D) (whole : List (ListPart V T)) :
    ListBackLeafStep D V T → Prop
  | .empty => whole = []
  | .leaf init leaf =>
    leaf.IsLeaf ∧ leaf.Strict ∧ init.Strict ∧ whole = init.sequence ++ leaf.sequence
  | .deferred before deferred =>
    before.Strict ∧
      ∃ lazy, deferred = duplicateDeferred lazy ∧ whole = before.sequence ++ [.deferred lazy]

/-- The descent finds the first item, or what is deferred before it. -/
theorem popFrontLeafLoop_spec (duplicateDeferred : T → D) (worklist : List (ListNode V T))
    (h : ∀ list ∈ worklist, list.Strict) :
    FrontLeafStep duplicateDeferred (spread worklist)
      (popFrontLeafLoop duplicateDeferred worklist) := by
  fun_induction popFrontLeafLoop duplicateDeferred worklist with
  | case1 => rfl
  | case2 worklist ih => exact ih (List.forall_mem_cons.mp h).2
  | case3 data worklist | case4 items worklist | case5 chunks worklist =>
    -- every branch that stops joins the siblings below the top again
    obtain ⟨hfirst, hrest⟩ := List.forall_mem_cons.mp h
    exact ⟨trivial, hfirst, strict_joinLogicalSuffix hrest, by simp⟩
  | case6 left right worklist ih =>
    -- a concatenation puts its two parts on the worklist, the left one on top
    simp only [List.forall_mem_cons] at h ih
    have := ih ⟨h.1.1.1, h.1.2.1, h.2⟩
    simpa [sequence] using this
  | case7 lazy worklist =>
    exact ⟨strict_joinLogicalSuffix (List.forall_mem_cons.mp h).2, lazy, rfl, by simp [sequence]⟩

/-- The descent finds the last item, or what is deferred after it. -/
theorem popBackLeafLoop_spec (duplicateDeferred : T → D) (worklist : List (ListNode V T))
    (h : ∀ list ∈ worklist, list.Strict) :
    BackLeafStep duplicateDeferred (spread worklist.reverse)
      (popBackLeafLoop duplicateDeferred worklist) := by
  fun_induction popBackLeafLoop duplicateDeferred worklist with
  | case1 => rfl
  | case2 worklist ih => simpa using ih (List.forall_mem_cons.mp h).2
  | case3 data worklist | case4 items worklist | case5 chunks worklist =>
    obtain ⟨hfirst, hrest⟩ := List.forall_mem_cons.mp h
    exact ⟨trivial, hfirst, strict_joinLogicalPrefix hrest, by simp⟩
  | case6 left right worklist ih =>
    -- here the right part is on top, and the worklist denotes its lists in reverse
    simp only [List.forall_mem_cons] at h ih
    have := ih ⟨h.1.2.1, h.1.1.1, h.2⟩
    simpa [sequence] using this
  | case7 lazy worklist =>
    exact ⟨strict_joinLogicalPrefix (List.forall_mem_cons.mp h).2, lazy, rfl, by simp [sequence]⟩

theorem popFrontLeafStep_spec {list : ListNode V T} (duplicateDeferred : T → D)
    (h : list.Strict) :
    FrontLeafStep duplicateDeferred list.sequence (list.popFrontLeafStep duplicateDeferred) := by
  simpa [popFrontLeafStep] using popFrontLeafLoop_spec duplicateDeferred [list] (by simpa using h)

theorem popBackLeafStep_spec {list : ListNode V T} (duplicateDeferred : T → D)
    (h : list.Strict) :
    BackLeafStep duplicateDeferred list.sequence (list.popBackLeafStep duplicateDeferred) := by
  simpa [popBackLeafStep] using popBackLeafLoop_spec duplicateDeferred [list] (by simpa using h)

/-! ### The first and the last item -/

/-- A leaf has a first item. -/
theorem popLeafFrontBy_spec (duplicateValue : V → U) : ∀ {leaf : ListNode V T}, leaf.IsLeaf →
    leaf.Strict → ∃ first rest,
      leaf.popLeafFrontBy duplicateValue = some (ListItem.map duplicateValue first, rest) ∧
        rest.Strict ∧ leaf.sequence = .item first :: rest.sequence
  | .bytes [], _, h => absurd rfl h
  | .bytes (byte :: data), _, _ =>
    ⟨.byte byte, fromBytes data, by simp [popLeafFrontBy, slice, ListItem.map], by simp,
      by simp [sequence, ListChunk.items]⟩
  | .values [], _, h => absurd rfl h
  | .values (value :: items), _, _ =>
    ⟨.value value, fromValueSlice items, by simp [popLeafFrontBy, slice, ListItem.map],
      by simp [fromValueSlice_eq], by simp [fromValueSlice_eq, sequence, ListChunk.items]⟩
  | .finger [], _, h => absurd rfl h.1
  | .finger (chunk :: chunks), _, h => by
    obtain ⟨hlen, hchunks⟩ := FingerList.strict_cons.mp h.2
    -- what is left of the first chunk goes back in front, unless nothing is left of it
    obtain ⟨part, hslice, hpart, hstrict⟩ :=
      chunk.slice_spec (Nat.one_le_iff_ne_zero.mpr hlen) (Nat.le_refl _)
    obtain ⟨first, rest, hitems⟩ : ∃ first rest, chunk.items = first :: rest := by
      apply List.exists_cons_of_length_pos
      rw [ListChunk.length_items]
      omega
    rw [← ListChunk.length_items, List.take_length, hitems, List.drop_one, List.tail_cons] at hpart
    refine ⟨first, fromFinger (part.toList ++ chunks), ?_, ?_, ?_⟩
    · cases part <;>
        simp [popLeafFrontBy, FingerList.viewLeft, ListChunk.itemAtBy_eq, hitems, hslice,
          FingerList.pushLeft]
    · refine strict_fromFinger (FingerList.strict_append.mpr ⟨?_, hchunks⟩)
      simpa [FingerList.Strict] using hstrict
    · simp [sequence, FingerList.items, hpart, hitems]

theorem exists_append_singleton {α : Type} {items : List α} (h : items ≠ []) :
    ∃ before last, items = before ++ [last] :=
  ⟨_, _, (List.dropLast_append_getLast h).symm⟩

/-- A leaf has a last item. -/
theorem popLeafBackBy_spec (duplicateValue : V → U) : ∀ {leaf : ListNode V T}, leaf.IsLeaf →
    leaf.Strict → ∃ rest last,
      leaf.popLeafBackBy duplicateValue = some (rest, ListItem.map duplicateValue last) ∧
        rest.Strict ∧ leaf.sequence = rest.sequence ++ [.item last]
  | .bytes data, _, h => by
    obtain ⟨before, last, rfl⟩ := exists_append_singleton h
    exact ⟨fromBytes before, .byte last, by simp [popLeafBackBy, slice, ListItem.map], by simp,
      by simp [sequence, ListChunk.items]⟩
  | .values items, _, h => by
    obtain ⟨before, last, rfl⟩ := exists_append_singleton h
    exact ⟨fromValueSlice before, .value last, by simp [popLeafBackBy, slice, ListItem.map],
      by simp [fromValueSlice_eq], by simp [fromValueSlice_eq, sequence, ListChunk.items]⟩
  | .finger chunks, _, h => by
    obtain ⟨before, chunk, rfl⟩ := exists_append_singleton h.1
    obtain ⟨hbefore, hlen⟩ := FingerList.strict_pushRight.mp h.2
    obtain ⟨part, hslice, hpart, hstrict⟩ :=
      chunk.slice_spec (Nat.zero_le (chunk.len - 1)) (Nat.sub_le ..)
    obtain ⟨rest, last, hitems⟩ : ∃ rest last, chunk.items = rest ++ [last] := by
      refine exists_append_singleton fun hnil => hlen ?_
      rw [← ListChunk.length_items, hnil, List.length_nil]
    have hlength : chunk.len = rest.length + 1 := by
      rw [← ListChunk.length_items, hitems, List.length_append, List.length_singleton]
    rw [hlength, hitems, List.drop_zero, Nat.add_sub_cancel, List.take_left' rfl] at hpart
    rw [hlength, Nat.add_sub_cancel] at hslice
    refine ⟨fromFinger (before ++ part.toList), last, ?_, ?_, ?_⟩
    · cases part <;>
        simp [popLeafBackBy, FingerList.viewRight, ListChunk.itemAtBy_eq, hitems, hslice, hlength,
          FingerList.pushRight]
    · refine strict_fromFinger (FingerList.strict_append.mpr ⟨hbefore, ?_⟩)
      simpa [FingerList.Strict] using hstrict
    · simp [sequence, FingerList.items, hpart, hitems]

/-! ### Cuts and joins -/

/-- A split at an index splits the items there. -/
theorem splitFingerAt_spec {chunks : FingerList V} (hstrict : chunks.Strict) {index : Nat}
    {left right : FingerList V} (h : splitFingerAt chunks index = some (left, right)) :
    left.Strict ∧ right.Strict ∧ left.items = chunks.items.take index ∧
      right.items = chunks.items.drop index := by
  unfold splitFingerAt at h
  split at h
  · cases h
  next =>
  split at h
  next hzero =>
    cases h
    simp [hzero, hstrict]
  split at h
  next heq =>
    cases h
    rw [heq, ← FingerList.length_items]
    simp [hstrict]
  -- the index is inside: it falls between two chunks or into the first one of `back`
  obtain ⟨front, back, hsplit⟩ : ∃ front back,
      FingerList.split (fun measure => index < measure) 0 chunks = (front, back) := ⟨_, _, rfl⟩
  obtain ⟨rfl, hfront, hnext⟩ := FingerList.split_spec hsplit (Nat.zero_le index)
  obtain ⟨hfrontStrict, hbackStrict⟩ := FingerList.strict_append.mp hstrict
  rw [Nat.zero_add] at hfront
  rw [hsplit] at h
  dsimp only at h
  split at h
  next heq =>
    cases h
    rw [← FingerList.length_items] at heq
    simp [hfrontStrict, hbackStrict, ← heq]
  next =>
  cases back with
  | nil => cases h
  | cons chunk tail =>
    have hnext := hnext chunk tail rfl
    obtain ⟨hchunk, htail⟩ := FingerList.strict_cons.mp hbackStrict
    obtain ⟨leftPart, hleftSlice, hleftItems, hleftStrict⟩ :=
      chunk.slice_spec (Nat.zero_le (index - FingerList.measure front)) (by omega)
    have hoffset : index - FingerList.measure front ≤ chunk.len := by omega
    obtain ⟨rightPart, hrightSlice, hrightItems, hrightStrict⟩ :=
      chunk.slice_spec hoffset (Nat.le_refl chunk.len)
    have hparts : left = front ++ leftPart.toList ∧ right = rightPart.toList ++ tail := by
      simp only [FingerList.viewLeft, Option.bind_eq_bind, Option.bind_some, hleftSlice,
        hrightSlice, Option.pure_def, Option.some.injEq, Prod.mk.injEq] at h
      obtain ⟨rfl, rfl⟩ := h
      cases leftPart <;> cases rightPart <;>
        simp [FingerList.pushLeft, FingerList.pushRight]
    obtain ⟨rfl, rfl⟩ := hparts
    -- measures become lengths of item lists, on which cutting is taking and dropping
    rw [← FingerList.length_items] at hfront hleftItems hrightItems hoffset
    rw [← ListChunk.length_items] at hoffset
    rw [List.drop_zero] at hleftItems
    rw [← ListChunk.length_items, List.take_length] at hrightItems
    refine ⟨?_, ?_, ?_, ?_⟩
    · refine FingerList.strict_append.mpr ⟨hfrontStrict, ?_⟩
      simpa [FingerList.Strict] using hleftStrict
    · refine FingerList.strict_append.mpr ⟨?_, htail⟩
      simpa [FingerList.Strict] using hrightStrict
    · have hleft : FingerList.items leftPart.toList = chunk.items.take _ := hleftItems
      rw [FingerList.items_append, FingerList.items_append, FingerList.items_cons, hleft,
        List.take_append, List.take_of_length_le hfront, List.take_append_of_le_length hoffset]
    · have hright : FingerList.items rightPart.toList = chunk.items.drop _ := hrightItems
      rw [FingerList.items_append, FingerList.items_append, FingerList.items_cons, hright,
        List.drop_append, List.drop_eq_nil_of_le hfront, List.drop_append_of_le_length hoffset,
        List.nil_append]

/-- A cut leaves strict parts that denote what stands before and after the index. -/
theorem splitLeafAt_spec {index : Nat} : ∀ {leaf left right : ListNode V T}, leaf.Strict →
    leaf.splitLeafAt index = some (left, right) →
    left.Strict ∧ right.Strict ∧ left.sequence = leaf.sequence.take index ∧
      right.sequence = leaf.sequence.drop index
  | .empty, left, right, _, h => by
    obtain ⟨-, heq⟩ := Option.ite_none_right_eq_some.mp h
    cases heq
    simp
  | .bytes data, left, right, _, h => by
    simp only [splitLeafAt, slice, Nat.zero_le, true_and, Nat.le_refl, and_true,
      List.take_length] at h
    split at h
    next =>
      cases h
      simp [sequence, ListChunk.items, List.map_take, List.map_drop]
    next => cases h
  | .values items, left, right, _, h => by
    simp only [splitLeafAt, slice, Nat.zero_le, true_and, Nat.le_refl, and_true,
      List.take_length] at h
    split at h
    next =>
      cases h
      simp [fromValueSlice_eq, sequence, ListChunk.items, List.map_take, List.map_drop]
    next => cases h
  | .finger chunks, left, right, hstrict, h => by
    obtain ⟨⟨front, back⟩, hsplit, heq⟩ := Option.bind_eq_some_iff.mp h
    cases heq
    obtain ⟨hfront, hback, htake, hdrop⟩ := splitFingerAt_spec hstrict.2 hsplit
    refine ⟨strict_fromFinger hfront, strict_fromFinger hback, ?_, ?_⟩
    · rw [sequence_fromFinger, htake, sequence, List.map_take]
    · rw [sequence_fromFinger, hdrop, sequence, List.map_drop]

namespace Runs

/-- The rope under construction has no empty chunk, and denotes with its runs what was added. At
most one run is open. -/
structure Holds (runs : Runs V) (items : List (ListItem V)) : Prop where
  strict : runs.rope.Strict
  items : runs.rope.items ++ runs.byteRun.map .byte ++ runs.valueRun.map .value = items
  single : runs.byteRun = [] ∨ runs.valueRun = []

/-- Moving a run to the rope keeps the items. -/
theorem Holds.flushByteRun {runs : Runs V} {items : List (ListItem V)} (h : runs.Holds items) :
    runs.flushByteRun.Holds items ∧ runs.flushByteRun.byteRun = [] := by
  obtain ⟨rope, byteRun, valueRun⟩ := runs
  cases byteRun with
  | nil => exact ⟨h, rfl⟩
  | cons byte data =>
    -- at most one run is open, so these bytes were added last
    obtain rfl : valueRun = [] := h.single.resolve_left (List.cons_ne_nil byte data)
    refine ⟨⟨FingerList.strict_pushRight.mpr ⟨h.strict, by simp [ListChunk.len]⟩, ?_,
      .inl rfl⟩, rfl⟩
    rw [← h.items]
    simp [Runs.flushByteRun, ListChunk.items]

theorem Holds.flushValueRun {runs : Runs V} {items : List (ListItem V)} (h : runs.Holds items) :
    runs.flushValueRun.Holds items ∧ runs.flushValueRun.valueRun = [] := by
  obtain ⟨rope, byteRun, valueRun⟩ := runs
  cases valueRun with
  | nil => exact ⟨h, rfl⟩
  | cons value values =>
    obtain rfl : byteRun = [] := h.single.resolve_right (List.cons_ne_nil value values)
    refine ⟨⟨FingerList.strict_pushRight.mpr ⟨h.strict, by simp [ListChunk.len]⟩, ?_,
      .inl rfl⟩, rfl⟩
    rw [← h.items]
    simp [Runs.flushValueRun, ListChunk.items]

/-- With both runs flushed the rope alone denotes what was added. -/
theorem Holds.flush {runs : Runs V} {items : List (ListItem V)} (h : runs.Holds items) :
    runs.flushByteRun.flushValueRun.Holds items ∧
      runs.flushByteRun.flushValueRun.byteRun = [] ∧
        runs.flushByteRun.flushValueRun.valueRun = [] := by
  obtain ⟨hbyte, hempty⟩ := h.flushByteRun
  obtain ⟨hvalue, hempty'⟩ := hbyte.flushValueRun
  refine ⟨hvalue, ?_, hempty'⟩
  rw [← hempty]
  unfold Runs.flushValueRun
  split <;> rfl

/-- Adding a piece adds its items at the end, whichever run they join. -/
theorem Holds.addPiece {runs : Runs V} {items : List (ListItem V)} (h : runs.Holds items)
    (duplicateValue : V → V) : ∀ {piece : ListNode V T} {added : Runs V}, piece.Strict →
    runs.addPiece duplicateValue piece = some added →
    ∃ more, added.Holds (items ++ more) ∧
      (duplicateValue = id → piece.sequence = more.map .item)
  | .bytes data, added, hstrict, hadd => by
    refine ⟨data.map .byte, ?_, fun _ => rfl⟩
    simp only [Runs.addPiece] at hadd
    -- a short piece joins the open run of its kind, a long one becomes a chunk of its own
    split at hadd
    · obtain ⟨hflush, hempty⟩ := h.flushValueRun
      have hrun : Holds { runs.flushValueRun with byteRun := runs.flushValueRun.byteRun ++ data }
          (items ++ data.map .byte) :=
        ⟨hflush.strict, by simp [← hflush.items, hempty], .inr hempty⟩
      cases hadd
      split
      · exact hrun.flushByteRun.1
      · exact hrun
    · obtain ⟨hflush, hbytes, hvalues⟩ := h.flush
      cases hadd
      refine ⟨FingerList.strict_pushRight.mpr ⟨hflush.strict, ?_⟩, ?_, .inl hbytes⟩
      · simpa [ListChunk.len, ListNode.Strict] using hstrict
      · simp [← hflush.items, hbytes, hvalues, ListChunk.items]
  | .values slots, added, hstrict, hadd => by
    simp only [Runs.addPiece] at hadd
    split at hadd
    · obtain ⟨hflush, hempty⟩ := h.flushByteRun
      have hrun : Holds { runs.flushByteRun with
          valueRun := runs.flushByteRun.valueRun ++ slots.map duplicateValue }
          (items ++ (slots.map duplicateValue).map .value) :=
        ⟨hflush.strict, by simp [← hflush.items, hempty], .inl hempty⟩
      refine ⟨(slots.map duplicateValue).map .value, ?_, fun hid => ?_⟩
      · cases hadd
        split
        · exact hrun.flushValueRun.1
        · exact hrun
      · rw [hid, List.map_id]
        rfl
    · obtain ⟨hflush, hbytes, hvalues⟩ := h.flush
      refine ⟨slots.map .value, ?_, fun _ => rfl⟩
      cases hadd
      refine ⟨FingerList.strict_pushRight.mpr ⟨hflush.strict, ?_⟩, ?_, .inl hbytes⟩
      · simpa [ListChunk.len, ListNode.Strict] using hstrict
      · simp [← hflush.items, hbytes, hvalues, ListChunk.items]
  | .finger chunks, added, hstrict, hadd => by
    obtain ⟨hflush, hbytes, hvalues⟩ := h.flush
    refine ⟨chunks.items, ?_, fun _ => rfl⟩
    cases hadd
    refine ⟨FingerList.strict_append.mpr ⟨hflush.strict, hstrict.2⟩, ?_, .inl hbytes⟩
    simp [← hflush.items, hbytes, hvalues]

/-- Runs hold the items of the pieces added to them. -/
theorem Holds.addPieces (duplicateValue : V → V) : ∀ {pieces : List (ListNode V T)} {runs : Runs V}
    {items : List (ListItem V)} {added : Runs V}, runs.Holds items →
    (∀ piece ∈ pieces, piece.Strict) →
    pieces.foldlM (Runs.addPiece duplicateValue) runs = some added →
    ∃ more, added.Holds (items ++ more) ∧ (duplicateValue = id → spread pieces = more.map .item)
  | [], runs, items, added, h, _, hadd => by
    cases hadd
    exact ⟨[], by simpa using h, fun _ => rfl⟩
  | piece :: pieces, runs, items, added, h, hstrict, hadd => by
    rw [List.foldlM_cons] at hadd
    obtain ⟨next, hnext, hrest⟩ := Option.bind_eq_some_iff.mp hadd
    obtain ⟨hpiece, hpieces⟩ := List.forall_mem_cons.mp hstrict
    obtain ⟨more, hmore, hseq⟩ := h.addPiece duplicateValue hpiece hnext
    obtain ⟨others, hothers, hseqs⟩ := hmore.addPieces duplicateValue hpieces hrest
    refine ⟨more ++ others, by rwa [← List.append_assoc], fun hid => ?_⟩
    rw [spread_cons, hseq hid, hseqs hid, List.map_append]

end Runs

theorem spread_filter : ∀ pieces : List (ListNode V T),
    spread (pieces.filter (!·.isEmpty)) = spread pieces
  | [] => rfl
  | piece :: pieces => by
    cases h : piece.isEmpty with
    | true =>
      obtain rfl := eq_empty_of_isEmpty h
      simpa [isEmpty] using spread_filter pieces
    | false => simp [h, spread_filter pieces]

/-- The rope of some pieces is strict, and has their items. -/
theorem joinStrictPieces_spec {pieces : List (ListNode V T)} {duplicateValue : V → V}
    {list : ListNode V T} (hstrict : ∀ piece ∈ pieces, piece.Strict)
    (h : joinStrictPieces pieces duplicateValue = some list) :
    list.Strict ∧ (duplicateValue = id → list.sequence = spread pieces) := by
  unfold joinStrictPieces at h
  have hfilter : ∀ piece ∈ pieces.filter (!·.isEmpty), piece.Strict :=
    fun piece hmem => hstrict piece (List.mem_of_mem_filter hmem)
  rw [← spread_filter pieces]
  generalize pieces.filter (!·.isEmpty) = kept at h hfilter
  match kept, h with
  | [], h =>
    cases h
    exact ⟨strict_empty, fun _ => rfl⟩
  | [piece], h =>
    cases h
    exact ⟨hfilter list (List.mem_singleton_self list), fun _ => by simp⟩
  | first :: second :: rest, h =>
    -- two or more pieces are copied into runs, which start out empty and are flushed at the end
    obtain ⟨runs, hruns, hlist⟩ := Option.bind_eq_some_iff.mp h
    have hstart : Runs.Holds (⟨[], [], []⟩ : Runs V) [] := ⟨FingerList.strict_nil, rfl, .inl rfl⟩
    obtain ⟨more, hmore, hseq⟩ := hstart.addPieces duplicateValue hfilter hruns
    obtain ⟨hflush, hbytes, hvalues⟩ := hmore.flush
    have hitems := hflush.items
    rw [hbytes, hvalues, List.map_nil, List.map_nil, List.append_nil, List.append_nil,
      List.nil_append] at hitems
    have hrope := hflush.strict
    generalize runs.flushByteRun.flushValueRun.rope = rope at hlist hitems hrope
    have hresult : list.Strict ∧ list.sequence = rope.items.map .item := by
      dsimp only at hlist
      split at hlist <;> cases hlist
      · exact ⟨strict_fromBytes _, by simp⟩
      · exact ⟨by simp [fromValueSlice_eq], by simp [fromValueSlice_eq]⟩
      · exact ⟨strict_fromFinger hrope, sequence_fromFinger _⟩
    exact ⟨hresult.1, fun hid => by rw [hresult.2, hitems, hseq hid]⟩

/-! ### Root steps -/

theorem length_mapM {σ α β : Type} (f : α → StateM σ β) : ∀ (items : List α) (state : σ),
    (items.mapM f state).1.length = items.length
  | [], _ => rfl
  | item :: items, state => by
    rw [List.mapM_cons]
    exact congrArg (· + 1) (length_mapM f items (f item state).2)

theorem forall_mapM {σ α β : Type} {P : β → Prop} {f : α → StateM σ β} :
    ∀ {items : List α} (_ : ∀ item ∈ items, ∀ state, P (f item state).1) (state : σ),
      ∀ result ∈ (items.mapM f state).1, P result
  | [], _, _ => nofun
  | item :: items, h, state => by
    obtain ⟨hitem, hitems⟩ := List.forall_mem_cons.mp h
    rw [List.mapM_cons]
    exact List.forall_mem_cons.mpr ⟨hitem state, forall_mapM hitems _⟩

/-- What holds of each result of a traversal. -/
theorem forall_mapM_ok {σ E α β : Type} {P : β → Prop} {f : α → StateT σ (Except E) β}
    (hf : ∀ item state result, f item state = .ok result → P result.1) :
    ∀ {items : List α} {state : σ} {results : List β × σ},
      items.mapM f state = .ok results → ∀ result ∈ results.1, P result
  | [], state, results, h => by
    cases h
    simp
  | item :: items, state, results, h => by
    rw [List.mapM_cons] at h
    obtain ⟨first, hfirst, h⟩ := Except.bind_eq_ok h
    obtain ⟨rest, hrest, h⟩ := Except.bind_eq_ok h
    cases h
    exact List.forall_mem_cons.mpr ⟨hf _ _ _ hfirst, forall_mapM_ok hf hrest⟩

theorem foldl_pushRight : ∀ (mapped : List (List V)) (rope : FingerList V),
    mapped.foldl (fun rope values => FingerList.pushRight rope (.values values)) rope =
      rope ++ mapped.map .values
  | [], _ => by simp
  | slots :: mapped, rope => by
    rw [List.foldl_cons, foldl_pushRight mapped]
    simp [FingerList.pushRight]

/-- A mapped list is strict if the list is. -/
theorem mapRootStep_strict {σ : Type} (mapByte : UInt8 → StateM σ U) (mapValue : V → StateM σ U)
    (deferList : ListNode V T → StateM σ S) (deferThunk : T → StateM σ S) (state : σ) :
    ∀ {list : ListNode V T}, list.Strict →
      (mapRootStep mapByte mapValue deferList deferThunk list state).1.Strict
  | .empty, _ => strict_empty
  | .bytes _, _ | .values _, _ => strict_fromValues _
  | .concat .., _ => strict_join (strict_fromThunk _) (strict_fromThunk _)
  | .thunk _, _ => trivial
  | .finger chunks, h => by
    -- a chunk is mapped item by item, so it stays as long as it was
    refine strict_fromFinger ?_
    rw [foldl_pushRight, List.nil_append]
    intro chunk hmem
    obtain ⟨values, hvalues, rfl⟩ := List.mem_map.mp hmem
    refine forall_mapM (P := fun values => values.length ≠ 0) ?_ state values hvalues
    intro chunk hchunk state
    have hlen := h.2 chunk hchunk
    cases chunk <;> simpa only [length_mapM, ListChunk.len] using hlen

/-- A flat-mapped list is strict if the images are. -/
theorem flatMapRootStep_strict {σ E : Type} {mapByte : UInt8 → StateT σ (Except E) (ListNode U S)}
    {mapValue : V → StateT σ (Except E) (ListNode U S)}
    {deferList : ListNode V T → StateT σ (Except E) S} {deferThunk : T → StateT σ (Except E) S}
    (hbyte : ∀ byte state result, mapByte byte state = .ok result → result.1.Strict)
    (hvalue : ∀ value state result, mapValue value state = .ok result → result.1.Strict)
    {state : σ} : ∀ {list : ListNode V T} {mapped : ListNode U S × σ},
      flatMapRootStep mapByte mapValue deferList deferThunk list state = .ok mapped →
      mapped.1.Strict
  | .empty, mapped, h => by
    cases h
    exact strict_empty
  | .bytes data, mapped, h => by
    obtain ⟨parts, hparts, h⟩ := Except.bind_eq_ok h
    cases h
    exact strict_concatBalanced (forall_mapM_ok hbyte hparts)
  | .values items, mapped, h => by
    obtain ⟨parts, hparts, h⟩ := Except.bind_eq_ok h
    cases h
    exact strict_concatBalanced (forall_mapM_ok hvalue hparts)
  | .concat left right, mapped, h => by
    obtain ⟨first, -, h⟩ := Except.bind_eq_ok h
    obtain ⟨second, -, h⟩ := Except.bind_eq_ok h
    cases h
    exact strict_join (strict_fromThunk _) (strict_fromThunk _)
  | .finger chunks, mapped, h => by
    obtain ⟨parts, hparts, h⟩ := Except.bind_eq_ok h
    cases h
    refine strict_concatBalanced ?_
    have hall := forall_mapM_ok (P := fun lists => ∀ list ∈ lists, list.Strict) ?_ hparts
    · intro list hlist
      obtain ⟨lists, hlists, hmem⟩ := List.mem_flatten.mp hlist
      exact hall lists hlists list hmem
    · rintro (data | items) state result hresult
      · exact forall_mapM_ok hbyte hresult
      · exact forall_mapM_ok hvalue hresult
  | .thunk lazy, mapped, h => by
    obtain ⟨deferred, -, h⟩ := Except.bind_eq_ok h
    cases h
    trivial

/-! ### Every rope the operations make -/

/-- **The ropes that the operations of the program make**, from nothing or from ropes made before.
-/
inductive Built : {V T : Type} → ListNode V T → Prop
  | empty {V T : Type} : Built (.empty : ListNode V T)
  | fromBytes {V T : Type} (data : List UInt8) : Built (fromBytes data : ListNode V T)
  | fromValues {V T : Type} (items : List V) : Built (fromValues items : ListNode V T)
  | fromValuesBalanced {V T : Type} (items : List V) :
    Built (fromValuesBalanced items : ListNode V T)
  | fromThunk {V T : Type} (lazy : T) : Built (fromThunk lazy : ListNode V T)
  | join {V T : Type} {left right : ListNode V T} : Built left → Built right →
    Built (join left right)
  | mapRootStep {V U T S σ : Type} (mapByte : UInt8 → StateM σ U) (mapValue : V → StateM σ U)
    (deferList : ListNode V T → StateM σ S) (deferThunk : T → StateM σ S) (state : σ)
    {list : ListNode V T} : Built list →
    Built (mapRootStep mapByte mapValue deferList deferThunk list state).1
  | flatMapRootStep {V U T S σ E : Type} {mapByte : UInt8 → StateT σ (Except E) (ListNode U S)}
    {mapValue : V → StateT σ (Except E) (ListNode U S)}
    {deferList : ListNode V T → StateT σ (Except E) S} {deferThunk : T → StateT σ (Except E) S}
    {state : σ} {list : ListNode V T} {mapped : ListNode U S × σ} :
    (∀ byte state result, mapByte byte state = .ok result → Built result.1) →
    (∀ value state result, mapValue value state = .ok result → Built result.1) → Built list →
    flatMapRootStep mapByte mapValue deferList deferThunk list state = .ok mapped → Built mapped.1
  | frontLeaf {V T D : Type} {duplicateDeferred : T → D} {list leaf tail : ListNode V T} :
    Built list → list.popFrontLeafStep duplicateDeferred = .leaf leaf tail → Built leaf
  | frontLeafTail {V T D : Type} {duplicateDeferred : T → D} {list leaf tail : ListNode V T} :
    Built list → list.popFrontLeafStep duplicateDeferred = .leaf leaf tail → Built tail
  | frontSuffix {V T D : Type} {duplicateDeferred : T → D} {list suffix : ListNode V T}
    {deferred : D} :
    Built list → list.popFrontLeafStep duplicateDeferred = .deferred deferred suffix → Built suffix
  | backLeaf {V T D : Type} {duplicateDeferred : T → D} {list init leaf : ListNode V T} :
    Built list → list.popBackLeafStep duplicateDeferred = .leaf init leaf → Built leaf
  | backLeafInit {V T D : Type} {duplicateDeferred : T → D} {list init leaf : ListNode V T} :
    Built list → list.popBackLeafStep duplicateDeferred = .leaf init leaf → Built init
  | backBefore {V T D : Type} {duplicateDeferred : T → D} {list before : ListNode V T}
    {deferred : D} :
    Built list → list.popBackLeafStep duplicateDeferred = .deferred before deferred → Built before
  | frontTail {V U T D : Type} {duplicateValue : V → U} {duplicateDeferred : T → D}
    {list tail : ListNode V T} {item : ListItem U} : Built list →
    list.popFrontStepBy duplicateValue duplicateDeferred = some (.item item tail) → Built tail
  | backInit {V U T D : Type} {duplicateValue : V → U} {duplicateDeferred : T → D}
    {list init : ListNode V T} {item : ListItem U} : Built list →
    list.popBackStepBy duplicateValue duplicateDeferred = some (.item init item) → Built init
  | splitLeft {V T : Type} {list left right : ListNode V T} {index : Nat} : Built list →
    list.splitLeafAt index = some (left, right) → Built left
  | splitRight {V T : Type} {list left right : ListNode V T} {index : Nat} : Built list →
    list.splitLeafAt index = some (left, right) → Built right
  | joinStrictPieces {V T : Type} {pieces : List (ListNode V T)} {duplicateValue : V → V}
    {list : ListNode V T} : (∀ piece ∈ pieces, Built piece) →
    joinStrictPieces pieces duplicateValue = some list → Built list

/-- What a pop at the front says about the list it was taken from. -/
def FrontStep (duplicateValue : V → U) (duplicateDeferred : T → D) (whole : List (ListPart V T)) :
    ListFrontStep U D V T → Prop
  | .empty => whole = []
  | .item item tail =>
    ∃ first, item = ListItem.map duplicateValue first ∧ whole = .item first :: tail.sequence
  | .deferred deferred suffix =>
    ∃ lazy, deferred = duplicateDeferred lazy ∧ whole = .deferred lazy :: suffix.sequence

/-- What a pop at the back says about the list it was taken from. -/
def BackStep (duplicateValue : V → U) (duplicateDeferred : T → D) (whole : List (ListPart V T)) :
    ListBackStep U D V T → Prop
  | .empty => whole = []
  | .item init item =>
    ∃ last, item = ListItem.map duplicateValue last ∧ whole = init.sequence ++ [.item last]
  | .deferred before deferred =>
    ∃ lazy, deferred = duplicateDeferred lazy ∧ whole = before.sequence ++ [.deferred lazy]

/-- A strict list never panics, and shows its first item or what is deferred before it. -/
theorem popFrontStepBy_spec {list : ListNode V T} (h : list.Strict) (duplicateValue : V → U)
    (duplicateDeferred : T → D) :
    ∃ step, list.popFrontStepBy duplicateValue duplicateDeferred = some step ∧
      FrontStep duplicateValue duplicateDeferred list.sequence step ∧
      ∀ item tail, step = .item item tail → tail.Strict := by
  have hleaf := popFrontLeafStep_spec duplicateDeferred h
  unfold popFrontStepBy
  generalize list.popFrontLeafStep duplicateDeferred = step at hleaf
  cases step with
  | empty => exact ⟨_, rfl, hleaf, nofun⟩
  | leaf leaf tail =>
    obtain ⟨hisLeaf, hstrict, htail, hwhole⟩ := hleaf
    obtain ⟨first, rest, hpop, hrest, hsequence⟩ :=
      popLeafFrontBy_spec duplicateValue hisLeaf hstrict
    refine ⟨.item (ListItem.map duplicateValue first) (join rest tail), by simp [hpop],
      ⟨first, rfl, ?_⟩, ?_⟩
    · rw [hwhole, hsequence, sequence_join, List.cons_append]
    · rintro item tail' heq
      cases heq
      exact strict_join hrest htail
  | deferred => exact ⟨_, rfl, hleaf.2, nofun⟩

/-- A strict list never panics, and shows its last item or what is deferred after it. -/
theorem popBackStepBy_spec {list : ListNode V T} (h : list.Strict) (duplicateValue : V → U)
    (duplicateDeferred : T → D) :
    ∃ step, list.popBackStepBy duplicateValue duplicateDeferred = some step ∧
      BackStep duplicateValue duplicateDeferred list.sequence step ∧
      ∀ init item, step = .item init item → init.Strict := by
  have hleaf := popBackLeafStep_spec duplicateDeferred h
  unfold popBackStepBy
  generalize list.popBackLeafStep duplicateDeferred = step at hleaf
  cases step with
  | empty => exact ⟨_, rfl, hleaf, nofun⟩
  | leaf init leaf =>
    obtain ⟨hisLeaf, hstrict, hinit, hwhole⟩ := hleaf
    obtain ⟨rest, last, hpop, hrest, hsequence⟩ :=
      popLeafBackBy_spec duplicateValue hisLeaf hstrict
    refine ⟨.item (join init rest) (ListItem.map duplicateValue last), by simp [hpop],
      ⟨last, rfl, ?_⟩, ?_⟩
    · rw [hwhole, hsequence, sequence_join, List.append_assoc]
    · rintro init' item heq
      cases heq
      exact strict_join hinit hrest
  | deferred => exact ⟨_, rfl, hleaf.2, nofun⟩

/-- **Every list that the operations build is strict.** -/
theorem Built.strict {V T : Type} {list : ListNode V T} (h : Built list) : list.Strict := by
  induction h with
  | empty => exact strict_empty
  | fromBytes data => exact strict_fromBytes data
  | fromValues items => exact strict_fromValues items
  | fromValuesBalanced =>
    unfold ListNode.fromValuesBalanced
    split
    · exact strict_empty
    · next hne =>
      refine strict_fromFinger (FingerList.strict_pushRight.mpr ⟨FingerList.strict_nil, ?_⟩)
      simpa [ListChunk.len] using hne
  | fromThunk => trivial
  | join _ _ hleft hright => exact strict_join hleft hright
  | mapRootStep mapByte mapValue deferList deferThunk state _ ih =>
    exact mapRootStep_strict mapByte mapValue deferList deferThunk state ih
  | flatMapRootStep _ _ _ hmapped hbyte hvalue _ =>
    exact flatMapRootStep_strict hbyte hvalue hmapped
  -- the steps hand out parts of a rope, and their specifications say what these parts keep
  | frontLeaf _ hstep ih => exact (hstep ▸ popFrontLeafStep_spec _ ih :).2.1
  | frontLeafTail _ hstep ih => exact (hstep ▸ popFrontLeafStep_spec _ ih :).2.2.1
  | frontSuffix _ hstep ih => exact (hstep ▸ popFrontLeafStep_spec _ ih :).1
  | backLeaf _ hstep ih => exact (hstep ▸ popBackLeafStep_spec _ ih :).2.1
  | backLeafInit _ hstep ih => exact (hstep ▸ popBackLeafStep_spec _ ih :).2.2.1
  | backBefore _ hstep ih => exact (hstep ▸ popBackLeafStep_spec _ ih :).1
  | frontTail _ hstep ih =>
    obtain ⟨step, hsome, -, hstrict⟩ := popFrontStepBy_spec ih _ _
    exact hstrict _ _ (Option.some.inj (hsome.symm.trans hstep))
  | backInit _ hstep ih =>
    obtain ⟨step, hsome, -, hstrict⟩ := popBackStepBy_spec ih _ _
    exact hstrict _ _ (Option.some.inj (hsome.symm.trans hstep))
  | splitLeft _ hsplit ih => exact (splitLeafAt_spec ih hsplit).1
  | splitRight _ hsplit ih => exact (splitLeafAt_spec ih hsplit).2.1
  | joinStrictPieces _ hjoin ih => exact (joinStrictPieces_spec ih hjoin).1

/-- **Built ropes and their pops.** No leaf or chunk of a built rope is empty, `isEmpty` says
whether it denotes anything, and a pop at either end returns and gives back the parts of its
sequence. -/
theorem Built.pops {V T : Type} {list : ListNode V T} (h : Built list) :
    list.Strict ∧ (list.isEmpty = true ↔ list.sequence = []) ∧
      (∀ (U D : Type) (duplicateValue : V → U) (duplicateDeferred : T → D),
        (∃ step, list.popFrontStepBy duplicateValue duplicateDeferred = some step ∧
          FrontStep duplicateValue duplicateDeferred list.sequence step) ∧
        ∃ step, list.popBackStepBy duplicateValue duplicateDeferred = some step ∧
          BackStep duplicateValue duplicateDeferred list.sequence step) := by
  refine ⟨h.strict, h.strict.isEmpty_iff, fun U D duplicateValue duplicateDeferred => ⟨?_, ?_⟩⟩
  · obtain ⟨step, hstep, hspec, -⟩ := popFrontStepBy_spec h.strict duplicateValue duplicateDeferred
    exact ⟨step, hstep, hspec⟩
  · obtain ⟨step, hstep, hspec, -⟩ := popBackStepBy_spec h.strict duplicateValue duplicateDeferred
    exact ⟨step, hstep, hspec⟩

/-- A lazy chunk after a text. -/
theorem pops_text_then_chunk :
    Built (join (fromBytes [72]) (fromThunk ()) : ListNode Nat Unit) ∧
      (join (fromBytes [72]) (fromThunk ()) : ListNode Nat Unit).Strict :=
  have h : Built (join (fromBytes [72]) (fromThunk ()) : ListNode Nat Unit) :=
    .join (.fromBytes _) (.fromThunk ())
  ⟨h, h.pops.1⟩

end Glam.ListNode
