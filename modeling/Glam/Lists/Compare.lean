import Glam.Lists.Pop

/-!
# Comparing two ropes item by item

`same_logical_items_by` of `list.rs` walks over two ropes with a cursor each, and the two may be cut
into parts differently. `Shows` is what a cursor has before it, and one turn of the loop takes an
item off both, whatever parts they are in. A lazy chunk is one item and is not forced.
-/

namespace Glam

variable {V T : Type}

/-- A part of a rope that a cursor walks over. -/
inductive LogicalListCursorPart (V T : Type)
  | bytes (bytes : List UInt8)
  | values (values : List V)
  | thunk (thunk : T)

namespace LogicalListCursorPart

/-- What there is at each offset of a part (`LogicalListItemRef` is `ListPart`). -/
def items : LogicalListCursorPart V T → List (ListPart V T)
  | .bytes data => (ListChunk.bytes data).items.map .item
  | .values items => (ListChunk.values items).items.map .item
  | .thunk lazy => [.deferred lazy]

/-- A chunk as a part of a cursor. -/
def ofChunk : ListChunk V → LogicalListCursorPart V T
  | .bytes data => .bytes data
  | .values items => .values items

theorem items_ofChunk (chunk : ListChunk V) :
    (ofChunk chunk : LogicalListCursorPart V T).items = chunk.items.map .item := by
  cases chunk <;> rfl

end LogicalListCursorPart

/-- A position in a rope. -/
structure LogicalListItemCursor (V T : Type) where
  /-- the parts from `part_index` on -/
  parts : List (LogicalListCursorPart V T)
  offset : Nat

namespace LogicalListItemCursor

/-- The item that a cursor is at. -/
def current : LogicalListItemCursor V T → Option (ListPart V T)
  | ⟨[], _⟩ => none
  | ⟨part :: _, offset⟩ => part.items[offset]?

/-- Moves on by one item; `none` is an index out of range. -/
def advance : LogicalListItemCursor V T → Option (LogicalListItemCursor V T)
  | ⟨[], _⟩ => none
  | ⟨part :: parts, offset⟩ =>
    if offset + 1 = part.items.length then some ⟨parts, 0⟩ else some ⟨part :: parts, offset + 1⟩

/-- **What a cursor has before it.** No part is empty, and the offset is inside its part. -/
def Shows : LogicalListItemCursor V T → List (ListPart V T) → Prop
  | ⟨[], _⟩, rest => rest = []
  | ⟨part :: parts, offset⟩, rest => (∀ other ∈ parts, other.items ≠ []) ∧
    offset < part.items.length ∧ rest = part.items.drop offset ++ parts.flatMap (·.items)

variable {cursor : LogicalListItemCursor V T} {rest : List (ListPart V T)} {item : ListPart V T}

theorem shows_start {parts : List (LogicalListCursorPart V T)}
    (h : ∀ part ∈ parts, part.items ≠ []) : Shows ⟨parts, 0⟩ (parts.flatMap (·.items)) := by
  cases parts with
  | nil => rfl
  | cons part parts =>
    exact ⟨fun other hother => h other (.tail _ hother), List.length_pos_iff.mpr (h part (.head _)),
      rfl⟩

theorem Shows.of_nil (h : cursor.Shows []) : cursor.current = none := by
  obtain ⟨_ | ⟨part, parts⟩, offset⟩ := cursor
  · rfl
  · obtain ⟨-, hlt, hrest⟩ := h
    have hdrop := (List.append_eq_nil_iff.mp hrest.symm).1
    exact absurd hlt (Nat.not_lt.mpr (List.drop_eq_nil_iff.mp hdrop))

/-- **One item**: the cursor is at the first, and moves on to the rest. -/
theorem Shows.of_cons (h : cursor.Shows (item :: rest)) :
    cursor.current = some item ∧ ∃ next, cursor.advance = some next ∧ next.Shows rest := by
  obtain ⟨_ | ⟨part, parts⟩, offset⟩ := cursor
  · cases h
  · obtain ⟨hparts, hlt, hrest⟩ := h
    rw [List.drop_eq_getElem_cons hlt, List.cons_append] at hrest
    obtain ⟨rfl, rfl⟩ := List.cons.inj hrest
    refine ⟨List.getElem?_eq_getElem hlt, ?_⟩
    rw [advance]
    split
    · next hlast =>
      -- the part ends here, and the next one is not empty
      rw [hlast, List.drop_length, List.nil_append]
      exact ⟨_, rfl, shows_start hparts⟩
    · exact ⟨_, rfl, hparts, by omega, rfl⟩

end LogicalListItemCursor

namespace ListNode

/-- The parts of the ropes on a worklist, its top first. -/
def logicalCursorPartsLoop : List (ListNode V T) → List (LogicalListCursorPart V T)
  | [] => []
  | .empty :: worklist => logicalCursorPartsLoop worklist
  | .bytes data :: worklist => .bytes data :: logicalCursorPartsLoop worklist
  | .values items :: worklist => .values items :: logicalCursorPartsLoop worklist
  | .concat left right :: worklist => logicalCursorPartsLoop (left :: right :: worklist)
  | .finger chunks :: worklist => chunks.map .ofChunk ++ logicalCursorPartsLoop worklist
  | .thunk lazy :: worklist => .thunk lazy :: logicalCursorPartsLoop worklist
termination_by worklist => sizes worklist
decreasing_by all_goals simp only [sizes, size, List.map_cons, List.sum_cons]; omega

/-- The parts of a list, from left to right. -/
def logicalCursorParts (list : ListNode V T) : List (LogicalListCursorPart V T) :=
  logicalCursorPartsLoop [list]

variable (sameItem : ListPart V T → ListPart V T → Bool)

/-- The loop over two cursors; `none` is a panic, or that the fuel is used up. -/
def sameItemsLoop : Nat → LogicalListItemCursor V T → LogicalListItemCursor V T → Option Bool
  | 0, _, _ => none
  | fuel + 1, left, right =>
    match left.current, right.current with
    | none, none => some true
    | some leftItem, some rightItem =>
      if sameItem leftItem rightItem then do
        sameItemsLoop fuel (← left.advance) (← right.advance)
      else some false
    | _, _ => some false

/-- Compares two ropes; `shared` says that they are one heap cell. -/
def sameLogicalItemsBy (shared : Bool) (fuel : Nat) (left right : ListNode V T) : Option Bool :=
  if shared then some true
  else sameItemsLoop sameItem fuel ⟨left.logicalCursorParts, 0⟩ ⟨right.logicalCursorParts, 0⟩

/-- The parts hold the items in their order, and none is empty. -/
theorem logicalCursorPartsLoop_spec (worklist : List (ListNode V T))
    (h : ∀ list ∈ worklist, list.Strict) :
    (logicalCursorPartsLoop worklist).flatMap (·.items) = spread worklist ∧
      ∀ part ∈ logicalCursorPartsLoop worklist, part.items ≠ [] := by
  fun_induction logicalCursorPartsLoop worklist with
  | case1 => exact ⟨rfl, nofun⟩
  | case2 worklist ih => exact ih (List.forall_mem_cons.mp h).2
  | case3 data worklist ih | case4 items worklist ih | case7 lazy worklist ih =>
    obtain ⟨hfirst, hrest⟩ := List.forall_mem_cons.mp h
    obtain ⟨hitems, hparts⟩ := ih hrest
    refine ⟨?_, List.forall_mem_cons.mpr ⟨?_, hparts⟩⟩
    · rw [List.flatMap_cons, hitems, spread_cons]
      rfl
    · simp_all [LogicalListCursorPart.items, ListChunk.items, Strict]
  | case5 left right worklist ih =>
    simp only [List.forall_mem_cons] at h ih
    simpa [sequence] using ih ⟨h.1.1.1, h.1.2.1, h.2⟩
  | case6 chunks worklist ih =>
    obtain ⟨hfirst, hrest⟩ := List.forall_mem_cons.mp h
    obtain ⟨hitems, hparts⟩ := ih hrest
    refine ⟨?_, List.forall_mem_append.mpr ⟨List.forall_mem_map.mpr fun chunk hchunk => ?_, hparts⟩⟩
    · rw [List.flatMap_append, hitems, List.flatMap_map, spread_cons, sequence, FingerList.items,
        List.map_flatMap]
      simp only [LogicalListCursorPart.items_ofChunk]
    · rw [LogicalListCursorPart.items_ofChunk, ← List.length_pos_iff, List.length_map,
        ListChunk.length_items]
      exact Nat.pos_of_ne_zero (hfirst.2 chunk hchunk)

variable {sameItem}

/-- **The loop**, from any two positions, compares what is before the cursors. -/
theorem sameItemsLoop_spec {fuel : Nat} {left right : LogicalListItemCursor V T}
    {rest rest' : List (ListPart V T)} (hleft : left.Shows rest) (hright : right.Shows rest')
    (hfuel : rest.length < fuel) :
    ∃ answer, sameItemsLoop sameItem fuel left right = some answer ∧
      (answer = true ↔ List.Forall₂ (sameItem · ·) rest rest') := by
  induction fuel generalizing left right rest rest' with
  | zero => exact absurd hfuel (Nat.not_lt_zero _)
  | succ fuel ih =>
    rw [sameItemsLoop]
    cases rest with
    | nil =>
      rw [hleft.of_nil]
      cases rest' with
      | nil => rw [hright.of_nil]; exact ⟨true, rfl, by simp⟩
      | cons => rw [hright.of_cons.1]; exact ⟨false, rfl, by simp⟩
    | cons a rest =>
      obtain ⟨hcurrent, left', hnext, hleft'⟩ := hleft.of_cons
      rw [hcurrent]
      cases rest' with
      | nil => rw [hright.of_nil]; exact ⟨false, rfl, by simp⟩
      | cons b rest' =>
        obtain ⟨hcurrent', right', hnext', hright'⟩ := hright.of_cons
        rw [hcurrent', hnext, hnext', List.forall₂_cons]
        dsimp only
        split
        · next hsame =>
          rw [and_iff_right hsame]
          exact ih hleft' hright' (Nat.lt_of_succ_lt_succ hfuel)
        · next hdiffer => exact ⟨false, rfl, by simp [hdiffer]⟩

/-- **Comparing two ropes item by item.** However they are cut into parts, the answer is whether
their sequences, in which a lazy chunk is one item, agree at every position and in length. -/
theorem sameLogicalItemsBy_spec {left right : ListNode V T} (hleft : Built left)
    (hright : Built right) {shared : Bool} (hshared : shared = true → left = right)
    (hrefl : ∀ part, sameItem part part) {fuel : Nat} (hfuel : left.sequence.length < fuel) :
    ∃ answer, sameLogicalItemsBy sameItem shared fuel left right = some answer ∧
      (answer = true ↔ List.Forall₂ (sameItem · ·) left.sequence right.sequence) := by
  have hshows : ∀ {list : ListNode V T}, Built list →
      LogicalListItemCursor.Shows ⟨list.logicalCursorParts, 0⟩ list.sequence := by
    intro list h
    obtain ⟨hitems, hparts⟩ :=
      logicalCursorPartsLoop_spec [list] (List.forall_mem_singleton.mpr h.strict)
    rw [← List.append_nil list.sequence, ← spread_nil, ← spread_cons, ← hitems]
    exact LogicalListItemCursor.shows_start hparts
  unfold sameLogicalItemsBy
  split
  · next h =>
    cases hshared h
    exact ⟨true, rfl, iff_of_true rfl (List.forall₂_same.mpr fun part _ => hrefl part)⟩
  · exact sameItemsLoop_spec (hshows hleft) (hshows hright) hfuel

/-- Two equal texts, one of them in two parts. -/
theorem sameLogicalItemsBy_cut_text :
    sameLogicalItemsBy (decide <| · = ·) false 3 (join (fromBytes [72]) (fromBytes [105]))
      (fromBytes [72, 105] : ListNode Unit Unit) = some true := by
  obtain ⟨answer, hanswer, hiff⟩ := @sameLogicalItemsBy_spec Unit Unit (decide <| · = ·) _ _
    (.join (.fromBytes [72]) (.fromBytes [105])) (.fromBytes [72, 105]) false nofun
    (fun _ => decide_eq_true rfl) 3 (by decide)
  rw [hanswer, hiff.mpr (by decide)]

end ListNode

end Glam
