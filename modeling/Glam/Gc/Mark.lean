import Mathlib.Data.Finset.Insert
import Mathlib.Data.Finset.Image
import Mathlib.Logic.Function.Basic
import Glam.Lib.Spec

/-!
# Marking the heap

A collection of the managed heap marks what is to survive (`crates/glam-gc/src/heap.rs`). It marks
the objects whose finalizers are pending, without tracing them. It then marks the roots and, through
a worklist, what they reach. An ephemeron is a pair of a key and a value, and tracing the object
that holds one reports the pair: if the key is marked by then, the value is an edge; otherwise the
pair is recorded. Once the worklist has drained, rounds over the recorded pairs mark the values
whose keys have been marked since, until a round marks nothing new. The pairs that are still
recorded are cleared.

An object is named by `Obj` and an ephemeron's pair by `Pair`. The collector's lookup of an address
is not modelled: every edge of a heap graph leads to one of its objects. -/

namespace Glam.Gc

variable {Obj Pair : Type}

/-- What tracing an object reports. -/
inductive Report (Obj Pair : Type)
  | edge (target : Obj)
  | ephemeron (pair : Pair)
deriving DecidableEq

/-- **A heap at the beginning of a collection.** -/
structure HeapGraph (Obj Pair : Type) where
  /-- the live entries of the root pool -/
  roots : List Obj
  /-- what tracing an object reports, in order -/
  trace : Obj → List (Report Obj Pair)
  /-- a pair's key and value, unless an earlier collection cleared it -/
  pairs : Pair → Option (Obj × Obj)
  /-- the objects in the durable finalization batch -/
  pending : List Obj
  pending_nodup : pending.Nodup

/-- The assertions of marking. -/
inductive MarkPanic
  /-- pending finalizer was duplicated in its durable batch -/
  | duplicatePending
  /-- marking records only ephemerons it has not cleared -/
  | clearedEphemeron
  /-- successful mark attempt must drain its complete worklist -/
  | undrainedWorklist
deriving DecidableEq

/-- Why a run of the collector gives no result. -/
inductive Stop
  | panic (reason : MarkPanic)
  /-- the run was cut off -/
  | unfinished
deriving DecidableEq

/-- A mark attempt, with the mark bits and the pairs of the heap it works on. The top of the
worklist comes first. -/
structure MarkAttempt (Obj Pair : Type) where
  marks : Finset Obj
  pairs : Pair → Option (Obj × Obj)
  worklist : List Obj
  /-- the pairs recorded before their keys were marked -/
  ephemerons : List Pair
  rootCount : Nat
  markedSlotCount : Nat
  conservativelyRetainedSlotCount : Nat
  tracedObjectCount : Nat
  peakObjectWorklistLen : Nat
  ephemeronRoundCount : Nat

/-- `Vec::swap_remove`: the last element takes the place of the one removed. -/
def swapRemove (l : List Pair) (index : Nat) : List Pair :=
  match l.getLast? with
  | none => []
  | some last => (l.set index last).dropLast

theorem length_swapRemove (l : List Pair) (index : Nat) :
    (swapRemove l index).length = l.length - 1 := by
  unfold swapRemove
  cases hlast : l.getLast? with
  | none =>
    rw [List.getLast?_eq_none_iff.mp hlast]
    rfl
  | some => rw [List.length_dropLast, List.length_set]

theorem mem_of_mem_swapRemove {l : List Pair} {index : Nat} {x : Pair}
    (h : x ∈ swapRemove l index) : x ∈ l := by
  unfold swapRemove at h
  split at h
  · cases h
  case h_2 last hlast =>
    obtain hmem | rfl := List.mem_or_eq_of_mem_set (List.mem_of_mem_dropLast h)
    · exact hmem
    · exact List.mem_of_getLast? hlast

/-- Swapping an item out loses no other. -/
theorem mem_swapRemove {l : List Pair} {index : Nat} (hindex : index < l.length) {x : Pair}
    (h : x ∈ l) : x = l[index] ∨ x ∈ swapRemove l index := by
  obtain ⟨j, hj, rfl⟩ := List.mem_iff_getElem.mp h
  rw [swapRemove, List.getLast?_eq_some_getLast (List.ne_nil_of_mem h)]
  by_cases hji : j = index
  · subst hji
    exact .inl rfl
  · refine .inr (List.mem_iff_getElem.mpr ?_)
    by_cases hlast : j < l.length - 1
    · exact ⟨j, by simpa using hlast, by simp [List.getElem_set_of_ne (Ne.symm hji)]⟩
    · -- the last element takes the place of the one removed
      refine ⟨index, by simp; omega, ?_⟩
      obtain rfl : j = l.length - 1 := by omega
      simp [List.getLast_eq_getElem]

/-- One element of the worklist, chosen by `order`, and the others. -/
def takeWork (order : List Obj → Nat) (worklist : List Obj) : Option (Obj × List Obj) :=
  let index := order worklist % worklist.length
  worklist[index]?.map fun work => (work, worklist.eraseIdx index)

/-- The order of `Vec::pop`: the newest first. -/
def newestFirst : List Obj → Nat := fun _ => 0

namespace MarkAttempt

variable [DecidableEq Obj]

/-- A mark attempt on a heap whose mark bitmaps have been cleared. -/
def begin (graph : HeapGraph Obj Pair) : MarkAttempt Obj Pair :=
  ⟨∅, graph.pairs, [], [], 0, 0, 0, 0, 0, 0⟩

/-- Marks the objects with pending finalizers. They are not traced. -/
def retainPendingFinalizers (attempt : MarkAttempt Obj Pair) :
    List Obj → Except Stop (MarkAttempt Obj Pair)
  | [] => .ok attempt
  | owner :: owners => do
    check (owner ∉ attempt.marks) (.panic .duplicatePending)
    retainPendingFinalizers
      { attempt with
        marks := insert owner attempt.marks
        markedSlotCount := attempt.markedSlotCount + 1
        conservativelyRetainedSlotCount := attempt.conservativelyRetainedSlotCount + 1 }
      owners

variable (attempt : MarkAttempt Obj Pair)

/-- Puts an object on the worklist, and notes how long the list has become. -/
def pushWork (work : Obj) : MarkAttempt Obj Pair :=
  { attempt with
    worklist := work :: attempt.worklist
    peakObjectWorklistLen := max attempt.peakObjectWorklistLen (attempt.worklist.length + 1) }

/-- Marks an object and puts it on the worklist, unless it is marked. Returns whether it was not. -/
def discover (value : Obj) : Bool × MarkAttempt Obj Pair :=
  if value ∈ attempt.marks then (false, attempt)
  else
    (true,
      pushWork
        { attempt with
          marks := insert value attempt.marks
          markedSlotCount := attempt.markedSlotCount + 1 }
        value)

/-- Discovers the registered roots. -/
def seedRegisteredRoots (roots : List Obj) : MarkAttempt Obj Pair :=
  roots.foldl (fun attempt value =>
    (discover { attempt with rootCount := attempt.rootCount + 1 } value).2) attempt

/-- An edge to an object, which discovers it. -/
def edge (target : Obj) : MarkAttempt Obj Pair :=
  (attempt.discover target).2

/-- An ephemeron whose key is already marked keeps its value at once, as an edge; the others wait
for the rounds, and one that an earlier collection cleared holds nothing. -/
def ephemeron (pair : Pair) : MarkAttempt Obj Pair :=
  match attempt.pairs pair with
  | none => attempt
  | some (key, value) =>
    if key ∈ attempt.marks then attempt.edge value
    else { attempt with ephemerons := attempt.ephemerons ++ [pair] }

/-- What marking does with what one object's trace reports. -/
def visit : Report Obj Pair → MarkAttempt Obj Pair
  | .edge target => attempt.edge target
  | .ephemeron pair => attempt.ephemeron pair

/-- Traces an object, and visits what that reports. -/
def traceObject (graph : HeapGraph Obj Pair) (attempt : MarkAttempt Obj Pair) (work : Obj) :
    MarkAttempt Obj Pair :=
  let attempt := (graph.trace work).foldl visit attempt
  { attempt with tracedObjectCount := attempt.tracedObjectCount + 1 }

/-- Traces the worklist until it has drained, in at most `fuel` steps. -/
def traceWorklist (graph : HeapGraph Obj Pair) (order : List Obj → Nat) :
    Nat → MarkAttempt Obj Pair → Except Stop (MarkAttempt Obj Pair)
  | 0, _ => .error .unfinished
  | fuel + 1, attempt =>
    match takeWork order attempt.worklist with
    | none => .ok attempt
    | some (work, worklist) =>
      traceWorklist graph order fuel (traceObject graph { attempt with worklist := worklist } work)

/-- One round over the recorded pairs, from `index` on. Returns whether it marked anything. -/
def ephemeronRound (attempt : MarkAttempt Obj Pair) (index : Nat) (marked : Bool) :
    Except Stop (Bool × MarkAttempt Obj Pair) :=
  if hlt : index < attempt.ephemerons.length then
    match attempt.pairs attempt.ephemerons[index] with
    | none => .error (.panic .clearedEphemeron)
    | some (key, value) =>
      if key ∈ attempt.marks then
        let (fresh, discovered) := attempt.discover value
        ephemeronRound { discovered with ephemerons := swapRemove attempt.ephemerons index } index
          (marked || fresh)
      else ephemeronRound attempt (index + 1) marked
  else .ok (marked, attempt)
termination_by attempt.ephemerons.length - index
decreasing_by
  · rw [length_swapRemove]
    omega
  · omega

/-- Clears the pairs that are still recorded. -/
def clearRecorded [DecidableEq Pair] : MarkAttempt Obj Pair :=
  { attempt with
    pairs := attempt.ephemerons.foldl (fun pairs pair => Function.update pairs pair none)
      attempt.pairs
    ephemerons := [] }

/-- Rounds over the recorded pairs until one marks nothing new, in at most `fuel` rounds; then
clears those whose keys stayed unmarked. -/
def traceEphemerons [DecidableEq Pair] (graph : HeapGraph Obj Pair) (order : List Obj → Nat)
    (limit : Nat) : Nat → MarkAttempt Obj Pair → Except Stop (MarkAttempt Obj Pair)
  | 0, _ => .error .unfinished
  | fuel + 1, attempt => do
    let (marked, attempt) ← attempt.ephemeronRound 0 false
    if marked then do
      let attempt ← traceWorklist graph order limit
        { attempt with ephemeronRoundCount := attempt.ephemeronRoundCount + 1 }
      traceEphemerons graph order limit fuel attempt
    else .ok attempt.clearRecorded

end MarkAttempt

open MarkAttempt in
/-- **Marks the heap**, taking work from the worklist in the order `order`, with at most `limit`
steps in each of its loops. -/
def mark [DecidableEq Obj] [DecidableEq Pair] (graph : HeapGraph Obj Pair) (order : List Obj → Nat)
    (limit : Nat) : Except Stop (MarkAttempt Obj Pair) := do
  let attempt ← (MarkAttempt.begin graph).retainPendingFinalizers graph.pending
  let attempt ← traceWorklist graph order limit (attempt.seedRegisteredRoots graph.roots)
  let attempt ← traceEphemerons graph order limit limit attempt
  check (attempt.worklist = []) (.panic .undrainedWorklist)
  .ok attempt

end Glam.Gc
