import Glam.Eval.DictLaws
import Glam.Store.Edit

/-!
# Volumes as the runtime holds them

The modules of `Store` model a volume by what it evaluates to. The runtime does not evaluate one:
`apply_edit_in` of `store.rs` wraps it in a suspended call of a dictionary builtin, and a read
evaluates as much of it as it walks through.

`Evaluates` says what a value evaluates to, its members included. Insertion and removal go along
with it, whatever they meet on their way: data, a failure, or members that nobody has demanded. So
does every run of edits, and what a read walks to in the volume that is held is what the model
reads. -/

namespace Glam.Eval.DictMachine

open Glam.Store (insertKey removeKey lookup_insertKey lookup_removeKey StoreEdit)

variable {K A : Type} [DecidableEq K]

/-- **What a value evaluates to**, its members included. -/
inductive Evaluates : Value K A → Store.Value K A → Prop
  | data {value : Value K A} {a : A} (h : whnf value = .ok (.data a)) : Evaluates value (.data a)
  | error {value : Value K A} {failure : Failure K} (h : whnf value = .error failure) :
    Evaluates value .error
  | dict {value : Value K A} {entries : Dict K A} {members : Store.Dict K A}
    (h : whnf value = .ok (.dict entries))
    (hmembers : ∀ key, Option.Rel Evaluates (entries.lookup key) (members.lookup key)) :
    Evaluates value (.dict members)

/-- `apply_value_at_path_in`. -/
def applyValueAtPath (root : Value K A) (path : List K) (value : Value K A) : Value K A :=
  if path = [] then value else .call .dictInsert path value root

/-- `remove_path_in`: a suspended removal evaluates to what the removal returns. -/
def removePath (root : Value K A) (path : List K) : Value K A :=
  match dictRemove path root with
  | .ok (.value after) => .lazy after
  | .error failure => .error failure
  -- no answer of a removal
  | .ok (.predicate _) => root

/-- **A volume that is held, and the model of it**, after any run of edits. What an edit sets, or an
updater makes of the prior value, need not be evaluated either. -/
inductive Holds : Value K A → Store.Value K A → Prop
  | create {value evaluated} (h : Evaluates value evaluated) : Holds value evaluated
  | set {value evaluated newValue newEvaluated} (address : Store.ConflictAddress K)
    (h : Holds value evaluated) (hnew : Evaluates newValue newEvaluated) :
    Holds (applyValueAtPath value address.path newValue)
      (Store.applyEdit evaluated (.set address (some newEvaluated)))
  | rewrite {value evaluated newValue} (address : Store.ConflictAddress K)
    (updater : Store.Value K A → Store.Value K A) (h : Holds value evaluated)
    (hnew : Evaluates newValue (updater (Store.lazyValuePath evaluated address.path))) :
    Holds (applyValueAtPath value address.path newValue)
      (Store.applyEdit evaluated (.rewrite address (some updater)))
  | remove {value evaluated} (address : Store.ConflictAddress K) (h : Holds value evaluated) :
    Holds (removePath value address.path) (Store.applyEdit evaluated (.remove address))

variable {value newValue v w : Value K A} {evaluated newEvaluated : Store.Value K A}
  {entries : Dict K A} {members : Store.Dict K A} {path rest : List K}

theorem Evaluates.congr_whnf (h : Evaluates v evaluated) (hwhnf : whnf w = whnf v) :
    Evaluates w evaluated := by
  cases h with
  | data h => exact .data (hwhnf.trans h)
  | error h => exact .error (hwhnf.trans h)
  | dict h hmembers => exact .dict (hwhnf.trans h) hmembers

theorem Evaluates.lazy (h : Evaluates v evaluated) : Evaluates (.lazy v) evaluated :=
  h.congr_whnf (by rw [whnf])

/-- A dictionary evaluates to another key by key. -/
theorem evaluates_dict_dict_iff :
    Evaluates (.dict entries) (.dict members) ↔
      ∀ key, Option.Rel Evaluates (entries.lookup key) (members.lookup key) := by
  constructor
  · rintro (_ | _ | ⟨h, hmembers⟩)
    rw [whnf_dict] at h
    cases h
    exact hmembers
  · exact .dict (whnf_dict entries)

theorem evaluates_empty : Evaluates (.dict [] : Value K A) (.dict []) :=
  evaluates_dict_dict_iff.mpr fun _ => .none

/-! ### Insertion -/

section

variable (h : Evaluates (.dict entries) (.dict members)) (key : K)
include h key

theorem Evaluates.insertKey {member : Value K A} (hmember : Evaluates member evaluated) :
    Evaluates (.dict (insertKey entries key member)) (.dict (insertKey members key evaluated)) := by
  rw [evaluates_dict_dict_iff] at h ⊢
  intro j
  rw [lookup_insertKey, lookup_insertKey]
  split
  · exact .some hmember
  · exact h j

theorem Evaluates.removeKey :
    Evaluates (.dict (removeKey entries key)) (.dict (removeKey members key)) := by
  rw [evaluates_dict_dict_iff] at h ⊢
  intro j
  rw [lookup_removeKey, lookup_removeKey]
  split
  · exact .none
  · exact h j

/-- The members at a key, or the empty dictionaries where there are none. -/
theorem Evaluates.member :
    Evaluates ((entries.lookup key).getD (.dict [])) ((members.lookup key).getD (.dict [])) := by
  have hkey := evaluates_dict_dict_iff.mp h key
  generalize entries.lookup key = found, members.lookup key = member at hkey ⊢
  cases hkey with
  | none => exact evaluates_empty
  | some hfound => exact hfound

end

/-- A suspended insertion evaluates to the evaluated one, if the insertion into a dictionary
does. -/
theorem Evaluates.call_of_inserted (hpath : path ≠ [])
    (hinserted : ∀ {entries members}, Evaluates (.dict entries) (.dict members) →
      Evaluates (.dict (inserted path newValue 0 entries path))
        (Store.insertAt newEvaluated (.dict members) path))
    (h : Evaluates value evaluated) :
    Evaluates (.call .dictInsert path newValue value)
      (Store.insertAt newEvaluated evaluated path) := by
  have hcall : whnf (.call .dictInsert path newValue value) = _ :=
    dictInsert_eq hpath newValue value
  obtain ⟨key, rest, rfl⟩ := List.exists_cons_of_ne_nil hpath
  cases h with
  | data h | error h =>
    rw [h] at hcall
    exact .error hcall
  | dict h hmembers =>
    rw [h] at hcall
    refine (hinserted (evaluates_dict_dict_iff.mpr hmembers)).congr_whnf ?_
    rw [hcall, whnf_dict]
    rfl

/-- **Insertion into a dictionary** goes along with its evaluation, whatever it meets. -/
theorem Evaluates.inserted (hnew : Evaluates newValue newEvaluated) (path : List K)
    (hrest : rest ≠ []) (depth : Nat) (h : Evaluates (.dict entries) (.dict members)) :
    Evaluates (.dict (inserted path newValue depth entries rest))
      (Store.insertAt newEvaluated (.dict members) rest) := by
  induction rest generalizing path depth entries members with
  | nil => exact absurd rfl hrest
  | cons key rest ih =>
    cases rest with
    | nil =>
      rw [DictMachine.inserted, Store.insertAt_dict_cons, Store.insertAt_nil]
      exact h.insertKey key hnew
    | cons next rest =>
      rw [DictMachine.inserted, Store.insertAt_dict_cons]
      apply h.insertKey key
      have hmember := h.member key
      generalize (members.lookup key).getD _ = member at hmember ⊢
      have hdict : ∀ {nested} {member : Store.Value K A}, Evaluates (.dict nested) member →
          Evaluates (.dict (DictMachine.inserted path newValue (depth + 1) nested (next :: rest)))
            (Store.insertAt newEvaluated member (next :: rest)) := by
        rintro nested member hnested
        cases hnested with
        | data h | error h => rw [whnf_dict] at h; cases h
        | dict h hmembers => exact ih path (by simp) (depth + 1) (.dict h hmembers)
      cases hl : entries.lookup key with
      | none =>
        rw [hl] at hmember
        exact hdict hmember
      | some found =>
        rw [hl] at hmember
        cases found with
        | dict => exact hdict hmember
        | data =>
          -- the failure stands at the datum in both
          cases hmember with
          | data => exact .error rfl
          | error h | dict h => cases h
        | lazy | error | call => exact hmember.call_of_inserted (by simp) (ih _ (by simp) 0)

/-! ### Removal -/

section

variable (h : Evaluates (.dict entries) (.dict members))
include h

/-- A key's dictionary evaluates to the key's dictionary. -/
theorem Evaluates.subDict (key : K) :
    Evaluates (.dict (subDict entries key)) (.dict (Store.subDict members key)) := by
  have hkey := evaluates_dict_dict_iff.mp h key
  rw [DictMachine.subDict, Store.subDict]
  generalize entries.lookup key = found, members.lookup key = member at hkey ⊢
  cases hkey with
  | none =>
    rw [Option.getD_none, whnf_dict]
    exact evaluates_empty
  | some hmember =>
    rw [Option.getD_some]
    cases hmember with
    | data h | error h =>
      rw [h]
      exact evaluates_empty
    | dict h hmembers =>
      rw [h]
      exact evaluates_dict_dict_iff.mpr hmembers

/-- What evaluates to an empty dictionary is empty. -/
theorem Evaluates.isEmpty_eq : entries.isEmpty = members.isEmpty := by
  rw [evaluates_dict_dict_iff] at h
  cases entries with
  | nil =>
    cases members with
    | nil => rfl
    | cons member members =>
      have hkey := h member.1
      rw [Store.lookup_cons_ite, if_pos rfl] at hkey
      cases hkey
  | cons entry entries =>
    cases members with
    | nil =>
      have hkey := h entry.1
      rw [Store.lookup_cons_ite, if_pos rfl] at hkey
      cases hkey
    | cons => rfl

/-- Pruning may be done before or after evaluating. -/
theorem Evaluates.pruned (path : List K) :
    Evaluates (.dict (pruned entries path)) (.dict (Store.pruned members path)) := by
  induction path generalizing entries members with
  | nil =>
    rw [DictMachine.pruned, Store.pruned]
    exact h
  | cons key path ih =>
    cases path with
    | nil =>
      rw [DictMachine.pruned, Store.pruned]
      exact h.removeKey key
    | cons =>
      have hnested := ih (h.subDict key)
      rw [pruned_cons_cons, Store.pruned_cons_cons, hnested.isEmpty_eq]
      split
      · exact h.removeKey key
      · exact h.insertKey key hnested

end

/-- Reading goes along with evaluation: it finds members one of which evaluates to the other, or
nothing in both, or fails in both. -/
theorem Evaluates.read (h : Evaluates value evaluated) (path : List K) :
    (∃ found member, read value path = .value found ∧
        Store.read evaluated path = .value member ∧ Evaluates found member) ∨
      (read value path = .undefined ∧ Store.read evaluated path = .undefined) ∨
      (¬ InnerDicts value path ∧ Store.read evaluated path = .failed) := by
  induction path generalizing value evaluated with
  | nil => exact .inl ⟨value, evaluated, read_nil value, Store.read_nil evaluated, h⟩
  | cons key path ih =>
    cases h with
    | data h | error h =>
      refine .inr (.inr ⟨fun hinner => ?_, rfl⟩)
      obtain ⟨entries, hwhnf, -⟩ := hinner.cons
      rw [h] at hwhnf
      cases hwhnf
    | dict h hmembers =>
      have hkey := hmembers key
      rw [innerDicts_iff_read, read_cons h, Store.read_dict_cons]
      revert hkey
      generalize List.lookup key _ = found, List.lookup key _ = member
      intro hkey
      cases hkey with
      | none => exact .inr (.inl ⟨rfl, rfl⟩)
      | some hfound =>
        have hrest := ih hfound
        rw [innerDicts_iff_read] at hrest
        exact hrest

/-- Every walk fails that runs into what is no dictionary. -/
theorem exists_failure (h : ¬ InnerDicts value path) (builtin : Store.Builtin)
    (fallback : Value K A) :
    ∃ failure, dictPathWalk builtin path fallback value = .error failure := by
  have hpath : path ≠ [] := by
    rintro rfl
    exact h (innerDicts_nil value)
  rw [innerDicts_iff_read] at h
  unfold dictPathWalk
  rw [if_neg hpath, pathWalk_eq]
  cases hread : read value path with
  | value found => exact absurd (.inr ⟨found, hread⟩) h
  | undefined => exact absurd (.inl hread) h
  | failed => exact ⟨_, rfl⟩
  | blocked =>
    dsimp only
    split <;> exact ⟨_, rfl⟩

/-! ### Edits -/

section

variable (h : Evaluates value evaluated) (path : List K)
include h

theorem Evaluates.applyValueAtPath (hnew : Evaluates newValue newEvaluated) :
    Evaluates (applyValueAtPath value path newValue)
      (Store.applyValueAtPath evaluated path newEvaluated) := by
  rw [Store.applyValueAtPath_eq, DictMachine.applyValueAtPath]
  split
  · next hpath =>
    rw [hpath, Store.insertAt_nil]
    exact hnew
  · next hpath => exact h.call_of_inserted hpath (hnew.inserted path hpath 0)

/-- Removing a path may be done before or after evaluating. -/
theorem Evaluates.removePath :
    Evaluates (removePath value path) (Store.removePath evaluated path) := by
  by_cases hpath : path = []
  · rw [hpath]
    exact .error rfl
  rw [Store.removePath_eq evaluated hpath, DictMachine.removePath]
  rcases h.read path with ⟨found, member, hfound, hmember, -⟩ | ⟨hfound, hmember⟩ | ⟨hnot, hmember⟩
  · obtain ⟨entries, hwhnf, ⟨hundefined, -⟩ | ⟨-, -, hpruned⟩⟩ :=
      dictRemove_eq hpath (innerDicts_iff_read.mpr (.inr ⟨found, hfound⟩))
    · rw [read_congr_whnf hpath ((whnf_dict entries).trans hwhnf.symm), hfound] at hundefined
      cases hundefined
    · obtain ⟨members, rfl, hremove⟩ := Store.removeAt_of_value hpath hmember
      have hdicts : Evaluates (.dict entries) (.dict members) :=
        h.congr_whnf ((whnf_dict entries).trans hwhnf.symm)
      rw [hpruned, hremove]
      exact (hdicts.pruned path).lazy
  · obtain ⟨entries, hwhnf, ⟨-, hsame⟩ | ⟨found, hvalue, -⟩⟩ :=
      dictRemove_eq hpath (innerDicts_iff_read.mpr (.inl hfound))
    · rw [hsame, Store.removeAt_of_undefined hmember]
      exact (h.congr_whnf ((whnf_dict entries).trans hwhnf.symm)).lazy
    · rw [read_congr_whnf hpath ((whnf_dict entries).trans hwhnf.symm), hfound] at hvalue
      cases hvalue
  · obtain ⟨failure, hfailure⟩ := exists_failure hnot .dictRemove value
    rw [Store.removeAt_of_failed hmember, DictMachine.dictRemove, hfailure]
    exact .error rfl

end

theorem Holds.evaluates (h : Holds value evaluated) : Evaluates value evaluated := by
  induction h with
  | create h => exact h
  | set address _ hnew ih => exact ih.applyValueAtPath address.path hnew
  | rewrite address _ _ hnew ih => exact ih.applyValueAtPath address.path hnew
  | remove address _ ih => exact ih.removePath address.path

/-- **Reads of a held volume are those of its model.** After any run of edits, a path leads in the
volume to what evaluates to what the model reads there; or it is undefined in both; or it runs into
what is no dictionary, and every read fails in both. -/
theorem Holds.reads (h : Holds value evaluated) (path : List K) :
    (∃ found member, dictLookup path value = .ok (.value found) ∧
        Store.pathRead evaluated path = .value member ∧ Evaluates found member) ∨
      (dictPathWalk .dictDefines path value value = .ok (.predicate false) ∧
        Store.pathRead evaluated path = .undefined) ∨
      ((∀ builtin, ∃ failure, dictPathWalk builtin path value value = .error failure) ∧
        Store.pathRead evaluated path = .failed) := by
  rw [Store.pathRead_eq]
  rcases h.evaluates.read path with ⟨found, member, hfound, hmember, heval⟩ | ⟨hfound, hmember⟩ |
    ⟨hnot, hmember⟩
  · exact .inl ⟨found, member, dictLookup_of_read hfound, hmember, heval⟩
  · exact .inr (.inl ⟨dictDefines_eq_false_iff.mpr hfound, hmember⟩)
  · exact .inr (.inr ⟨fun builtin => exists_failure hnot builtin value, hmember⟩)

/-- Keys 1 and 2 are set below key 0, and key 1 is removed: a read of `0.2` evaluates the suspended
calls on its way. -/
theorem holds_reads_suspended :
    let volume : Value Nat Nat := removePath (.call .dictInsert [0, 2] (.lazy (.data 6))
      (.call .dictInsert [0, 1] (.data 5) (.dict []))) [0, 1]
    ∃ model member, Holds volume model ∧ Store.pathRead model [0, 2] = .value member ∧
      Evaluates (.lazy (.data 6)) member := by
  intro volume
  have hlookup : dictLookup [0, 2] volume = .ok (.value (.lazy (.data 6))) := rfl
  have hdata : ∀ a : Nat, Evaluates (.data a : Value Nat Nat) (.data a) := fun _ => .data rfl
  have hholds := (((Holds.create evaluates_empty).set ⟨1, [0, 1]⟩ (hdata 5)).set ⟨1, [0, 2]⟩
    (hdata 6).lazy).remove ⟨1, [0, 1]⟩
  rcases hholds.reads [0, 2] with ⟨found, member, hfound, hmember, h⟩ | ⟨hbad, -⟩ | ⟨hbad, -⟩
  · obtain rfl := Answer.value.inj (Except.ok.inj (hfound.symm.trans hlookup))
    exact ⟨_, member, hholds, hmember, h⟩
  · cases hbad
  · obtain ⟨failure, hfailure⟩ := hbad .dictLookup
    cases hfailure.symm.trans hlookup

end Glam.Eval.DictMachine
