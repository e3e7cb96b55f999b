import Glam.Eval.DictMachine

/-!
# Folding dict literals

A dict literal introduces its members in order. Where all of them are closed data at static paths
the compiler does it (`closed_dict` of `g_syntax/resolve/expression.rs`) and reports a conflict;
otherwise the literal is built at run time, each member a call of `dict.introduce` on the dict built
so far (`RegionalDictBuild` of `eval/dict_machine.rs`). A literal with a member that is not closed
data at a static path is not folded at all and is left out here.

Closed data may be suspended. At run time the rest of a path through a suspended member is left for
later, and the introduction succeeds. Folding gives up there, and that is all it does differently
(`closedDict_spec`).
-/

namespace Glam.Syntax

open Glam.Eval.DictMachine
open Glam.Store (insertKey)

/-- What the compiler reports, with the keys left of the member's path. -/
inductive Conflict (K : Type)
  /-- the dict literal introduces `path` twice -/
  | twice (path : List K)
  /-- the dict literal's path `path` traverses a non-dictionary value -/
  | traverses (path : List K)

variable {K A : Type} [DecidableEq K]

/-- `closed_introduce`: `dict` with `value` at a path, or nothing where a dict on the way is
suspended. -/
def closedIntroduce (value : Value K A) :
    Dict K A → List K → Except (Conflict K) (Option (Dict K A))
  -- a closed path has a key
  | _, [] => .ok none
  | dict, [head] =>
    if (dict.lookup head).isSome then .error (.twice [head])
    else .ok (some (insertKey dict head value))
  | dict, head :: next :: rest =>
    match (dict.lookup head).getD (.dict []) with
    | .dict nested => (closedIntroduce value nested (next :: rest)).map
        (Option.map fun nested => insertKey dict head (.dict nested))
    | .data _ => .error (.traverses (head :: next :: rest))
    | _ => .ok none

/-- `closed_dict`, after the members that built `dict`. -/
def closedDict (dict : Dict K A) :
    List (List K × Value K A) → Except (Conflict K) (Option (Dict K A))
  | [] => .ok (some dict)
  | (path, value) :: members =>
    if path = [] then .ok none
    else match closedIntroduce value dict path with
      | .ok (some introduced) => closedDict introduced members
      | stop => stop

/-- A member applied to the dict built so far. -/
def introduce (dict : Dict K A) (member : List K × Value K A) : Except (Failure K) (Dict K A) :=
  match whnf (.call .dictIntroduce member.1 member.2 (.dict dict)) with
  | .ok (.dict built) => .ok built
  | .ok _ => .error (.message "a dict literal's member must be a dict")
  | .error failure => .error failure

/-- The members introduced in order at run time. -/
def buildDict (dict : Dict K A) (members : List (List K × Value K A)) :
    Except (Failure K) (Dict K A) :=
  members.foldlM introduce dict

/-- A path leads through a suspended member. -/
def Suspends : Dict K A → List K → Prop
  | dict, head :: next :: rest =>
    match (dict.lookup head).getD (.dict []) with
    | .dict nested => Suspends nested (next :: rest)
    | .data _ => False
    | _ => True
  | _, _ => False

/-- A member has no path, or one that leads through a suspended member of what the earlier ones
build. -/
def GivesUp : Dict K A → List (List K × Value K A) → Prop
  | _, [] => False
  | dict, member :: members => member.1 = [] ∨ Suspends dict member.1 ∨
      ∃ built, introduce dict member = .ok built ∧ GivesUp built members

/-- **Folding does what the run time does**, unless it gives up. -/
inductive Agree (givesUp : Prop) :
    Except (Conflict K) (Option (Dict K A)) → Except (Failure K) (Dict K A) → Prop
  | gaveUp {built : Except (Failure K) (Dict K A)} (h : givesUp) : Agree givesUp (.ok none) built
  | folded {dict : Dict K A} (hnot : ¬ givesUp) : Agree givesUp (.ok (some dict)) (.ok dict)
  | refused {conflict : Conflict K} {failure : Failure K} (hnot : ¬ givesUp) :
      Agree givesUp (.error conflict) (.error failure)

/-- One member, at the rest of its path: the recursion makes the choices of the loop. -/
theorem closedIntroduce_agree (path : List K) (value : Value K A) (parents : List (Dict K A × K))
    (dict : Dict K A) {rest : List K} (hrest : rest ≠ []) :
    Agree (Suspends dict rest)
      ((closedIntroduce value dict rest).map (Option.map (rebuild parents)))
      (insertDictPathLoop .dictIntroduce path value parents dict rest) := by
  induction rest generalizing parents dict with
  | nil => exact absurd rfl hrest
  | cons head rest ih =>
    cases rest with
    | nil =>
      unfold closedIntroduce insertDictPathLoop
      by_cases hhead : (dict.lookup head).isSome
      · rw [if_pos hhead, if_pos ⟨rfl, hhead⟩]
        exact .refused id
      · rw [if_neg hhead, if_neg fun h => hhead h.2]
        exact .folded id
    | cons next rest =>
      -- the dict below the key, which is new where there was none
      have hnested : ∀ nested, Agree (Suspends nested (next :: rest))
          (((closedIntroduce value nested (next :: rest)).map
            (Option.map fun nested => insertKey dict head (.dict nested))).map
            (Option.map (rebuild parents)))
          (insertDictPathLoop .dictIntroduce path value ((dict, head) :: parents) nested
            (next :: rest)) := by
        intro nested
        have h := ih ((dict, head) :: parents) nested (by simp)
        generalize closedIntroduce value nested (next :: rest) = folded at h ⊢
        rcases folded with conflict | _ | result <;> exact h
      unfold closedIntroduce insertDictPathLoop Suspends
      cases hhead : dict.lookup head with
      | none => exact hnested []
      | some member =>
        cases member with
        | dict nested => exact hnested nested
        | data => exact .refused id
        | lazy | error | call => exact .gaveUp trivial

/-- The two ways to introduce a member agree, unless one suspends. -/
theorem introduce_agree (dict : Dict K A) {member : List K × Value K A} (hpath : member.1 ≠ []) :
    Agree (Suspends dict member.1) (closedIntroduce member.2 dict member.1)
      (introduce dict member) := by
  have h := closedIntroduce_agree member.1 member.2 [] dict hpath
  rw [introduce, whnf, if_neg hpath, whnf_dict]
  simp only [Except.bind, finishInsert, insertDictPath]
  generalize insertDictPathLoop .dictIntroduce member.1 member.2 [] dict member.1 = built at h ⊢
  generalize closedIntroduce member.2 dict member.1 = folded at h ⊢
  rcases folded with conflict | _ | result <;> cases h
  · exact .refused ‹_›
  · exact .gaveUp ‹_›
  · exact .folded ‹_›

/-- The two constructions of a dictionary agree, unless one gives up. -/
theorem closedDict_agree (dict : Dict K A) (members : List (List K × Value K A)) :
    Agree (GivesUp dict members) (closedDict dict members) (buildDict dict members) := by
  induction members generalizing dict with
  | nil => exact .folded id
  | cons member members ih =>
    rw [closedDict, buildDict, List.foldlM_cons, GivesUp]
    by_cases hpath : member.1 = []
    · rw [if_pos hpath]
      exact .gaveUp (.inl hpath)
    have h := introduce_agree dict hpath
    rw [if_neg hpath]
    generalize closedIntroduce member.2 dict member.1 = folded, introduce dict member = built at h ⊢
    cases h with
    | gaveUp hsuspends => exact .gaveUp (.inr (.inl hsuspends))
    | folded hnot =>
      simp only [hpath, hnot, Except.ok.injEq, exists_eq_left', false_or]
      exact ih _
    | refused hnot => exact .refused (by simp [hpath, hnot])

/-- **Folding a dict literal.** It gives up exactly where a member has no path or one that leads
through a suspended member. Otherwise it gives a dict exactly where the introduction of the members
at run time does, and the same one, and reports a conflict exactly where that fails. -/
theorem closedDict_spec (members : List (List K × Value K A)) :
    (closedDict [] members = .ok none ↔ GivesUp [] members) ∧
      (∀ dict, closedDict [] members = .ok (some dict) ↔
        ¬ GivesUp [] members ∧ buildDict [] members = .ok dict) ∧
      ((∃ conflict, closedDict [] members = .error conflict) ↔
        ¬ GivesUp [] members ∧ ∃ failure, buildDict [] members = .error failure) := by
  have h := closedDict_agree [] members
  generalize closedDict [] members = folded, buildDict [] members = built at h ⊢
  cases h with
  | gaveUp h | folded h | refused h => simp [h]

/-- Folding gives up where the introduction at run time succeeds: here below a lazy member. -/
theorem closedDict_lazy_member :
    let members : List (List Nat × Value Nat Nat) := [([0], .lazy (.dict [])), ([0, 1], .data 7)]
    closedDict [] members = .ok none ∧ ∃ dict, buildDict [] members = .ok dict :=
  ⟨rfl, _, rfl⟩

end Glam.Syntax
