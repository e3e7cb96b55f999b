import Glam.Syntax.Lexical

/-!
# Tables over the tokens of a source

What the lexer computes from its tokens once they are all there: the innermost group around each
token and the indentation of its line (`token_tables`), and the `as` tokens that end a match's
subject (`layout::match_arms_keywords`). Both can run into an assertion, and then give nothing here.

The keyword search never does (`matchArmsKeywords_isSome`): it looks at tokens of the source only,
and the count of matches for the source itself is never taken off. That the tables do not either is
a fact about the lexer, since close tokens must pair with their open ones. -/

namespace Glam.Syntax

/-! ### Enclosing groups and indentations -/

/-- The loop state of `token_tables`. The innermost open group is the head of `opened`. -/
structure TableState where
  enclosing : List (Option Nat)
  indentations : List (Option Nat)
  opened : List Nat
  indentation : Option Nat

/-- One token of `token_tables`. Nothing where a close token does not pair with its open one. -/
def TableState.add (state : TableState) (token : SpannedToken) : Option TableState :=
  match token.kind with
  | .openGroup group _ =>
    some { state with
      enclosing := state.enclosing ++ [state.opened.head?]
      indentations := state.indentations ++ [state.indentation]
      opened := group :: state.opened }
  | .closeGroup group _ =>
    if state.opened.head? = some group then
      some { state with
        enclosing := state.enclosing ++ [state.opened.tail.head?]
        indentations := state.indentations ++ [state.indentation]
        opened := state.opened.tail }
    else none
  | .lineStart indentation =>
    some { state with
      enclosing := state.enclosing ++ [state.opened.head?]
      indentations := state.indentations ++ [some indentation]
      indentation := some indentation }
  | _ =>
    some { state with
      enclosing := state.enclosing ++ [state.opened.head?]
      indentations := state.indentations ++ [state.indentation] }

/-- For each token its enclosing group and the indentation of its line; none where the source
panics. -/
def tokenTables (tokens : List SpannedToken) : Option (List (Option Nat) × List (Option Nat)) :=
  (tokens.foldlM TableState.add ⟨[], [], [], none⟩).map fun state =>
    (state.enclosing, state.indentations)

/-! ### The keywords of matches -/

/-- A range of tokens. -/
structure TokenView where
  tokens : List SpannedToken
  start : Nat
  stop : Nat

namespace TokenView

/-- The view of all tokens. -/
def whole (tokens : List SpannedToken) : TokenView := ⟨tokens, 0, tokens.length⟩

variable (view : TokenView)

/-- The token at an index, if it is in view. -/
def tokenAt (index : Nat) : Option SpannedToken :=
  if view.start ≤ index ∧ index < view.stop then view.tokens[index]? else none

/-- The tokens in view. -/
def contents : List SpannedToken :=
  (view.tokens.drop view.start).take (view.stop - view.start)

/-- `subview`, of ordered indices. -/
def subview (start stop : Nat) : Option TokenView :=
  if start ≤ stop ∧ view.start ≤ start ∧ stop ≤ view.stop then some ⟨view.tokens, start, stop⟩
  else none

/-- Whether a token marks the start of a line. -/
def isLineStart (token : SpannedToken) : Bool :=
  match token.kind with
  | .lineStart _ => true
  | _ => false

/-- `first_significant`: the first token that does not start a line, with its index. -/
def firstSignificant : Option (Nat × SpannedToken) :=
  (view.contents.zipIdx.find? fun entry => !isLineStart entry.1).map fun entry =>
    (view.start + entry.2, entry.1)

/-- The view without the line starts at its ends. -/
def trimLayout : Option TokenView :=
  let leading := (view.contents.takeWhile isLineStart).length
  let trailing := (view.contents.reverse.takeWhile isLineStart).length
  let stop := max (view.contents.length - trailing) leading
  if leading ≤ stop ∧ stop ≤ view.contents.length then
    view.subview (view.start + leading) (view.start + stop)
  else none

/-- Whether one of some symbols stands at an index, right after what is before it. -/
def jointSymbol (index : Nat) (expected : List String) : Bool :=
  (view.tokenAt index).any fun token =>
    token.leading = .joint && expected.any fun text => token.kind = .symbol text.toList

/-- Whether a name is followed by a mark that makes it a key. -/
def beforeKeyMark (index : Nat) : Bool :=
  view.jointSymbol (index + 1) [":", "."]

/-- Whether a name stands where it may be a keyword. -/
def inKeywordPosition (index : Nat) : Bool :=
  (view.tokenAt index).any fun token =>
    (index = view.start || token.leading ≠ .joint ||
      (0 < index && (view.tokenAt (index - 1)).any fun previous =>
        match previous.kind with
        | .lineStart _ => true
        | .openGroup _ _ => true
        | _ => false)) &&
      !view.beforeKeyMark index

/-- Whether a symbol stands at an index. -/
def symbolAt (index : Nat) (expected : String) : Bool :=
  (view.tokenAt index).any fun token => token.kind = .symbol expected.toList

/-- Whether a colon begins a constructor, and does not follow a key. -/
def isConstructorColon (index : Nat) : Option Bool := do
  let colon ← view.tokenAt index
  return colon.leading ≠ .joint || index = 0 || (view.tokenAt (index - 1)).all fun before =>
    match before.kind with
    | .openGroup _ _ => true
    | .symbol _ => true
    | .lineStart _ => true
    | _ => false

/-- Whether the keyword follows a key mark, where it would be part of a path, a quoted atom or a
constructor. -/
def afterKeyMark (index : Nat) : Option Bool :=
  if ((view.tokenAt index).any fun token => token.leading = .joint) && 0 < index then
    if view.symbolAt (index - 1) "." || view.symbolAt (index - 1) "'" then some true
    else if view.symbolAt (index - 1) ":" then view.isConstructorColon (index - 1)
    else some false
  else some false

/-- Whether a name is no key, so that it may head a form. -/
def headsForm (index : Nat) : Option Bool :=
  (view.afterKeyMark index).map fun after => !after && !view.beforeKeyMark index

/-- Whether a token is a given name. -/
def isName (token : SpannedToken) (expected : String) : Bool :=
  token.kind = .name expected.toList

/-- Whether a name heads a form with keywords of its own. -/
def mayHeadKeywordForm (index : Nat) : Option Bool :=
  (view.tokenAt index).bind fun head =>
    if ["if", "try", "match", "try_match", "using", "do"].any (isName head) then view.headsForm index
    else some false

/-- Whether a match goes on with `when`, and so has no subject. -/
def headsMatchWhen (index : Nat) : Option Bool :=
  let star := if view.jointSymbol (index + 1) ["*"] then 1 else 0
  (view.subview (min (index + 1 + star) view.stop) view.stop).bind fun between =>
    between.trimLayout.map fun after =>
      after.firstSignificant.any fun entry =>
        isName entry.2 "when" && after.inKeywordPosition entry.1

/-- Whether the name at `index` heads a match that takes an `as`. -/
def headsMatch (index : Nat) : Option Bool :=
  (view.mayHeadKeywordForm index).bind fun heads =>
    if heads then (view.headsMatchWhen index).map not else some false

end TokenView

open TokenView (isName)

/-- The loop state of `match_arms_keywords`: for each open group, the match heads still reading
their subjects, the innermost group first, and the keywords found. -/
structure KeywordState where
  pending : List Nat
  found : List Nat

namespace KeywordState

variable (view : TokenView)

/-- A match head, which reads its subject. -/
def addHead (state : KeywordState) : Option KeywordState :=
  match state.pending with
  | [] => none
  | count :: rest => some { state with pending := (count + 1) :: rest }

/-- An `as`, which ends the subject of the innermost head, if there is one. -/
def addAs (state : KeywordState) (index : Nat) : Option KeywordState :=
  match state.pending with
  | [] => none
  | 0 :: _ => some state
  | (count + 1) :: rest => some ⟨count :: rest, state.found ++ [index]⟩

/-- A name: one that heads a match, or an `as`. -/
def addName (state : KeywordState) (token : SpannedToken) (index : Nat) : Option KeywordState :=
  if isName token "match" || isName token "try_match" then
    (view.headsMatch index).bind fun heads => if heads then state.addHead else some state
  else if isName token "as" && view.inKeywordPosition index then state.addAs index
  else some state

/-- One token of `match_arms_keywords`. -/
def add (state : KeywordState) (entry : SpannedToken × Nat) : Option KeywordState :=
  match entry.1.kind with
  | .openGroup _ _ => some { state with pending := 0 :: state.pending }
  | .closeGroup _ _ =>
    if 1 < state.pending.length then some { state with pending := state.pending.tail }
    else some state
  | .lineStart indentation =>
    -- a declaration ends any subject left without its `as`
    if indentation = 0 ∧ state.pending.length = 1 then some { state with pending := [0] }
    else some state
  | _ => state.addName view entry.1 entry.2

end KeywordState

/-- The places of the `as` that end the subject of a match; none where the source panics. -/
def matchArmsKeywords (tokens : List SpannedToken) : Option (List Nat) :=
  (tokens.zipIdx.foldlM (KeywordState.add (.whole tokens)) ⟨[0], []⟩).map KeywordState.found

/-! ### The search stays inside the source -/

variable {index : Nat} {token : SpannedToken}

namespace TokenView

variable {tokens : List SpannedToken}

theorem tokenAt_whole (h : tokens[index]? = some token) :
    (whole tokens).tokenAt index = some token := by
  obtain ⟨hlt, -⟩ := List.getElem?_eq_some_iff.mp h
  rw [tokenAt, if_pos ⟨Nat.zero_le _, hlt⟩]
  exact h

/-- The test for a key mark never panics. -/
theorem afterKeyMark_isSome (view : TokenView) (index : Nat) :
    (view.afterKeyMark index).isSome := by
  rw [afterKeyMark]
  split
  · split
    · rfl
    · split
      · next hcolon =>
        -- the mark is there, so it can be looked at
        rw [symbolAt] at hcolon
        rw [isConstructorColon]
        cases htoken : view.tokenAt (index - 1) with
        | none =>
          rw [htoken] at hcolon
          cases hcolon
        | some => rfl
      · rfl
  · rfl

theorem trimLayout_isSome {view : TokenView} (hstart : view.start ≤ view.stop)
    (hstop : view.stop ≤ view.tokens.length) : view.trimLayout.isSome := by
  have hlength : view.contents.length = view.stop - view.start := by
    rw [contents, List.length_take, List.length_drop]
    omega
  have hleading : (view.contents.takeWhile isLineStart).length ≤ view.contents.length :=
    (List.takeWhile_prefix _).length_le
  rw [trimLayout, if_pos ⟨Nat.le_max_right _ _, by omega⟩, subview, if_pos (by omega)]
  rfl

theorem headsMatchWhen_isSome (tokens : List SpannedToken) (index : Nat) :
    ((whole tokens).headsMatchWhen index).isSome := by
  have hbetween : ∀ start, (whole tokens).subview (min start (whole tokens).stop)
      (whole tokens).stop = some ⟨tokens, min start tokens.length, tokens.length⟩ := by
    intro start
    rw [subview, if_pos ⟨Nat.min_le_right _ _, Nat.zero_le _, Nat.le_refl _⟩]
    rfl
  rw [headsMatchWhen, hbetween, Option.bind_some, Option.isSome_map]
  exact trimLayout_isSome (Nat.min_le_right _ _) (Nat.le_refl _)

/-- The test for a match never panics. -/
theorem headsMatch_isSome (h : tokens[index]? = some token) :
    ((whole tokens).headsMatch index).isSome := by
  have hform : ((whole tokens).mayHeadKeywordForm index).isSome := by
    rw [mayHeadKeywordForm, tokenAt_whole h, Option.bind_some]
    split
    · rw [headsForm, Option.isSome_map]
      exact afterKeyMark_isSome _ _
    · rfl
  obtain ⟨heads, hheads⟩ := Option.isSome_iff_exists.mp hform
  rw [headsMatch, hheads, Option.bind_some]
  split
  · rw [Option.isSome_map]
    exact headsMatchWhen_isSome tokens index
  · rfl

end TokenView

namespace KeywordState

variable {tokens : List SpannedToken} {state : KeywordState}

/-- A name leaves a group open. -/
theorem addName_spec (htoken : tokens[index]? = some token) (hstate : state.pending ≠ []) :
    ∃ state', state.addName (.whole tokens) token index = some state' ∧ state'.pending ≠ [] := by
  obtain ⟨count, rest, hpending⟩ := List.exists_cons_of_ne_nil hstate
  rw [addName]
  split
  · obtain ⟨heads, hheads⟩ := Option.isSome_iff_exists.mp (TokenView.headsMatch_isSome htoken)
    rw [hheads, Option.bind_some]
    split
    · rw [addHead, hpending]
      exact ⟨_, rfl, List.cons_ne_nil _ _⟩
    · exact ⟨state, rfl, hstate⟩
  · split
    · rw [addAs, hpending]
      cases count with
      | zero => exact ⟨state, rfl, hstate⟩
      | succ => exact ⟨_, rfl, List.cons_ne_nil _ _⟩
    · exact ⟨state, rfl, hstate⟩

/-- One token keeps the count for the source itself. -/
theorem add_spec {entry : SpannedToken × Nat} (hentry : tokens[entry.2]? = some entry.1)
    (hstate : state.pending ≠ []) :
    ∃ state', state.add (.whole tokens) entry = some state' ∧ state'.pending ≠ [] := by
  rw [add]
  split
  · exact ⟨_, rfl, List.cons_ne_nil _ _⟩
  · split
    · next hlength =>
      refine ⟨_, rfl, fun htail => ?_⟩
      have hle : state.pending.tail.length = 0 := congrArg List.length htail
      rw [List.length_tail] at hle
      omega
    · exact ⟨state, rfl, hstate⟩
  · split
    · exact ⟨_, rfl, List.cons_ne_nil _ _⟩
    · exact ⟨state, rfl, hstate⟩
  · exact addName_spec hentry hstate

end KeywordState

/-- **The keyword search meets no assertion.** -/
theorem matchArmsKeywords_isSome (tokens : List SpannedToken) :
    (matchArmsKeywords tokens).isSome := by
  suffices h : ∀ (entries : List (SpannedToken × Nat)) (state : KeywordState),
      (∀ entry ∈ entries, tokens[entry.2]? = some entry.1) → state.pending ≠ [] →
      (entries.foldlM (KeywordState.add (.whole tokens)) state).isSome by
    rw [matchArmsKeywords, Option.isSome_map]
    exact h _ _ (fun entry hmem => List.mk_mem_zipIdx_iff_getElem?.mp hmem) (List.cons_ne_nil _ _)
  intro entries
  induction entries with
  | nil => exact fun _ _ _ => rfl
  | cons entry entries ih =>
    intro state hentries hstate
    obtain ⟨state', hadd, hstate'⟩ :=
      KeywordState.add_spec (hentries entry (.head _)) hstate
    rw [List.foldlM_cons, hadd]
    exact ih state' (fun entry hmem => hentries entry (.tail _ hmem)) hstate'

end Glam.Syntax
