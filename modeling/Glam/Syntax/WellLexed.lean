import Glam.Syntax.LexicalInvariant

/-!
# Lexing a source

Every source is lexed without a panic, and what is found is as it should be (`lexSource_wellLexed`):
the tokens are in order, do not overlap, and cover the source with the layout between them; groups
are nested; declarations are one after another and start unindented outside of groups; the checks of
`invariants_hold` pass; and a source without lexical errors has every delimiter in a closed group.

After the loop, the last declaration is finished and the groups left open are reported. Neither
touches the tokens, so all of this is read off the invariant at the end of the loop. -/

namespace Glam.Syntax

variable {N V : Type}

/-- Every delimiter is part of a group that is closed. -/
def LexedSource.Closed (lexed : LexedSource N V) : Prop :=
  ∀ token ∈ lexed.tokens,
    (∀ id delimiter, token.kind = .openGroup id delimiter ∨ token.kind = .closeGroup id delimiter →
      ∃ group close, lexed.groups[id]? = some group ∧ group.closeToken = some close) ∧
    ∀ c ∈ token.kind.written, Delimiter.marks c = false

/-- **What a lexed source should be.** -/
structure LexedSource.WellLexed (source : List Char) (lexed : LexedSource N V) : Prop where
  running : lexed.panicked = false
  tables : (tokenTables lexed.tokens).isSome
  keywords : (matchArmsKeywords lexed.tokens).isSome
  ordered : lexed.tokens.Pairwise fun first second => first.span.stop ≤ second.span.start
  covers : Covers lexed.Reported 0 source lexed.tokens
  nested : Nested lexed.tokens lexed.groups
  declares : lexed.Declares
  checks : lexed.invariantsHold source = true
  closed : lexed.hasErrors = false → lexed.Closed

namespace Lexer

variable {source : List Char} {s : Lexer N}

/-! ### The groups left open -/

/-- **Every group left open is reported.** -/
theorem unclosed_spec (h : Grouped s.tokens s.groups s.groupStack)
    (hfirst : s.lineStarts.head? = some 0) :
    ∃ errors, s.unclosed = { s with structuralDiagnostics := s.structuralDiagnostics ++ errors } ∧
      errors.length = s.groupStack.length ∧
      ∀ diagnostic ∈ errors, diagnostic.severity = .error ∧ 0 < diagnostic.line := by
  -- each open group has its opening token, so that its line can be reported
  have hreport : ∀ id ∈ s.groupStack, ∃ line message, 0 < line ∧
      ∀ reported, s.reportUnclosed reported id = reported.structuralError line message := by
    intro id hid
    obtain ⟨group, hgroup⟩ : ∃ group, s.groups[id]? = some group :=
      ⟨_, List.getElem?_eq_getElem (h.bound id hid)⟩
    obtain ⟨token, htoken⟩ : ∃ token, s.tokens[group.openToken]? = some token :=
      ⟨_, List.getElem?_eq_getElem (h.openToken_lt hgroup)⟩
    refine ⟨_, "unclosed delimiter; expected `" ++ group.delimiter.close.toString ++ "`",
      lineAt_pos hfirst token.span.start, fun reported => ?_⟩
    rw [Lexer.reportUnclosed, hgroup]
    dsimp only
    rw [htoken]
  suffices hfold : ∀ (stack : List Nat) (reported : Lexer N), (∀ id ∈ stack, id ∈ s.groupStack) →
      ∃ errors, stack.foldl s.reportUnclosed reported =
          { reported with structuralDiagnostics := reported.structuralDiagnostics ++ errors } ∧
        errors.length = stack.length ∧
        ∀ diagnostic ∈ errors, diagnostic.severity = .error ∧ 0 < diagnostic.line from
    hfold s.groupStack s fun _ hid => hid
  intro stack
  induction stack with
  | nil =>
    intro reported _
    refine ⟨[], ?_, rfl, nofun⟩
    rw [List.append_nil]
    rfl
  | cons id stack ih =>
    intro reported hstack
    obtain ⟨line, message, hline, heq⟩ := hreport id (hstack id (.head _))
    obtain ⟨errors, hfold, hlength, herrors⟩ := ih (reported.structuralError line message)
      fun other hother => hstack other (.tail _ hother)
    refine ⟨⟨.error, line, message⟩ :: errors, ?_, congrArg (· + 1) hlength,
      List.forall_mem_cons.mpr ⟨⟨rfl, hline⟩, herrors⟩⟩
    rw [List.foldl_cons, heq, hfold, Lexer.structuralError, List.append_assoc]
    rfl

/-! ### The end of the loop -/

/-- What is found is what the lexer had at the end of its loop, with the last declaration finished.
-/
structure Ends (s : Lexer N) (lexed : LexedSource N V) : Prop where
  tokens : lexed.tokens = s.tokens
  numbers : lexed.numbers = s.numbers
  texts : lexed.texts = s.texts
  groups : lexed.groups = s.groups
  lineStarts : lexed.lineStarts = s.lineStarts
  declarations : lexed.declarations = (s.finishDeclaration s.tokens.length).declarations
  reports : ∀ diagnostic ∈ s.invalidWhitespaceDiagnostics, diagnostic ∈ lexed.diagnostics
  positive : ∀ diagnostic ∈ lexed.diagnostics, 0 < diagnostic.line
  hasErrors : lexed.hasErrors = lexed.diagnostics.any fun diagnostic => diagnostic.severity = .error
  clean : lexed.hasErrors = false → s.structuralDiagnostics = [] ∧ s.groupStack = []

theorem mem_sortByLine {diagnostics : List Diagnostic} {diagnostic : Diagnostic} :
    diagnostic ∈ sortByLine diagnostics ↔ diagnostic ∈ diagnostics :=
  List.mem_mergeSort

/-- A source has errors exactly if one was reported. -/
theorem hasErrors_eq {warnings errors : List Diagnostic}
    (hwarnings : ∀ diagnostic ∈ warnings, diagnostic.severity = .warn)
    (herrors : ∀ diagnostic ∈ errors, diagnostic.severity = .error) :
    (!errors.isEmpty) = (sortByLine (warnings ++ errors)).any fun diagnostic =>
      diagnostic.severity = .error := by
  rw [Bool.eq_iff_iff, List.any_eq_true, Bool.not_eq_true', List.isEmpty_eq_false_iff]
  constructor
  · intro hne
    obtain ⟨diagnostic, hmem⟩ := List.exists_mem_of_ne_nil errors hne
    exact ⟨diagnostic, mem_sortByLine.mpr (List.mem_append_right _ hmem),
      decide_eq_true (herrors diagnostic hmem)⟩
  · rintro ⟨diagnostic, hmem, hseverity⟩ rfl
    rw [List.append_nil, mem_sortByLine] at hmem
    rw [hwarnings diagnostic hmem] at hseverity
    cases hseverity

/-- The result has what the loop leaves. -/
theorem Ends.lexSource (parseNumber : List Char → Except String N)
    (h : ((Lexer.new source).loop parseNumber).Inv source) :
    ((Lexer.new source).loop parseNumber).Ends (lexSource V parseNumber source) := by
  rw [Glam.Syntax.lexSource]
  generalize (Lexer.new source : Lexer N).loop parseNumber = read at h ⊢
  have hplace := SamePlace.finishDeclaration read read.tokens.length
  obtain ⟨hnumbers, htexts, hgroups, hstack⟩ := finishDeclaration_tables read read.tokens.length
  have htokens := tokens_finishDeclaration read read.tokens.length
  obtain ⟨unclosed, hunclosed, hlength, hreported⟩ :=
    @unclosed_spec N (read.finishDeclaration read.tokens.length)
      (by rw [htokens, hgroups, hstack]; exact h.grouped)
      (by rw [hplace.lineStarts]; exact h.sound.first)
  rw [hunclosed]
  dsimp only
  rw [hplace.invalidWhitespaceDiagnostics, hplace.structuralDiagnostics]
  -- all that is reported are errors, apart from the warning of mixed line breaks
  have herrors : ∀ diagnostic ∈ read.invalidWhitespaceDiagnostics ++
      (read.structuralDiagnostics ++ unclosed),
      diagnostic.severity = .error ∧ 0 < diagnostic.line := by
    rw [← List.append_assoc]
    exact List.forall_mem_append.mpr ⟨h.sound.errors, hreported⟩
  refine ⟨htokens, hnumbers, htexts, hgroups, hplace.lineStarts, rfl, fun diagnostic hmem => ?_,
    fun diagnostic hmem => ?_, ?_, fun hclean => ?_⟩
  · exact mem_sortByLine.mpr (List.mem_append_right _ (List.mem_append_left _ hmem))
  · rcases List.mem_append.mp (mem_sortByLine.mp hmem) with hmem | hmem
    · split at hmem
      · rw [List.mem_singleton.mp hmem]
        exact Nat.one_pos
      · exact absurd hmem List.not_mem_nil
    · exact (herrors diagnostic hmem).2
  · refine hasErrors_eq (fun diagnostic hmem => ?_) fun diagnostic hmem => (herrors diagnostic hmem).1
    split at hmem
    · rw [List.mem_singleton.mp hmem]
    · exact absurd hmem List.not_mem_nil
  · -- without an error no group is left open, since each would be reported
    have hnil : read.invalidWhitespaceDiagnostics ++ (read.structuralDiagnostics ++ unclosed) = [] :=
      List.isEmpty_iff.mp (by simpa using hclean)
    obtain ⟨-, hnil⟩ := List.append_eq_nil_iff.mp hnil
    obtain ⟨hstructural, rfl⟩ := List.append_eq_nil_iff.mp hnil
    refine ⟨hstructural, List.length_eq_zero_iff.mp ?_⟩
    rw [← hstack, ← hlength]
    rfl

/-! ### The checks -/

section Checks

variable {lexed : LexedSource N V} (hends : s.Ends lexed) (h : s.Inv source)
include hends h

theorem Ends.lineStarts_hold : lexed.lineStarts.head? = some 0 ∧
    ((LexedSource.windows lexed.lineStarts).all fun pair =>
      pair.1 < pair.2 && pair.2 ≤ bytes source) = true := by
  rw [hends.lineStarts]
  refine ⟨h.sound.first, LexedSource.all_windows_of_pairwise ?_⟩
  refine h.sound.sorted.imp_of_mem fun {start stop} _ hstop hlt => ?_
  have hle := (h.sound.boundary stop hstop).le
  simp [hlt, hle]

/-- Every token refers to an entry of its table. -/
theorem Ends.tokenReferenceIsValid {token : SpannedToken} (hmem : token ∈ s.tokens) :
    lexed.tokenReferenceIsValid token.kind = true := by
  have hrefers := h.refers token hmem
  obtain ⟨index, htoken⟩ := List.getElem?_of_mem hmem
  have hkind : s.tokens[index]?.map SpannedToken.kind = some token.kind := by
    rw [htoken]
    rfl
  cases heq : token.kind with
  | number id =>
    rw [LexedSource.tokenReferenceIsValid, hends.numbers,
      List.getElem?_eq_getElem (hrefers.number id heq)]
    rfl
  | text id =>
    rw [LexedSource.tokenReferenceIsValid, hends.texts,
      List.getElem?_eq_getElem (hrefers.text id heq)]
    rfl
  | embedded id => exact absurd heq (hrefers.embedded id)
  | openGroup id delimiter =>
    rw [heq] at hkind
    obtain ⟨group, hgroup, -, hdelimiter⟩ := h.grouped.opened index id delimiter hkind
    rw [LexedSource.tokenReferenceIsValid, hends.groups, hgroup]
    exact decide_eq_true hdelimiter
  | closeGroup id delimiter =>
    rw [heq] at hkind
    obtain ⟨group, hgroup, -, hdelimiter⟩ := h.grouped.closed index id delimiter hkind
    rw [LexedSource.tokenReferenceIsValid, hends.groups, hgroup]
    exact decide_eq_true hdelimiter
  | name | invalidNumber | symbol | lineStart | unknown => rfl

/-- The assertions about tokens hold. -/
theorem Ends.tokens_hold (hcovers : Covers lexed.Reported 0 source s.tokens) :
    lexed.tokens.all (lexed.tokenHolds source) = true := by
  rw [hends.tokens, List.all_eq_true]
  intro token hmem
  have hvalid := hends.tokenReferenceIsValid h hmem
  obtain ⟨before, slice, after, hsource, hspan⟩ := hcovers.fits token hmem
  rw [Nat.zero_add] at hspan
  obtain ⟨hslice, hle, hstop⟩ := sourceSlice_of_append hsource hspan
  have hline : (lexed.lineAtByte source token.span.start).isSome = true := by
    rw [LexedSource.lineAtByte, if_pos (hle.trans hstop)]
    rfl
  rw [LexedSource.tokenHolds, hslice, hline, hvalid, decide_eq_true hle, decide_eq_true hstop]
  rfl

/-- The assertions about texts hold. -/
theorem Ends.texts_hold : lexed.texts.zipIdx.all (lexed.textHolds source) = true := by
  rw [List.all_eq_true]
  rintro ⟨text, id⟩ hmem
  have htext := List.mk_mem_zipIdx_iff_getElem?.mp hmem
  have hmem' : text ∈ s.texts := hends.texts ▸ List.mem_of_getElem? htext
  obtain ⟨hvalue, before, body, after, hsource, hspan⟩ := h.texts text hmem'
  obtain ⟨hslice, hle, hstop⟩ := sourceSlice_of_append hsource hspan
  have hquotes : text.quotes.isPrefixOf (text.quotes ++ body) = true :=
    List.isPrefixOf_iff_prefix.mpr (List.prefix_append _ _)
  rw [LexedSource.textHolds, hslice, decide_eq_true htext, decide_eq_true hle,
    decide_eq_true hstop, decide_eq_true hvalue]
  exact hquotes

/-- The assertions about groups hold. -/
theorem Ends.groups_hold : lexed.groups.zipIdx.all lexed.groupHolds = true := by
  rw [List.all_eq_true]
  rintro ⟨group, id⟩ hmem
  have hgroup : s.groups[id]? = some group := by
    rw [← hends.groups]
    exact List.mk_mem_zipIdx_iff_getElem?.mp hmem
  -- the four parts of the source's assertion, from the invariant of groups
  have hopen : (lexed.tokens[group.openToken]?.any fun token =>
      token.kind = .openGroup id group.delimiter) = true := by
    obtain ⟨token, htoken, hkind⟩ := Option.map_eq_some_iff.mp (h.grouped.opens id group hgroup)
    rw [hends.tokens, htoken]
    exact decide_eq_true hkind
  have hclose : (group.closeToken.all fun close => group.openToken < close &&
      lexed.tokens[close]?.any fun token => token.kind = .closeGroup id group.delimiter) = true := by
    cases hcloses : group.closeToken with
    | none => rfl
    | some close =>
      obtain ⟨hlt, hkind⟩ := h.grouped.closes id group close hgroup hcloses
      obtain ⟨token, htoken, hkind⟩ := Option.map_eq_some_iff.mp hkind
      rw [Option.all_some, hends.tokens, htoken, Option.any_some, decide_eq_true hlt,
        decide_eq_true hkind]
      rfl
  have hparent : (group.parent.all fun parent =>
      parent < id && lexed.groups[parent]?.isSome) = true := by
    cases hparents : group.parent with
    | none => rfl
    | some parent =>
      have hlt := h.grouped.parents id group parent hgroup hparents
      have hbound := (List.getElem?_eq_some_iff.mp hgroup).1
      rw [Option.all_some, hends.groups, List.getElem?_eq_getElem (hlt.trans hbound),
        decide_eq_true hlt]
      rfl
  have hcontents : (group.closeToken.all fun close =>
      lexed.groupContents id = some (group.openToken + 1, close)) = true := by
    cases hcloses : group.closeToken with
    | none => rfl
    | some =>
      rw [Option.all_some, LexedSource.groupContents, hends.groups, hgroup, Option.bind_some, hcloses]
      exact decide_eq_true rfl
  rw [LexedSource.groupHolds]
  dsimp only
  rw [hopen, hclose, hparent, hcontents]
  rfl

/-- The declarations lie within the tokens and the source. -/
theorem Ends.declared (hfilled : s.Filled) :
    lexed.Declares ∧ ∀ declaration ∈ lexed.declarations,
      declaration.tokenStart < declaration.tokenEnd ∧
      declaration.tokenEnd ≤ lexed.tokens.length ∧
      declaration.span.start < declaration.span.stop ∧
      declaration.line = lineAt lexed.lineStarts declaration.span.start ∧
      ∃ token ∈ s.tokens, token.span.stop = declaration.span.stop := by
  obtain ⟨hdeclared, -⟩ := h.declared.finish hfilled
  have hplace := SamePlace.finishDeclaration s s.tokens.length
  have hgroups := (finishDeclaration_tables s s.tokens.length).2.2.1
  have htokens := tokens_finishDeclaration s s.tokens.length
  rw [hends.declarations, hends.tokens, hends.lineStarts]
  refine ⟨⟨?_, fun declaration hmem => ?_, fun declaration hmem => ?_⟩, fun declaration hmem => ?_⟩
  · rw [hends.declarations]
    exact hdeclared.ordered
  · rw [hends.declarations] at hmem
    obtain ⟨-, hkind, hstart, -, -⟩ := hdeclared.begins declaration hmem
    rw [htokens] at hkind
    rw [hplace.lineStarts] at hstart
    rw [hends.lineStarts, hends.tokens]
    exact ⟨hstart, hkind⟩
  · rw [hends.declarations] at hmem
    rw [hends.groups, ← hgroups]
    exact (hdeclared.begins declaration hmem).outside
  · have hbegins := hdeclared.begins declaration hmem
    obtain ⟨hlt, hend, hspan, token, htoken, hstop⟩ := hdeclared.fits declaration hmem
    rw [htokens] at hend htoken
    exact ⟨hlt, hend, hspan, hplace.lineStarts ▸ hbegins.line, token, htoken, hstop⟩

/-- The assertions about declarations hold. -/
theorem Ends.declarations_hold (hfilled : s.Filled)
    (hcovers : Covers lexed.Reported 0 source s.tokens) :
    lexed.declarations.all (lexed.declarationHolds source) = true ∧
      ((LexedSource.windows lexed.declarations).all fun pair =>
        pair.1.tokenEnd ≤ pair.2.tokenStart && pair.1.span.stop ≤ pair.2.span.start) = true := by
  obtain ⟨hdeclares, hfits⟩ := hends.declared h hfilled
  constructor
  · rw [List.all_eq_true]
    intro declaration hmem
    obtain ⟨hlt, hend, hspan, hline, token, htoken, hstop⟩ := hfits declaration hmem
    obtain ⟨before, slice, after, hsource, htokenSpan⟩ := hcovers.fits token htoken
    have hboundary : Boundary source declaration.span.stop := by
      refine ⟨before ++ slice, after, by rw [hsource, List.append_assoc], ?_⟩
      rw [← hstop, htokenSpan, bytes_append, Nat.zero_add]
    have hstart : Boundary source declaration.span.start := by
      refine h.sound.boundary _ ?_
      rw [← hends.lineStarts]
      exact (hdeclares.column declaration hmem).1
    obtain ⟨-, slice', -, -, -, hslice⟩ := exists_sourceSlice hstart hboundary hspan.le
    have hlineAt : declaration.line = (lexed.lineAtByte source declaration.span.start).getD 0 := by
      rw [LexedSource.lineAtByte, if_pos hstart.le, Option.getD_some, hline]
    rw [LexedSource.declarationHolds, decide_eq_true hlt, decide_eq_true hend,
      decide_eq_true hspan, decide_eq_true hboundary.le, decide_eq_true hlineAt, hslice]
    rfl
  · refine LexedSource.all_windows_of_pairwise (hdeclares.ordered.imp fun {first second} hordered => ?_)
    simp [hordered.1, hordered.2]

/-- **The checks of `invariants_hold` pass.** -/
theorem Ends.invariantsHold (hfilled : s.Filled)
    (hcovers : Covers lexed.Reported 0 source s.tokens) : lexed.invariantsHold source = true := by
  obtain ⟨hfirst, hwindows⟩ := hends.lineStarts_hold h
  obtain ⟨hdeclarations, hordered⟩ := hends.declarations_hold h hfilled hcovers
  have hpositive : (lexed.diagnostics.all fun diagnostic => 0 < diagnostic.line) = true :=
    List.all_eq_true.mpr fun diagnostic hmem => decide_eq_true (hends.positive diagnostic hmem)
  rw [LexedSource.invariantsHold, hwindows, hends.tokens_hold h hcovers, hends.texts_hold h,
    hends.groups_hold h, hdeclarations, hordered, hpositive, decide_eq_true hfirst,
    decide_eq_true hends.hasErrors]
  rfl

/-- Without errors, nothing is left open, and no delimiter is without its group. -/
theorem Ends.closed (hclean : lexed.hasErrors = false) : lexed.Closed := by
  obtain ⟨hstructural, hstack⟩ := hends.clean hclean
  have hclosed : ∀ (id : Nat) (group : DelimiterGroup), s.groups[id]? = some group →
      ∃ group close, lexed.groups[id]? = some group ∧ group.closeToken = some close := by
    intro id group hgroup
    rw [hends.groups]
    cases hclose : group.closeToken with
    | some close => exact ⟨group, close, hgroup, hclose⟩
    | none =>
      have hmem := (h.grouped.open_iff id group hgroup).mp hclose
      rw [hstack] at hmem
      exact absurd hmem List.not_mem_nil
  intro token hmem
  rw [hends.tokens] at hmem
  obtain ⟨index, htoken⟩ := List.getElem?_of_mem hmem
  refine ⟨fun id delimiter hkind => ?_, fun c hc => ?_⟩
  · rcases hkind with hkind | hkind
    · obtain ⟨group, hgroup, -⟩ := h.grouped.opened index id delimiter
        (by rw [htoken, Option.map_some, hkind])
      exact hclosed id group hgroup
    · obtain ⟨group, hgroup, -⟩ := h.grouped.closed index id delimiter
        (by rw [htoken, Option.map_some, hkind])
      exact hclosed id group hgroup
  · cases hmarks : Delimiter.marks c with
    | false => rfl
    | true => exact absurd hstructural (h.unmatched token hmem c hc hmarks)

end Checks

end Lexer

theorem Covers.imp {reported reported' : Nat → Prop} (himp : ∀ offset, reported offset → reported' offset)
    {offset : Nat} {text : List Char} {tokens : List SpannedToken}
    (h : Covers reported offset text tokens) : Covers reported' offset text tokens := by
  induction h with
  | nil offset => exact .nil offset
  | space _ ih => exact .space ih
  | newline hnewline _ ih => exact .newline hnewline ih
  | whitespace hwhitespace hreported _ ih => exact .whitespace hwhitespace (himp _ hreported) ih
  | comment htext hhead _ ih => exact .comment htext hhead ih
  | token hspan hspells _ ih => exact .token hspan hspells ih

/-- **Every source is well lexed.** -/
theorem lexSource_wellLexed (V : Type) (parseNumber : List Char → Except String N)
    (source : List Char) : (lexSource V parseNumber source).WellLexed source := by
  obtain ⟨-, hinv, hfilled, found, hfound, hcovers⟩ := Lexer.loop_spec parseNumber
    (Lexer.Ok.new source) (Lexer.Inv.new source) nofun
  have hends := Lexer.Ends.lexSource (V := V) parseNumber hinv
  obtain rfl : ((Lexer.new source : Lexer N).loop parseNumber).tokens = found := hfound
  have hreported : Covers (lexSource V parseNumber source).Reported 0 source
      ((Lexer.new source : Lexer N).loop parseNumber).tokens := by
    refine hcovers.imp fun offset hreports => ?_
    obtain ⟨diagnostic, hmem, hseverity, hline, hmessage⟩ := hreports
    exact ⟨diagnostic, hends.reports diagnostic hmem, hseverity, hends.lineStarts ▸ hline, hmessage⟩
  have htokens := hends.tokens
  exact {
    running := (lexSource_spec parseNumber source).2
    tables := by
      obtain ⟨state, hstate, -⟩ := hinv.grouped.tables
      rw [htokens, tokenTables, hstate]
      rfl
    keywords := matchArmsKeywords_isSome _
    ordered := htokens ▸ hreported.pairwise
    covers := htokens ▸ hreported
    nested := by
      rw [htokens, hends.groups]
      exact hinv.grouped.toNested
    declares := (hends.declared hinv hfilled).1
    checks := hends.invariantsHold hinv hfilled hreported
    closed := hends.closed hinv }

end Glam.Syntax
