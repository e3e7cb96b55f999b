import Glam.Syntax.Grouping

/-!
# The lexer's invariant

What holds before and after every iteration of the lexer (`Lexer.Inv`): tokens lie behind where it
stands, what they refer to is there, groups are nested, and declarations are one after another. From
`Lexer.Advances` it is kept by a step, and so by the loop, and the tokens the loop finds cover what
it reads (`Lexer.loop_spec`).

A declaration is finished when the next one starts, with the tokens up to it. It is not empty then:
the line start that opens it is followed by a token in the same iteration (`Lexer.Filled`). And it
ends before the next one starts, since a line that has not been started has no token yet
(`Lexer.Inv.fresh`). -/

namespace Glam.Syntax.Lexer

variable {N V : Type}

/-! ### Declarations -/

/-- A declaration can start at the token. -/
structure Begins (s : Lexer N) (tokenStart byteStart line : Nat) : Prop where
  bound : tokenStart < s.tokens.length
  kind : s.tokens[tokenStart]?.map SpannedToken.kind = some (.lineStart 0)
  start : byteStart ∈ s.lineStarts
  line : line = lineAt s.lineStarts byteStart
  outside : Outside s.groups tokenStart

/-- **The declarations found so far.** -/
structure Declared (s : Lexer N) : Prop where
  begins : ∀ declaration ∈ s.declarations,
    s.Begins declaration.tokenStart declaration.span.start declaration.line
  fits : ∀ declaration ∈ s.declarations, declaration.tokenStart < declaration.tokenEnd ∧
    declaration.tokenEnd ≤ s.tokens.length ∧ declaration.span.start < declaration.span.stop ∧
    ∃ token ∈ s.tokens, token.span.stop = declaration.span.stop
  ordered : s.declarations.Pairwise fun first second =>
    first.tokenEnd ≤ second.tokenStart ∧ first.span.stop ≤ second.span.start
  opened : ∀ opened, s.openDeclaration = some opened →
    s.Begins opened.tokenStart opened.byteStart opened.line ∧
    ∀ declaration ∈ s.declarations, declaration.tokenEnd ≤ opened.tokenStart ∧
      declaration.span.stop ≤ opened.byteStart

/-- A declaration that is open has a token beyond its line start. -/
def Filled (s : Lexer N) : Prop :=
  ∀ opened, s.openDeclaration = some opened →
    ∃ last, s.tokens.getLast? = some last ∧ opened.byteStart < last.span.stop

/-- What declarations are about only grows. -/
structure Extends (s s' : Lexer N) : Prop where
  later : s.Later s'
  tokens : s.tokens <+: s'.tokens
  outside : ∀ index, index < s.tokens.length → Outside s.groups index → Outside s'.groups index

variable {source : List Char} {s s' : Lexer N}

theorem Begins.mono {tokenStart byteStart line : Nat} (h : s.Begins tokenStart byteStart line)
    (hsound : s.Sound source) (hextends : s.Extends s') : s'.Begins tokenStart byteStart line where
  bound := Nat.lt_of_lt_of_le h.bound hextends.tokens.length_le
  kind := by
    obtain ⟨more, hmore⟩ := hextends.tokens
    rw [← hmore, List.getElem?_append_left h.bound]
    exact h.kind
  start := hextends.later.mem_lineStarts h.start
  line := h.line.trans (hextends.later.lineAt_eq (hsound.lineStarts_le _ h.start)).symm
  outside := hextends.outside tokenStart h.bound h.outside

/-- Declarations stay as they are while tokens are added. -/
theorem Declared.mono (h : s.Declared) (hsound : s.Sound source) (hextends : s.Extends s')
    (hdeclarations : s'.declarations = s.declarations)
    (hopened : s'.openDeclaration = s.openDeclaration) : s'.Declared where
  begins := by
    rw [hdeclarations]
    exact fun declaration hmem => (h.begins declaration hmem).mono hsound hextends
  fits := by
    rw [hdeclarations]
    intro declaration hmem
    obtain ⟨hlt, hend, hspan, token, htoken, hstop⟩ := h.fits declaration hmem
    exact ⟨hlt, hend.trans hextends.tokens.length_le, hspan, token, hextends.tokens.subset htoken,
      hstop⟩
  ordered := hdeclarations ▸ h.ordered
  opened := by
    rw [hdeclarations, hopened]
    intro opened hsome
    obtain ⟨hbegins, hbefore⟩ := h.opened opened hsome
    exact ⟨hbegins.mono hsound hextends, hbefore⟩

theorem finishDeclaration_eq {opened : OpenDeclaration} {last : SpannedToken}
    (hopened : s.openDeclaration = some opened) (hlast : s.tokens.getLast? = some last) :
    s.finishDeclaration s.tokens.length = { s with
      openDeclaration := none
      declarations := s.declarations ++ [⟨opened.tokenStart, s.tokens.length,
        ⟨opened.byteStart, last.span.stop⟩, opened.line⟩] } := by
  rw [List.getLast?_eq_getElem?] at hlast
  rw [Lexer.finishDeclaration, hopened]
  dsimp only
  rw [hlast]

/-- **A declaration is finished** where the next one starts. -/
theorem Declared.finish (h : s.Declared) (hfilled : s.Filled) :
    (s.finishDeclaration s.tokens.length).Declared ∧
      (s.finishDeclaration s.tokens.length).openDeclaration = none := by
  cases hopened : s.openDeclaration with
  | none =>
    rw [Lexer.finishDeclaration, hopened]
    exact ⟨h, hopened⟩
  | some opened =>
    obtain ⟨last, hlast, hlt⟩ := hfilled opened hopened
    obtain ⟨hbegins, hbefore⟩ := h.opened opened hopened
    rw [finishDeclaration_eq hopened hlast]
    refine ⟨⟨List.forall_mem_append.mpr ⟨fun declaration hmem => ?_, ?_⟩,
      List.forall_mem_append.mpr ⟨h.fits, ?_⟩, ?_, nofun⟩, rfl⟩
    · exact { h.begins declaration hmem with }
    · exact List.forall_mem_singleton.mpr { hbegins with }
    · exact List.forall_mem_singleton.mpr
        ⟨hbegins.bound, Nat.le_refl _, hlt, last, List.mem_of_getLast? hlast, rfl⟩
    · exact List.pairwise_append.mpr ⟨h.ordered, List.pairwise_singleton _ _,
        fun first hfirst => List.forall_mem_singleton.mpr (hbefore first hfirst)⟩

/-! ### The invariant -/

/-- What a token refers to is there. -/
structure Refers (s : Lexer N) (kind : TokenKind) : Prop where
  number : ∀ id, kind = .number id → id < s.numbers.length
  text : ∀ id, kind = .text id → id < s.texts.length
  embedded : ∀ id, kind ≠ .embedded id

/-- **The invariant** of the lexer's loop. -/
structure Inv (source : List Char) (s : Lexer N) : Prop where
  sound : s.Sound source
  grouped : Grouped s.tokens s.groups s.groupStack
  behind : ∀ token ∈ s.tokens, token.span.stop ≤ s.index
  /-- a line that has not been started has no token -/
  fresh : s.emittedLineStart = false → ∀ token ∈ s.tokens, token.span.stop ≤ s.lineStart
  refers : ∀ token ∈ s.tokens, s.Refers token.kind
  texts : ∀ text ∈ s.texts, text.Fits source
  unmatched : ∀ token ∈ s.tokens, ∀ c ∈ token.kind.written, Delimiter.marks c = true →
    s.structuralDiagnostics ≠ []
  declared : s.Declared

theorem Inv.new (source : List Char) : (Lexer.new source : Lexer N).Inv source where
  sound := .new source
  grouped := .nil
  behind := nofun
  fresh := nofun
  refers := nofun
  texts := nofun
  unmatched := nofun
  declared := ⟨nofun, nofun, .nil,
    nofun⟩

theorem Later.structural_ne (h : s.Later s') (hne : s.structuralDiagnostics ≠ []) :
    s'.structuralDiagnostics ≠ [] :=
  fun hnil => hne (List.prefix_nil.mp (hnil ▸ h.structural))

/-- The invariant is kept where only the position changes. -/
theorem Inv.of_sameTokens (h : s.Inv source) (hsound : s'.Sound source) (hlater : s.Later s')
    (hsame : s.SameTokens s') (hnumbers : s'.numbers = s.numbers) (htexts : s'.texts = s.texts)
    (hdeclarations : s'.declarations = s.declarations)
    (hfresh : s'.emittedLineStart = false →
      ∀ token ∈ s.tokens, token.span.stop ≤ s'.lineStart) : s'.Inv source where
  sound := hsound
  grouped := by
    rw [hsame.tokens, hsame.groups, hsame.groupStack]
    exact h.grouped
  behind := by
    rw [hsame.tokens]
    exact fun token hmem => (h.behind token hmem).trans hlater.index_le
  fresh := by
    rw [hsame.tokens]
    exact hfresh
  refers := by
    rw [hsame.tokens]
    intro token hmem
    obtain ⟨hnumber, htext, hembedded⟩ := h.refers token hmem
    exact ⟨hnumbers ▸ hnumber, htexts ▸ htext, hembedded⟩
  texts := htexts ▸ h.texts
  unmatched := by
    rw [hsame.tokens]
    exact fun token hmem c hc hmarks =>
      hlater.structural_ne (h.unmatched token hmem c hc hmarks)
  declared := by
    refine h.declared.mono h.sound ⟨hlater, ?_, ?_⟩ hdeclarations hsame.openDeclaration
    · rw [hsame.tokens]
    · rw [hsame.groups]
      exact fun _ _ houtside => houtside

theorem Sound.lineStart_mono (hsound : s.Sound source) (hsound' : s'.Sound source)
    (hlater : s.Later s') : s.lineStart ≤ s'.lineStart :=
  hsound'.le_lineStart _ (hlater.mem_lineStarts hsound.lineStart_mem)

theorem Inv.layout (h : s.Inv source) (hmoves : Moves source s s') : s'.Inv source := by
  have hsound := hmoves.sound h.sound
  refine h.of_sameTokens hsound hmoves.later hmoves.keeps.toSameTokens hmoves.keeps.numbers
    hmoves.keeps.texts hmoves.keeps.declarations fun hemitted token hmem => ?_
  rw [hmoves.keeps.emittedLineStart] at hemitted
  exact (h.fresh hemitted token hmem).trans (h.sound.lineStart_mono hsound hmoves.later)

theorem Inv.newline {used rest : List Char} {kind : Nat} (h : s.Inv source) (hne : used ≠ [])
    (hrest : s.rest = used ++ rest) :
    ((s.pass used rest).breakLine kind true).Inv source := by
  have hlater : s.Later ((s.pass used rest).breakLine kind true) := .breakLine hne kind true
  refine h.of_sameTokens (h.sound.breakLine hrest hne kind true) hlater ⟨rfl, rfl, rfl, rfl, rfl⟩ rfl
    rfl rfl fun _ token hmem => ?_
  exact (h.behind token hmem).trans hlater.index_le

/-! ### The start of a line -/

theorem Grouped.outside {tokens : List SpannedToken} {groups : List DelimiterGroup}
    (h : Grouped tokens groups []) : Outside groups tokens.length := by
  intro group hmem _
  obtain ⟨id, hgroup⟩ := List.getElem?_of_mem hmem
  cases hclose : group.closeToken with
  | none => exact absurd ((h.open_iff id group hgroup).mp hclose) List.not_mem_nil
  | some close => exact ⟨close, rfl, h.closeToken_lt hgroup hclose⟩

/-- A line at no indentation ends a declaration and begins one. -/
theorem StartsLine.declared (h : s.Inv source) (hfilled : s.Filled) (hstarts : s.StartsLine s')
    (hemitted : s.emittedLineStart = false) : s'.Declared := by
  obtain ⟨leading, htokens⟩ := hstarts.tokens
  have hextends : s.Extends s' := by
    refine ⟨hstarts.place.later, ?_, ?_⟩
    · rw [htokens]
      exact List.prefix_append _ _
    · rw [hstarts.groups]
      exact fun _ _ houtside => houtside
  rcases hstarts.declares with ⟨hopened, hdeclarations⟩ | ⟨hstack, hindentation, hopened, hdeclarations⟩
  · exact h.declared.mono h.sound hextends hdeclarations hopened
  · obtain ⟨hfinished, hnone⟩ := h.declared.finish hfilled
    have hplace := SamePlace.finishDeclaration s s.tokens.length
    have hgroups := (finishDeclaration_tables s s.tokens.length).2.2.1
    have hsame := tokens_finishDeclaration s s.tokens.length
    -- what is finished is declared before the new line too
    have hextends' : (s.finishDeclaration s.tokens.length).Extends
        { s' with openDeclaration := none } := by
      refine ⟨⟨?_, ⟨[], ?_, nofun⟩, ?_, ?_⟩, ?_, ?_⟩
      · exact (hplace.index.trans hstarts.place.index.symm).le
      · rw [List.append_nil, hplace.lineStarts]
        exact hstarts.place.lineStarts
      · rw [hplace.invalidWhitespaceDiagnostics]
        exact hstarts.place.invalidWhitespaceDiagnostics ▸ List.prefix_rfl
      · rw [hplace.structuralDiagnostics]
        exact hstarts.place.structuralDiagnostics ▸ List.prefix_rfl
      · rw [hsame]
        exact htokens ▸ List.prefix_append _ _
      · rw [hgroups]
        exact fun _ _ houtside => hstarts.groups ▸ houtside
    obtain ⟨hbegins, hfits, hordered, -⟩ := hfinished.mono (hplace.sound h.sound) hextends'
      hdeclarations hnone.symm
    refine ⟨fun declaration hmem => ?_, hfits, hordered, fun opened hsome => ?_⟩
    · obtain ⟨hbound, hkind, hstart, hline, houtside⟩ := hbegins declaration hmem
      exact ⟨hbound, hkind, hstart, hline, houtside⟩
    · rw [hopened] at hsome
      cases hsome
      refine ⟨⟨?_, ?_, ?_, ?_, ?_⟩, fun declaration hmem => ?_⟩
      · rw [htokens, List.length_append, List.length_singleton]
        exact Nat.lt_succ_self _
      · rw [htokens, List.getElem?_concat_length, hindentation]
        rfl
      · rw [hstarts.place.lineStarts]
        exact h.sound.lineStart_mem
      · rw [hstarts.place.lineStarts, h.sound.lineAt_lineStart]
      · rw [hstarts.groups]
        exact Grouped.outside (hstack ▸ h.grouped)
      · rw [hdeclarations] at hmem
        obtain ⟨-, hend, -, token, htoken, hstop⟩ := hfinished.fits declaration hmem
        rw [hsame] at hend htoken
        exact ⟨hend, hstop ▸ h.fresh hemitted token htoken⟩

/-- The first token of a line keeps the invariant. -/
theorem Inv.startsLine (h : s.Inv source) (hfilled : s.Filled) (hstarts : s.StartsLine s')
    (hemitted : s.emittedLineStart = false) : s'.Inv source := by
  have hdeclared := hstarts.declared h hfilled hemitted
  have hgrouped := hstarts.grouped h.grouped
  obtain ⟨leading, htokens⟩ := hstarts.tokens
  refine ⟨hstarts.place.sound h.sound, hgrouped, ?_, fun hfalse => ?_, ?_, hstarts.texts ▸ h.texts,
    ?_, hdeclared⟩
  · rw [hstarts.place.index, htokens]
    exact List.forall_mem_append.mpr ⟨h.behind, List.forall_mem_singleton.mpr le_rfl⟩
  · rw [hstarts.emitted] at hfalse
    cases hfalse
  · rw [htokens]
    refine List.forall_mem_append.mpr ⟨fun token hmem => ?_, List.forall_mem_singleton.mpr ?_⟩
    · obtain ⟨hnumber, htext, hembedded⟩ := h.refers token hmem
      exact ⟨hstarts.numbers ▸ hnumber, hstarts.texts ▸ htext, hembedded⟩
    · exact ⟨nofun, nofun, nofun⟩
  · rw [hstarts.place.structuralDiagnostics, htokens]
    exact List.forall_mem_append.mpr ⟨h.unmatched, List.forall_mem_singleton.mpr nofun⟩

theorem Inv.ensureLineStart (h : s.Inv source) (hfilled : s.Filled) :
    s.ensureLineStart.Inv source ∧ s.ensureLineStart.emittedLineStart = true := by
  rcases ensureLineStart_cases s with ⟨hemitted, hsame⟩ | ⟨hemitted, hstarts⟩
  · rw [hsame]
    exact ⟨h, hemitted⟩
  · exact ⟨h.startsLine hfilled hstarts hemitted, hstarts.emitted⟩

/-! ### A token -/

section Token

variable {kind : TokenKind} {text : List Char}

/-- A group that is open after a token is open at none before it. -/
theorem Emits.outside (hemits : Emits source s s' kind text)
    (hgrouped : Grouped s.tokens s.groups s.groupStack) {index : Nat}
    (hindex : index < s.tokens.length) (h : Outside s.groups index) : Outside s'.groups index := by
  intro group' hmem hlt
  have hadds := hemits.adds
  cases hadds with
  | plain _ _ _ groups _ | number _ _ groups _ | text _ _ _ groups _ =>
    exact h group' (groups ▸ hmem) hlt
  | opens _ _ groups _ =>
    rw [groups] at hmem
    rcases List.mem_append.mp hmem with hmem | hmem
    · exact h group' hmem hlt
    · rw [List.mem_singleton.mp hmem] at hlt
      exact absurd hlt (Nat.not_lt_of_lt hindex)
  | @closes id group _ _ hgroup groups groupStack =>
    rw [groups] at hmem
    rcases List.mem_or_eq_of_mem_set hmem with hmem | rfl
    · exact h group' hmem hlt
    · -- it was open, and so it opened after the token
      obtain ⟨close, hclose, -⟩ := h group (List.mem_of_getElem? hgroup) hlt
      have hnone := (hgrouped.open_iff id group hgroup).mpr (groupStack ▸ (.head _))
      rw [hclose] at hnone
      cases hnone

theorem Refers.mono {kind : TokenKind} (h : s.Refers kind)
    (hnumbers : s.numbers.length ≤ s'.numbers.length) (htexts : s.texts.length ≤ s'.texts.length) :
    s'.Refers kind :=
  ⟨fun id hkind => Nat.lt_of_lt_of_le (h.number id hkind) hnumbers,
    fun id hkind => Nat.lt_of_lt_of_le (h.text id hkind) htexts, h.embedded⟩

/-- An added token refers to an entry of its table. -/
theorem Adds.refers (hadds : Adds source s s' kind) : s'.Refers kind ∧
    s.numbers.length ≤ s'.numbers.length ∧ s.texts.length ≤ s'.texts.length := by
  cases hadds with
  | plain hkind numbers texts _ _ =>
    refine ⟨⟨fun id heq => ?_, fun id heq => ?_, fun id heq => ?_⟩, by rw [numbers], by rw [texts]⟩ <;>
      (subst heq; cases hkind)
  | number numbers texts _ _ =>
    refine ⟨⟨fun id heq => ?_, fun id heq => ?_, fun id heq => ?_⟩, ?_, by rw [texts]⟩
    · cases heq
      rw [numbers, List.length_append, List.length_singleton]
      exact Nat.lt_succ_self _
    · cases heq
    · cases heq
    · rw [numbers, List.length_append]
      exact Nat.le_add_right _ _
  | text _ numbers texts _ _ =>
    refine ⟨⟨fun id heq => ?_, fun id heq => ?_, fun id heq => ?_⟩, by rw [numbers], ?_⟩
    · cases heq
    · cases heq
      rw [texts, List.length_append, List.length_singleton]
      exact Nat.lt_succ_self _
    · cases heq
    · rw [texts, List.length_append]
      exact Nat.le_add_right _ _
  | opens numbers texts _ _ | closes numbers texts _ _ _ =>
    refine ⟨⟨fun id heq => ?_, fun id heq => ?_, fun id heq => ?_⟩, by rw [numbers], by rw [texts]⟩ <;>
      cases heq

theorem Adds.fits (hadds : Adds source s s' kind) (h : ∀ text ∈ s.texts, text.Fits source) :
    ∀ text ∈ s'.texts, text.Fits source := by
  cases hadds with
  | plain _ _ texts _ _ | number _ texts _ _ | opens _ texts _ _ | closes _ texts _ _ _ =>
    exact texts ▸ h
  | text fits _ texts _ _ =>
    rw [texts]
    exact List.forall_mem_append.mpr ⟨h, List.forall_mem_singleton.mpr fits⟩

/-- A token keeps the invariant. -/
theorem Inv.emits (h : s.Inv source) (hemits : Emits source s s' kind text)
    (hemitted : s.emittedLineStart = true) : s'.Inv source := by
  obtain ⟨hrefers, hnumbers, htexts⟩ := hemits.adds.refers
  have hgrouped := hemits.grouped h.grouped
  obtain ⟨leading, htokens⟩ := hemits.tokens
  refine ⟨hemits.sound h.sound, hgrouped, ?_, fun hfalse => ?_, ?_, hemits.adds.fits h.texts, ?_, ?_⟩
  · rw [htokens]
    exact List.forall_mem_append.mpr ⟨fun token hmem => (h.behind token hmem).trans
      hemits.later.index_le, List.forall_mem_singleton.mpr le_rfl⟩
  · rw [hemits.emitted hemitted] at hfalse
    cases hfalse
  · rw [htokens]
    exact List.forall_mem_append.mpr ⟨fun token hmem => (h.refers token hmem).mono hnumbers htexts,
      List.forall_mem_singleton.mpr hrefers⟩
  · rw [htokens]
    exact List.forall_mem_append.mpr ⟨fun token hmem c hc hmarks =>
      hemits.later.structural_ne (h.unmatched token hmem c hc hmarks),
      List.forall_mem_singleton.mpr hemits.unmatched⟩
  · refine h.declared.mono h.sound ⟨hemits.later, ?_, fun index hindex houtside => ?_⟩
      hemits.declarations hemits.openDeclaration
    · rw [htokens]
      exact List.prefix_append _ _
    · exact hemits.outside h.grouped hindex houtside

/-- The token lies beyond where any declaration has started. -/
theorem Emits.filled (h : s.Inv source) (hemits : Emits source s s' kind text) : s'.Filled := by
  obtain ⟨leading, htokens⟩ := hemits.tokens
  intro opened hopened
  rw [hemits.openDeclaration] at hopened
  refine ⟨_, by rw [htokens, List.getLast?_concat], ?_⟩
  have hstart := h.sound.lineStarts_le _ (h.declared.opened opened hopened).1.start
  have hlt : s.index < s'.index := by
    obtain ⟨c, rest, rfl⟩ := List.exists_cons_of_ne_nil hemits.text_ne
    have hsize := Char.utf8Size_pos c
    rw [hemits.index, bytes_cons]
    omega
  exact Nat.lt_of_le_of_lt hstart hlt

end Token

/-! ### Whole runs -/

/-- **A step keeps the invariant.** -/
theorem Inv.step (hadvances : Advances source s s') (h : s.Inv source) (hfilled : s.Filled) :
    s'.Inv source ∧ s'.Filled := by
  cases hadvances with
  | newline hne hrest _ => exact ⟨h.newline hne hrest, hfilled⟩
  | layout hmoves _ =>
    refine ⟨h.layout hmoves, fun opened hopened => ?_⟩
    rw [hmoves.keeps.openDeclaration] at hopened
    rw [hmoves.keeps.tokens]
    exact hfilled opened hopened
  | token hemits =>
    obtain ⟨hline, hemitted⟩ := h.ensureLineStart hfilled
    exact ⟨hline.emits hemits hemitted, hemits.filled hline⟩

theorem Advances.later (hadvances : Advances source s s') : s.Later s' := by
  cases hadvances with
  | newline hne _ _ => exact .breakLine hne _ true
  | layout hmoves _ => exact hmoves.later
  | token hemits => exact (SamePlace.ensureLineStart s).later.trans hemits.later

/-- **The tokens of a step cover what it passes over**, with what may stand between them. -/
theorem Advances.covers (hadvances : Advances source s s') :
    ∃ found, s'.tokens = s.tokens ++ found ∧ ∀ last : Lexer N, s'.Later last → ∀ tokens,
      Covers last.Reports s'.index s'.rest tokens →
        Covers last.Reports s.index s.rest (found ++ tokens) := by
  cases hadvances with
  | newline _ _ hskips => exact ⟨[], (List.append_nil _).symm, hskips⟩
  | layout hmoves hskips =>
    exact ⟨[], by rw [hmoves.keeps.tokens, List.append_nil], hskips⟩
  | @token _ kind text hemits =>
    obtain ⟨leading, htokens⟩ := hemits.tokens
    have hplace := SamePlace.ensureLineStart s
    -- the token itself, from where the line stands
    have htoken : ∀ last : Lexer N, ∀ tokens, Covers last.Reports s'.index s'.rest tokens →
        Covers last.Reports s.index s.rest
          (⟨kind, ⟨s.ensureLineStart.index, s'.index⟩, leading⟩ :: tokens) := by
      intro last tokens hcovers
      rw [← hplace.index, ← hplace.rest, hemits.rest]
      rw [hemits.index] at hcovers ⊢
      exact .token rfl hemits.spells hcovers
    rcases ensureLineStart_cases s with ⟨-, hsame⟩ | ⟨-, hstarts⟩
    · rw [hsame] at htokens htoken
      exact ⟨_, htokens, fun last _ => htoken last⟩
    · obtain ⟨leading', htokens'⟩ := hstarts.tokens
      rw [htokens', List.append_assoc] at htokens
      refine ⟨_, htokens, fun last _ tokens hcovers => ?_⟩
      exact @Covers.token _ s.index _ [] s.rest _ rfl rfl (htoken last tokens hcovers)

/-- **The loop** keeps the invariant, and its tokens cover what was left to read. -/
theorem loop_spec (parseNumber : List Char → Except String N) (hok : s.Ok) (h : s.Inv source)
    (hfilled : s.Filled) :
    s.Later (s.loop parseNumber) ∧ (s.loop parseNumber).Inv source ∧
      (s.loop parseNumber).Filled ∧ ∃ found, (s.loop parseNumber).tokens = s.tokens ++ found ∧
        Covers (s.loop parseNumber).Reports s.index s.rest found := by
  fun_induction Lexer.loop parseNumber s with
  | case1 s hnil =>
    refine ⟨.refl s, h, hfilled, [], (List.append_nil _).symm, ?_⟩
    rw [hnil]
    exact .nil _
  | case2 s hrest ih =>
    have hadvances := Advances.step parseNumber h.sound hok hrest
    obtain ⟨hinv, hfilled'⟩ := Inv.step hadvances h hfilled
    obtain ⟨hlater, hlast, hlast', found, hfound, hcovers⟩ :=
      ih ((Scans.step parseNumber hrest).ok hok) hinv hfilled'
    obtain ⟨first, hfirst, hcovers'⟩ := hadvances.covers
    refine ⟨hadvances.later.trans hlater, hlast, hlast', first ++ found, ?_, ?_⟩
    · rw [hfound, hfirst, List.append_assoc]
    · exact hcovers' _ hlater found hcovers

end Glam.Syntax.Lexer
