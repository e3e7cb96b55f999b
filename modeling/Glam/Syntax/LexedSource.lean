import Glam.Syntax.TokenTables

/-!
# What a lexed source should be

The checks that the lexer's own tests make of what it found (`LexedSource::invariants_hold`), with
the accessors they use, and what is asked of it beyond them: the tokens and what stands between them
are the whole source (`Covers`), and groups are nested (`Nested`).

A byte offset is a boundary where a character starts or the source ends, and a slice exists between
boundaries only (`sourceSlice_eq_some`).
-/

namespace Glam.Syntax

variable {N V : Type}

deriving instance DecidableEq for LexedText

/-- What is reported of a line with unsupported whitespace. -/
def whitespaceMessage (c : Char) : String :=
  "unsupported whitespace U+" ++ Lexer.codePoint c ++ "; .g source permits only SP, CR, and LF"

/-! ### Slices of the source -/

/-- What is left of a text after `n` bytes, if a character starts there. -/
def dropBytes : List Char → Nat → Option (List Char)
  | text, 0 => some text
  | [], _ + 1 => none
  | c :: rest, n + 1 => if c.utf8Size ≤ n + 1 then dropBytes rest (n + 1 - c.utf8Size) else none

/-- The first `n` bytes of a text, if a character ends there. -/
def takeBytes : List Char → Nat → Option (List Char)
  | _, 0 => some []
  | [], _ + 1 => none
  | c :: rest, n + 1 =>
    if c.utf8Size ≤ n + 1 then (takeBytes rest (n + 1 - c.utf8Size)).map (c :: ·) else none

/-- The characters of a span, if it begins and ends between characters. -/
def sourceSlice (source : List Char) (span : ByteSpan) : Option (List Char) :=
  if span.start ≤ span.stop then
    (dropBytes source span.start).bind fun rest => takeBytes rest (span.stop - span.start)
  else none

/-- A character starts at the offset, or the source ends. -/
def Boundary (source : List Char) (offset : Nat) : Prop :=
  ∃ before after, source = before ++ after ∧ bytes before = offset

variable {offset : Nat} {starts : List Nat}

theorem Boundary.le {source : List Char} (h : Boundary source offset) : offset ≤ bytes source := by
  obtain ⟨before, after, rfl, rfl⟩ := h
  rw [bytes_append]
  exact Nat.le_add_right _ _

theorem dropBytes_append (before after : List Char) :
    dropBytes (before ++ after) (bytes before) = some after := by
  induction before with
  | nil => cases after <;> rfl
  | cons c before ih =>
    have hsize := Char.utf8Size_pos c
    obtain ⟨n, hn⟩ : ∃ n, bytes (c :: before) = n + 1 :=
      ⟨bytes (c :: before) - 1, by rw [bytes_cons]; omega⟩
    rw [hn, List.cons_append, dropBytes, ← hn, bytes_cons, if_pos (Nat.le_add_right _ _),
      Nat.add_sub_cancel_left, ih]

theorem takeBytes_append (text after : List Char) :
    takeBytes (text ++ after) (bytes text) = some text := by
  induction text with
  | nil => cases after <;> rfl
  | cons c text ih =>
    have hsize := Char.utf8Size_pos c
    obtain ⟨n, hn⟩ : ∃ n, bytes (c :: text) = n + 1 :=
      ⟨bytes (c :: text) - 1, by rw [bytes_cons]; omega⟩
    rw [hn, List.cons_append, takeBytes, ← hn, bytes_cons, if_pos (Nat.le_add_right _ _),
      Nat.add_sub_cancel_left, ih]
    rfl

/-- **A slice of the source.** -/
theorem sourceSlice_append (before text after : List Char) :
    sourceSlice (before ++ (text ++ after)) ⟨bytes before, bytes before + bytes text⟩ =
      some text := by
  rw [sourceSlice, if_pos (Nat.le_add_right _ _)]
  dsimp only
  rw [dropBytes_append, Option.bind_some, Nat.add_sub_cancel_left, takeBytes_append]

/-- Of two ways to split a text, the longer one has the shorter one's part in front. -/
theorem append_cancel_of_bytes_le {before after before' after' : List Char}
    (h : before ++ after = before' ++ after') (hle : bytes before ≤ bytes before') :
    ∃ text, before' = before ++ text ∧ after = text ++ after' := by
  induction before generalizing before' with
  | nil => exact ⟨before', rfl, h⟩
  | cons c before ih =>
    cases before' with
    | nil =>
      have hsize := Char.utf8Size_pos c
      rw [bytes_cons, bytes_nil] at hle
      omega
    | cons =>
      rw [List.cons_append, List.cons_append, List.cons.injEq] at h
      obtain ⟨rfl, htail⟩ := h
      rw [bytes_cons, bytes_cons] at hle
      obtain ⟨text, rfl, rfl⟩ := ih htail (by omega)
      exact ⟨text, rfl, rfl⟩

theorem sourceSlice_of_append {source before text after : List Char} {span : ByteSpan}
    (hsource : source = before ++ (text ++ after))
    (hspan : span = ⟨bytes before, bytes before + bytes text⟩) :
    sourceSlice source span = some text ∧ span.start ≤ span.stop ∧ span.stop ≤ bytes source := by
  subst hsource hspan
  refine ⟨sourceSlice_append before text after, Nat.le_add_right _ _, ?_⟩
  rw [bytes_append, bytes_append, ← Nat.add_assoc]
  exact Nat.le_add_right _ _

theorem exists_sourceSlice {source : List Char} {start stop : Nat} (hstart : Boundary source start)
    (hstop : Boundary source stop) (hle : start ≤ stop) :
    ∃ before text after, source = before ++ (text ++ after) ∧ bytes before = start ∧
      sourceSlice source ⟨start, stop⟩ = some text := by
  obtain ⟨before, after, rfl, rfl⟩ := hstart
  obtain ⟨before', after', heq, rfl⟩ := hstop
  obtain ⟨text, rfl, rfl⟩ := append_cancel_of_bytes_le heq hle
  refine ⟨before, text, after', rfl, rfl, ?_⟩
  rw [bytes_append]
  exact sourceSlice_append before text after'

/-! ### Lines -/

theorem lineAt_append {more : List Nat} (h : ∀ start ∈ more, offset < start) :
    lineAt (starts ++ more) offset = lineAt starts offset := by
  have hnone : more.takeWhile (· ≤ offset) = [] := by
    cases more with
    | nil => rfl
    | cons start => exact List.takeWhile_cons_of_neg (by simpa using h start (.head _))
  rw [lineAt, lineAt, List.takeWhile_append, hnone, List.append_nil]
  split_ifs with hall
  · exact hall.symm
  · rfl

theorem lineAt_eq_length (h : ∀ start ∈ starts, start ≤ offset) :
    lineAt starts offset = starts.length := by
  rw [lineAt, List.takeWhile_eq_self_iff.mpr fun start hstart => by simpa using h start hstart]

theorem lineAt_pos (h : starts.head? = some 0) (offset : Nat) : 0 < lineAt starts offset := by
  cases starts with
  | nil => cases h
  | cons start starts =>
    obtain rfl : start = 0 := Option.some.inj h
    rw [lineAt, List.takeWhile_cons_of_pos (by simp), List.length_cons]
    exact Nat.succ_pos _

/-! ### The checks of the source -/

namespace LexedSource

/-- The neighbours in a list, as `windows(2)` has them. -/
def windows {α : Type} (list : List α) : List (α × α) := list.zip list.tail

/-- The line of a byte that is within the source. -/
def lineAtByte (source : List Char) (lexed : LexedSource N V) (byte : Nat) : Option Nat :=
  if byte ≤ bytes source then some (lineAt lexed.lineStarts byte) else none

/-- The tokens between the two of a closed group. -/
def groupContents (lexed : LexedSource N V) (id : Nat) : Option (Nat × Nat) :=
  lexed.groups[id]?.bind fun group => group.closeToken.map fun close => (group.openToken + 1, close)

/-- Whether the table entry exists that a token refers to. -/
def tokenReferenceIsValid (lexed : LexedSource N V) (kind : TokenKind) : Bool :=
  match kind with
  | .number id => lexed.numbers[id]?.isSome
  | .text id => lexed.texts[id]?.isSome
  | .embedded id => lexed.embeddedValues[id]?.isSome
  | .openGroup group delimiter => lexed.groups[group]?.any fun found => found.delimiter = delimiter
  | .closeGroup group delimiter => lexed.groups[group]?.any fun found => found.delimiter = delimiter
  | _ => true

/-- What the lexer's assertions demand of a token: a span of the source, and a valid reference. -/
def tokenHolds (source : List Char) (lexed : LexedSource N V) (token : SpannedToken) : Bool :=
  token.span.start ≤ token.span.stop && token.span.stop ≤ bytes source &&
    (sourceSlice source token.span).isSome && (lexed.lineAtByte source token.span.start).isSome &&
    lexed.tokenReferenceIsValid token.kind

/-- What they demand of a text: a span that begins with its quotes, and no carriage return. -/
def textHolds (source : List Char) (lexed : LexedSource N V) (entry : LexedText × Nat) : Bool :=
  lexed.texts[entry.2]? = some entry.1 && entry.1.span.start ≤ entry.1.span.stop &&
    entry.1.span.stop ≤ bytes source && '\r' ∉ entry.1.value &&
    (sourceSlice source entry.1.span).any fun slice =>
      (if entry.1.multiline then ['"', '"', '"'] else ['"']).isPrefixOf slice

/-- What they demand of a group: that its tokens refer to it, and that its parent is before it. -/
def groupHolds (lexed : LexedSource N V) (entry : DelimiterGroup × Nat) : Bool :=
  let group := entry.1
  (lexed.tokens[group.openToken]?.any fun token =>
      token.kind = .openGroup entry.2 group.delimiter) &&
    (group.closeToken.all fun close =>
      group.openToken < close && lexed.tokens[close]?.any fun token =>
        token.kind = .closeGroup entry.2 group.delimiter) &&
    (group.parent.all fun parent => parent < entry.2 && lexed.groups[parent]?.isSome) &&
    group.closeToken.all fun close =>
      lexed.groupContents entry.2 = some (group.openToken + 1, close)

/-- What they demand of a declaration: that it has tokens and bytes, and the line of its first one.
-/
def declarationHolds (source : List Char) (lexed : LexedSource N V)
    (declaration : DeclarationSection) : Bool :=
  declaration.tokenStart < declaration.tokenEnd && declaration.tokenEnd ≤ lexed.tokens.length &&
    declaration.span.start < declaration.span.stop && declaration.span.stop ≤ bytes source &&
    declaration.line = (lexed.lineAtByte source declaration.span.start).getD 0 &&
    (sourceSlice source declaration.span).isSome

/-- **`invariants_hold`.** That the trivia before a token is one of the three kinds is left to its
type. -/
def invariantsHold (source : List Char) (lexed : LexedSource N V) : Bool :=
  lexed.lineStarts.head? = some 0 &&
    ((windows lexed.lineStarts).all fun pair => pair.1 < pair.2 && pair.2 ≤ bytes source) &&
    lexed.tokens.all (lexed.tokenHolds source) &&
    lexed.texts.zipIdx.all (lexed.textHolds source) &&
    lexed.groups.zipIdx.all lexed.groupHolds &&
    lexed.declarations.all (lexed.declarationHolds source) &&
    ((windows lexed.declarations).all fun pair =>
      pair.1.tokenEnd ≤ pair.2.tokenStart && pair.1.span.stop ≤ pair.2.span.start) &&
    (lexed.diagnostics.all fun diagnostic => 0 < diagnostic.line) &&
    lexed.hasErrors = lexed.diagnostics.any fun diagnostic => diagnostic.severity = .error

/-- What holds of each two holds of neighbours. -/
theorem all_windows_of_pairwise {α : Type} {p : α × α → Bool} {list : List α}
    (h : list.Pairwise fun a b => p (a, b) = true) : (windows list).all p = true := by
  rw [windows]
  induction list with
  | nil => rfl
  | cons a list ih =>
    cases list with
    | nil => rfl
    | cons b list =>
      obtain ⟨hhead, htail⟩ := List.pairwise_cons.mp h
      rw [List.tail_cons, List.zip_cons_cons, List.all_cons, hhead b (.head _),
        Bool.true_and]
      exact ih htail

/-! ### Beyond the checks -/

/-- The lexer reports unsupported whitespace in the line of the offset. -/
def Reported (lexed : LexedSource N V) (offset : Nat) : Prop :=
  ∃ diagnostic ∈ lexed.diagnostics, diagnostic.severity = .error ∧
    diagnostic.line = lineAt lexed.lineStarts offset ∧
    ∃ c, diagnostic.message = whitespaceMessage c

end LexedSource

/-- **Groups are nested.** Open and close tokens pair up, and a group that opens in another closes
in it, if that other is closed. -/
structure Nested (tokens : List SpannedToken) (groups : List DelimiterGroup) : Prop where
  opens : ∀ (id : Nat) (group : DelimiterGroup), groups[id]? = some group →
    tokens[group.openToken]?.map SpannedToken.kind = some (.openGroup id group.delimiter)
  closes : ∀ (id : Nat) (group : DelimiterGroup) (close : Nat), groups[id]? = some group →
    group.closeToken = some close → group.openToken < close ∧
      tokens[close]?.map SpannedToken.kind = some (.closeGroup id group.delimiter)
  opened : ∀ (index id : Nat) (delimiter : Delimiter),
    tokens[index]?.map SpannedToken.kind = some (.openGroup id delimiter) →
      ∃ group, groups[id]? = some group ∧ group.openToken = index ∧ group.delimiter = delimiter
  closed : ∀ (index id : Nat) (delimiter : Delimiter),
    tokens[index]?.map SpannedToken.kind = some (.closeGroup id delimiter) →
      ∃ group, groups[id]? = some group ∧ group.closeToken = some index ∧
        group.delimiter = delimiter
  nested : ∀ (id id' : Nat) (group group' : DelimiterGroup) (close : Nat),
    groups[id]? = some group → groups[id']? = some group' → group.openToken < group'.openToken →
    group.closeToken = some close →
      close < group'.openToken ∨ ∃ close', group'.closeToken = some close' ∧ close' < close

/-- No group is open at a token: those that open before it close before it. -/
def Outside (groups : List DelimiterGroup) (index : Nat) : Prop :=
  ∀ group ∈ groups, group.openToken < index →
    ∃ close, group.closeToken = some close ∧ close < index

/-- **Declarations** are one after another, and each starts at the start of a line that is not
indented, outside every group. -/
structure LexedSource.Declares (lexed : LexedSource N V) : Prop where
  ordered : lexed.declarations.Pairwise fun first second =>
    first.tokenEnd ≤ second.tokenStart ∧ first.span.stop ≤ second.span.start
  column : ∀ declaration ∈ lexed.declarations, declaration.span.start ∈ lexed.lineStarts ∧
    lexed.tokens[declaration.tokenStart]?.map SpannedToken.kind = some (.lineStart 0)
  outside : ∀ declaration ∈ lexed.declarations, Outside lexed.groups declaration.tokenStart

/-- The character opens or closes groups. -/
def Delimiter.marks (c : Char) : Bool := (fromOpen c).isSome || (fromClose c).isSome

/-- The characters of a token that is no number, no text and no part of a group. -/
def TokenKind.written : TokenKind → List Char
  | .name chars | .symbol chars | .invalidNumber chars => chars
  | .unknown c => [c]
  | _ => []

/-- The token is read from the text. -/
def TokenKind.Spells (kind : TokenKind) (read : List Char) : Prop :=
  match kind with
  | .name chars | .symbol chars | .invalidNumber chars => read = chars ∧ read ≠ []
  | .unknown c => read = [c]
  | .openGroup _ delimiter => ∃ c, read = [c] ∧ Delimiter.fromOpen c = some delimiter
  | .closeGroup _ delimiter => ∃ c, read = [c] ∧ Delimiter.fromClose c = some delimiter
  | .lineStart _ => read = []
  | .number _ | .text _ | .embedded _ => read ≠ []

/-- **The tokens cover a text**, from an offset on, with what may stand between them: spaces, line
breaks, comments up to the end of their line, and whitespace that is reported. -/
inductive Covers (reported : Nat → Prop) : Nat → List Char → List SpannedToken → Prop
  | nil (offset : Nat) : Covers reported offset [] []
  | space {offset : Nat} {rest : List Char} {tokens : List SpannedToken} :
      Covers reported (offset + bytes [' ']) rest tokens → Covers reported offset (' ' :: rest) tokens
  | newline {offset : Nat} {c : Char} {rest : List Char} {tokens : List SpannedToken} :
      isNewline c = true → Covers reported (offset + bytes [c]) rest tokens →
        Covers reported offset (c :: rest) tokens
  | whitespace {offset : Nat} {c : Char} {rest : List Char} {tokens : List SpannedToken} :
      isWhitespace c = true → reported offset → Covers reported (offset + bytes [c]) rest tokens →
        Covers reported offset (c :: rest) tokens
  | comment {offset : Nat} {text rest : List Char} {tokens : List SpannedToken} :
      (∀ c ∈ text, isNewline c = false) → (∀ c ∈ rest.head?, isNewline c = true) →
        Covers reported (offset + bytes ('#' :: text)) rest tokens →
          Covers reported offset ('#' :: text ++ rest) tokens
  | token {offset : Nat} {token : SpannedToken} {text rest : List Char}
      {tokens : List SpannedToken} :
      token.span = ⟨offset, offset + bytes text⟩ →
        token.kind.Spells text →
          Covers reported (offset + bytes text) rest tokens →
            Covers reported offset (text ++ rest) (token :: tokens)

namespace Covers

variable {reported : Nat → Prop} {offset : Nat} {text : List Char} {tokens : List SpannedToken}

theorem newlines {used : List Char} (hused : ∀ c ∈ used, isNewline c = true)
    (h : Covers reported (offset + bytes used) text tokens) :
    Covers reported offset (used ++ text) tokens := by
  induction used generalizing offset with
  | nil => exact h
  | cons c used ih =>
    rw [bytes_cons, ← Nat.add_assoc] at h
    exact .newline (hused c (.head _))
      (ih (fun c' hc' => hused c' (.tail _ hc')) h)

/-- Each token is a slice of the text. -/
theorem fits (h : Covers reported offset text tokens) :
    ∀ token ∈ tokens, ∃ before slice after, text = before ++ (slice ++ after) ∧
      token.span = ⟨offset + bytes before, offset + bytes before + bytes slice⟩ := by
  -- what is passed before the rest is passed before its tokens
  have hpassed : ∀ {offset : Nat} {token : SpannedToken} (used : List Char) {rest : List Char},
      (∃ before slice after, rest = before ++ (slice ++ after) ∧
        token.span = ⟨offset + bytes used + bytes before,
          offset + bytes used + bytes before + bytes slice⟩) →
      ∃ before slice after, used ++ rest = before ++ (slice ++ after) ∧
        token.span = ⟨offset + bytes before, offset + bytes before + bytes slice⟩ := by
    rintro offset token used rest ⟨before, slice, after, rfl, hspan⟩
    refine ⟨used ++ before, slice, after, (List.append_assoc ..).symm, ?_⟩
    rw [hspan, bytes_append, Nat.add_assoc]
  induction h with
  | nil => exact nofun
  | space _ ih => exact fun token hmem => hpassed [' '] (ih token hmem)
  | @newline _ c _ _ _ _ ih | @whitespace _ c _ _ _ _ _ ih =>
    exact fun token hmem => hpassed [c] (ih token hmem)
  | @comment _ text _ _ _ _ _ ih => exact fun token hmem => hpassed ('#' :: text) (ih token hmem)
  | @token offset token text rest tokens hspan _ _ ih =>
    intro other hmem
    rcases List.mem_cons.mp hmem with rfl | hmem
    · exact ⟨[], text, rest, rfl, hspan⟩
    · exact hpassed text (ih other hmem)

/-- **The tokens are in order and do not overlap.** -/
theorem pairwise (h : Covers reported offset text tokens) :
    tokens.Pairwise fun first second => first.span.stop ≤ second.span.start := by
  induction h with
  | nil => exact .nil
  | space _ ih | newline _ _ ih | whitespace _ _ _ ih | comment _ _ _ ih => exact ih
  | @token offset token text rest tokens hspan _ hrest ih =>
    refine List.pairwise_cons.mpr ⟨fun other hmem => ?_, ih⟩
    obtain ⟨before, slice, after, -, hother⟩ := hrest.fits other hmem
    rw [hspan, hother]
    exact Nat.le_add_right _ _

end Covers

end Glam.Syntax
