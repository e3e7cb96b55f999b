import Glam.Syntax.Scanning

/-!
# What an iteration of the lexer does

An iteration breaks the line, or passes over layout, or starts a line if need be and finds one token
(`Lexer.Advances`, `Lexer.Advances.step`). What the invariants of the lexer ask of an iteration is
all here, so that none of them looks at the loop again.

A token is read from where the lexer stands, from at least one character (`Lexer.Emits`), and adds
one entry to the table that it refers to, or opens or closes a group (`Lexer.Adds`). -/

namespace Glam.Syntax

variable {N : Type}

/-- What a text starts with. -/
def LexedText.quotes (text : LexedText) : List Char :=
  if text.multiline then ['"', '"', '"'] else ['"']

/-- A text spans what it is read from, its quotes first, and its line breaks are line feeds. -/
def LexedText.Fits (source : List Char) (text : LexedText) : Prop :=
  '\r' ∉ text.value ∧ ∃ before body after, source = before ++ ((text.quotes ++ body) ++ after) ∧
    text.span = ⟨bytes before, bytes before + bytes (text.quotes ++ body)⟩

/-- The token refers to nothing. -/
def TokenKind.plain : TokenKind → Bool
  | .name _ | .symbol _ | .invalidNumber _ | .unknown _ => true
  | _ => false

namespace Lexer

/-- **What a token adds** to the tables. -/
inductive Adds (source : List Char) (s s' : Lexer N) : TokenKind → Prop
  | plain {kind : TokenKind} (hkind : kind.plain = true) (numbers : s'.numbers = s.numbers)
      (texts : s'.texts = s.texts) (groups : s'.groups = s.groups)
      (groupStack : s'.groupStack = s.groupStack) : Adds source s s' kind
  | number {number : N} (numbers : s'.numbers = s.numbers ++ [number])
      (texts : s'.texts = s.texts) (groups : s'.groups = s.groups)
      (groupStack : s'.groupStack = s.groupStack) :
      Adds source s s' (.number s.numbers.length)
  | text {text : LexedText} (fits : text.Fits source) (numbers : s'.numbers = s.numbers)
      (texts : s'.texts = s.texts ++ [text]) (groups : s'.groups = s.groups)
      (groupStack : s'.groupStack = s.groupStack) : Adds source s s' (.text s.texts.length)
  | opens {delimiter : Delimiter} (numbers : s'.numbers = s.numbers) (texts : s'.texts = s.texts)
      (groups : s'.groups = s.groups ++ [⟨delimiter, s.tokens.length, none, s.groupStack.head?⟩])
      (groupStack : s'.groupStack = s.groups.length :: s.groupStack) :
      Adds source s s' (.openGroup s.groups.length delimiter)
  | closes {id : Nat} {group : DelimiterGroup} (numbers : s'.numbers = s.numbers)
      (texts : s'.texts = s.texts) (hgroup : s.groups[id]? = some group)
      (groups : s'.groups = s.groups.set id { group with closeToken := some s.tokens.length })
      (groupStack : s.groupStack = id :: s'.groupStack) :
      Adds source s s' (.closeGroup id group.delimiter)

/-- **A token is found** where the lexer stands. -/
structure Emits (source : List Char) (s s' : Lexer N) (kind : TokenKind) (text : List Char) :
    Prop where
  rest : s.rest = text ++ s'.rest
  index : s'.index = s.index + bytes text
  text_ne : text ≠ []
  spells : kind.Spells text
  tokens : ∃ leading, s'.tokens = s.tokens ++ [⟨kind, ⟨s.index, s'.index⟩, leading⟩]
  later : s.Later s'
  sound : s.Sound source → s'.Sound source
  openDeclaration : s'.openDeclaration = s.openDeclaration
  declarations : s'.declarations = s.declarations
  emitted : s.emittedLineStart = true → s'.emittedLineStart = true
  adds : Adds source s s' kind
  /-- a delimiter that is not part of a group is reported -/
  unmatched : ∀ c ∈ kind.written, Delimiter.marks c = true → s'.structuralDiagnostics ≠ []

variable {source : List Char} {s s' : Lexer N} {c : Char} {rest : List Char} {kind : TokenKind}

/-- A token that is added after a scan that keeps the tables is added to those. -/
theorem Adds.of_keeps {read : Lexer N} (hkeeps : s.Keeps read) (h : Adds source read s' kind) :
    Adds source s s' kind := by
  obtain ⟨⟨htokens, -, -, hgroups, hstack⟩, hnumbers, htexts, -, -⟩ := hkeeps
  cases h with
  | plain hkind numbers texts groups groupStack =>
    exact .plain hkind (numbers.trans hnumbers) (texts.trans htexts) (groups.trans hgroups)
      (groupStack.trans hstack)
  | number numbers texts groups groupStack =>
    rw [hnumbers] at numbers ⊢
    exact .number numbers (texts.trans htexts) (groups.trans hgroups) (groupStack.trans hstack)
  | text fits numbers texts groups groupStack =>
    rw [htexts] at texts ⊢
    exact .text fits (numbers.trans hnumbers) texts (groups.trans hgroups) (groupStack.trans hstack)
  | opens numbers texts groups groupStack =>
    rw [hgroups, htokens, hstack] at groups
    rw [hgroups, hstack] at groupStack
    rw [hgroups]
    exact .opens (numbers.trans hnumbers) (texts.trans htexts) groups groupStack
  | closes numbers texts hgroup groups groupStack =>
    rw [hgroups] at hgroup
    rw [hgroups, htokens] at groups
    rw [hstack] at groupStack
    exact .closes (numbers.trans hnumbers) (texts.trans htexts) hgroup groups groupStack

section

variable {read : Lexer N} {text : List Char} (hmoves : Moves source s read)
  (hrest : s.rest = text ++ read.rest) (hne : text ≠ []) (hspells : kind.Spells text)
  (hunmatched : ∀ c ∈ kind.written, Delimiter.marks c = true → read.structuralDiagnostics ≠ [])
include hmoves hrest hne hspells hunmatched

/-- Reading on over the token's text, and then recording it. -/
theorem Emits.of_moves {leading : LeadingTrivia} (hplace : read.SamePlace s')
    (htokens : s'.tokens = read.tokens ++ [⟨kind, ⟨s.index, read.index⟩, leading⟩])
    (hopened : s'.openDeclaration = read.openDeclaration)
    (hdeclarations : s'.declarations = read.declarations)
    (hemitted : read.emittedLineStart = true → s'.emittedLineStart = true)
    (hadds : Adds source read s' kind) : Emits source s s' kind text where
  rest := by rw [hplace.rest, hrest]
  index := by
    obtain ⟨used, hused, hindex⟩ := hmoves.used
    obtain rfl : text = used := List.append_cancel_right (hrest.symm.trans hused)
    rw [hplace.index, hindex]
  text_ne := hne
  spells := hspells
  tokens := ⟨leading, by rw [htokens, hmoves.keeps.tokens, hplace.index]⟩
  later := hmoves.later.trans hplace.later
  sound := hplace.sound ∘ hmoves.sound
  openDeclaration := hopened.trans hmoves.keeps.openDeclaration
  declarations := hdeclarations.trans hmoves.keeps.declarations
  emitted := fun h => hemitted (hmoves.keeps.emittedLineStart.trans h)
  adds := hadds.of_keeps hmoves.keeps
  unmatched := fun c hc hmarks => by
    rw [hplace.structuralDiagnostics]
    exact hunmatched c hc hmarks

theorem Emits.emit (hplain : kind.plain = true) :
    Emits source s (read.emit kind s.index read.index) kind text :=
  .of_moves hmoves hrest hne hspells hunmatched ⟨rfl, rfl, rfl, rfl, rfl, rfl, rfl, rfl⟩ rfl rfl rfl
    id (.plain hplain rfl rfl rfl rfl)

end

/-! ### Texts -/

section Texts

variable {read : Lexer N}

/-- A text literal is emitted over its quotes and its body. -/
theorem Emits.text {value : List Char} (quotes body : List Char) (multiline : Bool)
    (hsound : s.Sound source) (hmoves : Moves source s read)
    (hrest : s.rest = (quotes ++ body) ++ read.rest)
    (hquotes : (if multiline then ['"', '"', '"'] else ['"']) = quotes) (hvalue : '\r' ∉ value) :
    ∃ kind, Emits source s (read.emitText value s.index read.index multiline) kind
      (quotes ++ body) := by
  obtain ⟨before, hsource, hbefore⟩ := hsound.here
  obtain ⟨used, hused, hindex⟩ := hmoves.used
  obtain rfl : quotes ++ body = used := List.append_cancel_right (hrest.symm.trans hused)
  have hne : quotes ++ body ≠ [] := by
    rw [← hquotes]
    cases multiline <;> exact List.cons_ne_nil _ _
  have hfits : LexedText.Fits source ⟨value, ⟨s.index, read.index⟩, multiline⟩ := by
    refine ⟨hvalue, before, body, read.rest, ?_, ?_⟩
    · rw [LexedText.quotes, hquotes, ← hrest, hsource]
    · rw [LexedText.quotes, hquotes, hindex, hbefore]
  exact ⟨.text read.texts.length, .of_moves hmoves hrest hne hne nofun
    ⟨rfl, rfl, rfl, rfl, rfl, rfl, rfl, rfl⟩ rfl rfl rfl (fun _ => rfl)
    (.text hfits rfl rfl rfl rfl)⟩

theorem Moves.reportUnterminated (hmoves : Moves source s read) (closed : Bool) (start : Nat)
    (message : String) :
    Moves source s (if closed then read
      else read.structuralError (lineAt read.lineStarts start) message) := by
  split_ifs
  · exact hmoves
  · exact hmoves.trans (.structuralError fun hsound => lineAt_pos hsound.first _)

theorem Emits.consumeInlineText (hsound : s.Sound source) (h : s.rest = '"' :: rest) :
    ∃ kind text, Emits source s (s.consumeInlineText rest) kind text := by
  have hread : Moves source (s.next '"' rest) (Lexer.inlineText rest [] (s.next '"' rest)).1 :=
    .inlineText rfl
  obtain ⟨body, hbody, -⟩ := hread.used
  have hmoves := ((Moves.next h).trans hread).reportUnterminated
    (Lexer.inlineText rest [] (s.next '"' rest)).2.2 s.index "unterminated text literal"
  have hvalue := @inlineText_value N (s.next '"' rest) rest [] List.not_mem_nil
  obtain ⟨kind, hemits⟩ := Emits.text ['"'] body false hsound hmoves
    (by rw [h]; split_ifs <;> exact congrArg ('"' :: ·) hbody) rfl hvalue
  exact ⟨kind, _, hemits⟩

/-- A multiline text is emitted over all of its lines. -/
theorem Emits.consumeMultilineText (hsound : s.Sound source)
    (h : s.rest = ['"', '"', '"'] ++ rest) :
    ∃ kind text, Emits source s (s.consumeMultilineText rest) kind text := by
  have hread : Moves source (s.pass ['"', '"', '"'] rest) (Lexer.multilineText
      (s.pass ['"', '"', '"'] rest).consumeOpeningMultilineTail []).1 :=
    (Moves.consumeOpeningMultilineTail _).trans (.multilineText _ [])
  obtain ⟨body, hbody, -⟩ := hread.used
  have hmoves := ((Moves.pass h).trans hread).reportUnterminated
    (Lexer.multilineText (s.pass ['"', '"', '"'] rest).consumeOpeningMultilineTail []).2.2 s.index
    "unterminated multiline text literal"
  have hvalue := joinLines_value (multilineText_lines
    (s := (s.pass ['"', '"', '"'] rest).consumeOpeningMultilineTail)
    fun _ h => absurd h List.not_mem_nil)
  obtain ⟨kind, hemits⟩ := Emits.text ['"', '"', '"'] body true hsound hmoves
    (by rw [h]; split_ifs <;> exact congrArg (['"', '"', '"'] ++ ·) hbody) rfl hvalue
  exact ⟨kind, _, hemits⟩

end Texts

/-! ### Delimiters -/

variable {delimiter : Delimiter}

theorem Emits.consumeOpen (h : s.rest = c :: rest) (hopen : Delimiter.fromOpen c = some delimiter) :
    Emits source s (s.consumeOpen delimiter c rest) (.openGroup s.groups.length delimiter) [c] :=
  .of_moves (.next h) h (List.cons_ne_nil _ _) ⟨c, rfl, hopen⟩ nofun
    ⟨rfl, rfl, rfl, rfl, rfl, rfl, rfl, rfl⟩ rfl rfl rfl id (.opens rfl rfl rfl rfl)

/-- A delimiter that closes nothing. -/
theorem Emits.reportDelimiter (h : s.rest = c :: rest) (message : String) :
    Emits source s (((s.next c rest).structuralError s.line message).emit (.symbol [c]) s.index
      (s.index + c.utf8Size)) (.symbol [c]) [c] := by
  have hmoves : Moves source s ((s.next c rest).structuralError s.line message) :=
    (Moves.next h).trans (.structuralError fun hsound => hsound.line_pos)
  exact .emit hmoves h (List.cons_ne_nil _ _) ⟨rfl, List.cons_ne_nil _ _⟩
    (fun _ _ _ => List.append_ne_nil_of_right_ne_nil _ (List.cons_ne_nil _ _)) rfl

/-- A closing delimiter is emitted, whether or not it closes a group. -/
theorem Emits.consumeClose (hok : s.Ok) (h : s.rest = c :: rest)
    (hclose : Delimiter.fromClose c = some delimiter) :
    ∃ kind, Emits source s (s.consumeClose delimiter c rest) kind [c] := by
  unfold Lexer.consumeClose
  dsimp only
  split
  · exact ⟨_, .reportDelimiter h _⟩
  · next id stack hstack =>
    obtain ⟨group, hgroup, -⟩ := hok.stack id (hstack ▸ (.head _))
    rw [hgroup]
    dsimp only
    split_ifs with hdelimiter
    · exact ⟨_, .reportDelimiter h _⟩
    · obtain rfl : group.delimiter = delimiter := not_not.mp hdelimiter
      exact ⟨.closeGroup id group.delimiter, .of_moves (.next h) h (List.cons_ne_nil _ _)
        ⟨c, rfl, hclose⟩ nofun ⟨rfl, rfl, rfl, rfl, rfl, rfl, rfl, rfl⟩ rfl rfl rfl (fun h => h)
        (.closes rfl rfl hgroup rfl hstack)⟩

/-! ### Words -/

theorem mem_of_marks (h : Delimiter.marks c = true) : c ∈ ['(', '[', '{', ')', ']', '}'] := by
  rcases Bool.or_eq_true_iff.mp h with h | h
  · unfold Delimiter.fromOpen at h
    split at h <;> first | decide | cases h
  · unfold Delimiter.fromClose at h
    split at h <;> first | decide | cases h

theorem not_part_of_marks (h : Delimiter.marks c = true) :
    isNumberPart c = false ∧ isNamePart c = false := by
  have hmem := mem_of_marks h
  simp only [List.mem_cons, List.not_mem_nil, or_false] at hmem
  rcases hmem with rfl | rfl | rfl | rfl | rfl | rfl <;> exact ⟨rfl, rfl⟩

theorem symbols_marks : ∀ symbol ∈ symbols, ∀ c ∈ symbol, Delimiter.marks c = false := by
  simp [symbols, Delimiter.marks, Delimiter.fromOpen, Delimiter.fromClose]

/-- A number is emitted over its characters, also an invalid one. -/
theorem Emits.consumeNumber (parseNumber : List Char → Except String N) (h : s.rest = c :: rest)
    (hstart : isNumberStart c rest = true) :
    ∃ kind text, Emits source s (s.consumeNumber parseNumber) kind text := by
  have hrest : s.rest = s.rest.takeWhile isNumberPart ++ s.rest.dropWhile isNumberPart :=
    List.takeWhile_append_dropWhile.symm
  have hne : s.rest.takeWhile isNumberPart ≠ [] := by
    rw [h, List.takeWhile_cons_of_pos (isNumberPart_of_start hstart)]
    exact List.cons_ne_nil _ _
  have hpass : Moves source s
      (s.pass (s.rest.takeWhile isNumberPart) (s.rest.dropWhile isNumberPart)) := .pass hrest
  unfold Lexer.consumeNumber
  dsimp only
  split
  · exact ⟨.number s.numbers.length, _, .of_moves hpass hrest hne hne nofun
      ⟨rfl, rfl, rfl, rfl, rfl, rfl, rfl, rfl⟩ rfl rfl rfl id (.number rfl rfl rfl rfl)⟩
  · refine ⟨.invalidNumber _, _,
      .emit (hpass.trans (.structuralError ?_)) hrest hne ⟨rfl, hne⟩ ?_ rfl⟩
    · exact fun hsound => hsound.line_pos
    · exact fun _ _ _ => List.append_ne_nil_of_right_ne_nil _ (List.cons_ne_nil _ _)

/-- A name is emitted over its characters. -/
theorem Emits.consumeName (h : s.rest = c :: rest) (hstart : isNameStart c rest = true) :
    ∃ kind text, Emits source s (s.consumeName c rest) kind text := by
  have hrest : s.rest = (c :: rest.takeWhile isNamePart) ++ rest.dropWhile isNamePart := by
    rw [h, List.cons_append, List.takeWhile_append_dropWhile]
  have hhead : isNamePart c = true := by
    unfold isNameStart at hstart
    unfold isNamePart Char.isAlphanum
    rcases Bool.or_eq_true_iff.mp hstart with halpha | hline
    · rw [halpha, Bool.true_or, Bool.true_or]
    · rw [(Bool.and_eq_true_iff.mp hline).1, Bool.or_true]
  refine ⟨.name _, _, .emit (.pass hrest) hrest (List.cons_ne_nil _ _) ⟨rfl, List.cons_ne_nil _ _⟩
    (fun c' hc' hmarks => ?_) rfl⟩
  have hpart : isNamePart c' = true := by
    rcases List.mem_cons.mp hc' with rfl | hc'
    · exact hhead
    · exact List.mem_takeWhile_imp hc'
  exact absurd ((not_part_of_marks hmarks).2.symm.trans hpart) Bool.false_ne_true

/-- A symbol is emitted over its characters. -/
theorem Emits.consumeSymbol (h : s.rest = c :: rest) (hc : Delimiter.marks c = false) :
    ∃ kind text, Emits source s (s.consumeSymbol c rest) kind text := by
  obtain ⟨text, htext, hrest, hne, hmarks⟩ : ∃ text,
      (symbols.find? fun symbol => symbol.isPrefixOf (c :: rest)).getD [c] = text ∧
      s.rest = text ++ (c :: rest).drop text.length ∧ text ≠ [] ∧
      ∀ c ∈ text, Delimiter.marks c = false := by
    cases hfind : symbols.find? fun symbol => symbol.isPrefixOf (c :: rest) with
    | none =>
      refine ⟨[c], rfl, h, List.cons_ne_nil _ _, fun c' hc' => ?_⟩
      rw [List.mem_singleton.mp hc']
      exact hc
    | some symbol =>
      have hmem := List.mem_of_find?_eq_some hfind
      have hstart : symbol.isPrefixOf (c :: rest) = true :=
        List.find?_some (p := fun symbol : List Char => symbol.isPrefixOf (c :: rest)) hfind
      obtain ⟨rest', hrest'⟩ := List.isPrefixOf_iff_prefix.mp hstart
      refine ⟨symbol, rfl, ?_, symbols_ne_nil symbol hmem, symbols_marks symbol hmem⟩
      rw [h, ← hrest', List.drop_left]
  unfold Lexer.consumeSymbol
  rw [htext]
  exact ⟨.symbol text, text, .emit (.pass hrest) hrest hne ⟨rfl, hne⟩
    (fun c' hc' hmarks' => absurd ((hmarks c' hc').symm.trans hmarks') Bool.false_ne_true) rfl⟩

/-- A number, a name or a symbol is emitted. -/
theorem Emits.word (parseNumber : List Char → Except String N) (h : s.rest = c :: rest)
    (hc : Delimiter.marks c = false) :
    ∃ kind text, Emits source s (s.word parseNumber c rest) kind text := by
  unfold Lexer.word
  split_ifs with hnumber hname
  · exact Emits.consumeNumber parseNumber h hnumber
  · exact Emits.consumeName h hname
  · exact Emits.consumeSymbol h hc
  · refine ⟨.unknown c, [c], .emit (.next h) h (List.cons_ne_nil _ _) rfl
      (fun c' hc' hmarks => ?_) rfl⟩
    rw [List.mem_singleton.mp hc'] at hmarks
    exact absurd (hc.symm.trans hmarks) Bool.false_ne_true

/-- **A token is found at every character that is not layout.** -/
theorem Emits.token (parseNumber : List Char → Except String N) (hsound : s.Sound source)
    (hok : s.Ok) (h : s.rest = c :: rest) :
    ∃ kind text, Emits source s (s.token parseNumber c rest) kind text := by
  unfold Lexer.token
  split
  · exact Emits.consumeMultilineText hsound h
  · split_ifs with hquote
    · subst hquote
      exact Emits.consumeInlineText hsound h
    · split
      · next delimiter hopen => exact ⟨_, _, .consumeOpen h hopen⟩
      · next delimiter hopen hclose =>
        obtain ⟨kind, hemits⟩ := @Emits.consumeClose N source s c rest delimiter hok h hclose
        exact ⟨kind, [c], hemits⟩
      · next hopen hclose =>
        refine Emits.word parseNumber h ?_
        rw [Delimiter.marks, hopen, hclose]
        rfl

/-! ### The start of a line -/

theorem SamePlace.finishDeclaration (s : Lexer N) (tokenEnd : Nat) :
    s.SamePlace (s.finishDeclaration tokenEnd) := by
  unfold Lexer.finishDeclaration
  split
  · exact ⟨rfl, rfl, rfl, rfl, rfl, rfl, rfl, rfl⟩
  · split <;> exact ⟨rfl, rfl, rfl, rfl, rfl, rfl, rfl, rfl⟩

theorem finishDeclaration_tables (s : Lexer N) (tokenEnd : Nat) :
    (s.finishDeclaration tokenEnd).numbers = s.numbers ∧
      (s.finishDeclaration tokenEnd).texts = s.texts ∧
      (s.finishDeclaration tokenEnd).groups = s.groups ∧
      (s.finishDeclaration tokenEnd).groupStack = s.groupStack := by
  unfold Lexer.finishDeclaration
  split
  · exact ⟨rfl, rfl, rfl, rfl⟩
  · split <;> exact ⟨rfl, rfl, rfl, rfl⟩

/-- **A line starts**, and with it a declaration, if it is not indented and no group is open. -/
structure StartsLine (s s' : Lexer N) : Prop where
  place : s.SamePlace s'
  tokens : ∃ leading,
    s'.tokens = s.tokens ++ [⟨.lineStart s.indentation, ⟨s.index, s.index⟩, leading⟩]
  numbers : s'.numbers = s.numbers
  texts : s'.texts = s.texts
  groups : s'.groups = s.groups
  groupStack : s'.groupStack = s.groupStack
  emitted : s'.emittedLineStart = true
  declares : (s'.openDeclaration = s.openDeclaration ∧ s'.declarations = s.declarations) ∨
    (s.groupStack = [] ∧ s.indentation = 0 ∧
      s'.openDeclaration = some ⟨s.tokens.length, s.lineStart, s.line⟩ ∧
      s'.declarations = (s.finishDeclaration s.tokens.length).declarations)

/-- A line's first token is emitted once. -/
theorem ensureLineStart_cases (s : Lexer N) :
    (s.emittedLineStart = true ∧ s.ensureLineStart = s) ∨
      (s.emittedLineStart = false ∧ s.StartsLine s.ensureLineStart) := by
  cases hemitted : s.emittedLineStart with
  | true => exact .inl ⟨rfl, by rw [Lexer.ensureLineStart, if_pos hemitted]⟩
  | false =>
    refine .inr ⟨rfl, ?_⟩
    rw [Lexer.ensureLineStart, if_neg (by rw [hemitted]; exact Bool.false_ne_true)]
    dsimp only
    by_cases hdeclares : s.groupStack = [] ∧ s.indentation = 0
    · rw [if_pos hdeclares]
      obtain ⟨hnumbers, htexts, hgroups, hstack⟩ := finishDeclaration_tables s s.tokens.length
      have hplace := SamePlace.finishDeclaration s s.tokens.length
      refine ⟨{ hplace with }, ⟨(s.finishDeclaration s.tokens.length).leading, ?_⟩, hnumbers,
        htexts, hgroups, hstack, rfl, .inr ⟨hdeclares.1, hdeclares.2, rfl, rfl⟩⟩
      exact congrArg (· ++ [_]) (tokens_finishDeclaration s s.tokens.length)
    · rw [if_neg hdeclares]
      exact ⟨⟨rfl, rfl, rfl, rfl, rfl, rfl, rfl, rfl⟩, ⟨_, rfl⟩, rfl, rfl, rfl, rfl, rfl,
        .inl ⟨rfl, rfl⟩⟩

theorem SamePlace.ensureLineStart (s : Lexer N) : s.SamePlace s.ensureLineStart := by
  rcases ensureLineStart_cases s with ⟨-, hsame⟩ | ⟨-, hstarts⟩
  · rw [hsame]
    exact ⟨rfl, rfl, rfl, rfl, rfl, rfl, rfl, rfl⟩
  · exact hstarts.place

/-! ### Layout -/

/-- The lexer has reported whitespace in the line of the offset. -/
def Reports (s : Lexer N) (offset : Nat) : Prop :=
  ∃ diagnostic ∈ s.invalidWhitespaceDiagnostics, diagnostic.severity = .error ∧
    diagnostic.line = lineAt s.lineStarts offset ∧ ∃ c, diagnostic.message = whitespaceMessage c

/-- What is passed over may stand between tokens, as the lexer sees it in the end. -/
def Skips (s s' : Lexer N) : Prop :=
  ∀ last : Lexer N, s'.Later last → ∀ tokens, Covers last.Reports s'.index s'.rest tokens →
    Covers last.Reports s.index s.rest tokens

/-- **What an iteration does.** -/
inductive Advances (source : List Char) (s : Lexer N) : Lexer N → Prop
  | newline {used rest : List Char} {kind : Nat} (hne : used ≠ []) (hrest : s.rest = used ++ rest)
      (hskips : s.Skips ((s.pass used rest).breakLine kind true)) :
      Advances source s ((s.pass used rest).breakLine kind true)
  | layout {s' : Lexer N} (hmoves : Moves source s s') (hskips : s.Skips s') : Advances source s s'
  | token {s' : Lexer N} {kind : TokenKind} {text : List Char}
      (hemits : Emits source s.ensureLineStart s' kind text) : Advances source s s'

theorem Skips.newline {used : List Char} {kind : Nat} (h : ∀ c ∈ used, isNewline c = true)
    (hrest : s.rest = used ++ rest) : s.Skips ((s.pass used rest).breakLine kind true) := by
  intro last _ tokens hcovers
  rw [hrest]
  exact .newlines h hcovers

theorem Skips.space (hrest : s.rest = ' ' :: rest) (hindex : s'.index = s.index) :
    s.Skips (s'.next ' ' rest) := by
  intro last _ tokens hcovers
  rw [hrest, ← hindex]
  exact .space hcovers

/-- Whitespace is reported in its line, and the line stays what it is. -/
theorem Skips.whitespace (hsound : s.Sound source) (hrest : s.rest = c :: rest)
    (hwhitespace : isWhitespace c = true) (hs' : (s.recordInvalidWhitespace c).SamePlace s') :
    s.Skips (s'.next c rest) := by
  intro last hlater tokens hcovers
  have hrecord : Moves source s (s.recordInvalidWhitespace c) := .recordInvalidWhitespace s c
  obtain ⟨hindex, hkept⟩ : (s.recordInvalidWhitespace c).index = s.index ∧
      (s.recordInvalidWhitespace c).rest = s.rest := by
    unfold Lexer.recordInvalidWhitespace
    split_ifs <;> exact ⟨rfl, rfl⟩
  have hnext : Moves source s' (s'.next c rest) := .next (by rw [hs'.rest, hkept, hrest])
  have hpassed : s.Later last :=
    (hrecord.later.trans hs'.later).trans (hnext.later.trans hlater)
  obtain ⟨diagnostic, hmem, hline, hmessage⟩ := recordInvalidWhitespace_reported hsound c
  have hseverity := ((hrecord.sound hsound).errors diagnostic (List.mem_append_left _ hmem)).1
  rw [hrest]
  refine .whitespace hwhitespace ⟨diagnostic, ?_, hseverity, ?_, hmessage⟩ ?_
  · rw [← hs'.invalidWhitespaceDiagnostics] at hmem
    exact hlater.whitespace.subset hmem
  · rw [hline, hpassed.lineAt_eq (Nat.le_refl _), hsound.lineAt_index]
  · rw [← hindex, ← hs'.index]
    exact hcovers

/-- A comment is skipped up to the line's end. -/
theorem Skips.comment (hrest : s.rest = '#' :: rest) : s.Skips (consumeComment s.rest s) := by
  intro last _ tokens hcovers
  obtain ⟨used, hused, hindex⟩ := (Reads.consumeComment (s := s) rfl).used
  obtain ⟨hcomment, hhead⟩ := @consumeComment_rest N s s.rest rfl
  obtain rfl : s.rest.takeWhile (fun c => !isNewline c) = used :=
    List.append_cancel_right (hcomment.symm.trans hused)
  have htake : s.rest.takeWhile (fun c => !isNewline c) =
      '#' :: rest.takeWhile (fun c => !isNewline c) := by
    rw [hrest, List.takeWhile_cons_of_pos (by decide)]
  rw [hindex, htake] at hcovers
  rw [htake] at hcomment
  rw [hcomment]
  refine .comment (fun c hc => ?_) hhead hcovers
  have hc' := List.mem_takeWhile_imp hc
  simpa using hc'

/-- **Each turn of the loop** skips characters or emits the token that they spell. -/
theorem Advances.step (parseNumber : List Char → Except String N) (hsound : s.Sound source)
    (hok : s.Ok) (h : s.rest ≠ []) : Advances source s (s.step parseNumber) := by
  unfold Lexer.step
  split
  · next next hnewline =>
    obtain ⟨used, rest, kind, hne, hused, hrest, rfl⟩ := consumeNewline_cases hnewline
    exact .newline hne hrest (.newline hused hrest)
  · split
    · next hnil => exact absurd hnil h
    · next c rest hrest =>
      split_ifs with hspace hstart hwhite hcomment
      iterate 2
        subst hspace
        exact .layout (.next_of_same ⟨rfl, rfl, rfl, rfl, rfl, rfl, rfl, rfl⟩
          ⟨⟨rfl, rfl, rfl, rfl, rfl⟩, rfl, rfl, rfl, rfl⟩ hrest) (.space hrest rfl)
      · have hrecord : (s.recordInvalidWhitespace c).SamePlace
          { s.recordInvalidWhitespace c with leading := .space } :=
          ⟨rfl, rfl, rfl, rfl, rfl, rfl, rfl, rfl⟩
        have hkept : (s.recordInvalidWhitespace c).rest = c :: rest := by
          unfold Lexer.recordInvalidWhitespace
          split_ifs <;> exact hrest
        exact .layout ((Moves.recordInvalidWhitespace s c).trans (.next_of_same hrecord
          ⟨⟨rfl, rfl, rfl, rfl, rfl⟩, rfl, rfl, rfl, rfl⟩ hkept))
          (.whitespace hsound hrest hwhite hrecord)
      · exact .layout (.consumeComment rfl) (.comment (hcomment ▸ hrest))
      · have hplace := SamePlace.ensureLineStart s
        obtain ⟨kind, text, hemits⟩ := Emits.token parseNumber (hplace.sound hsound)
          ((Reads.ensureLineStart s).ok hok) (hplace.rest.trans hrest)
        exact .token hemits

end Lexer
end Glam.Syntax
