import Mathlib

/-!
# The lexer

The single pass over a source that finds its tokens, delimiter groups, declarations and diagnostics
(`g_syntax/parser/lexical.rs`). A source is a list of characters, and the positions in it are byte
offsets, as in the source code: `index` is the offset of `rest`, what is left to read.

The tables that are computed from the tokens afterwards are in `Glam.Syntax.TokenTables`, and the
number parser is a parameter. Where the source code indexes a vector, a missing element sets
`panicked`.

Everything the lexer does between two bare characters only reads on (`Reads`): it passes over a part
of the source, leaves the bare characters found so far as they are, and keeps what it indexes in
place. -/

namespace Glam.Syntax

/-- The width of some characters, in bytes. -/
def bytes (text : List Char) : Nat := (text.map Char.utf8Size).sum

@[simp] theorem bytes_nil : bytes [] = 0 := rfl

@[simp] theorem bytes_cons (c : Char) (text : List Char) :
    bytes (c :: text) = c.utf8Size + bytes text := by simp [bytes]

@[simp] theorem bytes_append (text text' : List Char) :
    bytes (text ++ text') = bytes text + bytes text' := by simp [bytes]

/-! ### Tokens -/

/-- The bytes of a source from `start` up to `stop`. -/
structure ByteSpan where
  start : Nat
  stop : Nat
deriving DecidableEq

/-- What stands between a token and the one before it. -/
inductive LeadingTrivia
  | joint
  | space
  | lineBreak
deriving DecidableEq

/-- The three kinds of brackets. -/
inductive Delimiter
  | parenthesis
  | bracket
  | brace
deriving DecidableEq

namespace Delimiter

/-- The delimiter that a character opens. -/
def fromOpen : Char → Option Delimiter
  | '(' => some .parenthesis
  | '[' => some .bracket
  | '{' => some .brace
  | _ => none

/-- The delimiter that a character closes. -/
def fromClose : Char → Option Delimiter
  | ')' => some .parenthesis
  | ']' => some .bracket
  | '}' => some .brace
  | _ => none

/-- The character that closes a delimiter. -/
def close : Delimiter → Char
  | .parenthesis => ')'
  | .bracket => ']'
  | .brace => '}'

end Delimiter

/-- The tokens of `.g` source. Numbers, texts and groups are kept in tables of their own, which a
token refers to by its index. -/
inductive TokenKind
  | name (text : List Char)
  | number (id : Nat)
  | invalidNumber (text : List Char)
  | text (id : Nat)
  | embedded (id : Nat)
  | symbol (text : List Char)
  | openGroup (group : Nat) (delimiter : Delimiter)
  | closeGroup (group : Nat) (delimiter : Delimiter)
  | lineStart (indentation : Nat)
  | unknown (scalar : Char)
deriving DecidableEq

/-- A token with its place in the source. -/
structure SpannedToken where
  kind : TokenKind
  span : ByteSpan
  leading : LeadingTrivia
deriving DecidableEq

/-- The bare character or embedded value that a token is, with its offset. -/
def SpannedToken.bare? (token : SpannedToken) : Option (Nat × Option Char) :=
  match token.kind with
  | .unknown c => some (token.span.start, some c)
  | .embedded _ => some (token.span.start, none)
  | _ => none

/-- A text literal, decoded. -/
structure LexedText where
  value : List Char
  span : ByteSpan
  multiline : Bool

/-- A pair of delimiters by its tokens, and the group around it. A group that the source never
closes has no closing token. -/
structure DelimiterGroup where
  delimiter : Delimiter
  openToken : Nat
  closeToken : Option Nat
  parent : Option Nat

/-- The tokens and the bytes of a top-level declaration. -/
structure DeclarationSection where
  tokenStart : Nat
  tokenEnd : Nat
  span : ByteSpan
  line : Nat

/-- How grave a diagnostic is. -/
inductive Severity
  | warn
  | error
deriving DecidableEq

/-- What the lexer reports of a line. -/
structure Diagnostic where
  severity : Severity
  line : Nat
  message : String
deriving DecidableEq

/-- What the lexer finds in a source. -/
structure LexedSource (N V : Type) where
  tokens : List SpannedToken
  numbers : List N
  texts : List LexedText
  embeddedValues : List V
  groups : List DelimiterGroup
  declarations : List DeclarationSection
  lineStarts : List Nat
  diagnostics : List Diagnostic
  hasErrors : Bool
  panicked : Bool

/-! ### The state of the lexer -/

/-- Where the declaration that is being read began. -/
structure OpenDeclaration where
  tokenStart : Nat
  byteStart : Nat
  line : Nat

/-- The lexer's state: its position, the layout of the line it is on, the groups that are open, and
the tables it has filled so far. -/
structure Lexer (N : Type) where
  index : Nat
  rest : List Char
  line : Nat
  lineStart : Nat
  indentation : Nat
  atLineStart : Bool
  emittedLineStart : Bool
  leading : LeadingTrivia
  newlineKinds : Nat
  lastInvalidWhitespaceLine : Option Nat
  tokens : List SpannedToken
  numbers : List N
  texts : List LexedText
  groups : List DelimiterGroup
  groupStack : List Nat
  declarations : List DeclarationSection
  openDeclaration : Option OpenDeclaration
  lineStarts : List Nat
  invalidWhitespaceDiagnostics : List Diagnostic
  structuralDiagnostics : List Diagnostic
  panicked : Bool

variable {N V : Type}

/-- The number of the line that a byte is on, from one. -/
def lineAt (lineStarts : List Nat) (byte : Nat) : Nat :=
  (lineStarts.takeWhile (· ≤ byte)).length

/-- Whether a character is white space to Unicode, as `char::is_whitespace` says. -/
def isWhitespace (c : Char) : Bool :=
  let n := c.toNat
  (9 ≤ n && n ≤ 13) || n = 0x20 || n = 0x85 || n = 0xa0 || n = 0x1680 || (0x2000 ≤ n && n ≤ 0x200a) ||
    n = 0x2028 || n = 0x2029 || n = 0x202f || n = 0x205f || n = 0x3000

/-- Whether a character ends a line. -/
def isNewline (c : Char) : Bool := c = '\r' || c = '\n'

namespace Lexer

/-- The lexer before a source. -/
def new (source : List Char) : Lexer N where
  index := 0
  rest := source
  line := 1
  lineStart := 0
  indentation := 0
  atLineStart := true
  emittedLineStart := false
  leading := .joint
  newlineKinds := 0
  lastInvalidWhitespaceLine := none
  tokens := []
  numbers := []
  texts := []
  groups := []
  groupStack := []
  declarations := []
  openDeclaration := none
  lineStarts := [0]
  invalidWhitespaceDiagnostics := []
  structuralDiagnostics := []
  panicked := false

variable (s : Lexer N)

/-- Passes over a part of what is left. -/
def pass (used rest : List Char) : Lexer N :=
  { s with index := s.index + bytes used, rest := rest }

/-- Passes one character. -/
def next (c : Char) (rest : List Char) : Lexer N := s.pass [c] rest

/-- Reports an error of the source's structure. -/
def structuralError (line : Nat) (message : String) : Lexer N :=
  { s with structuralDiagnostics := s.structuralDiagnostics ++ [⟨.error, line, message⟩] }

/-- Appends a token, with the trivia that led up to it. -/
def emit (kind : TokenKind) (start stop : Nat) : Lexer N :=
  { s with
    tokens := s.tokens ++ [⟨kind, ⟨start, stop⟩, s.leading⟩]
    leading := .joint }

/-- The code point in hexadecimal, with at least four digits. -/
def codePoint (c : Char) : String :=
  let digits := (Nat.toDigits 16 c.toNat).map Char.toUpper
  String.ofList (List.replicate (4 - digits.length) '0' ++ digits)

/-- Reports white space that is no space or line break, once for each line. -/
def recordInvalidWhitespace (c : Char) : Lexer N :=
  if s.lastInvalidWhitespaceLine = some s.line then s
  else
    { s with
      lastInvalidWhitespaceLine := some s.line
      invalidWhitespaceDiagnostics := s.invalidWhitespaceDiagnostics ++
        [⟨.error, s.line, "unsupported whitespace U+" ++ codePoint c ++
          "; .g source permits only SP, CR, and LF"⟩] }

/-- Records whitespace that is not a space. -/
def checkWhitespace (c : Char) : Lexer N :=
  if isWhitespace c && c ≠ ' ' then s.recordInvalidWhitespace c else s

/-- What follows a line break. -/
def breakLine (kind : Nat) (layout : Bool) : Lexer N :=
  let broken := { s with
    newlineKinds := s.newlineKinds ||| kind
    line := s.line + 1
    lineStart := s.index
    lineStarts := s.lineStarts ++ [s.index] }
  if layout then
    { broken with
      indentation := 0
      atLineStart := true
      emittedLineStart := false
      leading := .lineBreak }
  else broken

/-- Passes a line break: both of `\r\n`, a carriage return or a line feed. -/
def consumeNewline (layout : Bool) : Option (Lexer N) :=
  match s.rest with
  | '\r' :: '\n' :: rest => some ((s.pass ['\r', '\n'] rest).breakLine 2 layout)
  | '\r' :: rest => some ((s.next '\r' rest).breakLine 4 layout)
  | '\n' :: rest => some ((s.next '\n' rest).breakLine 1 layout)
  | _ => none

/-- Closes the declaration that is being read, with the tokens before `tokenEnd`. -/
def finishDeclaration (tokenEnd : Nat) : Lexer N :=
  match s.openDeclaration with
  | none => s
  | some opened =>
    match s.tokens[tokenEnd - 1]? with
    | none => { s with panicked := true }
    | some last =>
      { s with
        openDeclaration := none
        declarations := s.declarations ++
          [⟨opened.tokenStart, tokenEnd, ⟨opened.byteStart, last.span.stop⟩, opened.line⟩] }

/-- Emits the line's first token, if it has none yet. At no indentation and outside of any group,
that begins a declaration. -/
def ensureLineStart : Lexer N :=
  if s.emittedLineStart then s
  else
    let tokenStart := s.tokens.length
    let opened := if s.groupStack = [] ∧ s.indentation = 0 then
        { s.finishDeclaration tokenStart with
          openDeclaration := some ⟨tokenStart, s.lineStart, s.line⟩ }
      else s
    { opened.emit (.lineStart s.indentation) s.index s.index with
      leading := if s.indentation = 0 then .joint else .space
      atLineStart := false
      emittedLineStart := true }

/-! ### Comments and texts -/

/-- `consume_comment`. The list is what is left to read. -/
def consumeComment : List Char → Lexer N → Lexer N
  | [], s => s
  | c :: rest, s =>
    if isNewline c then s else consumeComment rest ((s.checkWhitespace c).next c rest)

/-- Appends a text literal and its token. -/
def emitText (value : List Char) (start stop : Nat) (multiline : Bool) : Lexer N :=
  { s.emit (.text s.texts.length) start stop with
    texts := s.texts ++ [⟨value, ⟨start, stop⟩, multiline⟩]
    atLineStart := false
    emittedLineStart := true }

/-- The loop of `consume_inline_text`: what it leaves, the value read, and whether it was closed. -/
def inlineText : List Char → List Char → Lexer N → Lexer N × List Char × Bool
  | [], value, s => (s, value, false)
  | '\r' :: '\n' :: rest, value, s =>
    inlineText rest (value ++ ['\n']) ((s.pass ['\r', '\n'] rest).breakLine 2 false)
  | c :: rest, value, s =>
    if c = '\r' then inlineText rest (value ++ ['\n']) ((s.next c rest).breakLine 4 false)
    else if c = '\n' then inlineText rest (value ++ ['\n']) ((s.next c rest).breakLine 1 false)
    else if c = '"' then (s.next c rest, value, true)
    else inlineText rest (value ++ [c]) ((s.checkWhitespace c).next c rest)

/-- `consume_inline_text`, at its opening quote. -/
def consumeInlineText (rest : List Char) : Lexer N :=
  let start := s.index
  let (read, value, closed) := inlineText rest [] (s.next '"' rest)
  let read := if closed then read
    else read.structuralError (lineAt read.lineStarts start) "unterminated text literal"
  read.emitText value start read.index false

/-- Passes the rest of a line. -/
def readLine : List Char → Lexer N → Lexer N
  | [], s => s
  | c :: rest, s => if isNewline c then s else readLine rest ((s.checkWhitespace c).next c rest)

/-- What a line of a multiline text adds to it. -/
inductive TextLine
  | closes (indentation : List Char)
  | content (line : List Char)
  | nothing
  | invalid (message : String)

/-- What a line of a multiline text says, after its indentation. -/
def textLine (line : List Char) : TextLine :=
  match line.dropWhile (· = ' ') with
  | '"' :: '"' :: '"' :: _ => .closes (line.takeWhile (· = ' '))
  | [] => .nothing
  | '#' :: _ => .nothing
  | ['"'] => .content []
  | '"' :: ' ' :: content => .content content
  | '"' :: _ => .invalid "multiline text content requires one separator space after `\"`"
  | _ => .invalid "multiline text content lines must begin with `\"`"

/-- Goes back to the end of the delimiter that closes a text, in the line that starts at `s`. -/
def passClosing (s line : Lexer N) (indentation : List Char) : Lexer N :=
  { line with
    index := s.index + bytes (indentation ++ ['"', '"', '"'])
    rest := s.rest.drop (indentation.length + 3) }

/-! ### Reading on -/

/-- What the lexer indexes is there. -/
structure Ok (s : Lexer N) : Prop where
  running : s.panicked = false
  opened : ∀ opened, s.openDeclaration = some opened → opened.tokenStart < s.tokens.length
  stack : ∀ id ∈ s.groupStack, ∃ group, s.groups[id]? = some group ∧
    group.openToken < s.tokens.length

/-- The bare characters found so far. -/
def bare (s : Lexer N) : List (Nat × Option Char) := s.tokens.filterMap SpannedToken.bare?

/-- **Reading on**: a part of the source is passed over, with no bare character found in it. -/
structure Reads (s s' : Lexer N) : Prop where
  used : ∃ used, s.rest = used ++ s'.rest ∧ s'.index = s.index + bytes used
  bare : s'.bare = s.bare
  ok : s.Ok → s'.Ok

theorem Reads.refl (s : Lexer N) : s.Reads s := ⟨⟨[], rfl, rfl⟩, rfl, id⟩

variable {s₁ s₂ s₃ : Lexer N} {indentation : List Char}

theorem Reads.trans (h : s₁.Reads s₂) (h' : s₂.Reads s₃) : s₁.Reads s₃ := by
  obtain ⟨used, hrest, hindex⟩ := h.used
  obtain ⟨used', hrest', hindex'⟩ := h'.used
  refine ⟨⟨used ++ used', ?_, ?_⟩, h'.bare.trans h.bare, h'.ok ∘ h.ok⟩
  · rw [hrest, hrest', List.append_assoc]
  · rw [hindex', hindex, bytes_append, Nat.add_assoc]

theorem Reads.length_le {s s' : Lexer N} (h : s.Reads s') : s'.rest.length ≤ s.rest.length := by
  obtain ⟨used, hrest, -⟩ := h.used
  simp [hrest]

/-- Reading on by at least a character. -/
structure Passes (s s' : Lexer N) : Prop extends s.Reads s' where
  length_lt : s'.rest.length < s.rest.length

theorem Passes.trans (h : s₁.Passes s₂) (h' : s₂.Reads s₃) : s₁.Passes s₃ :=
  ⟨h.toReads.trans h', Nat.lt_of_le_of_lt h'.length_le h.length_lt⟩

theorem Reads.passes (h : s₁.Reads s₂) (h' : s₂.Passes s₃) : s₁.Passes s₃ :=
  ⟨h.trans h'.toReads, Nat.lt_of_lt_of_le h'.length_lt h.length_le⟩

/-- The states differ in what is neither indexed nor read. -/
structure SameTokens (s s' : Lexer N) : Prop where
  tokens : s'.tokens = s.tokens
  panicked : s'.panicked = s.panicked
  openDeclaration : s'.openDeclaration = s.openDeclaration
  groups : s'.groups = s.groups
  groupStack : s'.groupStack = s.groupStack

variable {s s' : Lexer N} {c : Char} {rest : List Char}

theorem SameTokens.ok (h : s.SameTokens s') (hok : s.Ok) : s'.Ok where
  running := h.panicked ▸ hok.running
  opened := by
    rw [h.openDeclaration, h.tokens]
    exact hok.opened
  stack := by
    rw [h.groupStack, h.groups, h.tokens]
    exact hok.stack

theorem SameTokens.bare (h : s.SameTokens s') : s'.bare = s.bare := by
  unfold Lexer.bare
  rw [h.tokens]

theorem SameTokens.trans (h : s₁.SameTokens s₂) (h' : s₂.SameTokens s₃) : s₁.SameTokens s₃ :=
  ⟨h'.tokens.trans h.tokens, h'.panicked.trans h.panicked,
    h'.openDeclaration.trans h.openDeclaration, h'.groups.trans h.groups,
    h'.groupStack.trans h.groupStack⟩

theorem Reads.pass {used : List Char} (h : s.rest = used ++ rest) : s.Reads (s.pass used rest) where
  used := ⟨used, h, rfl⟩
  bare := rfl
  ok hok := ⟨hok.running, hok.opened, hok.stack⟩

theorem Passes.pass {used : List Char} (h : s.rest = used ++ rest) (hused : used ≠ []) :
    s.Passes (s.pass used rest) := by
  refine ⟨.pass h, ?_⟩
  rw [h, List.length_append]
  exact Nat.lt_add_of_pos_left (List.length_pos_iff.mpr hused)

theorem Passes.next (h : s.rest = c :: rest) : s.Passes (s.next c rest) :=
  .pass h (List.cons_ne_nil c [])

/-- The states differ in nothing that `Reads` is about. -/
theorem Reads.same (hrest : s'.rest = s.rest) (hindex : s'.index = s.index) (h : s.SameTokens s') :
    s.Reads s' :=
  ⟨⟨[], hrest.symm, hindex⟩, h.bare, h.ok⟩

theorem Reads.structuralError (s : Lexer N) (line : Nat) (message : String) :
    s.Reads (s.structuralError line message) :=
  .same rfl rfl ⟨rfl, rfl, rfl, rfl, rfl⟩

theorem Reads.checkWhitespace (s : Lexer N) (c : Char) : s.Reads (s.checkWhitespace c) := by
  unfold Lexer.checkWhitespace recordInvalidWhitespace
  split_ifs <;> exact .same rfl rfl ⟨rfl, rfl, rfl, rfl, rfl⟩

theorem rest_checkWhitespace (s : Lexer N) (c : Char) : (s.checkWhitespace c).rest = s.rest := by
  unfold Lexer.checkWhitespace recordInvalidWhitespace
  split_ifs <;> rfl

/-- A character that is whitespace at most. -/
theorem Passes.check_next (h : s.rest = c :: rest) :
    s.Passes ((s.checkWhitespace c).next c rest) :=
  (Reads.checkWhitespace s c).passes (.next (by rw [rest_checkWhitespace, h]))

theorem Reads.breakLine (s : Lexer N) (kind : Nat) (layout : Bool) :
    s.Reads (s.breakLine kind layout) := by
  unfold Lexer.breakLine
  cases layout <;> exact .same rfl rfl ⟨rfl, rfl, rfl, rfl, rfl⟩

theorem rest_breakLine (s : Lexer N) (kind : Nat) (layout : Bool) :
    (s.breakLine kind layout).rest = s.rest := by
  unfold Lexer.breakLine
  cases layout <;> rfl

theorem Passes.consumeNewline {layout : Bool} (h : s.consumeNewline layout = some s') :
    s.Passes s' := by
  unfold Lexer.consumeNewline at h
  split at h
  case h_1 rest hrest =>
    exact Option.some.inj h ▸ (Passes.pass hrest (by simp)).trans (.breakLine ..)
  case h_2 rest _ hrest => exact Option.some.inj h ▸ (Passes.next hrest).trans (.breakLine ..)
  case h_3 rest hrest => exact Option.some.inj h ▸ (Passes.next hrest).trans (.breakLine ..)
  case h_4 => cases h

theorem length_emit (s : Lexer N) (kind : TokenKind) (start stop : Nat) :
    s.tokens.length ≤ (s.emit kind start stop).tokens.length := by
  simp [Lexer.emit]

theorem Ok.emit (h : s.Ok) (kind : TokenKind) (start stop : Nat) : (s.emit kind start stop).Ok := by
  refine ⟨h.running, fun opened hopened => ?_, fun id hid => ?_⟩
  · exact Nat.lt_of_lt_of_le (h.opened opened hopened) (length_emit s kind start stop)
  · obtain ⟨group, hgroup, hlt⟩ := h.stack id hid
    exact ⟨group, hgroup, Nat.lt_of_lt_of_le hlt (length_emit s kind start stop)⟩

theorem Reads.emit (s : Lexer N) (kind : TokenKind) (start stop : Nat)
    (hkind : SpannedToken.bare? ⟨kind, ⟨start, stop⟩, s.leading⟩ = none) :
    s.Reads (s.emit kind start stop) where
  used := ⟨[], rfl, rfl⟩
  bare := by
    unfold Lexer.bare
    rw [Lexer.emit, List.filterMap_append, List.filterMap_cons_none hkind, List.filterMap_nil,
      List.append_nil]
  ok hok := hok.emit kind start stop

theorem Reads.consumeComment (h : s.rest = rest) : s.Reads (consumeComment rest s) := by
  induction rest generalizing s with
  | nil => exact .refl s
  | cons c rest ih =>
    unfold Lexer.consumeComment
    split_ifs
    · exact .refl s
    · exact (Passes.check_next h).toReads.trans (ih rfl)

theorem Reads.readLine (h : s.rest = rest) : s.Reads (readLine rest s) := by
  induction rest generalizing s with
  | nil => exact .refl s
  | cons c rest ih =>
    unfold Lexer.readLine
    split_ifs
    · exact .refl s
    · exact (Passes.check_next h).toReads.trans (ih rfl)

theorem Reads.inlineText {value : List Char} (h : s.rest = rest) :
    s.Reads (inlineText rest value s).1 := by
  fun_induction Lexer.inlineText rest value s with
  | case1 => exact .refl _
  | case2 value s rest ih =>
    exact ((Reads.pass h).trans (.breakLine ..)).trans (ih (rest_breakLine ..))
  | case3 value s rest hcr ih | case4 value s rest hcr hlf ih =>
    exact ((Passes.next h).trans (.breakLine ..)).toReads.trans (ih (rest_breakLine ..))
  | case5 => exact (Passes.next h).toReads
  | case6 value s c rest hcrlf hcr hlf hquote ih => exact (Passes.check_next h).toReads.trans (ih rfl)

theorem Reads.emitText (s : Lexer N) (value : List Char) (start stop : Nat) (multiline : Bool) :
    s.Reads (s.emitText value start stop multiline) :=
  (Reads.emit s (.text s.texts.length) start stop rfl).trans
    (.same rfl rfl ⟨rfl, rfl, rfl, rfl, rfl⟩)

theorem Passes.consumeInlineText (h : s.rest = '"' :: rest) :
    s.Passes (s.consumeInlineText rest) := by
  have hread : s.Passes (Lexer.inlineText rest [] (s.next '"' rest)).1 :=
    (Passes.next h).trans (Reads.inlineText rfl)
  unfold Lexer.consumeInlineText
  dsimp only
  refine Passes.trans ?_ (.emitText ..)
  split_ifs
  · exact hread
  · exact hread.trans (.structuralError ..)

/-! ### Multiline texts -/

/-- A line of a multiline text, read to its end: the lines so far, and what is wrong with it. -/
def addLine (s read : Lexer N) (lines : List (List Char)) : TextLine → Lexer N × List (List Char)
  | .content line => (read, lines ++ [line])
  | .invalid message => (read.structuralError (lineAt read.lineStarts s.index) message, lines)
  | .nothing | .closes _ => (read, lines)

theorem Reads.addLine (s read : Lexer N) (lines : List (List Char)) (line : TextLine) :
    read.Reads (addLine s read lines line).1 := by
  cases line with
  | invalid => exact .structuralError ..
  | closes | content | nothing => exact .refl read

theorem Reads.line (s : Lexer N) (lines : List (List Char)) (line : TextLine) :
    s.Reads (Lexer.addLine s (Lexer.readLine s.rest s) lines line).1 :=
  (Reads.readLine rfl).trans (.addLine ..)

/-- The loop of `consume_multiline_text`: what it leaves, the lines read, and whether the text was
closed. -/
def multilineText (s : Lexer N) (lines : List (List Char)) : Lexer N × List (List Char) × Bool :=
  if s.rest = [] then (s, lines, false)
  else
    match textLine (s.rest.takeWhile fun c => !isNewline c) with
    | .closes indentation => (s.passClosing (readLine s.rest s) indentation, lines, true)
    | line =>
      let added := addLine s (readLine s.rest s) lines line
      match _h : added.1.consumeNewline false with
      | none => (added.1, added.2, false)
      | some next => multilineText next added.2
termination_by s.rest.length
decreasing_by
  exact Nat.lt_of_lt_of_le (Passes.consumeNewline _h).length_lt (Reads.line s lines line).length_le

/-- Passes what follows the opening `"""`, which has to be nothing. -/
def consumeOpeningMultilineTail : Lexer N :=
  let spaces := s.rest.takeWhile (· = ' ')
  let tail := s.pass spaces (s.rest.dropWhile (· = ' '))
  if tail.rest = [] then tail
  else
    match tail.consumeNewline false with
    | some next => next
    | none =>
      tail.structuralError tail.line "multiline text opening delimiter must end its source line"

/-- Lines joined by line feeds. -/
def joinLines : List (List Char) → List Char
  | [] => []
  | [line] => line
  | line :: lines => line ++ '\n' :: joinLines lines

/-- `consume_multiline_text`, at its opening delimiter. -/
def consumeMultilineText (rest : List Char) : Lexer N :=
  let start := s.index
  let (read, lines, closed) :=
    multilineText (s.pass ['"', '"', '"'] rest).consumeOpeningMultilineTail []
  let read := if closed then read
    else read.structuralError (lineAt read.lineStarts start) "unterminated multiline text literal"
  read.emitText (joinLines lines) start read.index true

theorem textLine_closes {line : List Char} (h : textLine line = .closes indentation) :
    ∃ rest, line = indentation ++ '"' :: '"' :: '"' :: rest := by
  unfold textLine at h
  split at h <;> cases h
  case h_1 rest hrest => exact ⟨rest, by rw [← hrest, List.takeWhile_append_dropWhile]⟩

/-- A text is closed within the line that was read. -/
theorem Reads.passClosing
    (h : textLine (s.rest.takeWhile fun c => !isNewline c) = .closes indentation) :
    s.Reads (s.passClosing (Lexer.readLine s.rest s) indentation) := by
  obtain ⟨rest, hline⟩ := textLine_closes h
  have hread : s.Reads (Lexer.readLine s.rest s) := .readLine rfl
  refine ⟨⟨indentation ++ ['"', '"', '"'], ?_, rfl⟩, hread.bare, fun hok => ?_⟩
  · have hrest := s.rest.takeWhile_append_dropWhile (p := fun c => !isNewline c)
    rw [hline] at hrest
    rw [Lexer.passClosing, ← hrest]
    simp
  · exact ⟨(hread.ok hok).running, (hread.ok hok).opened, (hread.ok hok).stack⟩

theorem Reads.multilineText (s : Lexer N) (lines : List (List Char)) :
    s.Reads (multilineText s lines).1 := by
  fun_induction Lexer.multilineText s lines with
  | case1 s lines => exact .refl s
  | case2 s lines _ indentation h => exact .passClosing h
  | case3 => exact .line ..
  | case4 s lines _ _ added next h ih =>
    exact (Reads.line ..).trans ((Passes.consumeNewline h).toReads.trans ih)

theorem Reads.consumeOpeningMultilineTail (s : Lexer N) :
    s.Reads s.consumeOpeningMultilineTail := by
  have htail : s.Reads (s.pass (s.rest.takeWhile (· = ' ')) (s.rest.dropWhile (· = ' '))) :=
    .pass List.takeWhile_append_dropWhile.symm
  unfold Lexer.consumeOpeningMultilineTail
  dsimp only
  split_ifs
  · exact htail
  · split
    case h_1 next h => exact htail.trans (Passes.consumeNewline h).toReads
    case h_2 => exact htail.trans (.structuralError ..)

theorem Passes.consumeMultilineText (h : s.rest = ['"', '"', '"'] ++ rest) :
    s.Passes (s.consumeMultilineText rest) := by
  have hread := ((Passes.pass h (by simp)).trans (.consumeOpeningMultilineTail _)).trans
    (.multilineText _ [])
  unfold Lexer.consumeMultilineText
  dsimp only
  refine Passes.trans ?_ (.emitText ..)
  split_ifs
  · exact hread
  · exact hread.trans (.structuralError ..)

/-! ### Groups, numbers, names and symbols -/

/-- Opens a group within the innermost one that is open. -/
def consumeOpen (delimiter : Delimiter) (c : Char) (rest : List Char) : Lexer N :=
  let id := s.groups.length
  let emitted := (s.next c rest).emit (.openGroup id delimiter) s.index (s.index + c.utf8Size)
  { emitted with
    groups := s.groups ++ [⟨delimiter, s.tokens.length, none, s.groupStack.head?⟩]
    groupStack := id :: s.groupStack }

/-- `consume_close`. The innermost group is the head of the stack. -/
def consumeClose (delimiter : Delimiter) (c : Char) (rest : List Char) : Lexer N :=
  let stop := s.index + c.utf8Size
  let line := s.line
  let start := s.index
  let passed := s.next c rest
  match s.groupStack with
  | [] =>
    (passed.structuralError line ("unmatched closing delimiter `" ++ c.toString ++ "`")).emit
      (.symbol [c]) start stop
  | id :: stack =>
    match s.groups[id]? with
    | none => { passed with panicked := true }
    | some group =>
      if group.delimiter ≠ delimiter then
        (passed.structuralError line ("mismatched closing delimiter `" ++ c.toString ++
          "`; expected `" ++ group.delimiter.close.toString ++ "`")).emit (.symbol [c]) start stop
      else
        { passed.emit (.closeGroup id delimiter) start stop with
          groups := s.groups.set id { group with closeToken := some s.tokens.length }
          groupStack := stack }

/-- Whether a number begins here. One may begin with an underscore before a digit. -/
def isNumberStart (c : Char) (rest : List Char) : Bool :=
  c.isDigit || c = '_' && rest.head?.any Char.isDigit

/-- Whether a name begins here. -/
def isNameStart (c : Char) (rest : List Char) : Bool :=
  c.isAlpha || c = '_' && rest.head?.all fun next => !next.isDigit

/-- The characters that a number literal is read up to. -/
def isNumberPart (c : Char) : Bool :=
  c.isDigit || c ∈ ['_', '.', 'x', 'X', 'b', 'B', 'e', 'E', 'a', 'A', 'c', 'C', 'd', 'D', 'f', 'F']

/-- The characters that a symbol may begin with. -/
def isSymbol (c : Char) : Bool :=
  c ∈ ['.', ',', ';', ':', '?', '\'', '\\', '^', '=', '<', '>', '!', '|', '+', '-', '*', '/', '@']

/-- Reads a number. One that does not parse is reported, and its text kept. -/
def consumeNumber (parseNumber : List Char → Except String N) (s : Lexer N) : Lexer N :=
  let text := s.rest.takeWhile isNumberPart
  let passed := s.pass text (s.rest.dropWhile isNumberPart)
  match parseNumber text with
  | .ok number =>
    { passed.emit (.number s.numbers.length) s.index passed.index with
      numbers := s.numbers ++ [number] }
  | .error error =>
    (passed.structuralError s.line ("invalid number literal `" ++ String.ofList text ++ "`: " ++
      error)).emit (.invalidNumber text) s.index passed.index

/-- The characters that a name is read up to. -/
def isNamePart (c : Char) : Bool := c.isAlphanum || c = '_'

/-- Reads a name. -/
def consumeName (c : Char) (rest : List Char) : Lexer N :=
  let text := c :: rest.takeWhile isNamePart
  let passed := s.pass text (rest.dropWhile isNamePart)
  passed.emit (.name text) s.index passed.index

/-- The symbols of more than one character, the longer ones first. -/
def symbols : List (List Char) :=
  ["::=", ">>=", ">=>", "=>>", "=>?", ":=", "<-", "->", "=>", "!>", "<!", ">=", "==", "<>", "=<", ">>",
    "<<", "|>", "<|", "++"].map String.toList

/-- Reads the longest symbol that the source goes on with. -/
def consumeSymbol (c : Char) (rest : List Char) : Lexer N :=
  let text := (symbols.find? fun symbol => symbol.isPrefixOf (c :: rest)).getD [c]
  let passed := s.pass text ((c :: rest).drop text.length)
  passed.emit (.symbol text) s.index passed.index

/-- An opening delimiter passes one character. -/
theorem Passes.consumeOpen (delimiter : Delimiter) (h : s.rest = c :: rest) :
    s.Passes (s.consumeOpen delimiter c rest) := by
  have hemit : s.Passes ((s.next c rest).emit (.openGroup s.groups.length delimiter) s.index
      (s.index + c.utf8Size)) :=
    (Passes.next h).trans (.emit _ _ _ _ rfl)
  refine ⟨⟨hemit.used, hemit.bare, fun hok => ?_⟩, hemit.length_lt⟩
  have hok' := hemit.ok hok
  refine ⟨hok'.running, hok'.opened, fun id hid => ?_⟩
  obtain rfl | hid := List.mem_cons.mp hid
  · exact ⟨⟨delimiter, s.tokens.length, none, s.groupStack.head?⟩, List.getElem?_concat_length,
      by simp [Lexer.consumeOpen, Lexer.emit, Lexer.next, Lexer.pass]⟩
  · obtain ⟨group, hgroup, hlt⟩ := hok'.stack id hid
    refine ⟨group, ?_, hlt⟩
    have hbound : id < s.groups.length := (List.getElem?_eq_some_iff.mp hgroup).1
    exact (List.getElem?_append_left hbound).trans hgroup

/-- A closing delimiter passes one character. -/
theorem Passes.consumeClose (delimiter : Delimiter) (h : s.rest = c :: rest) :
    s.Passes (s.consumeClose delimiter c rest) := by
  have hnext : s.Passes (s.next c rest) := .next h
  unfold Lexer.consumeClose
  dsimp only
  split
  case h_1 => exact hnext.trans ((Reads.structuralError ..).trans (.emit _ _ _ _ rfl))
  case h_2 id stack hstack =>
    split
    case h_1 hnone =>
      refine ⟨⟨hnext.used, hnext.bare, fun hok => ?_⟩, hnext.length_lt⟩
      obtain ⟨group, hgroup, -⟩ := hok.stack id (by simp [hstack])
      rw [hnone] at hgroup
      cases hgroup
    case h_2 group hgroup =>
      split_ifs
      · exact hnext.trans ((Reads.structuralError ..).trans (.emit _ _ _ _ rfl))
      · have hemit : s.Passes ((s.next c rest).emit (.closeGroup id delimiter) s.index
            (s.index + c.utf8Size)) := hnext.trans (.emit _ _ _ _ rfl)
        refine ⟨⟨hemit.used, hemit.bare, fun hok => ?_⟩, hemit.length_lt⟩
        have hok' := hemit.ok hok
        refine ⟨hok'.running, hok'.opened, fun other hother => ?_⟩
        have hmem : other ∈ s.groupStack := by
          rw [hstack]
          exact List.mem_cons_of_mem id hother
        obtain ⟨found, hfound, hlt⟩ := hok'.stack other hmem
        by_cases hid : other = id
        · subst hid
          refine ⟨{ group with closeToken := some s.tokens.length }, ?_, ?_⟩
          · exact List.getElem?_set_self (List.getElem?_eq_some_iff.mp hgroup).1
          · rw [← Option.some.inj (hgroup.symm.trans hfound)] at hlt
            exact hlt
        · exact ⟨found, (List.getElem?_set_ne (Ne.symm hid)).trans hfound, hlt⟩

theorem isNumberPart_of_start (h : isNumberStart c rest = true) : isNumberPart c = true := by
  unfold isNumberStart at h
  unfold isNumberPart
  obtain hdigit | hline := Bool.or_eq_true_iff.mp h
  · rw [hdigit, Bool.true_or]
  · rw [of_decide_eq_true (Bool.and_eq_true_iff.mp hline).1]
    rfl

/-- A number passes its characters, at least one. -/
theorem Passes.consumeNumber (parseNumber : List Char → Except String N) (h : s.rest = c :: rest)
    (hstart : isNumberStart c rest = true) : s.Passes (s.consumeNumber parseNumber) := by
  have hpass : s.Passes (s.pass (s.rest.takeWhile isNumberPart) (s.rest.dropWhile isNumberPart)) := by
    refine .pass List.takeWhile_append_dropWhile.symm ?_
    rw [h, List.takeWhile_cons_of_pos (isNumberPart_of_start hstart)]
    exact List.cons_ne_nil _ _
  unfold Lexer.consumeNumber
  dsimp only
  split
  · have hemit := hpass.trans (.emit _ (.number s.numbers.length) s.index
      (s.pass (s.rest.takeWhile isNumberPart) (s.rest.dropWhile isNumberPart)).index rfl)
    exact hemit.trans (.same rfl rfl ⟨rfl, rfl, rfl, rfl, rfl⟩)
  · exact hpass.trans ((Reads.structuralError ..).trans (.emit _ _ _ _ rfl))

theorem Passes.consumeName (h : s.rest = c :: rest) : s.Passes (s.consumeName c rest) := by
  refine (Passes.pass ?_ (List.cons_ne_nil _ _)).trans (.emit _ _ _ _ rfl)
  rw [h, List.cons_append, List.takeWhile_append_dropWhile]

theorem symbols_ne_nil : ∀ symbol ∈ symbols, symbol ≠ [] := by
  decide

/-- A symbol passes its characters, at least one. -/
theorem Passes.consumeSymbol (h : s.rest = c :: rest) : s.Passes (s.consumeSymbol c rest) := by
  refine Passes.trans (Passes.pass ?_ ?_) (.emit _ _ _ _ rfl)
  · rw [h]
    cases hfind : symbols.find? fun symbol => symbol.isPrefixOf (c :: rest) with
    | none => rfl
    | some symbol =>
      have hstart : symbol.isPrefixOf (c :: rest) = true :=
        List.find?_some (p := fun symbol : List Char => symbol.isPrefixOf (c :: rest)) hfind
      obtain ⟨rest', hrest'⟩ := List.isPrefixOf_iff_prefix.mp hstart
      simp [← hrest']
  · cases hfind : symbols.find? fun symbol => symbol.isPrefixOf (c :: rest) with
    | none => exact List.cons_ne_nil c []
    | some symbol => exact symbols_ne_nil symbol (List.mem_of_find?_eq_some hfind)

/-! ### The loop -/

variable (parseNumber : List Char → Except String N)

/-- A token that is neither a text nor a delimiter. -/
def word (c : Char) (rest : List Char) : Lexer N :=
  if isNumberStart c rest then s.consumeNumber parseNumber
  else if isNameStart c rest then s.consumeName c rest
  else if isSymbol c then s.consumeSymbol c rest
  else (s.next c rest).emit (.unknown c) s.index (s.index + c.utf8Size)

/-- A token starts at the first character. -/
def token (c : Char) (rest : List Char) : Lexer N :=
  match c, rest with
  | '"', '"' :: '"' :: rest => s.consumeMultilineText rest
  | c, rest =>
    if c = '"' then s.consumeInlineText rest
    else
      match Delimiter.fromOpen c, Delimiter.fromClose c with
      | some delimiter, _ => s.consumeOpen delimiter c rest
      | none, some delimiter => s.consumeClose delimiter c rest
      | none, none => s.word parseNumber c rest

/-- One turn of the lexer's loop. -/
def step : Lexer N :=
  match s.consumeNewline true with
  | some next => next
  | none =>
    match s.rest with
    | [] => s
    | c :: rest =>
      if c = ' ' then
        (if s.atLineStart then { s with indentation := s.indentation + 1 }
          else { s with leading := .space }).next c rest
      else if isWhitespace c then
        { s.recordInvalidWhitespace c with leading := .space }.next c rest
      else if c = '#' then consumeComment s.rest s
      else s.ensureLineStart.token parseNumber c rest

/-- Ending a declaration reads no character. -/
theorem Reads.finishDeclaration (s : Lexer N) :
    s.Reads (s.finishDeclaration s.tokens.length) := by
  unfold Lexer.finishDeclaration
  split
  · exact .refl s
  case h_2 opened hopened =>
    split
    case h_1 hnone =>
      refine ⟨⟨[], rfl, rfl⟩, rfl, fun hok => ?_⟩
      have hlt := hok.opened opened hopened
      rw [List.getElem?_eq_none_iff] at hnone
      omega
    case h_2 last hlast =>
      exact ⟨⟨[], rfl, rfl⟩, rfl, fun hok =>
        ⟨hok.running, nofun, hok.stack⟩⟩

theorem tokens_finishDeclaration (s : Lexer N) (tokenEnd : Nat) :
    (s.finishDeclaration tokenEnd).tokens = s.tokens := by
  unfold Lexer.finishDeclaration
  split
  · rfl
  · split <;> rfl

/-- A line starts, and with it perhaps a declaration. -/
theorem Reads.ensureLineStart (s : Lexer N) : s.Reads s.ensureLineStart := by
  unfold Lexer.ensureLineStart
  dsimp only
  by_cases hemitted : s.emittedLineStart = true
  · rw [if_pos hemitted]
    exact .refl s
  · rw [if_neg hemitted]
    by_cases hdeclaration : s.groupStack = [] ∧ s.indentation = 0
    · rw [if_pos hdeclaration]
      have hline := (Reads.finishDeclaration s).trans
        (.emit _ (.lineStart s.indentation) s.index s.index rfl)
      refine ⟨hline.used, hline.bare, fun hok => ?_⟩
      have hok' := hline.ok hok
      refine ⟨hok'.running, fun opened hopened => ?_, hok'.stack⟩
      rw [← Option.some.inj hopened]
      simp [Lexer.emit, tokens_finishDeclaration]
    · rw [if_neg hdeclaration]
      exact (Reads.emit s (.lineStart s.indentation) s.index s.index rfl).trans
        (.same rfl rfl ⟨rfl, rfl, rfl, rfl, rfl⟩)

/-- **What an iteration does**: it passes over a part of the source, and finds at most one bare
character, at its start. -/
structure Scans (s s' : Lexer N) : Prop where
  used : ∃ used, used ≠ [] ∧ s.rest = used ++ s'.rest ∧ s'.index = s.index + bytes used ∧
    (s'.bare = s.bare ∨
      ∃ c, used = [c] ∧ s'.bare = s.bare ++ [(s.index, some c)])
  ok : s.Ok → s'.Ok

theorem Passes.scans (h : s.Passes s') : s.Scans s' := by
  obtain ⟨used, hrest, hindex⟩ := h.used
  refine ⟨⟨used, ?_, hrest, hindex, .inl h.bare⟩, h.ok⟩
  rintro rfl
  exact absurd h.length_lt (by rw [hrest]; exact Nat.lt_irrefl _)

theorem Reads.scans (h : s₁.Reads s₂) (hrest : s₂.rest = s₁.rest) (h' : s₂.Scans s₃) :
    s₁.Scans s₃ := by
  obtain ⟨used, hsame, hindex⟩ := h.used
  have hnil : used = [] := by
    rw [hrest] at hsame
    exact List.self_eq_append_left.mp hsame
  subst hnil
  obtain ⟨used', hne, hused', hindex', hbare⟩ := h'.used
  refine ⟨⟨used', hne, hrest ▸ hused', by rw [hindex', hindex]; rfl, ?_⟩, h'.ok ∘ h.ok⟩
  rwa [h.bare, show s₂.index = s₁.index from hindex] at hbare

/-- A character passed over as layout. -/
theorem Scans.of_same (h : s.SameTokens s') (hrest : s.rest = c :: rest) (hsame : s'.rest = s.rest)
    (hindex : s'.index = s.index) : s.Scans (s'.next c rest) :=
  ((Reads.same hsame hindex h).passes (.next (hsame.trans hrest))).scans

theorem Scans.unknown (h : s.rest = c :: rest) :
    s.Scans ((s.next c rest).emit (.unknown c) s.index (s.index + c.utf8Size)) where
  used := by
    refine ⟨[c], List.cons_ne_nil c [], h, rfl, .inr ⟨c, rfl, ?_⟩⟩
    simp [Lexer.bare, Lexer.emit, Lexer.next, Lexer.pass, SpannedToken.bare?]
  ok hok := ((Passes.next h).ok hok).emit ..

theorem Scans.word (h : s.rest = c :: rest) : s.Scans (s.word parseNumber c rest) := by
  unfold Lexer.word
  split_ifs with hnumber
  · exact (Passes.consumeNumber parseNumber h hnumber).scans
  · exact (Passes.consumeName h).scans
  · exact (Passes.consumeSymbol h).scans
  · exact .unknown h

theorem Scans.token (h : s.rest = c :: rest) : s.Scans (s.token parseNumber c rest) := by
  unfold Lexer.token
  split
  · exact (Passes.consumeMultilineText h).scans
  · split_ifs with hquote
    · subst hquote
      exact (Passes.consumeInlineText h).scans
    · split
      · exact (Passes.consumeOpen _ h).scans
      · exact (Passes.consumeClose _ h).scans
      · exact .word parseNumber h

/-- The first token of a line passes no character. -/
theorem rest_ensureLineStart (s : Lexer N) : s.ensureLineStart.rest = s.rest := by
  have hfinish : (s.finishDeclaration s.tokens.length).rest = s.rest := by
    unfold Lexer.finishDeclaration
    split
    · rfl
    · split <;> rfl
  unfold Lexer.ensureLineStart Lexer.emit
  dsimp only
  split_ifs
  · rfl
  · exact hfinish
  · exact hfinish
  all_goals rfl

/-- Each turn of the loop passes at least one character, so that it ends. -/
theorem Scans.step (h : s.rest ≠ []) : s.Scans (s.step parseNumber) := by
  unfold Lexer.step
  split
  case h_1 next hnewline => exact (Passes.consumeNewline hnewline).scans
  case h_2 =>
    split
    case h_1 hnil => exact absurd hnil h
    case h_2 c rest hrest =>
      split_ifs with hspace hstart hwhite hcomment
      · exact .of_same ⟨rfl, rfl, rfl, rfl, rfl⟩ hrest rfl rfl
      · exact .of_same ⟨rfl, rfl, rfl, rfl, rfl⟩ hrest rfl rfl
      · have hrecord : s.SameTokens { s.recordInvalidWhitespace c with leading := .space } ∧
            (s.recordInvalidWhitespace c).rest = s.rest ∧
            (s.recordInvalidWhitespace c).index = s.index := by
          unfold recordInvalidWhitespace
          split_ifs <;> exact ⟨⟨rfl, rfl, rfl, rfl, rfl⟩, rfl, rfl⟩
        exact .of_same hrecord.1 hrest hrecord.2.1 hrecord.2.2
      · rw [hrest]
        unfold Lexer.consumeComment
        rw [if_neg (by simp [hcomment, isNewline])]
        exact ((Passes.check_next hrest).trans (.consumeComment rfl)).scans
      · exact (Reads.ensureLineStart s).scans (rest_ensureLineStart s)
          (.token parseNumber ((rest_ensureLineStart s).trans hrest))

theorem Scans.length_lt (h : s.Scans s') : s'.rest.length < s.rest.length := by
  obtain ⟨used, hne, hrest, -⟩ := h.used
  rw [hrest, List.length_append]
  exact Nat.lt_add_of_pos_left (List.length_pos_iff.mpr hne)

/-- The lexer's loop, up to the source's end. -/
def loop (s : Lexer N) : Lexer N :=
  if _h : s.rest = [] then s else loop (s.step parseNumber)
termination_by s.rest.length
decreasing_by exact (Scans.step parseNumber _h).length_lt

/-- Reports a group that is left open at the end, in state `s`. -/
def reportUnclosed (s reported : Lexer N) (id : Nat) : Lexer N :=
  match s.groups[id]? with
  | none => { reported with panicked := true }
  | some group =>
    match s.tokens[group.openToken]? with
    | none => { reported with panicked := true }
    | some token => reported.structuralError (lineAt s.lineStarts token.span.start)
        ("unclosed delimiter; expected `" ++ group.delimiter.close.toString ++ "`")

/-- The groups that are left open, the innermost first. -/
def unclosed : Lexer N := s.groupStack.foldl s.reportUnclosed s

end Lexer

/-- Diagnostics by line, in the order they were made within one. -/
def sortByLine (diagnostics : List Diagnostic) : List Diagnostic :=
  diagnostics.mergeSort fun first second => decide (first.line ≤ second.line)

/-- **`lex_source`.** -/
def lexSource (V : Type) (parseNumber : List Char → Except String N) (source : List Char) :
    LexedSource N V :=
  let read := (Lexer.new source).loop parseNumber
  let finished := (read.finishDeclaration read.tokens.length).unclosed
  let errors := finished.invalidWhitespaceDiagnostics ++ finished.structuralDiagnostics
  let mixed := finished.newlineKinds ∉ [0, 1, 2, 4]
  { tokens := finished.tokens
    numbers := finished.numbers
    texts := finished.texts
    embeddedValues := []
    groups := finished.groups
    declarations := finished.declarations
    lineStarts := finished.lineStarts
    diagnostics := sortByLine
      ((if mixed then [⟨.warn, 1, "source uses inconsistent line endings"⟩] else []) ++ errors)
    hasErrors := !errors.isEmpty
    panicked := finished.panicked }

/-! ### The bare characters of a source -/

/-- The characters of a text with their offsets, from a given one on. -/
def charOffsets (start : Nat) : List Char → List (Nat × Option Char)
  | [] => []
  | c :: rest => (start, some c) :: charOffsets (start + c.utf8Size) rest

theorem charOffsets_append (start : Nat) (text text' : List Char) :
    charOffsets start (text ++ text') =
      charOffsets start text ++ charOffsets (start + bytes text) text' := by
  induction text generalizing start with
  | nil => rfl
  | cons c text ih => simp [charOffsets, ih, Nat.add_assoc]

namespace Lexer

variable {s s' : Lexer N}

theorem Scans.found (h : s.Scans s') : ∃ used found, s.rest = used ++ s'.rest ∧
    s'.index = s.index + bytes used ∧ s'.bare = s.bare ++ found ∧
    found.Sublist (charOffsets s.index used) := by
  obtain ⟨used, -, hrest, hindex, hsame | ⟨c, rfl, hfound⟩⟩ := h.used
  · exact ⟨used, [], hrest, hindex, by rw [hsame, List.append_nil], List.nil_sublist _⟩
  · exact ⟨[c], [(s.index, some c)], hrest, hindex, hfound, List.Sublist.refl _⟩

/-- **The bare characters are characters of the source**, in order. -/
theorem loop_found (parseNumber : List Char → Except String N) (s : Lexer N) :
    (∃ found, (s.loop parseNumber).bare = s.bare ++ found ∧
      found.Sublist (charOffsets s.index s.rest)) ∧ (s.Ok → (s.loop parseNumber).Ok) := by
  fun_induction Lexer.loop parseNumber s with
  | case1 => exact ⟨⟨[], (List.append_nil _).symm, List.nil_sublist _⟩, id⟩
  | case2 s hrest ih =>
    have hscans := Scans.step parseNumber hrest
    obtain ⟨used, found, hused, hindex, hbare, hsub⟩ := hscans.found
    obtain ⟨⟨later, hlater, hsub'⟩, hok⟩ := ih
    refine ⟨⟨found ++ later, ?_, ?_⟩, hok ∘ hscans.ok⟩
    · rw [hlater, hbare, List.append_assoc]
    · rw [hused, charOffsets_append, ← hindex]
      exact hsub.append hsub'

theorem Ok.new (source : List Char) : (Lexer.new source : Lexer N).Ok :=
  ⟨rfl, nofun, nofun⟩

theorem Ok.reportUnclosed {reported : Lexer N} {id : Nat} (hok : s.Ok) (hid : id ∈ s.groupStack)
    (h : reported.tokens = s.tokens ∧ reported.panicked = false) :
    (s.reportUnclosed reported id).tokens = s.tokens ∧
      (s.reportUnclosed reported id).panicked = false := by
  obtain ⟨group, hgroup, hlt⟩ := hok.stack id hid
  unfold Lexer.reportUnclosed
  rw [hgroup]
  dsimp only
  rw [List.getElem?_eq_getElem hlt]
  exact h

theorem Ok.unclosed (hok : s.Ok) : s.unclosed.tokens = s.tokens ∧ s.unclosed.panicked = false :=
  List.foldlRecOn (motive := fun reported => reported.tokens = s.tokens ∧ reported.panicked = false)
    s.groupStack s.reportUnclosed ⟨rfl, hok.running⟩ fun _ h _ hid => hok.reportUnclosed hid h

end Lexer

/-- Lexing never panics, and characters are in their order. -/
theorem lexSource_spec (parseNumber : List Char → Except String N) (source : List Char) :
    ((lexSource V parseNumber source).tokens.filterMap SpannedToken.bare?).Sublist
        (charOffsets 0 source) ∧
      (lexSource V parseNumber source).panicked = false := by
  obtain ⟨⟨found, hfound, hsub⟩, hok⟩ := Lexer.loop_found parseNumber (Lexer.new source)
  have hread := hok (.new source)
  have hfinished := (Lexer.Reads.finishDeclaration ((Lexer.new source).loop parseNumber)).ok hread
  obtain ⟨htokens, hpanicked⟩ := hfinished.unclosed
  refine ⟨?_, hpanicked⟩
  rw [lexSource, htokens, Lexer.tokens_finishDeclaration]
  rw [show Lexer.bare (Lexer.new source : Lexer N) = [] from rfl, List.nil_append] at hfound
  rw [← hfound] at hsub
  exact hsub

/-! ### Embedded values -/

/-- The loop of `replace_unknowns_with_embedded`, with the values embedded so far. -/
def replaceMarkers (marker : Char) : List SpannedToken → List V → List V →
    Except String (List SpannedToken × List V)
  | [], embedded, values =>
    if values.isEmpty then .ok ([], embedded)
    else .error "generated source lost an embedded macro value"
  | token :: tokens, embedded, values =>
    if token.kind = .unknown marker then
      match values with
      | [] => .error "generated source contained an unexpected embedded marker"
      | value :: values =>
        (replaceMarkers marker tokens (embedded ++ [value]) values).map fun replaced =>
          ({ token with kind := .embedded embedded.length } :: replaced.1, replaced.2)
    else
      (replaceMarkers marker tokens embedded values).map fun replaced =>
        (token :: replaced.1, replaced.2)

/-- **`replace_unknowns_with_embedded`.** -/
def LexedSource.replaceUnknownsWithEmbedded (lexed : LexedSource N V) (marker : Char)
    (values : List V) : Except String (LexedSource N V) :=
  (replaceMarkers marker lexed.tokens lexed.embeddedValues values).map fun replaced =>
    { lexed with tokens := replaced.1, embeddedValues := replaced.2 }

/-- The value that a token stands for, with its offset. -/
def SpannedToken.value? (embedded : List V) (token : SpannedToken) : Option (Nat × V) :=
  match token.kind with
  | .embedded id => embedded[id]?.map fun value => (token.span.start, value)
  | _ => none

/-- The embedded values of a source, each with the offset of its token. -/
def LexedSource.embeddedTokens (lexed : LexedSource N V) : List (Nat × V) :=
  lexed.tokens.filterMap (SpannedToken.value? lexed.embeddedValues)

/-- The offset of the marker that a token is. -/
def markerOffset? (marker : Char) (token : SpannedToken) : Option Nat :=
  if token.kind = .unknown marker then some token.span.start else none

theorem exists_of_map_ok {α β ε : Type} {result : Except ε α} {f : α → β} {b : β}
    (h : result.map f = .ok b) : ∃ a, result = .ok a ∧ f a = b := by
  cases result with
  | error => cases h
  | ok a => exact ⟨a, rfl, Except.ok.inj h⟩

/-- **The n-th marker gets the n-th value.** -/
theorem replaceMarkers_spec {marker : Char} {tokens replaced : List SpannedToken}
    {embedded values all : List V}
    (hplain : ∀ token ∈ tokens, ∀ id, token.kind ≠ .embedded id)
    (h : replaceMarkers marker tokens embedded values = .ok (replaced, all)) :
    all = embedded ++ values ∧
      replaced.filterMap (SpannedToken.value? all) =
        (tokens.filterMap (markerOffset? marker)).zip values ∧
      (tokens.filterMap (markerOffset? marker)).length = values.length := by
  induction tokens generalizing embedded values replaced with
  | nil =>
    unfold replaceMarkers at h
    split_ifs at h with hempty
    obtain rfl := List.isEmpty_iff.mp hempty
    cases h
    exact ⟨(List.append_nil _).symm, rfl, rfl⟩
  | cons token tokens ih =>
    have hrest : ∀ token ∈ tokens, ∀ id, token.kind ≠ .embedded id :=
      fun other hother => hplain other (List.mem_cons_of_mem token hother)
    unfold replaceMarkers at h
    by_cases hmarker : token.kind = .unknown marker
    · rw [if_pos hmarker] at h
      cases values with
      | nil => cases h
      | cons value values =>
        obtain ⟨⟨replaced', all'⟩, hreplaced, heq⟩ := exists_of_map_ok h
        cases heq
        obtain ⟨rfl, hvalues, hlength⟩ := ih hrest hreplaced
        refine ⟨by simp, ?_, ?_⟩
        · rw [List.filterMap_cons_some (b := token.span.start) (by simp [markerOffset?, hmarker]),
            List.zip_cons_cons, List.filterMap_cons_some (b := (token.span.start, value))
              (by simp [SpannedToken.value?]), hvalues]
        · rw [List.filterMap_cons_some (b := token.span.start) (by simp [markerOffset?, hmarker]),
            List.length_cons, hlength, List.length_cons]
    · rw [if_neg hmarker] at h
      obtain ⟨⟨replaced', all'⟩, hreplaced, heq⟩ := exists_of_map_ok h
      cases heq
      obtain ⟨hall, hvalues, hlength⟩ := ih hrest hreplaced
      have hnone : markerOffset? marker token = none := by simp [markerOffset?, hmarker]
      -- no token of the text refers to a value before the markers are replaced
      have hplain' : SpannedToken.value? all' token = none := by
        unfold SpannedToken.value?
        split
        case h_1 id hid => exact absurd hid (hplain token (.head _) id)
        case h_2 => rfl
      rw [List.filterMap_cons_none hnone, List.filterMap_cons_none hplain']
      exact ⟨hall, hvalues, hlength⟩

end Glam.Syntax
