import Glam.Syntax.Lexical

/-!
# Expanding the macros of a declaration

The rewriting of one declaration by its macros (`g_syntax/parser/logical.rs` and the loop of
`expand_macro_declaration`). The text of the declaration is rewritten invocation by invocation.
Before each one the text is lexed anew and the invocation found in it again; the macro then runs,
and what it wrote replaces the invocation and what it read. A value that a macro writes is a marker
character in the text, and the values themselves are kept beside the text, in the order of their
markers.

What a macro reads and writes is arbitrary (`Macros`), but for the check that every text it writes
has passed. Where an invocation stands in its logical item is a parameter, since the layout decides
it. A failed run ends the expansion with the diagnostics of the macro, which are not modelled. -/

namespace Glam.Syntax

/-- The character that stands for an embedded value in generated text. -/
def embeddedMarker : Char := '\x1a'

/-- A result that may be diagnostics instead, or a panic. -/
inductive Outcome (α : Type)
  | panicked
  | rejected (diagnostics : List Diagnostic)
  | done (result : α)
deriving DecidableEq

/-- An error on a line. -/
def Diagnostic.error (line : Nat) (message : String) : Diagnostic := ⟨.error, line, message⟩

/-! ### What macros write -/

/-- `validate_written_text`. -/
def validWrittenText (text : List Char) : Bool :=
  text.all fun c => 0x20 < c.toNat && c.toNat ≠ 0x7f && c ≠ '@' && c ≠ '#'

/-- A text that a macro was allowed to write. -/
structure WrittenText where
  text : List Char
  valid : validWrittenText text = true

/-- What a macro writes. -/
inductive MacroOutput (V : Type)
  | text (written : WrittenText)
  | data (value : V)
  | separator
  | layoutStart
  | layoutEnd
  | anchor

variable {N V : Type}

/-- Whether output begins with an anchor, so that it has to stand at the start of a logical item. -/
def isAnchorExpansion : List (MacroOutput V) → Bool
  | .anchor :: _ => true
  | _ => false

/-- The state of `generated_output`. -/
structure Output (V : Type) where
  generated : List Char
  embedded : List V
  indentation : List Nat
  firstRootAnchor : Bool
  resumeParent : Bool

namespace Output

/-- A new line at the indentation of the innermost layout, the head of the stack. -/
def newLine (s : Output V) : List Char := '\n' :: List.replicate (s.indentation.head?.getD 0) ' '

/-- `resume_output_parent`. -/
def resume (s : Output V) : Output V :=
  if s.resumeParent then { s with generated := s.generated ++ s.newLine, resumeParent := false } else s

/-- Appends text. -/
def push (s : Output V) (text : List Char) : Output V := { s with generated := s.generated ++ text }

/-- Writes one output, on a line of its own after a layout. -/
def write (s : Output V) : MacroOutput V → Output V
  | .text written => s.resume.push written.text
  | .data value =>
    { s.resume.push [embeddedMarker] with embedded := s.embedded ++ [value] }
  | .separator => s.resume.push [' ']
  | .layoutStart =>
    { s with indentation := (s.indentation.head?.getD 0 + 2) :: s.indentation, resumeParent := false }
  | .layoutEnd => { s with indentation := s.indentation.tail, resumeParent := true }
  | .anchor =>
    let s := { s with resumeParent := false }
    if s.indentation.length = 1 ∧ s.firstRootAnchor then { s with firstRootAnchor := false }
    else s.push s.newLine

end Output

variable (parseNumber : List Char → Except String N)

/-- Checks text that a macro writes. -/
def validateGeneratedText (text : List Char) : Outcome Unit :=
  if '@' ∈ text ∨ '#' ∈ text then
    .rejected [.error 1 "generated macro text cannot contain `@` or `#`"]
  else
    let lexical := lexSource V parseNumber text
    if lexical.panicked then .panicked
    else if lexical.hasErrors then .rejected lexical.diagnostics
    else .done ()

/-- **`generated_output`.** -/
def generatedOutput (output : List (MacroOutput V)) (line rootIndentation : Nat) :
    Outcome (List Char × List V) :=
  let written := output.foldl Output.write ⟨[], [], [rootIndentation], true, false⟩
  match validateGeneratedText (V := V) parseNumber written.generated with
  | .panicked => .panicked
  | .rejected diagnostics =>
    .rejected (diagnostics.map fun d => { d with line := d.line + (line - 1) })
  | .done () => .done (written.generated, written.embedded)

/-! ### Finding an invocation -/

/-- A macro invocation as the source has it. -/
structure OriginalMacroInvocation where
  id : Nat
  path : List (List Char)
  start : Nat
  line : Nat

/-- A macro invocation in the text at hand. -/
structure MacroInvocation where
  path : List (List Char)
  start : Nat
  anchorPosition : Bool
  indentation : Nat
deriving DecidableEq

/-- The components of a macro's path after the first, if each follows its dot at once. -/
def macroPathTail : List SpannedToken → Option (List (List Char))
  | [] => some []
  | [dot] => if dot.kind = .symbol ['.'] ∧ dot.leading = .joint then none else some []
  | dot :: component :: rest =>
    if dot.kind = .symbol ['.'] ∧ dot.leading = .joint then
      if component.leading = .joint then
        match component.kind with
        | .name name => (macroPathTail rest).map (name :: ·)
        | _ => none
      else none
    else some []

/-- The path of a macro, after its `@`. -/
def macroPath : List SpannedToken → Option (List (List Char))
  | [] => none
  | first :: rest =>
    if first.leading = .joint then
      match first.kind with
      | .name name => (macroPathTail rest).map (name :: ·)
      | _ => none
    else none

/-- The anchor position and the indentation of the logical item of an invocation. -/
abbrev LogicalItem (N V : Type) := LexedSource N V → DeclarationSection → Nat → Bool × Nat

/-- `macro_invocation_at`: the invocation, or what is wrong with it. -/
def macroInvocationAt (logicalItem : LogicalItem N V) (source : LexedSource N V)
    (declaration : DeclarationSection) (start : Nat) : Except String MacroInvocation :=
  let tokens := (source.tokens.take declaration.tokenEnd).drop declaration.tokenStart
  match tokens.dropWhile fun token => !(token.span.start = start && token.kind = .symbol ['@']) with
  | [] => .error "macro invocation no longer starts on a token boundary"
  | _ :: rest =>
    match macroPath rest with
    | none => .error "macro invocation requires a joint static name path after `@`"
    | some path =>
      let item := logicalItem source declaration start
      .ok ⟨path, start, item.1, item.2⟩

/-- A declaration whose macros are being expanded. -/
structure DeclarationMacroWork (V : Type) where
  line : Nat
  text : List Char
  embeddedValues : List V
deriving DecidableEq

namespace DeclarationMacroWork

/-- The tokens of the text at hand, with the values where their markers are. -/
def lexical (work : DeclarationMacroWork V) : Outcome (LexedSource N V) :=
  let lexed := lexSource V parseNumber work.text
  if lexed.panicked then .panicked
  else
    match lexed.replaceUnknownsWithEmbedded embeddedMarker work.embeddedValues with
    | .error error => .rejected [.error work.line error]
    | .ok lexical =>
      if lexical.hasErrors then
        .rejected (lexical.diagnostics.map fun d => { d with line := d.line + (work.line - 1) })
      else .done lexical

/-- A path as it is written. -/
def joinPath : List (List Char) → String
  | [] => ""
  | [name] => String.ofList name
  | name :: path => String.ofList name ++ "." ++ joinPath path

/-- **`current_invocation`.** -/
def currentInvocation (logicalItem : LogicalItem N V) (work : DeclarationMacroWork V)
    (original : OriginalMacroInvocation) : Outcome MacroInvocation :=
  match work.lexical parseNumber with
  | .panicked => .panicked
  | .rejected diagnostics => .rejected diagnostics
  | .done lexical =>
    match lexical.declarations with
    | [] => .rejected [.error original.line ("macro invocation " ++ toString original.id ++
        " disappeared before it could expand")]
    | declaration :: _ =>
      match macroInvocationAt logicalItem lexical declaration original.start with
      | .error message => .rejected [.error original.line ("macro invocation " ++
          toString original.id ++ " became invalid: " ++ message)]
      | .ok invocation =>
        if invocation.path ≠ original.path then
          .rejected [.error original.line ("macro invocation " ++ toString original.id ++
            " changed from `" ++ joinPath original.path ++ "` to `" ++ joinPath invocation.path ++
            "` before expansion")]
        else .done invocation

end DeclarationMacroWork

/-! ### Splicing -/

/-- The two parts of a list at a given width, if that is between two elements. -/
def splitAtWidth {α : Type} (width : α → Nat) : List α → Nat → Option (List α × List α)
  | l, 0 => some ([], l)
  | [], _ + 1 => none
  | a :: l, n + 1 =>
    if width a ≤ n + 1 then
      (splitAtWidth width l (n + 1 - width a)).map fun parts => (a :: parts.1, parts.2)
    else none

/-- The number of markers in a text. -/
def markerCount (text : List Char) : Nat := text.count embeddedMarker

namespace DeclarationMacroWork

/-- **`splice`**: replaces an invocation and what it consumed by its output, in the text and among
the values. -/
def splice (work : DeclarationMacroWork V) (invocation : MacroInvocation) (consumedEnd : Nat)
    (output : List (MacroOutput V)) (line : Nat) : Outcome (DeclarationMacroWork V) :=
  if isAnchorExpansion output && !invocation.anchorPosition then
    .rejected [.error line
      "anchored macro output requires an invocation at the start of its logical item"]
  else
    match generatedOutput parseNumber output line invocation.indentation with
    | .panicked => .panicked
    | .rejected diagnostics => .rejected diagnostics
    | .done (generated, embedded) =>
      if ¬(invocation.start ≤ consumedEnd ∧ consumedEnd ≤ bytes work.text) then
        .rejected [.error line "macro reader produced an invalid source range"]
      else
        match splitAtWidth Char.utf8Size work.text invocation.start with
        | none => .rejected [.error line "macro reader stopped outside a UTF-8 boundary"]
        | some (before, rest) =>
          match splitAtWidth Char.utf8Size rest (consumedEnd - invocation.start) with
          | none => .rejected [.error line "macro reader stopped outside a UTF-8 boundary"]
          | some (consumed, after) =>
            let embeddedStart := markerCount before
            let embeddedEnd := embeddedStart + markerCount consumed
            if work.embeddedValues.length < embeddedEnd then .panicked
            else
              .done { work with
                text := before ++ generated ++ after
                embeddedValues := work.embeddedValues.take embeddedStart ++ embedded ++
                  work.embeddedValues.drop embeddedEnd }

end DeclarationMacroWork

/-- What the macros do: how far each reads and what it writes, or that it fails. -/
abbrev Macros (V : Type) := DeclarationMacroWork V → OriginalMacroInvocation → MacroInvocation →
  Option (Nat × List (MacroOutput V))

/-- **One iteration of `expand_macro_declaration`.** -/
def expandInvocation (logicalItem : LogicalItem N V) (macros : Macros V)
    (work : DeclarationMacroWork V) (original : OriginalMacroInvocation) :
    Outcome (DeclarationMacroWork V) :=
  match work.currentInvocation parseNumber logicalItem original with
  | .panicked => .panicked
  | .rejected diagnostics => .rejected diagnostics
  | .done invocation =>
    match macros work original invocation with
    | none => .rejected []
    | some (consumedEnd, output) =>
      work.splice parseNumber invocation consumedEnd output original.line

end Glam.Syntax
