import Glam.Syntax.LexedSource

/-!
# Moving on in the source

What the lexer keeps true while it passes over text, whatever the text is: where it stands, the
starts of the lines behind it, and the diagnostics so far (`Lexer.Sound`). The loops over comments
and texts only move on (`Lexer.Moves`): they leave the tokens and all that refers to them as they
are, add line starts that lie ahead of where they began, and add diagnostics. -/

namespace Glam.Syntax.Lexer

variable {N : Type}

/-- Positions, line starts and diagnostics are as they should be. -/
structure Sound (source : List Char) (s : Lexer N) : Prop where
  here : ∃ read, source = read ++ s.rest ∧ bytes read = s.index
  line : s.line = s.lineStarts.length
  first : s.lineStarts.head? = some 0
  sorted : s.lineStarts.Pairwise (· < ·)
  lineStart_mem : s.lineStart ∈ s.lineStarts
  le_lineStart : ∀ start ∈ s.lineStarts, start ≤ s.lineStart
  boundary : ∀ start ∈ s.lineStarts, Boundary source start
  lineStart_le : s.lineStart ≤ s.index
  errors : ∀ diagnostic ∈ s.invalidWhitespaceDiagnostics ++ s.structuralDiagnostics,
    diagnostic.severity = .error ∧ 0 < diagnostic.line
  /-- the line whose whitespace was reported last has a diagnostic -/
  reported : ∀ line, s.lastInvalidWhitespaceLine = some line →
    ∃ diagnostic ∈ s.invalidWhitespaceDiagnostics, diagnostic.line = line ∧
      ∃ c, diagnostic.message = whitespaceMessage c

theorem Sound.new (source : List Char) : (Lexer.new source : Lexer N).Sound source where
  here := ⟨[], rfl, rfl⟩
  line := rfl
  first := rfl
  sorted := List.pairwise_singleton _ _
  lineStart_mem := List.mem_singleton_self _
  le_lineStart := fun _ hstart => (List.mem_singleton.mp hstart).le
  boundary := fun _ hstart => ⟨[], source, rfl, (List.mem_singleton.mp hstart).symm⟩
  lineStart_le := Nat.le_refl _
  errors := nofun
  reported := nofun

variable {source : List Char} {s s₁ s₂ s₃ s' : Lexer N} {lines : List (List Char)}

section

variable (h : s.Sound source)
include h

theorem Sound.here_boundary : Boundary source s.index := by
  obtain ⟨read, hsource, hindex⟩ := h.here
  exact ⟨read, s.rest, hsource, hindex⟩

theorem Sound.line_pos : 0 < s.line := by
  rw [h.line]
  exact List.length_pos_of_mem h.lineStart_mem

theorem Sound.lineStarts_le : ∀ start ∈ s.lineStarts, start ≤ s.index :=
  fun start hstart => (h.le_lineStart start hstart).trans h.lineStart_le

theorem Sound.lineAt_index : lineAt s.lineStarts s.index = s.line := by
  rw [lineAt_eq_length h.lineStarts_le, h.line]

theorem Sound.lineAt_lineStart : lineAt s.lineStarts s.lineStart = s.line := by
  rw [lineAt_eq_length h.le_lineStart, h.line]

end

/-- What only grows. -/
structure Later (s s' : Lexer N) : Prop where
  index_le : s.index ≤ s'.index
  lines : ∃ more, s'.lineStarts = s.lineStarts ++ more ∧ ∀ start ∈ more, s.index < start
  whitespace : s.invalidWhitespaceDiagnostics <+: s'.invalidWhitespaceDiagnostics
  structural : s.structuralDiagnostics <+: s'.structuralDiagnostics

theorem Later.refl (s : Lexer N) : s.Later s :=
  ⟨Nat.le_refl _, ⟨[], (List.append_nil _).symm, nofun⟩,
    List.prefix_rfl, List.prefix_rfl⟩

theorem Later.trans (h : s₁.Later s₂) (h' : s₂.Later s₃) : s₁.Later s₃ := by
  obtain ⟨more, hmore, hlt⟩ := h.lines
  obtain ⟨more', hmore', hlt'⟩ := h'.lines
  refine ⟨h.index_le.trans h'.index_le, ⟨more ++ more', ?_, ?_⟩, h.whitespace.trans h'.whitespace,
    h.structural.trans h'.structural⟩
  · rw [hmore', hmore, List.append_assoc]
  · exact List.forall_mem_append.mpr
      ⟨hlt, fun start hstart => Nat.lt_of_le_of_lt h.index_le (hlt' start hstart)⟩

theorem Later.lineAt_eq (h : s.Later s') {offset : Nat} (hle : offset ≤ s.index) :
    lineAt s'.lineStarts offset = lineAt s.lineStarts offset := by
  obtain ⟨more, hmore, hlt⟩ := h.lines
  rw [hmore]
  exact lineAt_append fun start hstart => Nat.lt_of_le_of_lt hle (hlt start hstart)

theorem Later.mem_lineStarts (h : s.Later s') {start : Nat} (hstart : start ∈ s.lineStarts) :
    start ∈ s'.lineStarts := by
  obtain ⟨more, hmore, -⟩ := h.lines
  rw [hmore]
  exact List.mem_append_left _ hstart

/-- The states differ in nothing that `Sound` is about. -/
structure SamePlace (s s' : Lexer N) : Prop where
  index : s'.index = s.index
  rest : s'.rest = s.rest
  line : s'.line = s.line
  lineStart : s'.lineStart = s.lineStart
  lineStarts : s'.lineStarts = s.lineStarts
  lastInvalidWhitespaceLine : s'.lastInvalidWhitespaceLine = s.lastInvalidWhitespaceLine
  invalidWhitespaceDiagnostics : s'.invalidWhitespaceDiagnostics = s.invalidWhitespaceDiagnostics
  structuralDiagnostics : s'.structuralDiagnostics = s.structuralDiagnostics

/-- Soundness is about the place alone. -/
theorem SamePlace.sound (h : s.SamePlace s') (hsound : s.Sound source) : s'.Sound source where
  here := by rw [h.index, h.rest]; exact hsound.here
  line := by rw [h.line, h.lineStarts]; exact hsound.line
  first := by rw [h.lineStarts]; exact hsound.first
  sorted := by rw [h.lineStarts]; exact hsound.sorted
  lineStart_mem := by rw [h.lineStarts, h.lineStart]; exact hsound.lineStart_mem
  le_lineStart := by rw [h.lineStarts, h.lineStart]; exact hsound.le_lineStart
  boundary := by rw [h.lineStarts]; exact hsound.boundary
  lineStart_le := by rw [h.lineStart, h.index]; exact hsound.lineStart_le
  errors := by
    rw [h.invalidWhitespaceDiagnostics, h.structuralDiagnostics]
    exact hsound.errors
  reported := by
    rw [h.lastInvalidWhitespaceLine, h.invalidWhitespaceDiagnostics]
    exact hsound.reported

theorem SamePlace.later (h : s.SamePlace s') : s.Later s' where
  index_le := h.index.ge
  lines := ⟨[], by rw [h.lineStarts, List.append_nil], nofun⟩
  whitespace := by rw [h.invalidWhitespaceDiagnostics]
  structural := by rw [h.structuralDiagnostics]

/-- The tokens and what refers to them stay. -/
structure Keeps (s s' : Lexer N) : Prop extends s.SameTokens s' where
  numbers : s'.numbers = s.numbers
  texts : s'.texts = s.texts
  declarations : s'.declarations = s.declarations
  emittedLineStart : s'.emittedLineStart = s.emittedLineStart

theorem Keeps.refl (s : Lexer N) : s.Keeps s := ⟨⟨rfl, rfl, rfl, rfl, rfl⟩, rfl, rfl, rfl, rfl⟩

theorem Keeps.trans (h : s₁.Keeps s₂) (h' : s₂.Keeps s₃) : s₁.Keeps s₃ :=
  ⟨h.toSameTokens.trans h'.toSameTokens, h'.numbers.trans h.numbers, h'.texts.trans h.texts,
    h'.declarations.trans h.declarations, h'.emittedLineStart.trans h.emittedLineStart⟩

/-- **Moving on** over a part of the source. -/
structure Moves (source : List Char) (s s' : Lexer N) : Prop where
  used : ∃ used, s.rest = used ++ s'.rest ∧ s'.index = s.index + bytes used
  keeps : s.Keeps s'
  later : s.Later s'
  sound : s.Sound source → s'.Sound source

variable {source : List Char} {s s' : Lexer N} {c : Char} {rest : List Char}

theorem Moves.refl (s : Lexer N) : Moves source s s := ⟨⟨[], rfl, rfl⟩, .refl s, .refl s, id⟩

theorem Moves.trans (h : Moves source s₁ s₂) (h' : Moves source s₂ s₃) : Moves source s₁ s₃ := by
  obtain ⟨used, hrest, hindex⟩ := h.used
  obtain ⟨used', hrest', hindex'⟩ := h'.used
  refine ⟨⟨used ++ used', ?_, ?_⟩, h.keeps.trans h'.keeps, h.later.trans h'.later,
    h'.sound ∘ h.sound⟩
  · rw [hrest, hrest', List.append_assoc]
  · rw [hindex', hindex, bytes_append, Nat.add_assoc]

theorem Moves.same (hplace : s.SamePlace s') (hkeeps : s.Keeps s') : Moves source s s' where
  used := ⟨[], hplace.rest.symm, hplace.index⟩
  keeps := hkeeps
  later := hplace.later
  sound := hplace.sound

/-! ### Passing over characters -/

theorem Sound.pass {used : List Char} (h : s.Sound source) (hrest : s.rest = used ++ rest) :
    (s.pass used rest).Sound source := by
  obtain ⟨read, hsource, hindex⟩ := h.here
  refine { h with
    here := ⟨read ++ used, ?_, ?_⟩
    lineStart_le := h.lineStart_le.trans (Nat.le_add_right _ _) }
  · rw [hsource, hrest, List.append_assoc]
    rfl
  · rw [bytes_append, hindex]
    rfl

theorem Moves.pass {used : List Char} (h : s.rest = used ++ rest) :
    Moves source s (s.pass used rest) where
  used := ⟨used, h, rfl⟩
  keeps := ⟨⟨rfl, rfl, rfl, rfl, rfl⟩, rfl, rfl, rfl, rfl⟩
  later := ⟨Nat.le_add_right _ _, ⟨[], (List.append_nil _).symm, nofun⟩,
    List.prefix_rfl, List.prefix_rfl⟩
  sound := fun hsound => hsound.pass h

theorem Moves.next (h : s.rest = c :: rest) : Moves source s (s.next c rest) := .pass h

/-- A character is passed over, and what is not about places or tokens changes. -/
theorem Moves.next_of_same (hplace : s.SamePlace s') (hkeeps : s.Keeps s') (h : s.rest = c :: rest) :
    Moves source s (s'.next c rest) :=
  (Moves.same hplace hkeeps).trans (.next (hplace.rest.trans h))

/-- A report moves nothing. -/
theorem Moves.structuralError {line : Nat} {message : String}
    (hline : s.Sound source → 0 < line) : Moves source s (s.structuralError line message) where
  used := ⟨[], rfl, rfl⟩
  keeps := ⟨⟨rfl, rfl, rfl, rfl, rfl⟩, rfl, rfl, rfl, rfl⟩
  later := ⟨Nat.le_refl _, ⟨[], (List.append_nil _).symm, nofun⟩,
    List.prefix_rfl, List.prefix_append _ _⟩
  sound := by
    intro hsound
    refine { hsound with errors := ?_ }
    rw [Lexer.structuralError, ← List.append_assoc]
    exact List.forall_mem_append.mpr
      ⟨hsound.errors, List.forall_mem_singleton.mpr ⟨rfl, hline hsound⟩⟩

/-- After whitespace is recorded, its line has a diagnostic. -/
theorem Moves.recordInvalidWhitespace (s : Lexer N) (c : Char) :
    Moves source s (s.recordInvalidWhitespace c) := by
  unfold Lexer.recordInvalidWhitespace
  split
  · exact .refl s
  · refine ⟨⟨[], rfl, rfl⟩, ⟨⟨rfl, rfl, rfl, rfl, rfl⟩, rfl, rfl, rfl, rfl⟩, ⟨Nat.le_refl _,
      ⟨[], (List.append_nil _).symm, nofun⟩,
      List.prefix_append _ _, List.prefix_rfl⟩, fun hsound => ?_⟩
    refine { hsound with errors := ?_, reported := ?_ }
    · obtain ⟨hwhitespace, hstructural⟩ := List.forall_mem_append.mp hsound.errors
      refine List.forall_mem_append.mpr ⟨List.forall_mem_append.mpr ⟨hwhitespace, ?_⟩, hstructural⟩
      exact List.forall_mem_singleton.mpr ⟨rfl, hsound.line_pos⟩
    · intro line hline
      exact ⟨_, List.mem_append_right _ (List.mem_singleton_self _), Option.some.inj hline, c, rfl⟩

theorem recordInvalidWhitespace_reported (hsound : s.Sound source) (c : Char) :
    ∃ diagnostic ∈ (s.recordInvalidWhitespace c).invalidWhitespaceDiagnostics,
      diagnostic.line = s.line ∧ ∃ c, diagnostic.message = whitespaceMessage c := by
  unfold Lexer.recordInvalidWhitespace
  split
  · next hline => exact hsound.reported s.line hline
  · exact ⟨_, List.mem_append_right _ (List.mem_singleton_self _), rfl, c, rfl⟩

theorem Moves.checkWhitespace (s : Lexer N) (c : Char) :
    Moves source s (s.checkWhitespace c) := by
  unfold Lexer.checkWhitespace
  split
  · exact .recordInvalidWhitespace s c
  · exact .refl s

theorem Moves.check_next (h : s.rest = c :: rest) :
    Moves source s ((s.checkWhitespace c).next c rest) :=
  (Moves.checkWhitespace s c).trans (.next (by rw [rest_checkWhitespace, h]))

/-! ### Line breaks -/

section Break

variable {used : List Char} (hrest : s.rest = used ++ rest) (hused : used ≠ [])
include hrest hused

omit hrest in
theorem index_lt_pass (rest : List Char) : s.index < (s.pass used rest).index := by
  obtain ⟨c, tail, rfl⟩ := List.exists_cons_of_ne_nil hused
  have hsize := Char.utf8Size_pos c
  rw [Lexer.pass, bytes_cons]
  dsimp only
  omega

/-- The line's start is noted at the byte after the break. -/
theorem Sound.breakLine (h : s.Sound source) (kind : Nat) (layout : Bool) :
    ((s.pass used rest).breakLine kind layout).Sound source := by
  have hpassed := h.pass hrest
  -- the new line starts where the lexer stands, beyond all line starts so far
  have hstarts : ∀ start ∈ s.lineStarts, start < (s.pass used rest).index :=
    fun start hstart => Nat.lt_of_le_of_lt (h.lineStarts_le start hstart) (index_lt_pass hused rest)
  have hbroken : ((s.pass used rest).breakLine kind false).Sound source := by
    refine ⟨hpassed.here, ?_, ?_, ?_, ?_, ?_, ?_, Nat.le_refl _, hpassed.errors,
      hpassed.reported⟩
    · simp [Lexer.breakLine, Lexer.pass, h.line]
    · have hfirst := h.first
      simp only [Lexer.breakLine, Lexer.pass, Bool.false_eq_true, if_false, List.head?_append,
        hfirst, Option.some_or]
    · exact List.pairwise_append.mpr ⟨h.sorted, List.pairwise_singleton _ _,
        fun start hstart => List.forall_mem_singleton.mpr (hstarts start hstart)⟩
    · exact List.mem_append_right _ (List.mem_singleton_self _)
    · exact List.forall_mem_append.mpr
        ⟨fun start hstart => (hstarts start hstart).le, List.forall_mem_singleton.mpr le_rfl⟩
    · exact List.forall_mem_append.mpr
        ⟨h.boundary, List.forall_mem_singleton.mpr hpassed.here_boundary⟩
  cases layout with
  | false => exact hbroken
  | true =>
    have hsame : ((s.pass used rest).breakLine kind false).SamePlace
      ((s.pass used rest).breakLine kind true) := ⟨rfl, rfl, rfl, rfl, rfl, rfl, rfl, rfl⟩
    exact hsame.sound hbroken

omit hrest in
theorem Later.breakLine (kind : Nat) (layout : Bool) :
    s.Later ((s.pass used rest).breakLine kind layout) := by
  have hlt := index_lt_pass (s := s) hused rest
  cases layout <;>
    exact ⟨hlt.le, ⟨[(s.pass used rest).index], rfl, List.forall_mem_singleton.mpr hlt⟩,
      List.prefix_rfl, List.prefix_rfl⟩

theorem Moves.breakLine (kind : Nat) :
    Moves source s ((s.pass used rest).breakLine kind false) where
  used := ⟨used, hrest, rfl⟩
  keeps := ⟨⟨rfl, rfl, rfl, rfl, rfl⟩, rfl, rfl, rfl, rfl⟩
  later := .breakLine hused kind false
  sound := fun hsound => hsound.breakLine hrest hused kind false

end Break

theorem consumeNewline_cases {layout : Bool} (h : s.consumeNewline layout = some s') :
    ∃ used rest kind, used ≠ [] ∧ (∀ c ∈ used, isNewline c = true) ∧ s.rest = used ++ rest ∧
      s' = (s.pass used rest).breakLine kind layout := by
  unfold Lexer.consumeNewline at h
  split at h
  · next hrest => exact ⟨_, _, 2, by simp, by simp [isNewline], hrest, (Option.some.inj h).symm⟩
  · next hrest => exact ⟨['\r'], _, 4, by simp, by simp [isNewline], hrest, (Option.some.inj h).symm⟩
  · next hrest => exact ⟨['\n'], _, 1, by simp, by simp [isNewline], hrest, (Option.some.inj h).symm⟩
  · cases h

theorem Moves.consumeNewline (h : s.consumeNewline false = some s') : Moves source s s' := by
  obtain ⟨used, rest, kind, hne, -, hrest, rfl⟩ := consumeNewline_cases h
  exact .breakLine hrest hne kind

/-! ### Comments and lines -/

theorem Moves.consumeComment (h : s.rest = rest) : Moves source s (consumeComment rest s) := by
  induction rest generalizing s with
  | nil => exact .refl s
  | cons c rest ih =>
    unfold Lexer.consumeComment
    split_ifs
    · exact .refl s
    · exact (Moves.check_next h).trans (ih rfl)

/-- A comment is read up to the line's end, and no further. -/
theorem consumeComment_rest (h : s.rest = rest) :
    rest = rest.takeWhile (fun c => !isNewline c) ++ (consumeComment rest s).rest ∧
      ∀ c ∈ (consumeComment rest s).rest.head?, isNewline c = true := by
  induction rest generalizing s with
  | nil =>
    unfold Lexer.consumeComment
    rw [h]
    exact ⟨rfl, fun c hc => by cases hc⟩
  | cons c rest ih =>
    unfold Lexer.consumeComment
    by_cases hnewline : isNewline c = true
    · rw [if_pos hnewline, List.takeWhile_cons_of_neg (by simpa using hnewline), h]
      exact ⟨rfl, fun c' hc' => by cases hc'; exact hnewline⟩
    · rw [if_neg hnewline, List.takeWhile_cons_of_pos (by simpa using hnewline)]
      obtain ⟨hrest, hhead⟩ := @ih ((s.checkWhitespace c).next c rest) rfl
      exact ⟨by rw [List.cons_append, ← hrest], hhead⟩

theorem Moves.readLine (h : s.rest = rest) : Moves source s (readLine rest s) := by
  induction rest generalizing s with
  | nil => exact .refl s
  | cons c rest ih =>
    unfold Lexer.readLine
    split_ifs
    · exact .refl s
    · exact (Moves.check_next h).trans (ih rfl)

/-- Reading a line stays on it. -/
theorem readLine_lines (rest : List Char) (s : Lexer N) :
    (readLine rest s).lineStarts = s.lineStarts ∧ (readLine rest s).lineStart = s.lineStart ∧
      (readLine rest s).line = s.line := by
  have hcheck : ∀ (s : Lexer N) (c : Char) (rest : List Char),
      ((s.checkWhitespace c).next c rest).lineStarts = s.lineStarts ∧
      ((s.checkWhitespace c).next c rest).lineStart = s.lineStart ∧
      ((s.checkWhitespace c).next c rest).line = s.line := by
    intro s c rest
    unfold Lexer.checkWhitespace Lexer.recordInvalidWhitespace
    split_ifs <;> exact ⟨rfl, rfl, rfl⟩
  induction rest generalizing s with
  | nil => exact ⟨rfl, rfl, rfl⟩
  | cons c rest ih =>
    unfold Lexer.readLine
    split_ifs
    · exact ⟨rfl, rfl, rfl⟩
    · obtain ⟨hstarts, hstart, hline⟩ := ih ((s.checkWhitespace c).next c rest)
      obtain ⟨hstarts', hstart', hline'⟩ := hcheck s c rest
      exact ⟨hstarts.trans hstarts', hstart.trans hstart', hline.trans hline'⟩

/-! ### Texts -/

/-- An inline text is passed. -/
theorem Moves.inlineText {value : List Char} (h : s.rest = rest) :
    Moves source s (inlineText rest value s).1 := by
  fun_induction Lexer.inlineText rest value s with
  | case1 => exact .refl _
  | case2 value s rest ih =>
    exact (Moves.breakLine h (by simp) 2).trans (ih (rest_breakLine ..))
  | case3 value s rest hcr ih =>
    exact (Moves.breakLine h (List.cons_ne_nil '\r' []) 4).trans (ih (rest_breakLine ..))
  | case4 value s rest hcr hlf ih =>
    exact (Moves.breakLine h (List.cons_ne_nil '\n' []) 1).trans (ih (rest_breakLine ..))
  | case5 => exact .next h
  | case6 value s c rest hcrlf hcr hlf hquote ih => exact (Moves.check_next h).trans (ih rfl)

/-- Line breaks in a text are line feeds. -/
theorem inlineText_value {value : List Char} (hvalue : '\r' ∉ value) :
    '\r' ∉ (inlineText rest value s).2.1 := by
  fun_induction Lexer.inlineText rest value s with
  | case1 => exact hvalue
  | case2 value s rest ih | case3 value s rest hcr ih | case4 value s rest hcr hlf ih =>
    exact ih (by simp [hvalue])
  | case5 => exact hvalue
  | case6 value s c rest hcrlf hcr hlf hquote ih => exact ih (by simp [hvalue, Ne.symm hcr])

theorem Moves.addLine (s read : Lexer N) (lines : List (List Char)) (line : TextLine) :
    Moves source read (addLine s read lines line).1 := by
  cases line with
  | invalid => exact .structuralError fun hsound => lineAt_pos hsound.first _
  | closes | content | nothing => exact .refl read

theorem Moves.line (s : Lexer N) (lines : List (List Char)) (line : TextLine) :
    Moves source s (Lexer.addLine s (Lexer.readLine s.rest s) lines line).1 :=
  (Moves.readLine rfl).trans (.addLine ..)

/-- A text is closed within the line that was read. -/
theorem Moves.passClosing {indentation : List Char}
    (h : textLine (s.rest.takeWhile fun c => !isNewline c) = .closes indentation) :
    Moves source s (s.passClosing (Lexer.readLine s.rest s) indentation) := by
  obtain ⟨used, hrest, hindex⟩ := (Reads.passClosing h).used
  have hread : Moves source s (Lexer.readLine s.rest s) := .readLine rfl
  obtain ⟨hstarts, hstart, -⟩ := readLine_lines s.rest s
  refine ⟨⟨used, hrest, hindex⟩, { hread.keeps with }, ⟨?_, ⟨[], ?_, nofun⟩,
    hread.later.whitespace, hread.later.structural⟩, fun hsound => ?_⟩
  · rw [hindex]
    exact Nat.le_add_right _ _
  · rw [List.append_nil]
    exact hstarts
  · have hsound' := hread.sound hsound
    obtain ⟨read, hsource, hread'⟩ := hsound.here
    refine { hsound' with here := ⟨read ++ used, ?_, ?_⟩, lineStart_le := ?_ }
    · rw [List.append_assoc, ← hrest, hsource]
    · rw [bytes_append, hread', hindex]
    · change (Lexer.readLine s.rest s).lineStart ≤ _
      rw [hstart, hindex]
      exact hsound.lineStart_le.trans (Nat.le_add_right _ _)

theorem Moves.multilineText (s : Lexer N) (lines : List (List Char)) :
    Moves source s (multilineText s lines).1 := by
  fun_induction Lexer.multilineText s lines with
  | case1 s lines => exact .refl s
  | case2 s lines _ indentation h => exact .passClosing h
  | case3 => exact .line ..
  | case4 s lines _ _ added next h ih =>
    exact (Moves.line ..).trans ((Moves.consumeNewline h).trans ih)

/-- What a line adds to a text is a part of the line. -/
theorem textLine_content {line content : List Char} (h : textLine line = .content content) :
    ∀ c ∈ content, c ∈ line := by
  have hsub : ∀ c ∈ line.dropWhile (· = ' '), c ∈ line :=
    fun c hc => (List.dropWhile_sublist _).subset hc
  unfold textLine at h
  split at h <;> cases h
  · exact nofun
  · next hrest =>
    intro c hc
    apply hsub
    rw [hrest]
    exact .tail _ (.tail _ hc)

/-- The lines of a text have no carriage return. -/
theorem multilineText_lines (hlines : ∀ line ∈ lines, '\r' ∉ line) :
    ∀ line ∈ (multilineText s lines).2.1, '\r' ∉ line := by
  have hadd : ∀ (s read : Lexer N) (lines : List (List Char)) (line : TextLine),
      (∀ line ∈ lines, '\r' ∉ line) → (∀ content, line = .content content → '\r' ∉ content) →
      ∀ line' ∈ (Lexer.addLine s read lines line).2, '\r' ∉ line' := by
    intro s read lines line hlines hline
    cases line with
    | content content =>
      exact List.forall_mem_append.mpr
        ⟨hlines, List.forall_mem_singleton.mpr (hline content rfl)⟩
    | invalid | closes | nothing => exact hlines
  have hcontent : ∀ (s : Lexer N) (content : List Char),
      textLine (s.rest.takeWhile fun c => !isNewline c) = .content content → '\r' ∉ content := by
    intro s content hline hmem
    have hreturn := List.mem_takeWhile_imp (textLine_content hline _ hmem)
    exact absurd hreturn (by decide)
  fun_induction Lexer.multilineText s lines with
  | case1 | case2 => exact hlines
  | case3 s lines hne _ added => exact hadd _ _ _ _ hlines (hcontent s)
  | case4 s lines _ _ added next h ih => exact ih (hadd _ _ _ _ hlines (hcontent s))

theorem joinLines_value (h : ∀ line ∈ lines, '\r' ∉ line) : '\r' ∉ joinLines lines := by
  induction lines with
  | nil => exact List.not_mem_nil
  | cons line lines ih =>
    have hline := h line (.head _)
    cases lines with
    | nil => exact hline
    | cons =>
      have hrest := ih fun line hmem => h line (.tail _ hmem)
      simp [joinLines, hline, hrest]

theorem Moves.consumeOpeningMultilineTail (s : Lexer N) :
    Moves source s s.consumeOpeningMultilineTail := by
  have htail : Moves source s (s.pass (s.rest.takeWhile (· = ' ')) (s.rest.dropWhile (· = ' '))) :=
    .pass List.takeWhile_append_dropWhile.symm
  unfold Lexer.consumeOpeningMultilineTail
  dsimp only
  split_ifs
  · exact htail
  · split
    · next next h => exact htail.trans (.consumeNewline h)
    · exact htail.trans (.structuralError fun hsound => hsound.line_pos)

end Glam.Syntax.Lexer
