import Glam.Syntax.MacroExpansion

/-!
# The values of an expanded declaration

What a rewritten declaration means: a text in which some places are values (`Piece`). A splice
replaces a part of it, and every other piece stays as it is; that a value is lost, doubled or moved
cannot be said of such a text. `Renders` relates it to the text and the list of values that the code
keeps.

The code finds the place of a value in its list by counting the marker characters before it, and a
declaration may have marker characters of its own, in its texts and comments. Those are the strays.
As long as no stray stands before the end of what a splice consumes, the counts agree, and the
splice does what it does to the pieces (`Renders.splice`). The values of a declaration all stand
before its strays then (`Settled`), so the first splice that consumes up to a stray counts more
markers than there are values, and panics. -/

namespace Glam.Syntax

variable {N V : Type}

/-! ### Splitting at a width -/

variable {α : Type}

/-- A split has the whole list. -/
theorem splitAtWidth_append {width : α → Nat} {l before after : List α} {n : Nat}
    (h : splitAtWidth width l n = some (before, after)) : l = before ++ after := by
  induction l, n using splitAtWidth.induct width generalizing before with
  | case1 =>
    unfold splitAtWidth at h
    cases h
    rfl
  | case2 => cases h
  | case3 a l n hle ih =>
    unfold splitAtWidth at h
    rw [if_pos hle] at h
    obtain ⟨⟨before', after'⟩, hsplit, heq⟩ := Option.map_eq_some_iff.mp h
    cases heq
    rw [ih hsplit, List.cons_append]
  | case4 a l n hle =>
    unfold splitAtWidth at h
    rw [if_neg hle] at h
    cases h

/-- A split by the width of images. -/
theorem splitAtWidth_map {β : Type} (width : β → Nat) (f : α → β) (l : List α) (n : Nat) :
    splitAtWidth width (l.map f) n =
      (splitAtWidth (width ∘ f) l n).map fun parts => (parts.1.map f, parts.2.map f) := by
  induction l, n using splitAtWidth.induct (width ∘ f) with
  | case1 => simp [splitAtWidth]
  | case2 => rfl
  | case3 a l n hle ih =>
    have hle' : width (f a) ≤ n + 1 := hle
    simp [splitAtWidth, hle', Function.comp_def] at ih ⊢
    simp [ih, Function.comp_def]
  | case4 a l n hle =>
    have hle' : ¬width (f a) ≤ n + 1 := hle
    simp [splitAtWidth, hle']

/-- Splits in turn are one. -/
theorem splitAtWidth_trans {width : α → Nat} {l before rest consumed after : List α} {m n : Nat}
    (h : splitAtWidth width l m = some (before, rest)) (hle : m ≤ n)
    (h' : splitAtWidth width rest (n - m) = some (consumed, after)) :
    splitAtWidth width l n = some (before ++ consumed, after) := by
  induction l, m using splitAtWidth.induct width generalizing before n with
  | case1 =>
    unfold splitAtWidth at h
    cases h
    exact h'
  | case2 => cases h
  | case3 a l m hwidth ih =>
    unfold splitAtWidth at h
    rw [if_pos hwidth] at h
    obtain ⟨⟨before', rest'⟩, hsplit, heq⟩ := Option.map_eq_some_iff.mp h
    cases heq
    obtain ⟨n, rfl⟩ : ∃ k, n = k + 1 := ⟨n - 1, by omega⟩
    have hrest : splitAtWidth width l (n + 1 - width a) = some (before' ++ consumed, after) :=
      ih hsplit (by omega) (by rwa [show n + 1 - width a - (m + 1 - width a) = n + 1 - (m + 1) by omega])
    unfold splitAtWidth
    rw [if_pos (Nat.le_trans hwidth hle), hrest]
    rfl
  | case4 a l m hwidth =>
    unfold splitAtWidth at h
    rw [if_neg hwidth] at h
    cases h

/-! ### Texts with values in them -/

/-- A character of a declaration, or a value. -/
inductive Piece (V : Type)
  | char (c : Char)
  | value (v : V)

namespace Piece

/-- The character that a piece is written as. -/
def render : Piece V → Char
  | char c => c
  | value _ => embeddedMarker

/-- The value of a piece. -/
def value? : Piece V → Option V
  | char _ => none
  | value v => some v

/-- A marker character that stands for no value. -/
def Stray : Piece V → Prop
  | char c => c = embeddedMarker
  | value _ => False

instance : (p : Piece V) → Decidable p.Stray
  | char c => inferInstanceAs (Decidable (c = embeddedMarker))
  | value _ => inferInstanceAs (Decidable False)

end Piece

variable (pieces : List (Piece V))

/-- Pieces as they are written. -/
def renderText : List Char := pieces.map Piece.render

/-- The values among some pieces. -/
def valuesOf : List V := pieces.filterMap Piece.value?

/-- No character among the pieces is one that would be taken for a value. -/
def NoStray : Prop := ∀ p ∈ pieces, ¬p.Stray

/-- The values with the bytes that their markers are at. -/
def valueOffsets (start : Nat) : List (Piece V) → List (Nat × V)
  | [] => []
  | .char c :: rest => valueOffsets (start + c.utf8Size) rest
  | .value v :: rest => (start, v) :: valueOffsets (start + embeddedMarker.utf8Size) rest

/-- The text with its markers as values, in order. -/
def attach : List Char → List V → List (Piece V)
  | [], _ => []
  | c :: rest, [] => .char c :: attach rest []
  | c :: rest, v :: values =>
    if c = embeddedMarker then .value v :: attach rest values
    else .char c :: attach rest (v :: values)

/-- **The abstract splice**: the pieces from `start` to `stop` are replaced by others. -/
def splicePieces (start stop : Nat) (generated : List (Piece V)) : Option (List (Piece V)) :=
  (splitAtWidth (Char.utf8Size ∘ Piece.render) pieces start).bind fun outer =>
    (splitAtWidth (Char.utf8Size ∘ Piece.render) outer.2 (stop - start)).map fun inner =>
      outer.1 ++ generated ++ inner.2

/-- A stray stands before `stop`. -/
def StrayBefore (stop : Nat) : Prop :=
  ∃ before after, splitAtWidth (Char.utf8Size ∘ Piece.render) pieces stop = some (before, after) ∧
    ¬NoStray before

/-- The values all stand before the strays. -/
def Settled : Prop :=
  ∃ first rest, pieces = first ++ rest ∧ NoStray first ∧ valuesOf rest = []

/-- A declaration as the code keeps it. -/
structure Renders (work : DeclarationMacroWork V) (pieces : List (Piece V)) : Prop where
  text : work.text = renderText pieces
  values : work.embeddedValues = valuesOf pieces

@[simp] theorem renderText_append (pieces pieces' : List (Piece V)) :
    renderText (pieces ++ pieces') = renderText pieces ++ renderText pieces' := List.map_append

@[simp] theorem valuesOf_append (pieces pieces' : List (Piece V)) :
    valuesOf (pieces ++ pieces') = valuesOf pieces ++ valuesOf pieces' := List.filterMap_append

variable {pieces : List (Piece V)}

theorem noStray_append {pieces' : List (Piece V)} :
    NoStray (pieces ++ pieces') ↔ NoStray pieces ∧ NoStray pieces' := List.forall_mem_append

/-- Markers stand for values, or are stray. -/
theorem markerCount_renderText (pieces : List (Piece V)) :
    markerCount (renderText pieces) =
      (valuesOf pieces).length + pieces.countP fun p => decide p.Stray := by
  induction pieces with
  | nil => rfl
  | cons p pieces ih =>
    unfold markerCount renderText valuesOf at ih ⊢
    cases p with
    | value v =>
      have hstray : decide (Piece.value v).Stray = false := rfl
      simp [Piece.render, Piece.value?, hstray, ih]
      omega
    | char c =>
      have hstray : decide (Piece.char (V := V) c).Stray = decide (c = embeddedMarker) := rfl
      simp [Piece.render, List.filterMap_cons, Piece.value?, List.countP_cons, List.count_cons,
        hstray, ih]
      omega

theorem countP_stray_eq_zero : (pieces.countP fun p => decide p.Stray) = 0 ↔ NoStray pieces := by
  rw [List.countP_eq_zero]
  simp [NoStray]

theorem markerCount_of_noStray (h : NoStray pieces) :
    markerCount (renderText pieces) = (valuesOf pieces).length := by
  rw [markerCount_renderText, countP_stray_eq_zero.mpr h, Nat.add_zero]

variable {text : List Char}

/-- A text with as many markers as values is written by the pieces that pair them. -/
theorem attach_spec {values : List V} (h : markerCount text = values.length) :
    renderText (attach text values) = text ∧ valuesOf (attach text values) = values ∧
      NoStray (attach text values) := by
  induction text generalizing values with
  | nil =>
    obtain rfl := List.length_eq_zero_iff.mp h.symm
    exact ⟨rfl, rfl, nofun⟩
  | cons c text ih =>
    unfold markerCount at h ih
    by_cases hc : c = embeddedMarker
    · subst hc
      cases values with
      | nil => simp at h
      | cons v values =>
        rw [List.count_cons_self, List.length_cons, Nat.add_right_cancel_iff] at h
        obtain ⟨hrender, hvalues, hstray⟩ := ih h
        rw [attach, if_pos rfl]
        exact ⟨congrArg (embeddedMarker :: ·) hrender, congrArg (v :: ·) hvalues,
          List.forall_mem_cons.mpr ⟨id, hstray⟩⟩
    · have hattach : attach (c :: text) values = .char c :: attach text values := by
        cases values with
        | nil => rfl
        | cons => exact if_neg hc
      rw [List.count_cons_of_ne hc] at h
      obtain ⟨hrender, hvalues, hstray⟩ := ih h
      rw [hattach]
      exact ⟨congrArg (c :: ·) hrender, hvalues, List.forall_mem_cons.mpr ⟨hc, hstray⟩⟩

/-! ### What a macro writes -/

theorem not_mem_of_validWrittenText (h : validWrittenText text = true) : embeddedMarker ∉ text := by
  intro hmem
  have hc := List.all_eq_true.mp h embeddedMarker hmem
  revert hc
  decide

theorem markerCount_append (text text' : List Char) :
    markerCount (text ++ text') = markerCount text + markerCount text' := List.count_append

theorem markerCount_newLine (s : Output V) : markerCount s.newLine = 0 := by
  unfold markerCount Output.newLine
  rw [List.count_eq_zero]
  simp [embeddedMarker]

/-- The markers that were written are those of the values. -/
def Output.Counted (s : Output V) : Prop := markerCount s.generated = s.embedded.length

variable {s : Output V}

theorem Output.Counted.push (h : s.Counted) (htext : markerCount text = 0) :
    (s.push text).Counted := by
  unfold Output.Counted Output.push
  rw [markerCount_append, htext, h, Nat.add_zero]

theorem Output.Counted.resume (h : s.Counted) : s.resume.Counted := by
  unfold Output.resume
  split_ifs
  · exact h.push (markerCount_newLine s)
  · exact h

theorem Output.embedded_resume (s : Output V) : s.resume.embedded = s.embedded := by
  unfold Output.resume
  split_ifs <;> rfl

/-- Each output writes as many markers as values. -/
theorem Output.Counted.write (h : s.Counted) (item : MacroOutput V) : (s.write item).Counted := by
  cases item with
  | text written =>
    exact h.resume.push (List.count_eq_zero.mpr (not_mem_of_validWrittenText written.valid))
  | data =>
    unfold Output.Counted Output.write Output.push
    rw [markerCount_append, h.resume, Output.embedded_resume, List.length_append]
    rfl
  | separator => exact h.resume.push rfl
  | layoutStart | layoutEnd => exact h
  | anchor =>
    unfold Output.write
    dsimp only
    split_ifs
    · exact h
    · exact Output.Counted.push h (markerCount_newLine _)

variable {parseNumber : List Char → Except String N}

theorem validateGeneratedText_ne_panicked (text : List Char) :
    validateGeneratedText (V := V) parseNumber text ≠ .panicked := by
  unfold validateGeneratedText
  dsimp only
  rw [(lexSource_spec parseNumber text).2, if_neg Bool.false_ne_true]
  split_ifs <;> exact nofun

/-- **The markers of a generated text are those of its values.** -/
theorem generatedOutput_spec (parseNumber : List Char → Except String N)
    (output : List (MacroOutput V)) (line rootIndentation : Nat) :
    generatedOutput parseNumber output line rootIndentation ≠ .panicked ∧
      ∀ generated embedded, generatedOutput parseNumber output line rootIndentation =
        .done (generated, embedded) → markerCount generated = embedded.length := by
  have hcounted : (output.foldl Output.write ⟨[], [], [rootIndentation], true, false⟩).Counted :=
    List.foldlRecOn output Output.write rfl fun s hs item _ => hs.write item
  unfold generatedOutput
  dsimp only
  split
  case h_1 h => exact absurd h (validateGeneratedText_ne_panicked _)
  case h_2 => exact ⟨nofun, nofun⟩
  case h_3 =>
    refine ⟨nofun, fun generated embedded h => ?_⟩
    cases h
    exact hcounted

/-! ### Splices -/

variable {before after : List (Piece V)}

/-- Pieces up to a stray have all the values. -/
theorem Settled.valuesOf_of_stray (h : Settled (before ++ after)) (hstray : ¬NoStray before) :
    valuesOf after = [] := by
  obtain ⟨first, rest, heq, hfirst, hrest⟩ := h
  obtain ⟨mid, rfl, rfl⟩ | ⟨mid, rfl, rfl⟩ := List.append_eq_append_iff.mp heq
  · exact absurd (noStray_append.mp hfirst).1 hstray
  · rw [valuesOf_append, List.append_eq_nil_iff] at hrest
    exact hrest.2

theorem Settled.replace {consumed generated : List (Piece V)}
    (h : Settled (before ++ consumed ++ after)) (hbefore : NoStray (before ++ consumed))
    (hgenerated : NoStray generated) : Settled (before ++ generated ++ after) := by
  obtain ⟨first, rest, heq, hfirst, hrest⟩ := h
  have hkept := noStray_append.mpr ⟨(noStray_append.mp hbefore).1, hgenerated⟩
  obtain ⟨mid, rfl, rfl⟩ | ⟨mid, -, rfl⟩ := List.append_eq_append_iff.mp heq
  · refine ⟨before ++ generated ++ mid, rest, by simp, ?_, hrest⟩
    exact noStray_append.mpr ⟨hkept, (noStray_append.mp hfirst).2⟩
  · rw [valuesOf_append, List.append_eq_nil_iff] at hrest
    exact ⟨before ++ generated, after, rfl, hkept, hrest.2⟩

variable {work : DeclarationMacroWork V} {invocation : MacroInvocation} {line : Nat}
  {output : List (MacroOutput V)}

/-- What a splice does where it is not rejected: it panics if values are missing. -/
theorem splice_of_not_rejected {consumedEnd : Nat}
    (h : ∀ diagnostics, work.splice parseNumber invocation consumedEnd output line ≠
      .rejected diagnostics) :
    ∃ generated embedded before rest consumed after,
      generatedOutput parseNumber output line invocation.indentation = .done (generated, embedded) ∧
      invocation.start ≤ consumedEnd ∧
      splitAtWidth Char.utf8Size work.text invocation.start = some (before, rest) ∧
      splitAtWidth Char.utf8Size rest (consumedEnd - invocation.start) = some (consumed, after) ∧
      work.splice parseNumber invocation consumedEnd output line =
        if work.embeddedValues.length < markerCount before + markerCount consumed then .panicked
        else .done { work with
          text := before ++ generated ++ after
          embeddedValues := work.embeddedValues.take (markerCount before) ++ embedded ++
            work.embeddedValues.drop (markerCount before + markerCount consumed) } := by
  -- each test of the source that fails rejects the expansion
  unfold DeclarationMacroWork.splice at h ⊢
  dsimp only at h ⊢
  split at h
  · exact absurd rfl (h _)
  case isFalse hanchor =>
    rw [if_neg hanchor]
    cases hgenerated : generatedOutput parseNumber output line invocation.indentation with
    -- the generated text is lexed, which never panics
    | panicked => exact absurd hgenerated (generatedOutput_spec ..).1
    | rejected =>
      rw [hgenerated] at h
      exact absurd rfl (h _)
    | done written =>
      obtain ⟨generated, embedded⟩ := written
      rw [hgenerated] at h
      dsimp only at h ⊢
      split at h
      · exact absurd rfl (h _)
      case isFalse hrange =>
        rw [if_neg hrange]
        cases hstart : splitAtWidth Char.utf8Size work.text invocation.start with
        | none =>
          rw [hstart] at h
          exact absurd rfl (h _)
        | some outer =>
          obtain ⟨before, rest⟩ := outer
          rw [hstart] at h
          dsimp only at h ⊢
          cases hstop : splitAtWidth Char.utf8Size rest (consumedEnd - invocation.start) with
          | none =>
            rw [hstop] at h
            exact absurd rfl (h _)
          | some inner =>
            exact ⟨generated, embedded, before, rest, inner.1, inner.2, rfl,
              (not_not.mp hrange).1, rfl, hstop, rfl⟩

/-- **A splice on the pieces.** If the declaration is not rejected, then the splice is done where no
stray stands before the end of what it consumes, and panics otherwise. -/
theorem Renders.splice {consumedEnd : Nat} (h : Renders work pieces) (hsettled : Settled pieces) :
    (work.splice parseNumber invocation consumedEnd output line = .panicked →
      StrayBefore pieces consumedEnd) ∧
    ∀ work', work.splice parseNumber invocation consumedEnd output line = .done work' →
      ¬StrayBefore pieces consumedEnd ∧
      ∃ generated embedded pieces',
        generatedOutput parseNumber output line invocation.indentation = .done (generated, embedded) ∧
        splicePieces pieces invocation.start consumedEnd (attach generated embedded) = some pieces' ∧
        Renders work' pieces' ∧ Settled pieces' ∧ (NoStray pieces → NoStray pieces') := by
  have hcount := (generatedOutput_spec parseNumber output line invocation.indentation).2
  by_cases hrejected : ∃ diagnostics,
    work.splice parseNumber invocation consumedEnd output line = .rejected diagnostics
  · obtain ⟨diagnostics, hrejected⟩ := hrejected
    rw [hrejected]
    exact ⟨nofun, nofun⟩
  · obtain ⟨generated, embedded, before, rest, consumed, after, hgenerated, hle, hstart, hstop, heq⟩ :=
      splice_of_not_rejected (not_exists.mp hrejected)
    rw [heq]
    -- the same parts of the pieces
    rw [h.text, renderText, splitAtWidth_map] at hstart
    obtain ⟨⟨pbefore, prest⟩, hpstart, hparts⟩ := Option.map_eq_some_iff.mp hstart
    obtain ⟨rfl, rfl⟩ := Prod.mk.inj hparts
    rw [splitAtWidth_map] at hstop
    obtain ⟨⟨pconsumed, pafter⟩, hpstop, hparts⟩ := Option.map_eq_some_iff.mp hstop
    obtain ⟨rfl, rfl⟩ := Prod.mk.inj hparts
    have hsplit := splitAtWidth_trans hpstart hle hpstop
    have hpieces : pieces = pbefore ++ pconsumed ++ pafter := splitAtWidth_append hsplit
    have hlength : work.embeddedValues.length =
        (valuesOf pbefore).length + (valuesOf pconsumed).length + (valuesOf pafter).length := by
      rw [h.values, hpieces, valuesOf_append, valuesOf_append, List.length_append, List.length_append]
    by_cases hstray : NoStray (pbefore ++ pconsumed)
    · have hno : ¬StrayBefore pieces consumedEnd := by
        rintro ⟨before', after', hsplit', hstray'⟩
        rw [hsplit, Option.some.injEq, Prod.mk.injEq] at hsplit'
        exact hstray' (hsplit'.1 ▸ hstray)
      obtain ⟨hbefore, hconsumed⟩ := noStray_append.mp hstray
      rw [show pbefore.map Piece.render = renderText pbefore from rfl,
        show pconsumed.map Piece.render = renderText pconsumed from rfl,
        markerCount_of_noStray hbefore, markerCount_of_noStray hconsumed, hlength,
        if_neg (Nat.not_lt.mpr (Nat.le_add_right ..))]
      obtain ⟨hrender, hvalues, hattached⟩ := attach_spec (hcount generated embedded hgenerated)
      refine ⟨nofun, fun work' hwork' => ⟨hno, generated, embedded,
        pbefore ++ attach generated embedded ++ pafter, hgenerated, ?_, ?_, ?_, ?_⟩⟩
      · rw [splicePieces, hpstart, Option.bind_some, hpstop]
        rfl
      · cases hwork'
        refine ⟨?_, ?_⟩
        · rw [renderText_append, renderText_append, hrender]
          rfl
        · rw [valuesOf_append, valuesOf_append, hvalues, h.values, hpieces]
          simp [List.append_assoc]
      · exact Settled.replace (hpieces ▸ hsettled) hstray hattached
      · intro hnone
        rw [hpieces] at hnone
        exact noStray_append.mpr
          ⟨noStray_append.mpr ⟨hbefore, hattached⟩, (noStray_append.mp hnone).2⟩
    · -- all values stand before the stray, so the count is too large
      have hnil : valuesOf pafter = [] := Settled.valuesOf_of_stray (hpieces ▸ hsettled) hstray
      have hmore : work.embeddedValues.length <
          markerCount (pbefore.map Piece.render) + markerCount (pconsumed.map Piece.render) := by
        have hcounted := markerCount_renderText (pbefore ++ pconsumed)
        have hpos : (pbefore ++ pconsumed).countP (fun p => decide p.Stray) ≠ 0 :=
          fun hzero => hstray (countP_stray_eq_zero.mp hzero)
        rw [renderText_append, markerCount_append, valuesOf_append, List.length_append] at hcounted
        rw [hlength, hnil, List.length_nil]
        unfold renderText at hcounted
        omega
      rw [if_pos hmore]
      exact ⟨fun _ => ⟨_, _, hsplit, hstray⟩, nofun⟩

/-! ### The tokens of the values -/

/-- The offset of a marker among the characters of a text. -/
def markerOnly (bare : Nat × Option Char) : Option Nat :=
  if bare.2 = some embeddedMarker then some bare.1 else none

theorem markerOffset?_eq (token : SpannedToken) :
    markerOffset? embeddedMarker token = token.bare?.bind markerOnly := by
  unfold markerOffset? SpannedToken.bare? markerOnly
  cases token.kind with
  | unknown => simp
  | embedded => simp
  | name | number | invalidNumber | text | symbol | openGroup | closeGroup | lineStart => rfl

theorem charOffsets_some {start offset : Nat} {c : Option Char}
    (h : (offset, c) ∈ charOffsets start text) : c ≠ none := by
  induction text generalizing start with
  | nil => cases h
  | cons first text ih =>
    obtain heq | hmem := List.mem_cons.mp h
    · cases heq
      exact Option.some_ne_none first
    · exact ih hmem

/-- The markers of a text without strays are at its values. -/
theorem filterMap_charOffsets (h : NoStray pieces) (start : Nat) :
    (charOffsets start (renderText pieces)).filterMap markerOnly =
      (valueOffsets start pieces).map Prod.fst := by
  induction pieces generalizing start with
  | nil => rfl
  | cons p pieces ih =>
    obtain ⟨hp, hpieces⟩ := List.forall_mem_cons.mp h
    cases p with
    | char c =>
      have hnone : markerOnly (start, some c) = none := by
        unfold markerOnly
        rw [if_neg fun heq => hp (Option.some.inj heq)]
      exact (List.filterMap_cons_none hnone).trans (ih hpieces _)
    | value =>
      have hsome : markerOnly (start, some embeddedMarker) = some start := if_pos rfl
      exact (List.filterMap_cons_some hsome).trans (congrArg (start :: ·) (ih hpieces _))

theorem valueOffsets_snd (start : Nat) (pieces : List (Piece V)) :
    (valueOffsets start pieces).map Prod.snd = valuesOf pieces := by
  induction pieces generalizing start with
  | nil => rfl
  | cons p pieces ih =>
    cases p with
    | char => exact ih _
    | value v => exact congrArg (v :: ·) (ih _)

theorem lexSource_plain (text : List Char) :
    ∀ token ∈ (lexSource V parseNumber text).tokens, ∀ id, token.kind ≠ .embedded id := by
  intro token htoken id hid
  have hbare : token.bare? = some (token.span.start, none) := by
    unfold SpannedToken.bare?
    rw [hid]
  have hmem := List.mem_filterMap.mpr ⟨token, htoken, hbare⟩
  exact charOffsets_some ((lexSource_spec parseNumber text).1.mem hmem) rfl

/-- **Every accepted marker is the one of its value.** -/
theorem Renders.embeddedTokens {lexed : LexedSource N V} (h : Renders work pieces)
    (hstray : NoStray pieces) (hlexed : work.lexical parseNumber = .done lexed) :
    lexed.embeddedTokens = valueOffsets 0 pieces := by
  unfold DeclarationMacroWork.lexical at hlexed
  dsimp only at hlexed
  rw [(lexSource_spec parseNumber work.text).2, if_neg Bool.false_ne_true] at hlexed
  split at hlexed
  case h_1 => cases hlexed
  case h_2 replaced hreplaced =>
    split_ifs at hlexed
    cases hlexed
    obtain ⟨⟨tokens, all⟩, hmarkers, heq⟩ := exists_of_map_ok hreplaced
    subst heq
    obtain ⟨-, htokens, hlength⟩ := replaceMarkers_spec (lexSource_plain work.text) hmarkers
    -- as many marker tokens as markers, so all markers are tokens
    have hsub : ((lexSource V parseNumber work.text).tokens.filterMap
        (markerOffset? embeddedMarker)).Sublist ((valueOffsets 0 pieces).map Prod.fst) := by
      rw [← filterMap_charOffsets hstray, ← h.text]
      have hall := (lexSource_spec (V := V) parseNumber work.text).1.filterMap markerOnly
      rw [List.filterMap_filterMap] at hall
      rwa [funext markerOffset?_eq]
    have hall := hsub.eq_of_length (by
      rw [hlength, h.values, List.length_map, ← valueOffsets_snd 0 pieces, List.length_map])
    unfold LexedSource.embeddedTokens
    dsimp only
    rw [htokens, hall, h.values, ← valueOffsets_snd 0 pieces]
    rw [List.zip_map']
    exact List.map_id _

/-! ### Runs -/

section Runs

variable (parseNumber) (logicalItem : LogicalItem N V) (macros : Macros V)

/-- **The states of an expansion**, with the pieces they stand for: from the declaration, invocation
by invocation. -/
inductive Reached (line : Nat) (text : List Char) : DeclarationMacroWork V → List (Piece V) → Prop
  | start : Reached line text ⟨line, text, []⟩ (text.map .char)
  | splice {work work' : DeclarationMacroWork V} {pieces pieces' : List (Piece V)}
      {original : OriginalMacroInvocation} {invocation : MacroInvocation} {consumedEnd : Nat}
      {output : List (MacroOutput V)} {generated : List Char} {embedded : List V} :
      Reached line text work pieces →
      work.currentInvocation parseNumber logicalItem original = .done invocation →
      macros work original invocation = some (consumedEnd, output) →
      work.splice parseNumber invocation consumedEnd output original.line = .done work' →
      generatedOutput parseNumber output original.line invocation.indentation =
        .done (generated, embedded) →
      splicePieces pieces invocation.start consumedEnd (attach generated embedded) = some pieces' →
      Reached line text work' pieces'

variable {parseNumber logicalItem macros}

theorem renderText_chars (text : List Char) : renderText (text.map (Piece.char (V := V))) = text := by
  rw [renderText, List.map_map]
  exact List.map_id text

theorem valuesOf_chars (text : List Char) : valuesOf (text.map (Piece.char (V := V))) = [] := by
  rw [valuesOf, List.filterMap_map]
  exact List.filterMap_eq_nil_iff.mpr fun _ _ => rfl

theorem noStray_chars (h : embeddedMarker ∉ text) : NoStray (text.map (Piece.char (V := V))) := by
  intro p hp
  obtain ⟨c, hc, rfl⟩ := List.mem_map.mp hp
  exact fun heq => h (heq ▸ hc)

/-- **Whatever expansions are made**, the text and the values are those of the pieces. -/
theorem Reached.renders (h : Reached parseNumber logicalItem macros line text work pieces) :
    Renders work pieces ∧ Settled pieces ∧ (embeddedMarker ∉ text → NoStray pieces) := by
  induction h with
  | start =>
    exact ⟨⟨(renderText_chars text).symm, (valuesOf_chars text).symm⟩,
      ⟨[], _, rfl, nofun, valuesOf_chars text⟩, noStray_chars⟩
  | splice _ _ _ hsplice hgenerated hpieces ih =>
    obtain ⟨hrenders, hsettled, hstray⟩ := ih
    obtain ⟨-, generated', embedded', pieces'', hgenerated', hpieces'', hrenders', hsettled', hstray'⟩ :=
      (hrenders.splice hsettled).2 _ hsplice
    rw [hgenerated, Outcome.done.injEq, Prod.mk.injEq] at hgenerated'
    obtain ⟨rfl, rfl⟩ := hgenerated'
    obtain rfl := Option.some.inj (hpieces.symm.trans hpieces'')
    exact ⟨hrenders', hsettled', hstray' ∘ hstray⟩

theorem lexical_ne_panicked (work : DeclarationMacroWork V) :
    work.lexical parseNumber ≠ .panicked := by
  unfold DeclarationMacroWork.lexical
  dsimp only
  rw [(lexSource_spec parseNumber work.text).2, if_neg Bool.false_ne_true]
  split
  · exact nofun
  · split_ifs <;> exact nofun

/-- Finding the invocation never panics. -/
theorem currentInvocation_ne_panicked (work : DeclarationMacroWork V)
    (original : OriginalMacroInvocation) :
    work.currentInvocation parseNumber logicalItem original ≠ .panicked := by
  unfold DeclarationMacroWork.currentInvocation
  split
  case h_1 h => exact absurd h (lexical_ne_panicked work)
  case h_2 => exact nofun
  case h_3 =>
    split
    · exact nofun
    · split
      · exact nofun
      · split_ifs <;> exact nofun

variable (parseNumber logicalItem macros) in
/-- The macro of an invocation runs and consumes the text up to an offset. -/
def Consumes (work : DeclarationMacroWork V) (original : OriginalMacroInvocation)
    (consumedEnd : Nat) : Prop :=
  ∃ invocation output, work.currentInvocation parseNumber logicalItem original = .done invocation ∧
    macros work original invocation = some (consumedEnd, output)

/-- An expansion that is not rejected is a splice of what the macro wrote. -/
theorem expandInvocation_of_not_rejected {original : OriginalMacroInvocation}
    (h : ∀ diagnostics, expandInvocation parseNumber logicalItem macros work original ≠
      .rejected diagnostics) :
    ∃ invocation consumedEnd output,
      work.currentInvocation parseNumber logicalItem original = .done invocation ∧
      macros work original invocation = some (consumedEnd, output) ∧
      expandInvocation parseNumber logicalItem macros work original =
        work.splice parseNumber invocation consumedEnd output original.line := by
  unfold expandInvocation at h ⊢
  cases hcurrent : work.currentInvocation parseNumber logicalItem original with
  | panicked => exact absurd hcurrent (currentInvocation_ne_panicked work original)
  | rejected =>
    rw [hcurrent] at h
    exact absurd rfl (h _)
  | done invocation =>
    rw [hcurrent] at h
    cases hrun : macros work original invocation with
    | none =>
      simp only [hrun] at h
      exact absurd rfl (h _)
    | some run =>
      refine ⟨invocation, run.1, run.2, rfl, hrun, ?_⟩
      simp only [hrun]

/-- **The values keep step with the text, until a splice panics.** In every state that an expansion
reaches:

* the text and the values are those of the pieces, which the splices so far have made;
* an invocation that is expanded consumed nothing up to a stray marker, and what it gives is reached,
  with the pieces outside of what it consumed as they were;
* an invocation at which the expansion panics consumed the text up to a stray marker;
* if the declaration has no marker characters of its own, no invocation panics, and if the text is lexed
  without an error, then its embedded values are at the places of their pieces. -/
theorem expansion_in_step {line : Nat} {text : List Char} {work : DeclarationMacroWork V}
    {pieces : List (Piece V)} (h : Reached parseNumber logicalItem macros line text work pieces) :
    (work.text = renderText pieces ∧ work.embeddedValues = valuesOf pieces) ∧
    (∀ original work', expandInvocation parseNumber logicalItem macros work original = .done work' →
      ∃ consumedEnd pieces', Consumes parseNumber logicalItem macros work original consumedEnd ∧
        ¬StrayBefore pieces consumedEnd ∧
        Reached parseNumber logicalItem macros line text work' pieces') ∧
    (∀ original, expandInvocation parseNumber logicalItem macros work original = .panicked →
      ∃ consumedEnd, Consumes parseNumber logicalItem macros work original consumedEnd ∧
        StrayBefore pieces consumedEnd) ∧
    (embeddedMarker ∉ text →
      (∀ original, expandInvocation parseNumber logicalItem macros work original ≠ .panicked) ∧
      ∀ lexed, work.lexical parseNumber = .done lexed →
        lexed.embeddedTokens = valueOffsets 0 pieces) := by
  obtain ⟨hrenders, hsettled, hstray⟩ := h.renders
  -- a splice panics exactly for a stray marker before its end
  have hpanicked : ∀ original,
      expandInvocation parseNumber logicalItem macros work original = .panicked →
      ∃ consumedEnd, Consumes parseNumber logicalItem macros work original consumedEnd ∧
        StrayBefore pieces consumedEnd := by
    intro original hexpand
    obtain ⟨invocation, consumedEnd, output, hcurrent, hrun, heq⟩ :=
      expandInvocation_of_not_rejected (by rw [hexpand]; exact nofun)
    exact ⟨consumedEnd, ⟨invocation, output, hcurrent, hrun⟩,
      (hrenders.splice hsettled).1 (heq ▸ hexpand)⟩
  refine ⟨⟨hrenders.text, hrenders.values⟩, ?_, hpanicked, fun hmarker => ⟨?_, ?_⟩⟩
  · intro original work' hexpand
    obtain ⟨invocation, consumedEnd, output, hcurrent, hrun, heq⟩ :=
      expandInvocation_of_not_rejected (by rw [hexpand]; exact nofun)
    have hsplice := heq ▸ hexpand
    obtain ⟨hno, generated, embedded, pieces', hgenerated, hpieces', -⟩ :=
      (hrenders.splice hsettled).2 work' hsplice
    exact ⟨consumedEnd, pieces', ⟨invocation, output, hcurrent, hrun⟩, hno,
      .splice h hcurrent hrun hsplice hgenerated hpieces'⟩
  · intro original hexpand
    obtain ⟨consumedEnd, -, before, after, hsplit, hbefore⟩ := hpanicked original hexpand
    rw [splitAtWidth_append hsplit] at hstray
    exact hbefore (noStray_append.mp (hstray hmarker)).1
  · exact fun lexed => hrenders.embeddedTokens (hstray hmarker)

end Runs

/-- A source without numbers. -/
def noNumber (_ : List Char) : Except String Unit := .error "no number"

/-- Every macro reads to the end of the text and writes a value. -/
def writesSeven : Macros Nat := fun work _ _ => some (bytes work.text, [.data 7])

/-- `x=@m` becomes `x=` and a value, whose token is at offset 2. -/
theorem expansion_in_step_writesSeven :
    Reached noNumber (fun _ _ _ => (false, 0)) writesSeven 1 ['x', '=', '@', 'm']
      ⟨1, ['x', '=', embeddedMarker], [7]⟩ [.char 'x', .char '=', .value 7] ∧
    ∀ lexed : LexedSource Unit Nat,
      DeclarationMacroWork.lexical noNumber ⟨1, ['x', '=', embeddedMarker], [7]⟩ = .done lexed →
      lexed.embeddedTokens = [(2, 7)] := by
  let start : DeclarationMacroWork Nat := ⟨1, ['x', '=', '@', 'm'], []⟩
  have hcurrent : start.currentInvocation noNumber (fun _ _ _ => (false, 0)) ⟨0, [['m']], 2, 1⟩ =
      .done ⟨[['m']], 2, false, 0⟩ := by
    decide +kernel
  have hgenerated : generatedOutput noNumber [MacroOutput.data 7] 1 0 =
      .done ([embeddedMarker], [7]) := by
    decide +kernel
  have hsplice : start.splice noNumber ⟨[['m']], 2, false, 0⟩ 4 [.data 7] 1 =
      .done ⟨1, ['x', '=', embeddedMarker], [7]⟩ := by
    decide +kernel
  have hreached : Reached noNumber (fun _ _ _ => (false, 0)) writesSeven 1 ['x', '=', '@', 'm']
      ⟨1, ['x', '=', embeddedMarker], [7]⟩ [.char 'x', .char '=', .value 7] :=
    .splice .start hcurrent rfl hsplice hgenerated rfl
  exact ⟨hreached, ((expansion_in_step hreached).2.2.2 (by decide)).2⟩

/-- **A marker character in a text literal makes the expansion panic.** The declaration is `x=`, a
text of one marker character, and `@m`, and it is lexed without an error. -/
theorem literal_marker_panics :
    let text := ['x', '=', '"', embeddedMarker, '"', '@', 'm']
    (lexSource Nat noNumber text).hasErrors = false ∧
      expandInvocation noNumber (fun _ _ _ => (false, 0)) writesSeven ⟨1, text, []⟩
        ⟨0, [['m']], 5, 1⟩ = .panicked := by
  decide +kernel

end Glam.Syntax
