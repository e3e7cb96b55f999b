import Glam.Syntax.Emission

/-!
# Groups of the lexer

The groups found so far are nested, and those that are open are the ones on the stack, the innermost
first (`Grouped`). A token that is no delimiter leaves this so, an open token starts a group inside
the innermost one, and a close token closes the innermost one: whatever opened later is off the
stack, and so it is closed already. The stack is also where `token_tables` has come to, so that it
never meets a close token that does not pair with its open one. -/

namespace Glam.Syntax

variable {N : Type} {tokens : List SpannedToken} {token : SpannedToken}
  {groups : List DelimiterGroup} {stack : List Nat}

/-- **The groups** of some tokens, with those that are open on the stack. -/
structure Grouped (tokens : List SpannedToken) (groups : List DelimiterGroup) (stack : List Nat) :
    Prop extends Nested tokens groups where
  open_iff : ∀ (id : Nat) (group : DelimiterGroup), groups[id]? = some group →
    (group.closeToken = none ↔ id ∈ stack)
  bound : ∀ id ∈ stack, id < groups.length
  innermost : stack.Pairwise (· > ·)
  ordered : (groups.map DelimiterGroup.openToken).Pairwise (· < ·)
  parents : ∀ (id : Nat) (group : DelimiterGroup) (parent : Nat), groups[id]? = some group →
    group.parent = some parent → parent < id
  tables : ∃ state : TableState,
    tokens.foldlM TableState.add ⟨[], [], [], none⟩ = some state ∧ state.opened = stack

/-- No tokens and no groups. -/
theorem Grouped.nil : Grouped [] [] [] where
  opens := nofun
  closes := nofun
  opened := nofun
  closed := nofun
  nested := nofun
  open_iff := nofun
  bound := nofun
  innermost := .nil
  ordered := .nil
  parents := nofun
  tables := ⟨_, rfl, rfl⟩

/-! ### One token more -/

variable {index : Nat} {kind : TokenKind}

theorem kind_concat :
    (tokens ++ [token])[index]?.map SpannedToken.kind = some kind ↔
      tokens[index]?.map SpannedToken.kind = some kind ∨
        (index = tokens.length ∧ token.kind = kind) := by
  grind

theorem kind_concat_left (h : tokens[index]?.map SpannedToken.kind = some kind) :
    (tokens ++ [token])[index]?.map SpannedToken.kind = some kind :=
  kind_concat.mpr (.inl h)

theorem lt_length_of_kind (h : tokens[index]?.map SpannedToken.kind = some kind) :
    index < tokens.length := by
  obtain ⟨token, htoken, -⟩ := Option.map_eq_some_iff.mp h
  exact (List.getElem?_eq_some_iff.mp htoken).1

namespace Nested

variable {group : DelimiterGroup}

theorem openToken_lt (h : Nested tokens groups) {id : Nat} (hgroup : groups[id]? = some group) :
    group.openToken < tokens.length :=
  lt_length_of_kind (h.opens id group hgroup)

theorem closeToken_lt (h : Nested tokens groups) {id close : Nat}
    (hgroup : groups[id]? = some group) (hclose : group.closeToken = some close) :
    close < tokens.length :=
  lt_length_of_kind (h.closes id group close hgroup hclose).2

end Nested

theorem foldlM_tables_concat (tokens : List SpannedToken) (token : SpannedToken)
    (state : TableState) :
    (tokens ++ [token]).foldlM TableState.add state =
      (tokens.foldlM TableState.add state).bind fun state => state.add token := by
  rw [List.foldlM_append]
  refine congrArg _ (funext fun state => ?_)
  rw [List.foldlM_cons]
  cases state.add token <;> rfl

/-- **A token that is no delimiter.** -/
theorem Grouped.plain (h : Grouped tokens groups stack)
    (hopen : ∀ id delimiter, token.kind ≠ .openGroup id delimiter)
    (hclose : ∀ id delimiter, token.kind ≠ .closeGroup id delimiter) :
    Grouped (tokens ++ [token]) groups stack := by
  refine { h with
    opens := fun id group hgroup => kind_concat_left (h.opens id group hgroup)
    closes := ?_, opened := ?_, closed := ?_, tables := ?_ }
  · intro id group close hgroup hclosed
    obtain ⟨hlt, hkind⟩ := h.closes id group close hgroup hclosed
    exact ⟨hlt, kind_concat_left hkind⟩
  · intro index id delimiter hkind
    rcases kind_concat.mp hkind with hkind | ⟨-, hkind⟩
    · exact h.opened index id delimiter hkind
    · exact absurd hkind (hopen id delimiter)
  · intro index id delimiter hkind
    rcases kind_concat.mp hkind with hkind | ⟨-, hkind⟩
    · exact h.closed index id delimiter hkind
    · exact absurd hkind (hclose id delimiter)
  · obtain ⟨state, hstate, hopened⟩ := h.tables
    rw [foldlM_tables_concat, hstate, Option.bind_some]
    unfold TableState.add
    split
    · next group delimiter hkind => exact absurd hkind (hopen group delimiter)
    · next group delimiter hkind => exact absurd hkind (hclose group delimiter)
    · exact ⟨_, rfl, hopened⟩
    · exact ⟨_, rfl, hopened⟩

/-! ### A group opens -/

theorem getElem?_concat_cases {α : Type} {list : List α} {a b : α}
    (h : (list ++ [a])[index]? = some b) :
    list[index]? = some b ∨ (index = list.length ∧ b = a) := by
  grind

/-- Opening a group within the innermost one. -/
theorem Grouped.open {delimiter : Delimiter} (h : Grouped tokens groups stack)
    (htoken : token.kind = .openGroup groups.length delimiter) :
    Grouped (tokens ++ [token]) (groups ++ [⟨delimiter, tokens.length, none, stack.head?⟩])
      (groups.length :: stack) where
  opens := by
    intro id group hgroup
    -- each fact is one about the old groups, or about the new one, which is the last
    rcases getElem?_concat_cases hgroup with hgroup | ⟨rfl, rfl⟩
    · exact kind_concat_left (h.opens id group hgroup)
    · exact kind_concat.mpr (.inr ⟨rfl, htoken⟩)
  closes := by
    intro id group close hgroup hclosed
    rcases getElem?_concat_cases hgroup with hgroup | ⟨rfl, rfl⟩
    · obtain ⟨hlt, hkind⟩ := h.closes id group close hgroup hclosed
      exact ⟨hlt, kind_concat_left hkind⟩
    · cases hclosed
  opened := by
    intro index id delimiter' hkind
    rcases kind_concat.mp hkind with hkind | ⟨rfl, hlast⟩
    · obtain ⟨group, hgroup, hopens⟩ := h.opened index id delimiter' hkind
      have hlt := (List.getElem?_eq_some_iff.mp hgroup).1
      exact ⟨group, (List.getElem?_append_left hlt).trans hgroup, hopens⟩
    · rw [htoken] at hlast
      cases hlast
      exact ⟨_, List.getElem?_concat_length, rfl, rfl⟩
  closed := by
    intro index id delimiter' hkind
    rcases kind_concat.mp hkind with hkind | ⟨-, hlast⟩
    · obtain ⟨group, hgroup, hcloses⟩ := h.closed index id delimiter' hkind
      have hlt := (List.getElem?_eq_some_iff.mp hgroup).1
      exact ⟨group, (List.getElem?_append_left hlt).trans hgroup, hcloses⟩
    · rw [htoken] at hlast
      cases hlast
  nested := by
    intro id id' group group' close hgroup hgroup' hlt hclosed
    rcases getElem?_concat_cases hgroup with hgroup | ⟨rfl, rfl⟩
    · rcases getElem?_concat_cases hgroup' with hgroup' | ⟨rfl, rfl⟩
      · exact h.nested id id' group group' close hgroup hgroup' hlt hclosed
      · -- the new group begins after every token so far
        exact .inl (h.closeToken_lt hgroup hclosed)
    · cases hclosed
  open_iff := by
    intro id group hgroup
    rcases getElem?_concat_cases hgroup with hgroup | ⟨rfl, rfl⟩
    · have hlt := (List.getElem?_eq_some_iff.mp hgroup).1
      rw [h.open_iff id group hgroup, List.mem_cons]
      exact ⟨.inr, fun hmem => hmem.resolve_left hlt.ne⟩
    · exact ⟨fun _ => (.head _), fun _ => rfl⟩
  bound := by
    rw [List.length_append, List.length_singleton]
    exact List.forall_mem_cons.mpr
      ⟨Nat.lt_succ_self _, fun id hid => Nat.lt_succ_of_lt (h.bound id hid)⟩
  innermost := List.pairwise_cons.mpr ⟨h.bound, h.innermost⟩
  ordered := by
    rw [List.map_append]
    refine List.pairwise_append.mpr ⟨h.ordered, List.pairwise_singleton _ _, ?_⟩
    refine List.forall_mem_map.mpr fun group hmem => List.forall_mem_singleton.mpr ?_
    obtain ⟨id, hgroup⟩ := List.getElem?_of_mem hmem
    exact h.openToken_lt hgroup
  parents := by
    intro id group parent hgroup hparent
    rcases getElem?_concat_cases hgroup with hgroup | ⟨rfl, rfl⟩
    · exact h.parents id group parent hgroup hparent
    · exact h.bound parent (List.mem_of_head? hparent)
  tables := by
    obtain ⟨state, hstate, hopened⟩ := h.tables
    rw [foldlM_tables_concat, hstate, Option.bind_some, TableState.add, htoken]
    exact ⟨_, rfl, congrArg (groups.length :: ·) hopened⟩

/-! ### The innermost group closes -/

section Close

variable {id : Nat} {group : DelimiterGroup} (h : Grouped tokens groups (id :: stack))
  (hgroup : groups[id]? = some group)
include h hgroup

variable {group' : DelimiterGroup}

omit hgroup in
/-- A group, after one is closed: that one, or another as before. -/
theorem getElem?_close_cases {close : Nat}
    (hgroup' : (groups.set id { group with closeToken := some close })[index]? = some group') :
    (index = id ∧ group' = { group with closeToken := some close }) ∨
      (index ≠ id ∧ groups[index]? = some group') := by
  have hlt := h.bound id (.head _)
  grind

/-- A group that was opened after the innermost open one is closed. -/
theorem Grouped.closed_of_later (hgroup' : groups[index]? = some group')
    (hlt : group.openToken < group'.openToken) : ∃ close, group'.closeToken = some close := by
  have hid : id < index := by
    obtain ⟨hid, hat⟩ := List.getElem?_eq_some_iff.mp hgroup
    obtain ⟨hindex, hat'⟩ := List.getElem?_eq_some_iff.mp hgroup'
    have hordered := List.pairwise_iff_getElem.mp h.ordered
    rcases Nat.lt_trichotomy id index with hcase | rfl | hcase
    · exact hcase
    · rw [← hat, ← hat'] at hlt
      exact absurd hlt (Nat.lt_irrefl _)
    · have hback := hordered index id (by simpa using hindex) (by simpa using hid) hcase
      rw [List.getElem_map, List.getElem_map, hat, hat'] at hback
      omega
  have hout : index ∉ id :: stack := by
    intro hmem
    rcases List.mem_cons.mp hmem with rfl | hmem
    · exact Nat.lt_irrefl _ hid
    · have hgt := (List.pairwise_cons.mp h.innermost).1 index hmem
      omega
  cases hclose : group'.closeToken with
  | some close => exact ⟨close, rfl⟩
  | none => exact absurd ((h.open_iff index group' hgroup').mp hclose) hout

/-- Closing the innermost group. -/
theorem Grouped.close (htoken : token.kind = .closeGroup id group.delimiter) :
    Grouped (tokens ++ [token])
      (groups.set id { group with closeToken := some tokens.length }) stack where
  opens := by
    intro index group' hgroup'
    rcases getElem?_close_cases h hgroup' with ⟨rfl, rfl⟩ | ⟨-, hgroup'⟩
    · exact kind_concat_left (h.opens index group hgroup)
    · exact kind_concat_left (h.opens index group' hgroup')
  closes := by
    intro index group' close hgroup' hclosed
    rcases getElem?_close_cases h hgroup' with ⟨rfl, rfl⟩ | ⟨-, hgroup'⟩
    · obtain rfl : tokens.length = close := Option.some.inj hclosed
      have hlt : group.openToken < tokens.length := h.openToken_lt hgroup
      exact ⟨hlt, kind_concat.mpr (.inr ⟨rfl, htoken⟩)⟩
    · obtain ⟨hlt, hkind⟩ := h.closes index group' close hgroup' hclosed
      exact ⟨hlt, kind_concat_left hkind⟩
  opened := by
    intro index id' delimiter hkind
    rcases kind_concat.mp hkind with hkind | ⟨-, hkind⟩
    · obtain ⟨group', hgroup', hopens, hdelimiter⟩ := h.opened index id' delimiter hkind
      by_cases hid : id' = id
      · subst hid
        obtain rfl : group = group' := Option.some.inj (hgroup.symm.trans hgroup')
        exact ⟨_, List.getElem?_set_self (h.bound id' (.head _)), hopens, hdelimiter⟩
      · exact ⟨group', (List.getElem?_set_ne (Ne.symm hid)).trans hgroup', hopens, hdelimiter⟩
    · rw [htoken] at hkind
      cases hkind
  closed := by
    intro index id' delimiter hkind
    rcases kind_concat.mp hkind with hkind | ⟨rfl, hlast⟩
    · obtain ⟨group', hgroup', hcloses, hdelimiter⟩ := h.closed index id' delimiter hkind
      have hid : id' ≠ id := by
        rintro rfl
        have hnone := (h.open_iff id' group' hgroup').mpr (.head _)
        rw [hcloses] at hnone
        cases hnone
      exact ⟨group', (List.getElem?_set_ne (Ne.symm hid)).trans hgroup', hcloses, hdelimiter⟩
    · rw [htoken] at hlast
      cases hlast
      exact ⟨_, List.getElem?_set_self (h.bound id (.head _)), rfl, rfl⟩
  nested := by
    intro index index' group₁ group₂ close hgroup₁ hgroup₂ hlt hclosed
    rcases getElem?_close_cases h hgroup₁ with ⟨rfl, rfl⟩ | ⟨-, hold₁⟩
    · obtain rfl : tokens.length = close := Option.some.inj hclosed
      rcases getElem?_close_cases h hgroup₂ with ⟨rfl, rfl⟩ | ⟨-, hold₂⟩
      · exact absurd hlt (Nat.lt_irrefl _)
      · obtain ⟨close', hclose'⟩ := h.closed_of_later hgroup hold₂ hlt
        exact .inr ⟨close', hclose', h.closeToken_lt hold₂ hclose'⟩
    · rcases getElem?_close_cases h hgroup₂ with ⟨rfl, rfl⟩ | ⟨-, hold₂⟩
      · -- the innermost group was open, so the other closed before it
        rcases h.nested index index' group₁ group close hold₁ hgroup hlt hclosed with
          hbefore | ⟨close', hclose', -⟩
        · exact .inl hbefore
        · have hnone := (h.open_iff index' group hgroup).mpr (.head _)
          rw [hclose'] at hnone
          cases hnone
      · exact h.nested index index' group₁ group₂ close hold₁ hold₂ hlt hclosed
  open_iff := by
    intro index group' hgroup'
    rcases getElem?_close_cases h hgroup' with ⟨rfl, rfl⟩ | ⟨hid, hgroup'⟩
    · refine ⟨fun hnone => absurd hnone (Option.some_ne_none _), fun hmem => ?_⟩
      exact absurd ((List.pairwise_cons.mp h.innermost).1 index hmem) (Nat.lt_irrefl _)
    · rw [h.open_iff index group' hgroup', List.mem_cons]
      exact ⟨fun hmem => hmem.resolve_left hid, .inr⟩
  bound := by
    intro index hindex
    rw [List.length_set]
    exact h.bound index (.tail _ hindex)
  innermost := (List.pairwise_cons.mp h.innermost).2
  ordered := by
    obtain ⟨hid, hat⟩ := List.getElem?_eq_some_iff.mp hgroup
    have hsame : (groups.map DelimiterGroup.openToken).set id group.openToken =
        groups.map DelimiterGroup.openToken := by
      rw [← hat, ← List.getElem_map DelimiterGroup.openToken (h := by simpa using hid),
        List.set_getElem_self]
    rw [List.map_set, hsame]
    exact h.ordered
  parents := by
    intro index group' parent hgroup' hparent
    rcases getElem?_close_cases h hgroup' with ⟨rfl, rfl⟩ | ⟨-, hgroup'⟩
    · exact h.parents index group parent hgroup hparent
    · exact h.parents index group' parent hgroup' hparent
  tables := by
    obtain ⟨state, hstate, hopened⟩ := h.tables
    rw [foldlM_tables_concat, hstate, Option.bind_some, TableState.add, htoken]
    dsimp only
    rw [if_pos (by rw [hopened]; rfl)]
    exact ⟨_, rfl, by rw [hopened]; rfl⟩

end Close

/-! ### The lexer's groups -/

namespace Lexer

variable {source : List Char} {s s' : Lexer N} {kind : TokenKind} {text : List Char}

/-- **A token keeps the groups nested.** -/
theorem Emits.grouped (hemits : Emits source s s' kind text)
    (h : Grouped s.tokens s.groups s.groupStack) :
    Grouped s'.tokens s'.groups s'.groupStack := by
  obtain ⟨leading, htokens⟩ := hemits.tokens
  rw [htokens]
  have hadds := hemits.adds
  cases hadds with
  | plain hkind _ _ groups groupStack =>
    rw [groups, groupStack]
    refine h.plain (fun id delimiter heq => ?_) (fun id delimiter heq => ?_) <;>
      (subst heq; cases hkind)
  | number _ _ groups groupStack | text _ _ _ groups groupStack =>
    rw [groups, groupStack]
    exact h.plain nofun nofun
  | opens _ _ groups groupStack =>
    rw [groups, groupStack]
    exact h.open rfl
  | closes _ _ hgroup groups groupStack =>
    rw [groups]
    rw [groupStack] at h
    exact h.close hgroup rfl

theorem StartsLine.grouped (hstarts : s.StartsLine s')
    (h : Grouped s.tokens s.groups s.groupStack) :
    Grouped s'.tokens s'.groups s'.groupStack := by
  obtain ⟨leading, htokens⟩ := hstarts.tokens
  rw [htokens, hstarts.groups, hstarts.groupStack]
  exact h.plain nofun nofun

end Lexer
end Glam.Syntax
