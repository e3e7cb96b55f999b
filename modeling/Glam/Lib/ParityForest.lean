import Glam.Lib.Rank
import Mathlib.Tactic.Common

/-!
# Union-find with parity

A forest over a finite type in which every element knows whether its sign differs from its parent's.
It solves equations between two-valued unknowns, each saying that two of them are equal or that they
are opposite: `join` takes in one equation, and refuses it if it contradicts the earlier ones.

What a forest says is the set of assignments that respect it (`Respects`). The operations are
specified by that set: `find` leaves it, though it redirects the elements on its way to the root
(`find_spec`), and `join` keeps of it what solves the new equation, or finds that nothing in it does
(`join_spec`). An assignment that respects a forest is free at the roots and determined by them
(`respects_ofRoots`).

The climb to a root is bounded by the number of elements. That it gets there rests on one invariant,
that some rank falls along every step up (`Rooted`), which any rank does as long as it does, so the
proofs choose a new one where trees are linked.
-/

/-- A forest with a sign relative to the parent. A root is its own parent. -/
structure ParityForest (α : Type*) where
  parent : α → α
  flipped : α → Bool

namespace ParityForest

variable {α : Type*}

/-- Every element a root. -/
def new : ParityForest α where
  parent := id
  flipped := fun _ => false

variable (F : ParityForest α)

/-- Whether an element is its own parent. -/
def IsRoot (a : α) : Prop := F.parent a = a

instance [DecidableEq α] (F : ParityForest α) (a : α) : Decidable (F.IsRoot a) :=
  inferInstanceAs (Decidable (_ = _))

/-! ### Climbing -/

/-- `b` is at or above `a`, and their signs differ if `odd`. -/
inductive Climbs (F : ParityForest α) : α → α → Bool → Prop
  | here (a : α) : Climbs F a a false
  | up {a b : α} {odd : Bool} (h : ¬ F.IsRoot a) :
      Climbs F (F.parent a) b odd → Climbs F a b (F.flipped a ^^ odd)

/-- The root of `a`, and whether their signs differ. -/
def Resolves (a root : α) (odd : Bool) : Prop :=
  F.Climbs a root odd ∧ F.IsRoot root

/-- Some rank falls with every step towards the root. -/
def Rooted : Prop :=
  ∃ rank : α → ℕ, ∀ a, ¬ F.IsRoot a → rank (F.parent a) < rank a

theorem rooted_new : (new : ParityForest α).Rooted :=
  ⟨fun _ => 0, fun _ h => absurd rfl h⟩

variable {F : ParityForest α} {a root b : α} {odd : Bool} {sign : α → Bool}

theorem Resolves.of_root (h : F.IsRoot a) : F.Resolves a a false :=
  ⟨.here a, h⟩

theorem Resolves.up (h : ¬ F.IsRoot a) (hup : F.Resolves (F.parent a) root odd) :
    F.Resolves a root (F.flipped a ^^ odd) :=
  ⟨.up h hup.1, hup.2⟩

theorem Resolves.parent (h : F.Resolves a root odd) (ha : ¬ F.IsRoot a) :
    F.Resolves (F.parent a) root (odd ^^ F.flipped a) := by
  obtain ⟨hclimbs, hroot⟩ := h
  cases hclimbs with
  | here => exact absurd hroot ha
  | up =>
    refine ⟨?_, hroot⟩
    rwa [Bool.xor_comm (F.flipped a), Bool.xor_assoc, Bool.xor_self, Bool.xor_false]

theorem Resolves.eq_of_root (h : F.Resolves a root odd) (ha : F.IsRoot a) :
    root = a ∧ odd = false := by
  obtain ⟨hclimbs, -⟩ := h
  cases hclimbs with
  | here => exact ⟨rfl, rfl⟩
  | up hne _ => exact absurd ha hne

theorem Resolves.unique {root' : α} {odd' : Bool} (h : F.Resolves a root odd)
    (h' : F.Resolves a root' odd') : root = root' ∧ odd = odd' := by
  obtain ⟨hclimbs, hroot⟩ := h
  induction hclimbs generalizing odd' with
  | here =>
    obtain ⟨rfl, rfl⟩ := h'.eq_of_root hroot
    exact ⟨rfl, rfl⟩
  | @up a b odd hne _ ih =>
    obtain ⟨hroots, hodd⟩ := ih (h'.parent hne) hroot
    refine ⟨hroots, ?_⟩
    rw [hodd, Bool.xor_comm odd', ← Bool.xor_assoc, Bool.xor_self, Bool.false_xor]

theorem Rooted.exists_resolves (h : F.Rooted) (a : α) : ∃ root odd, F.Resolves a root odd := by
  obtain ⟨rank, hrank⟩ := h
  induction hn : rank a using Nat.strong_induction_on generalizing a with
  | _ n ih =>
    by_cases ha : F.IsRoot a
    · exact ⟨a, false, .of_root ha⟩
    · obtain ⟨root, odd, hres⟩ := ih _ (hn ▸ hrank a ha) (F.parent a) rfl
      exact ⟨root, _, hres.up ha⟩

/-! ### Assignments -/

/-- The signs differ along the edges where the forest says so. -/
def Respects (sign : α → Bool) : Prop :=
  ∀ a, ¬ F.IsRoot a → sign a = (sign (F.parent a) ^^ F.flipped a)

theorem respects_new (sign : α → Bool) : (new : ParityForest α).Respects sign :=
  fun _ h => absurd rfl h

theorem Respects.resolves (h : F.Respects sign) (hres : F.Resolves a root odd) :
    sign a = (sign root ^^ odd) := by
  obtain ⟨hclimbs, -⟩ := hres
  induction hclimbs with
  | here => rw [Bool.xor_false]
  | @up a b odd hne _ ih => rw [h a hne, ih, Bool.xor_assoc, Bool.xor_comm odd]

/-- **Every choice of signs at the roots extends** to an assignment that respects the forest. -/
theorem Rooted.respects_ofRoots (h : F.Rooted) (atRoot sign : α → Bool)
    (hsign : ∀ a root odd, F.Resolves a root odd → sign a = (atRoot root ^^ odd)) :
    F.Respects sign := by
  intro a ha
  obtain ⟨root, odd, hres⟩ := h.exists_resolves (F.parent a)
  rw [hsign _ _ _ (hres.up ha), hsign _ _ _ hres, Bool.xor_assoc, Bool.xor_comm odd]

theorem Rooted.respects_iff (h : F.Rooted) :
    F.Respects sign ↔ ∀ a root odd, F.Resolves a root odd → sign a = (sign root ^^ odd) := by
  constructor
  · intro hsign a root odd hres
    exact hsign.resolves hres
  · exact h.respects_ofRoots sign sign

theorem Rooted.exists_respects (h : F.Rooted) : ∃ sign, F.Respects sign := by
  choose root odd hres using h.exists_resolves
  refine ⟨odd, h.respects_ofRoots (fun _ => false) odd ?_⟩
  intro a root' odd' hres'
  rw [Bool.false_xor, ((hres a).unique hres').2]

/-- The two forests have the same roots, with the same signs relative to them. -/
def Equiv (F G : ParityForest α) : Prop :=
  ∀ a root odd, F.Resolves a root odd ↔ G.Resolves a root odd

theorem Equiv.refl (F : ParityForest α) : F.Equiv F := fun _ _ _ => Iff.rfl

theorem Equiv.trans {G H : ParityForest α} (h : F.Equiv G) (h' : G.Equiv H) : F.Equiv H :=
  fun a root odd => (h a root odd).trans (h' a root odd)

theorem Equiv.respects_iff {G : ParityForest α} (h : F.Equiv G) (hF : F.Rooted) (hG : G.Rooted) :
    F.Respects sign ↔ G.Respects sign := by
  rw [hF.respects_iff, hG.respects_iff]
  simp only [h _ _ _]

variable [DecidableEq α]

/-! ### Finding roots -/

/-- The climb from `a`, at most `fuel` steps, with the parity so far. -/
def climb (F : ParityForest α) : ℕ → α → Bool → α × Bool
  | 0, a, odd => (a, odd)
  | fuel + 1, a, odd =>
    if F.parent a = a then (a, odd) else F.climb fuel (F.parent a) (odd ^^ F.flipped a)

/-- Climbing finds the root, and the parity of the way there. -/
theorem climb_resolves {rank : α → ℕ} (hrank : ∀ a, ¬ F.IsRoot a → rank (F.parent a) < rank a)
    {fuel : ℕ} (hfuel : rank a < fuel) (odd : Bool) :
    F.Resolves a (F.climb fuel a odd).1 ((F.climb fuel a odd).2 ^^ odd) := by
  induction fuel generalizing a odd with
  | zero => omega
  | succ fuel ih =>
    rw [climb]
    split
    · next ha =>
      rw [Bool.xor_self]
      exact .of_root ha
    · next ha =>
      have hup := hrank a ha
      have hres := (ih (a := F.parent a) (by omega) (odd ^^ F.flipped a)).up ha
      -- the parity picks up the edge just climbed
      rwa [Bool.xor_comm (F.flipped a), Bool.xor_assoc, Bool.xor_assoc, Bool.xor_self,
        Bool.xor_false] at hres

/-- `a` redirected to `root`. -/
def redirect (a root : α) (odd : Bool) : ParityForest α where
  parent := Function.update F.parent a root
  flipped := Function.update F.flipped a odd

section Redirect

variable (F : ParityForest α) (a root : α) (odd : Bool)

@[simp] theorem redirect_parent_self : (F.redirect a root odd).parent a = root :=
  Function.update_self ..

@[simp] theorem redirect_flipped_self : (F.redirect a root odd).flipped a = odd :=
  Function.update_self ..

variable {b : α} (h : b ≠ a)
include h

theorem redirect_parent_of_ne : (F.redirect a root odd).parent b = F.parent b :=
  Function.update_of_ne h ..

theorem redirect_flipped_of_ne : (F.redirect a root odd).flipped b = F.flipped b :=
  Function.update_of_ne h ..

end Redirect

theorem isRoot_redirect_of_ne (h : b ≠ a) : (F.redirect a root odd).IsRoot b ↔ F.IsRoot b := by
  rw [IsRoot, redirect_parent_of_ne F a root odd h, IsRoot]

omit [DecidableEq α] in
theorem Climbs.rank_le {rank : α → ℕ} (hrank : ∀ a, ¬ F.IsRoot a → rank (F.parent a) < rank a)
    (h : F.Climbs a b odd) : rank b ≤ rank a := by
  induction h with
  | here => exact le_rfl
  | up ha _ ih => exact ih.trans (hrank _ ha).le

section Redirect

variable {F : ParityForest α} {a root : α} {odd : Bool} (ha : ¬ F.IsRoot a)
  (hres : F.Resolves a root odd)
include ha hres

theorem not_isRoot_redirect : ¬ (F.redirect a root odd).IsRoot a := by
  have hne : root ≠ a := by
    rintro rfl
    exact ha hres.2
  rwa [IsRoot, redirect_parent_self]

/-- Pointing an element at its root makes no cycle. -/
theorem Rooted.redirect (h : F.Rooted) : (F.redirect a root odd).Rooted := by
  obtain ⟨rank, hrank⟩ := h
  refine ⟨rank, ?_⟩
  intro b hb
  by_cases hba : b = a
  · -- the root lies below what climbs to it
    subst hba
    have hle := (hres.parent ha).1.rank_le hrank
    have hlt := hrank b ha
    rw [redirect_parent_self]
    omega
  · rw [isRoot_redirect_of_ne hba] at hb
    rw [redirect_parent_of_ne F a root odd hba]
    exact hrank b hb

/-- Pointing an element at its root keeps all parities. -/
theorem Resolves.redirect {r : α} {p : Bool} (h : F.Resolves b r p) :
    (F.redirect a root odd).Resolves b r p := by
  obtain ⟨hclimbs, hr⟩ := h
  induction hclimbs with
  | here =>
    refine .of_root ((isRoot_redirect_of_ne ?_).mpr hr)
    rintro rfl
    exact ha hr
  | @up b r p hb hup ih =>
    by_cases hba : b = a
    · subst hba
      have hsame := hres.unique ⟨.up hb hup, hr⟩
      obtain ⟨rfl, rfl⟩ := hsame
      have hroot : (F.redirect b root (F.flipped b ^^ p)).IsRoot root := by
        refine (isRoot_redirect_of_ne ?_).mpr hr
        rintro rfl
        exact ha hr
      have hup' : (F.redirect b root (F.flipped b ^^ p)).Resolves
          ((F.redirect b root (F.flipped b ^^ p)).parent b) root false := by
        rw [redirect_parent_self]
        exact .of_root hroot
      have hself := hup'.up (not_isRoot_redirect ha hres)
      rwa [redirect_flipped_self, Bool.xor_false] at hself
    · have hb' : ¬ (F.redirect a root odd).IsRoot b :=
        fun h => hb ((isRoot_redirect_of_ne hba).mp h)
      have hup' : (F.redirect a root odd).Resolves ((F.redirect a root odd).parent b) r p := by
        rw [redirect_parent_of_ne F a root odd hba]
        exact ih hr
      have hb'' := hup'.up hb'
      rwa [redirect_flipped_of_ne F a root odd hba] at hb''

/-- **Redirecting an element to its own root changes no resolution.** -/
theorem Rooted.redirect_equiv (h : F.Rooted) : (F.redirect a root odd).Equiv F := by
  intro b r p
  constructor
  · intro hnew
    obtain ⟨r', p', hold⟩ := h.exists_resolves b
    obtain ⟨rfl, rfl⟩ := (Resolves.redirect ha hres hold).unique hnew
    exact hold
  · exact Resolves.redirect ha hres

end Redirect

/-- The compressing walk from `a` to `root`, at most `fuel` steps, with `a`'s parity. -/
def compress (root : α) : ℕ → ParityForest α → α → Bool → ParityForest α
  | 0, F, _, _ => F
  | fuel + 1, F, a, odd =>
    if F.parent a = a then F
    else compress root fuel (F.redirect a root odd) (F.parent a) (odd ^^ F.flipped a)

/-- Compression changes no root and no parity. -/
theorem Rooted.compress (h : F.Rooted) (hres : F.Resolves a root odd) (fuel : ℕ) :
    (compress root fuel F a odd).Rooted ∧ (compress root fuel F a odd).Equiv F := by
  induction fuel generalizing F a odd with
  | zero => exact ⟨h, .refl F⟩
  | succ fuel ih =>
    rw [ParityForest.compress]
    split
    · exact ⟨h, .refl F⟩
    · next ha =>
      have hequiv := h.redirect_equiv ha hres
      have hup := (hequiv _ _ _).mpr (hres.parent ha)
      obtain ⟨hrooted, hrest⟩ := ih (h.redirect ha hres) hup
      exact ⟨hrooted, hrest.trans hequiv⟩

variable [Fintype α]

/-- The root of `a` and whether their signs differ, compressing the path behind. -/
def find (a : α) : ParityForest α × α × Bool :=
  let found := F.climb (Fintype.card α) a false
  (compress found.1 (Fintype.card α) F a found.2, found)

/-- **Finding** resolves the element, and leaves every resolution. -/
theorem Rooted.find (h : F.Rooted) (a : α) :
    F.Resolves a (F.find a).2.1 (F.find a).2.2 ∧ (F.find a).1.Rooted ∧ (F.find a).1.Equiv F := by
  have hrooted := h
  -- the fuel is enough, since some rank below the number of elements falls with every step
  obtain ⟨rank, hrank⟩ := h
  obtain ⟨rank, hrank, hcard⟩ :=
    exists_rank_lt_card (r := fun a b => ¬ F.IsRoot a ∧ b = F.parent a)
      ⟨rank, fun a b hab => hab.2 ▸ hrank a hab.1⟩
  have hres := climb_resolves (fun a ha => hrank a _ ⟨ha, rfl⟩) (hcard a) false
  rw [Bool.xor_false] at hres
  exact ⟨hres, hrooted.compress hres _⟩

/-! ### Joining -/

/-- Takes in that `left` and `right` have equal signs, or opposite ones. Returns false when that
contradicts what is known. -/
def join (left right : α) (opposite : Bool) : ParityForest α × Bool :=
  let atLeft := F.find left
  let atRight := atLeft.1.find right
  let flipped := (atLeft.2.2 ^^ atRight.2.2) ^^ opposite
  if atLeft.2.1 = atRight.2.1 then (atRight.1, !flipped)
  else (atRight.1.redirect atLeft.2.1 atRight.2.1 flipped, true)

omit [Fintype α] in
/-- Linking two roots makes no cycle. -/
theorem Rooted.link (h : F.Rooted) (ha : F.IsRoot a) (hb : F.IsRoot b) (hab : a ≠ b) (odd : Bool) :
    (F.redirect a b odd).Rooted := by
  classical
  have hrooted := h
  obtain ⟨rank, hrank⟩ := h
  -- lift the whole tree of `a` above the rank of `b`
  refine ⟨fun x => if ∃ p, F.Resolves x a p then rank x + (rank b + 1) else rank x, ?_⟩
  intro x hx
  by_cases hxa : x = a
  · subst hxa
    have hself : ∃ p, F.Resolves x x p := ⟨false, .of_root ha⟩
    have hother : ¬ ∃ p, F.Resolves b x p := by
      rintro ⟨p, hp⟩
      exact hab (hp.eq_of_root hb).1
    simp only [redirect_parent_self, if_pos hself, if_neg hother]
    omega
  · rw [isRoot_redirect_of_ne hxa] at hx
    have hlt := hrank x hx
    have hiff : (∃ p, F.Resolves (F.parent x) a p) ↔ ∃ p, F.Resolves x a p :=
      ⟨fun ⟨p, hp⟩ => ⟨_, hp.up hx⟩, fun ⟨p, hp⟩ => ⟨_, hp.parent hx⟩⟩
    simp only [redirect_parent_of_ne F a b odd hxa, hiff]
    split
    · omega
    · exact hlt

omit [Fintype α] in
/-- Linking a root below another element asks their signs to be as said, and nothing else. -/
theorem respects_link_iff (ha : F.IsRoot a) (hab : a ≠ b) (odd : Bool) :
    (F.redirect a b odd).Respects sign ↔ F.Respects sign ∧ sign a = (sign b ^^ odd) := by
  have hroot : ¬ (F.redirect a b odd).IsRoot a := by
    rw [IsRoot, redirect_parent_self]
    exact hab.symm
  constructor
  · intro h
    refine ⟨?_, ?_⟩
    · intro x hx
      have hxa : x ≠ a := by
        rintro rfl
        exact hx ha
      have hnew := h x (mt (isRoot_redirect_of_ne hxa).mp hx)
      rwa [redirect_parent_of_ne F a b odd hxa, redirect_flipped_of_ne F a b odd hxa] at hnew
    · have hnew := h a hroot
      rwa [redirect_parent_self, redirect_flipped_self] at hnew
  · rintro ⟨h, hlink⟩ x hx
    by_cases hxa : x = a
    · subst hxa
      rwa [redirect_parent_self, redirect_flipped_self]
    · rw [isRoot_redirect_of_ne hxa] at hx
      rw [redirect_parent_of_ne F a b odd hxa, redirect_flipped_of_ne F a b odd hxa]
      exact h x hx

omit [Fintype α] in
/-- Below a linked root everything is as it was; above it, the other tree's root is the root. -/
theorem Resolves.of_link (ha : F.IsRoot a) (hb : F.IsRoot b) (hab : a ≠ b) {x : α} {p : Bool}
    (h : (F.redirect a b odd).Resolves x root p) :
    (∃ q, F.Resolves x root q) ∨ (root = b ∧ ∃ q, F.Resolves x a q) := by
  obtain ⟨hclimbs, hroot⟩ := h
  induction hclimbs with
  | here x =>
    have hxa : x ≠ a := by
      rintro rfl
      rw [IsRoot, redirect_parent_self] at hroot
      exact hab hroot.symm
    exact .inl ⟨false, .of_root ((isRoot_redirect_of_ne hxa).mp hroot)⟩
  | @up x root p hx hup ih =>
    by_cases hxa : x = a
    · subst hxa
      right
      have hup' : (F.redirect x b odd).Resolves b root p := by
        rw [redirect_parent_self] at hup
        exact ⟨hup, hroot⟩
      have hb' : (F.redirect x b odd).IsRoot b := (isRoot_redirect_of_ne hab.symm).mpr hb
      exact ⟨(hup'.eq_of_root hb').1, false, .of_root ha⟩
    · rw [isRoot_redirect_of_ne hxa] at hx
      rw [redirect_parent_of_ne F a b odd hxa] at ih
      rcases ih hroot with ⟨q, hq⟩ | ⟨hrb, q, hq⟩
      · exact .inl ⟨_, hq.up hx⟩
      · exact .inr ⟨hrb, _, hq.up hx⟩

/-- **Joining.** It keeps, of the assignments that respect the forest, those that solve the new
equation; where it refuses, none of them does. -/
theorem Rooted.join (h : F.Rooted) (left right : α) (opposite : Bool) :
    (F.join left right opposite).1.Rooted ∧
      ((F.join left right opposite).2 = true → ∀ sign,
        ((F.join left right opposite).1.Respects sign ↔
          F.Respects sign ∧ sign left = (sign right ^^ opposite))) ∧
      ((F.join left right opposite).2 = false →
        (∃ root p q, F.Resolves left root p ∧ F.Resolves right root q) ∧
          ∀ sign, F.Respects sign → sign left ≠ (sign right ^^ opposite)) := by
  obtain ⟨hleft, hrooted₁, hequiv₁⟩ := h.find left
  obtain ⟨hright', hrooted₂, hequiv₂⟩ := hrooted₁.find right
  have hequiv := hequiv₂.trans hequiv₁
  have hright := (hequiv₁ _ _ _).mp hright'
  have hrespects : ∀ sign, ((F.find left).1.find right).1.Respects sign ↔ F.Respects sign :=
    fun sign => hequiv.respects_iff hrooted₂ h
  unfold ParityForest.join
  dsimp only
  generalize hatLeft : F.find left = atLeft at *
  generalize hatRight : atLeft.1.find right = atRight at *
  have hodd : ∀ a flipped : Bool, (a = (a ^^ flipped)) ↔ flipped = false := by decide
  -- what an assignment gives the two elements, by their roots
  have hsolve : ∀ sign, F.Respects sign → ∀ flipped,
      flipped = ((atLeft.2.2 ^^ atRight.2.2) ^^ opposite) →
      (sign atLeft.2.1 = (sign atRight.2.1 ^^ flipped) ↔
        sign left = (sign right ^^ opposite)) := by
    intro sign hsign flipped hflipped
    rw [hsign.resolves hleft, hsign.resolves hright, hflipped]
    cases sign atLeft.2.1 <;> cases sign atRight.2.1 <;> cases atLeft.2.2 <;>
      cases atRight.2.2 <;> cases opposite <;> simp
  split
  · next hsame =>
    refine ⟨hrooted₂, ?_, ?_⟩
    · intro haccept sign
      rw [hrespects]
      refine ⟨fun hsign => ⟨hsign, ?_⟩, And.left⟩
      rw [← hsolve sign hsign _ rfl, hsame, hodd]
      rwa [Bool.not_eq_true'] at haccept
    · intro hrefuse
      refine ⟨⟨_, _, _, hleft, hsame ▸ hright⟩, ?_⟩
      intro sign hsign
      rw [Ne, ← hsolve sign hsign _ rfl, hsame, hodd, Bool.not_eq_false]
      rwa [Bool.not_eq_false'] at hrefuse
  · next hdiffer =>
    have hroot : atRight.1.IsRoot atLeft.2.1 := ((hequiv _ _ _).mpr hleft).2
    have hroot' : atRight.1.IsRoot atRight.2.1 := ((hequiv _ _ _).mpr hright).2
    refine ⟨hrooted₂.link hroot hroot' hdiffer _, ?_, nofun⟩
    intro _ sign
    rw [respects_link_iff hroot hdiffer, hrespects]
    exact and_congr_right fun hsign => hsolve sign hsign _ rfl

/-- **Joined trees were linked.** Elements with one root after a join are related by any equivalence
that relates those with one root before it, and the two joined. -/
theorem Rooted.join_related (h : F.Rooted) (left right : α) (opposite : Bool) {r : α → α → Prop}
    (hr : Equivalence r) (hold : ∀ a root odd, F.Resolves a root odd → r a root)
    (hjoined : r left right) (hres : (F.join left right opposite).1.Resolves a root odd) :
    r a root := by
  obtain ⟨hleft, hrooted₁, hequiv₁⟩ := h.find left
  obtain ⟨hright', hrooted₂, hequiv₂⟩ := hrooted₁.find right
  have hequiv := hequiv₂.trans hequiv₁
  have hright := (hequiv₁ _ _ _).mp hright'
  unfold ParityForest.join at hres
  dsimp only at hres
  split at hres
  · exact hold a root odd ((hequiv a root odd).mp hres)
  · next hdiffer =>
    have hroot := ((hequiv _ _ _).mpr hleft).2
    have hroot' := ((hequiv _ _ _).mpr hright).2
    rcases hres.of_link hroot hroot' hdiffer with ⟨p, hp⟩ | ⟨rfl, p, hp⟩
    · exact hold a root p ((hequiv a root p).mp hp)
    · -- through the root of `left`, `left` and `right`
      have hupper := hold _ _ _ ((hequiv _ _ _).mp hp)
      exact hr.trans hupper (hr.trans (hr.symm (hold _ _ _ hleft))
        (hr.trans hjoined (hold _ _ _ hright)))

end ParityForest
