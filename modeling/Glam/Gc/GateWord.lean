import Mathlib.Data.Nat.Bitwise

/-!
# The word of the admission gate

The gate keeps the number of active outer mutators and a bit beside it in one atomic word
(`crates/glam-gc/src/admission/gate.rs`). The top bit, `COORDINATED`, says that outer entries and
exits must take the lock. Every operation on the word changes the count or the bit, and not the
other. -/

namespace Glam.Gc

/-- The atomic word, a `usize`. -/
abbrev Word := BitVec 64

/-- Set while outer entries and exits must take the lock. -/
def coordinatedBit : Word := 1 <<< 63

/-- The active outer-mutator count. -/
def activeMask : Word := ~~~ coordinatedBit

namespace Word

/-- The largest count that the word holds. -/
def full : Nat := 2 ^ 63 - 1

/-- Whether the word asks for coordination. -/
def coordinated (word : Word) : Bool := word &&& coordinatedBit != 0

/-- The number of active mutators that the word counts. -/
def active (word : Word) : Nat := (word &&& activeMask).toNat

/-- `fetch_or(COORDINATED)` -/
def coordinate (word : Word) : Word := word ||| coordinatedBit

/-- `fetch_and(ACTIVE)` -/
def uncoordinate (word : Word) : Word := word &&& activeMask

section

variable (word : Word)
include word

theorem active_eq : word.active = word.toNat % 2 ^ 63 := by
  unfold active
  rw [BitVec.toNat_and, show activeMask.toNat = 2 ^ 63 - 1 from rfl, Nat.and_two_pow_sub_one_eq_mod]

theorem coordinated_iff : word.coordinated = true ↔ 2 ^ 63 ≤ word.toNat := by
  have htwo : coordinatedBit = BitVec.twoPow 64 63 := rfl
  unfold coordinated
  rw [htwo, BitVec.and_twoPow, ← BitVec.msb_eq_getLsbD_last, BitVec.msb_eq_decide]
  by_cases h : 2 ^ (64 - 1) ≤ word.toNat
  · rw [decide_eq_true h]
    exact ⟨fun _ => h, fun _ => rfl⟩
  · rw [decide_eq_false h]
    exact ⟨nofun, fun hle => absurd hle h⟩

theorem active_le : word.active ≤ full := by
  rw [active_eq]
  exact Nat.le_of_lt_succ (Nat.mod_lt _ (by decide))

/-- Asking for coordination sets the top bit and keeps the count. -/
theorem toNat_coordinate : word.coordinate.toNat = 2 ^ 63 + word.toNat % 2 ^ 63 := by
  have hmod : word.toNat % 2 ^ 63 < 2 ^ 63 := Nat.mod_lt _ (by decide)
  unfold coordinate
  rw [BitVec.toNat_or, show coordinatedBit.toNat = 2 ^ 63 from rfl]
  have hlt : word.toNat < 2 ^ 64 := word.isLt
  have hor := Nat.two_pow_add_eq_or_of_lt hmod 1
  rw [Nat.mul_one] at hor
  rw [hor]
  apply Nat.eq_of_testBit_eq
  intro i
  rw [Nat.testBit_or, Nat.testBit_or, Nat.testBit_mod_two_pow, Nat.testBit_two_pow]
  by_cases hi : i < 63
  · simp [hi, Nat.ne_of_gt hi]
  · by_cases heq : 63 = i
    · simp [heq]
    · have hbig : word.toNat < 2 ^ i :=
        Nat.lt_of_lt_of_le hlt (Nat.pow_le_pow_right (by decide) (by omega))
      simp [hi, heq, Nat.testBit_lt_two_pow hbig]

@[simp] theorem active_coordinate : word.coordinate.active = word.active := by
  rw [active_eq, active_eq, toNat_coordinate, Nat.add_mod_left, Nat.mod_mod]

@[simp] theorem coordinated_coordinate : word.coordinate.coordinated = true := by
  rw [coordinated_iff, toNat_coordinate]
  exact Nat.le_add_right _ _

theorem toNat_uncoordinate : word.uncoordinate.toNat = word.toNat % 2 ^ 63 :=
  active_eq word

@[simp] theorem active_uncoordinate : word.uncoordinate.active = word.active := by
  rw [active_eq, active_eq, toNat_uncoordinate, Nat.mod_mod]

end

variable {word : Word}

/-- The count is below its limit: adding to the word adds to the count only. -/
theorem add_one (h : word.active ≠ full) :
    (word + 1).active = word.active + 1 ∧ (word + 1).coordinated = word.coordinated := by
  have hlt : word.toNat < 2 ^ 64 := word.isLt
  have hadd : (word + 1).toNat = (word.toNat + 1) % 2 ^ 64 := BitVec.toNat_add ..
  rw [active_eq, full] at h
  constructor
  · rw [active_eq, active_eq, hadd]
    omega
  · rw [Bool.eq_iff_iff, coordinated_iff, coordinated_iff, hadd]
    omega

/-- The count is not zero: taking from the word takes from the count only. -/
theorem sub_one (h : word.active ≠ 0) :
    (word - 1).active + 1 = word.active ∧ (word - 1).coordinated = word.coordinated := by
  have hlt : word.toNat < 2 ^ 64 := word.isLt
  have hsub : (word - 1).toNat = (2 ^ 64 - 1 + word.toNat) % 2 ^ 64 := BitVec.toNat_sub ..
  rw [active_eq] at h
  constructor
  · rw [active_eq, active_eq, hsub]
    omega
  · rw [Bool.eq_iff_iff, coordinated_iff, coordinated_iff, hsub]
    omega

theorem active_ne_full (hbit : word.coordinated = false) (hne : word ≠ activeMask) :
    word.active ≠ full := by
  intro hfull
  refine hne (BitVec.eq_of_toNat_eq ?_)
  have hlt : word.toNat < 2 ^ 63 := Nat.not_le.mp fun hle => by
    rw [(coordinated_iff word).mpr hle] at hbit
    cases hbit
  rw [active_eq, Nat.mod_eq_of_lt hlt] at hfull
  exact hfull

end Word

end Glam.Gc
