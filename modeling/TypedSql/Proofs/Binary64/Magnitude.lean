import Mathlib.Algebra.Order.Field.Power
import Mathlib.Order.Monotone.Basic
import Mathlib.Tactic.FieldSimp
import Mathlib.Tactic.Linarith
import Mathlib.Tactic.Positivity
import Mathlib.Tactic.Ring
import TypedSql.Binary64.Basic

/-!
# Magnitudes

The magnitude of a double is its word without the sign, a natural number.  Magnitudes are ordered
as the numbers they stand for, so that the next number after one of magnitude `b` is that of
magnitude `b + 1`; the sequence goes on without end, the magnitude of the infinities standing for
`2 ^ 1024`.

A magnitude is `k * 2 ^ 52 + m` for a number `m * 2 ^ (k - 1074)` with `m` of at most fifty-three
bits, and of no fewer unless `k` is zero (`value_add`).
-/

namespace TypedSql.Binary64

/-- The number that a magnitude stands for. -/
def value (b : ℕ) : ℚ :=
  ((if b / exponentPlace = 0 then b % exponentPlace else exponentPlace + b % exponentPlace : ℕ) : ℚ)
    * 2 ^ (((max (b / exponentPlace) 1 : ℕ) : ℤ) - 1075)

/-- The number of a magnitude in its parts.  When the leading bits carry into the next exponent the
number is still the same. -/
theorem value_add {k m : ℕ} (hm : m ≤ 2 * exponentPlace) (hk : k = 0 ∨ exponentPlace ≤ m) :
  value (k * exponentPlace + m) = m * 2 ^ ((k : ℤ) - 1074)
  := by
  have hplace : 0 < exponentPlace := by decide
  rw [value]
  obtain hsmall | hlarge := Nat.lt_or_ge m exponentPlace
  · obtain rfl : k = 0 := by omega
    have hdiv : (0 * exponentPlace + m) / exponentPlace = 0 := by
      rw [Nat.zero_mul, Nat.zero_add, Nat.div_eq_of_lt hsmall]
    rw [hdiv, if_pos rfl, Nat.zero_mul, Nat.zero_add, Nat.mod_eq_of_lt hsmall]
    norm_num
  · obtain ⟨r, rfl⟩ := Nat.exists_eq_add_of_le hlarge
    obtain hr | hr := Nat.lt_or_ge r exponentPlace
    · have hsum : k * exponentPlace + (exponentPlace + r) = r + (k + 1) * exponentPlace := by ring
      have hdiv : (r + (k + 1) * exponentPlace) / exponentPlace = k + 1 := by
        rw [Nat.add_mul_div_right _ _ hplace, Nat.div_eq_of_lt hr, Nat.zero_add]
      have hmod : (r + (k + 1) * exponentPlace) % exponentPlace = r := by
        rw [Nat.add_mul_mod_self_right, Nat.mod_eq_of_lt hr]
      rw [hsum, hdiv, hmod, if_neg (Nat.succ_ne_zero k), max_eq_left (Nat.le_add_left 1 k)]
      congr 2
      push_cast
      ring
    · -- the leading bits are those of the next power of two
      obtain rfl : r = exponentPlace := by omega
      have hsum : k * exponentPlace + (exponentPlace + exponentPlace)
          = 0 + (k + 2) * exponentPlace := by ring
      have hdiv : (0 + (k + 2) * exponentPlace) / exponentPlace = k + 2 := by
        rw [Nat.add_mul_div_right _ _ hplace, Nat.zero_div, Nat.zero_add]
      have hmod : (0 + (k + 2) * exponentPlace) % exponentPlace = 0 := by
        rw [Nat.add_mul_mod_self_right, Nat.zero_mod]
      have hexponent : ((k + 2 : ℕ) : ℤ) - 1075 = (k : ℤ) - 1074 + 1 := by
        push_cast
        ring
      rw [hsum, hdiv, hmod, if_neg (Nat.succ_ne_zero _), max_eq_left (by omega), hexponent,
        zpow_add_one₀ (by norm_num)]
      push_cast
      ring

/-- Every magnitude has its parts. -/
theorem exists_eq_add (b : ℕ) :
  ∃ k m, b = k * exponentPlace + m ∧ m < 2 * exponentPlace ∧ (k = 0 ∨ exponentPlace ≤ m)
  := by
  have hplace : 0 < exponentPlace := by decide
  have hb := Nat.div_add_mod' b exponentPlace
  have hmod := Nat.mod_lt b hplace
  obtain hzero | hpos := Nat.eq_zero_or_pos (b / exponentPlace)
  · refine ⟨0, b, by omega, ?_, .inl rfl⟩
    rw [hzero] at hb
    omega
  · obtain ⟨k, hk⟩ := Nat.exists_eq_add_one_of_ne_zero hpos.ne'
    refine ⟨k, exponentPlace + b % exponentPlace, ?_, by omega, .inr (by omega)⟩
    rw [hk] at hb
    linarith

theorem value_zero :
  value 0 = 0
  := by
  have h := value_add (k := 0) (m := 0) (by decide) (.inl rfl)
  simpa using h

/-- The numbers of a magnitude and of the next one have a common unit in the last place. -/
theorem exists_value_succ (b : ℕ) :
  ∃ k m : ℕ, m < 2 * exponentPlace ∧ (k = 0 ∨ exponentPlace ≤ m)
    ∧ b = k * exponentPlace + m
    ∧ value b = m * 2 ^ ((k : ℤ) - 1074) ∧ value (b + 1) = (m + 1) * 2 ^ ((k : ℤ) - 1074)
  := by
  obtain ⟨k, m, rfl, hm, hk⟩ := exists_eq_add b
  refine ⟨k, m, hm, hk, rfl, value_add (by omega) hk, ?_⟩
  rw [Nat.add_assoc, value_add (by omega) (by omega)]
  push_cast
  ring

theorem value_strictMono :
  StrictMono value
  := by
  apply strictMono_nat_of_lt_succ
  intro b
  obtain ⟨k, m, -, -, -, hb, hnext⟩ := exists_value_succ b
  have hunit : (0 : ℚ) < 2 ^ ((k : ℤ) - 1074) := by positivity
  rw [hb, hnext]
  linarith

theorem value_nonneg (b : ℕ) :
  0 ≤ value b
  := by
  rw [← value_zero]
  exact value_strictMono.monotone (Nat.zero_le b)

theorem value_pos {b : ℕ} (h : 0 < b) :
  0 < value b
  := by
  rw [← value_zero]
  exact value_strictMono h

/-- From a positive number the next one is at most twice as large. -/
theorem value_succ_le {b : ℕ} (h : 0 < b) :
  value (b + 1) ≤ 2 * value b
  := by
  obtain ⟨k, m, -, hk, hsum, hb, hnext⟩ := exists_value_succ b
  have hunit : (0 : ℚ) < 2 ^ ((k : ℤ) - 1074) := by positivity
  have hm : (1 : ℚ) ≤ m := by
    have hpos : 1 ≤ m := by
      obtain rfl | hk := hk
      · omega
      · exact Nat.le_trans (by decide) hk
    exact_mod_cast hpos
  rw [hb, hnext, ← mul_assoc]
  exact mul_le_mul_of_nonneg_right (by linarith) hunit.le

/-- Half a unit in the last place of a number of fifty-two bits, relative to the number. -/
def roundoff : ℚ := 1 / 2 ^ 53

/-- The next number is larger by the relative roundoff at least. -/
theorem value_le_succ (b : ℕ) :
  value b ≤ (1 - roundoff) * value (b + 1)
  := by
  obtain ⟨k, m, hm, -, -, hb, hnext⟩ := exists_value_succ b
  have hunit : (0 : ℚ) < 2 ^ ((k : ℤ) - 1074) := by positivity
  have hbound : (m : ℚ) + 1 ≤ 2 ^ 53 := by
    have hnat : m + 1 ≤ 2 ^ 53 := hm
    exact_mod_cast hnat
  rw [hb, hnext, ← mul_assoc]
  apply mul_le_mul_of_nonneg_right _ hunit.le
  rw [roundoff]
  linarith

/-! ### Words -/

/-- The word of a double without its sign. -/
def magnitude (x : Binary64) : ℕ :=
  x.bits.toNat % signPlace

theorem magnitude_lt (x : Binary64) :
  x.magnitude < signPlace
  :=
  Nat.mod_lt _ (by decide)

/-- A double is its sign and its magnitude. -/
theorem ofMagnitude_magnitude (x : Binary64) :
  ofMagnitude x.negative x.magnitude = x
  := by
  obtain ⟨bits⟩ := x
  have hlt : bits.toNat < 2 * signPlace := bits.toNat_lt
  have hsum : (if decide (signPlace ≤ bits.toNat) then signPlace else 0) + bits.toNat % signPlace
      = bits.toNat := by
    by_cases h : signPlace ≤ bits.toNat
    · rw [decide_eq_true h, if_pos rfl, Nat.mod_eq_sub_mod h, Nat.mod_eq_of_lt (by omega)]
      omega
    · rw [decide_eq_false h, if_neg Bool.false_ne_true, Nat.mod_eq_of_lt (by omega), Nat.zero_add]
  rw [ofMagnitude, negative, magnitude, hsum, UInt64.ofNat_toNat]

variable {s : Bool} {b : ℕ}

theorem toNat_bits_ofMagnitude (hb : b < signPlace) :
  (ofMagnitude s b).bits.toNat = (if s then signPlace else 0) + b
  := by
  apply UInt64.toNat_ofNat_of_lt'
  have hsize : UInt64.size = 2 * signPlace := rfl
  split <;> omega

theorem magnitude_ofMagnitude (hb : b < signPlace) :
  (ofMagnitude s b).magnitude = b
  := by
  rw [magnitude, toNat_bits_ofMagnitude hb]
  cases s
  · rw [if_neg Bool.false_ne_true, Nat.zero_add, Nat.mod_eq_of_lt hb]
  · rw [if_pos rfl, Nat.add_mod_left, Nat.mod_eq_of_lt hb]

theorem negative_ofMagnitude (hb : b < signPlace) :
  (ofMagnitude s b).negative = s
  := by
  rw [negative, toNat_bits_ofMagnitude hb]
  cases s
  · simpa using hb
  · simp

theorem neg_ofMagnitude (hb : b < signPlace) :
  (ofMagnitude s b).neg = ofMagnitude (!s) b
  := by
  rw [neg, negative_ofMagnitude hb, ← magnitude, magnitude_ofMagnitude hb]

theorem exponentField_eq (x : Binary64) :
  x.exponentField = x.magnitude / exponentPlace
  := by
  have hlt : x.bits.toNat < 2 * signPlace := x.bits.toNat_lt
  have hplaces : signPlace = exponentPlace * 2048 := rfl
  rw [exponentField, magnitude, hplaces, Nat.mod_mul_right_div_self]

theorem fraction_eq (x : Binary64) :
  x.fraction = x.magnitude % exponentPlace
  := by
  rw [fraction, magnitude, Nat.mod_mod_of_dvd _ (by decide)]

/-- The number of the magnitude of a double is that of its significand and its exponent. -/
theorem value_magnitude (x : Binary64) :
  value x.magnitude = x.significand * 2 ^ x.exponent
  := by
  rw [value, significand, exponent, exponentField_eq, fraction_eq]

/-- The magnitude of a double in its parts. -/
theorem magnitude_eq_add (x : Binary64) :
  ∃ k : ℕ, x.exponent = k - 1074 ∧ x.magnitude = k * exponentPlace + x.significand
    ∧ x.significand < 2 * exponentPlace ∧ (k = 0 ∨ exponentPlace ≤ x.significand)
    ∧ ((x.fraction = 0 ∧ 1 < x.exponentField) ↔ (k ≠ 0 ∧ x.significand = exponentPlace))
  := by
  have hsum := Nat.div_add_mod' x.magnitude exponentPlace
  rw [← x.exponentField_eq, ← x.fraction_eq] at hsum
  have hfraction : x.fraction < exponentPlace := Nat.mod_lt _ (by decide)
  obtain hzero | hpos := Nat.eq_zero_or_pos x.exponentField
  · have hsignificand : x.significand = x.fraction := if_pos hzero
    refine ⟨0, ?_, ?_, by omega, .inl rfl, by omega⟩
    · rw [exponent, hzero]
      rfl
    · rw [hzero] at hsum
      omega
  · obtain ⟨k, hk⟩ := Nat.exists_eq_add_one_of_ne_zero hpos.ne'
    have hsignificand : x.significand = exponentPlace + x.fraction := if_neg (by omega)
    refine ⟨k, ?_, ?_, by omega, .inr (by omega), by omega⟩
    · rw [exponent, hk, max_eq_left (by omega)]
      push_cast
      ring
    · rw [hk] at hsum
      rw [hsignificand, ← hsum]
      ring

theorem value_magnitude_succ (x : Binary64) :
  value (x.magnitude + 1) = (x.significand + 1) * 2 ^ x.exponent
  := by
  obtain ⟨k, hexponent, hsum, hhigh, hlow, -⟩ := x.magnitude_eq_add
  rw [hsum, Nat.add_assoc, value_add (by omega) (by omega), hexponent]
  push_cast
  rfl

theorem isFinite_iff {x : Binary64} :
  x.isFinite = true ↔ x.magnitude < infinityMagnitude
  := by
  have hlt := x.magnitude_lt
  have hsign : signPlace = 2048 * exponentPlace := rfl
  rw [isFinite, bne_iff_ne, exponentField_eq, infinityMagnitude,
    ← Nat.div_lt_iff_lt_mul (by decide)]
  have hbound : x.magnitude / exponentPlace < 2048 := by
    rw [Nat.div_lt_iff_lt_mul (by decide), ← hsign]
    exact hlt
  omega

theorem isZero_iff {x : Binary64} :
  x.isZero = true ↔ x.magnitude = 0
  := by
  have h := Nat.div_add_mod' x.magnitude exponentPlace
  rw [isZero, Bool.and_eq_true, beq_iff_eq, beq_iff_eq, exponentField_eq, fraction_eq]
  constructor
  · rintro ⟨hdiv, hmod⟩
    rw [hdiv, hmod] at h
    omega
  · intro hzero
    rw [hzero]
    exact ⟨Nat.zero_div _, Nat.zero_mod _⟩

theorem isInfinite_iff {x : Binary64} :
  x.isInfinite = true ↔ x.magnitude = infinityMagnitude
  := by
  have h := Nat.div_add_mod' x.magnitude exponentPlace
  rw [isInfinite, Bool.and_eq_true, beq_iff_eq, beq_iff_eq, exponentField_eq, fraction_eq]
  constructor
  · rintro ⟨hdiv, hmod⟩
    rw [hdiv, hmod] at h
    exact h.symm
  · intro hinfinite
    rw [hinfinite]
    decide

end TypedSql.Binary64
