import TypedSql.Proofs.Binary64.Rounding

/-!
# Arithmetic

A product, a quotient and the double of an integer are the exact results, rounded: their magnitude
is the nearest one, or that of infinity when the nearest one is larger.  Integers of fifty-three
bits, and these with places of powers of two, are the numbers of magnitudes and thus not changed
(`exists_value_eq`), and so are the first powers of ten (`exists_value_eq_pow_ten`).  The largest
power of ten that is finite is close to its double (`within_pow_ten_308`).

A double `Approximates` a number up to a relative error, and the errors of the operands add up in
products and quotients.
-/

namespace TypedSql.Binary64

variable {x y : Binary64} {s : Bool} {b num den : ℕ}

/-! ### Rounded results -/

theorem ofRatio_eq (hden : 0 < den) (h : Nearest (num / den) b) :
  ofRatio s num den = ofMagnitude s (min b infinityMagnitude)
  := by
  rw [ofRatio, roundMagnitude_eq hden h]

theorem ofScaledRatio_eq {e : ℤ} (hden : 0 < den) (h : Nearest (num / den * 2 ^ e) b) :
  ofScaledRatio s num den e = ofMagnitude s (min b infinityMagnitude)
  := by
  apply ofRatio_eq (shiftLeft_pos hden _)
  rwa [shiftLeft_div_shiftLeft]

theorem mul_eq (h : Nearest (value x.magnitude * value y.magnitude) b) :
  x.mul y = ofMagnitude (x.negative != y.negative) (min b infinityMagnitude)
  := by
  apply ofScaledRatio_eq Nat.one_pos
  rw [value_magnitude, value_magnitude, mul_mul_mul_comm, ← zpow_add₀ two_ne_zero] at h
  push_cast
  rwa [div_one]

theorem significand_pos (hy : y.magnitude ≠ 0) :
  0 < y.significand
  := by
  have hvalue : 0 < value y.magnitude := value_pos (Nat.pos_of_ne_zero hy)
  rw [value_magnitude] at hvalue
  apply Nat.pos_of_ne_zero
  intro hzero
  rw [hzero, Nat.cast_zero, zero_mul] at hvalue
  exact hvalue.false

theorem div_eq (hy : y.magnitude ≠ 0) (h : Nearest (value x.magnitude / value y.magnitude) b) :
  x.div y = ofMagnitude (x.negative != y.negative) (min b infinityMagnitude)
  := by
  apply ofScaledRatio_eq (significand_pos hy)
  rwa [value_magnitude, value_magnitude, mul_div_mul_comm, ← zpow_sub₀ two_ne_zero] at h

/-! ### Exact numbers -/

/-- Twice the number of a magnitude is the number of another one. -/
theorem exists_value_eq_two_mul (b : ℕ) :
  ∃ c, value c = 2 * value b
  := by
  obtain ⟨k, m, rfl, hm, hk⟩ := exists_eq_add b
  have hdouble : (2 : ℚ) * 2 ^ ((k : ℤ) - 1074) = 2 ^ (((k + 1 : ℕ) : ℤ) - 1074) := by
    rw [← zpow_one_add₀ two_ne_zero]
    congr 1
    push_cast
    ring
  rw [value_add hm.le hk]
  by_cases hlong : exponentPlace ≤ m
  · refine ⟨(k + 1) * exponentPlace + m, ?_⟩
    rw [value_add hm.le (.inr hlong), ← hdouble]
    ring
  · obtain rfl := hk.resolve_right hlong
    refine ⟨0 * exponentPlace + 2 * m, ?_⟩
    rw [value_add (by omega) (.inl rfl), Nat.cast_mul, Nat.cast_two, mul_assoc]

/-- Integers of fifty-three bits with places of a power of two are numbers of magnitudes. -/
theorem exists_value_eq_mul {n : ℕ} (hn : n ≤ 2 ^ 53) (j : ℕ) :
  ∃ b, value b = n * 2 ^ ((j : ℤ) - 1074)
  := by
  induction j with
  | zero => exact ⟨0 * exponentPlace + n, value_add hn (.inl rfl)⟩
  | succ j ih =>
      obtain ⟨b, hb⟩ := ih
      obtain ⟨c, hc⟩ := exists_value_eq_two_mul b
      refine ⟨c, ?_⟩
      have hexponent : ((j + 1 : ℕ) : ℤ) - 1074 = (j : ℤ) - 1074 + 1 := by
        push_cast
        ring
      rw [hc, hb, hexponent, zpow_add_one₀ two_ne_zero]
      ring

theorem exists_value_eq {n : ℕ} (hn : n ≤ 2 ^ 53) (j : ℕ) :
  ∃ b, value b = (n * 2 ^ j : ℕ)
  := by
  obtain ⟨b, hb⟩ := exists_value_eq_mul hn (j + 1074)
  refine ⟨b, hb.trans ?_⟩
  have hexponent : ((j + 1074 : ℕ) : ℤ) - 1074 = j := by
    push_cast
    ring
  rw [hexponent, zpow_natCast]
  push_cast
  rfl

theorem exists_value_eq_natCast {n : ℕ} (hn : n ≤ 2 ^ 53) :
  ∃ b, value b = n
  := by
  obtain ⟨b, hb⟩ := exists_value_eq hn 0
  exact ⟨b, by rw [hb, pow_zero, mul_one]⟩

/-- The powers of ten whose odd part has fifty-three bits are numbers of magnitudes. -/
theorem exists_value_eq_pow_ten {e : ℕ} (he : e ≤ 22) :
  ∃ b, value b = (10 : ℚ) ^ e
  := by
  have hodd : 5 ^ e ≤ 2 ^ 53 := (Nat.pow_le_pow_right (by decide) he).trans (by decide)
  obtain ⟨b, hb⟩ := exists_value_eq hodd e
  refine ⟨b, hb.trans ?_⟩
  rw [← mul_pow]
  push_cast
  norm_num

/-! ### Finite numbers -/

theorem value_infinityMagnitude :
  value infinityMagnitude = 2 ^ (1024 : ℤ)
  := by
  have hsum : infinityMagnitude = 2046 * exponentPlace + exponentPlace := rfl
  have hplace : (exponentPlace : ℚ) = 2 ^ (52 : ℤ) := by norm_num [exponentPlace]
  rw [hsum, value_add (by omega) (.inr le_rfl), hplace, ← zpow_add₀ two_ne_zero]
  rfl

theorem infinityMagnitude_lt_signPlace :
  infinityMagnitude < signPlace
  := by
  decide

theorem magnitude_ofMagnitude_min :
  (ofMagnitude s (min b infinityMagnitude)).magnitude = min b infinityMagnitude
  :=
  magnitude_ofMagnitude ((min_le_right _ _).trans_lt infinityMagnitude_lt_signPlace)

/-- The largest power of ten with a finite double is close to a number of fifty-three bits. -/
theorem within_pow_ten_308 :
  Within (roundoff / 10) (5010420900022432 * 2 ^ 971) (10 ^ 308)
  := by
  -- powers of this size are not evaluated at once, so they are taken in parts
  have hten : (10 : ℚ) ^ 308 = (10 ^ 154) ^ 2 := pow_mul 10 154 2
  have htwo : (2 : ℚ) ^ 971 = (2 ^ 194) ^ 5 * 2 := by rw [← pow_mul, ← pow_succ]
  rw [hten, htwo, roundoff]
  constructor <;> norm_num

theorem pow_ten_308_le :
  (10 : ℚ) ^ 308 ≤ 22251 * 2 ^ 51 / 10000 * 2 ^ 971
  := by
  have hlower := within_pow_ten_308.lower
  have hpower : (0 : ℚ) < 2 ^ 971 := by positivity
  generalize (10 : ℚ) ^ 308 = p at hlower ⊢
  generalize (2 : ℚ) ^ 971 = q at hlower hpower ⊢
  norm_num [roundoff] at hlower ⊢
  linarith

theorem le_pow_ten_308 :
  5 * 10 ^ 15 * 2 ^ 971 ≤ (10 : ℚ) ^ 308
  := by
  have hupper := within_pow_ten_308.upper
  have hpower : (0 : ℚ) < 2 ^ 971 := by positivity
  generalize (10 : ℚ) ^ 308 = p at hupper ⊢
  generalize (2 : ℚ) ^ 971 = q at hupper hpower ⊢
  norm_num [roundoff] at hupper ⊢
  linarith

/-- What is rounded from no more than some finite number is finite. -/
theorem Nearest.lt_infinityMagnitude {q : ℚ} (h : Nearest q b) (hq : q ≤ 10 ^ 308) :
  b < infinityMagnitude
  := by
  have hvalue : value (2045 * exponentPlace + 3 * 2 ^ 51) = (3 * 2 ^ 51 : ℕ) * 2 ^ (971 : ℤ) :=
    value_add (by decide) (.inr (by decide))
  have hbound : (10 : ℚ) ^ 308 ≤ (3 * 2 ^ 51 : ℕ) * 2 ^ (971 : ℤ) := by
    refine pow_ten_308_le.trans ?_
    rw [zpow_ofNat]
    exact mul_le_mul_of_nonneg_right (by norm_num) (by positivity)
  have hle := h.le_value ((hq.trans hbound).trans_eq hvalue.symm)
  exact hle.trans_lt (by decide)

/-- The double of that power. -/
theorem nearest_pow_ten_308 :
  Nearest (10 ^ 308) (2045 * exponentPlace + 5010420900022432)
  := by
  have hpower : (0 : ℚ) < 2 ^ 971 := by positivity
  have hexponent : (2 : ℚ) ^ (((2045 : ℕ) : ℤ) - 1074) = 2 ^ 971 := zpow_natCast 2 971
  obtain ⟨s, hs⟩ : ∃ s : ℚ, 10 ^ 308 = s * 2 ^ 971 := ⟨_, (div_mul_cancel₀ _ hpower.ne').symm⟩
  obtain ⟨hlower, hupper⟩ := within_pow_ten_308
  have hlow := le_pow_ten_308
  have hhigh := pow_ten_308_le
  rw [hs, ← mul_assoc] at hlower hupper
  rw [hs] at hlow hhigh
  replace hlower := le_of_mul_le_mul_right hlower hpower
  replace hupper := le_of_mul_le_mul_right hupper hpower
  replace hlow := le_of_mul_le_mul_right hlow hpower
  replace hhigh := le_of_mul_le_mul_right hhigh hpower
  have hclose : |s - (5010420900022432 : ℕ)| < 1 / 2 := by
    norm_num [roundoff, abs_lt] at hlower hupper hhigh ⊢
    constructor <;> linarith only [hlower, hupper, hhigh]
  rw [hs, ← hexponent]
  apply nearest_of_integer (.inr _) _ hclose.le fun h => absurd h hclose.ne
  · norm_num [exponentPlace] at hlow ⊢
    linarith only [hlow]
  · norm_num [exponentPlace] at hhigh ⊢
    linarith only [hhigh]

theorem ofInt_natCast (n : ℕ) :
  ofInt n = ofRatio false n 1
  := by
  have hsign : decide ((n : ℤ) < 0) = false := decide_eq_false (by omega)
  rw [ofInt, hsign, Int.natAbs_natCast]

/-! ### Approximations -/

/-- A finite double without a sign stands for a number but for a relative error. -/
structure Approximates (ε : ℚ) (x : Binary64) (q : ℚ) : Prop where
  negative : x.negative = false
  finite : x.magnitude < infinityMagnitude
  within : Within ε (value x.magnitude) q

theorem approximates_ofMagnitude {ε q : ℚ} (hb : b < infinityMagnitude)
    (h : Within ε (value b) q) :
  Approximates ε (ofMagnitude false b) q
  := by
  have hlt : b < signPlace := hb.trans infinityMagnitude_lt_signPlace
  refine ⟨negative_ofMagnitude hlt, ?_, ?_⟩
  · rwa [magnitude_ofMagnitude hlt]
  · rwa [magnitude_ofMagnitude hlt]

/-- The double of a positive integer. -/
theorem approximates_integer {n : ℕ} (hpos : 0 < n) (hn : n ≤ 10 ^ 308) :
  Approximates roundoff (ofRatio false n 1) n
  := by
  have hone : (1 : ℚ) ≤ n := by exact_mod_cast hpos
  obtain ⟨b, hb⟩ := exists_nearest (show (0 : ℚ) ≤ n from Nat.cast_nonneg n)
  have hfinite : b < infinityMagnitude := hb.lt_infinityMagnitude (by exact_mod_cast hn)
  have hratio : Nearest (n / (1 : ℕ)) b := by rwa [Nat.cast_one, div_one]
  rw [ofRatio_eq Nat.one_pos hratio, min_eq_left hfinite.le]
  apply approximates_ofMagnitude hfinite
  apply hb.within le_rfl
  calc
    (2 : ℚ) ^ (-1075 : ℤ) ≤ 2 ^ (-53 : ℤ) := zpow_le_zpow_right₀ one_le_two (by decide)
    _ = roundoff := by norm_num [roundoff]
    _ ≤ roundoff * n := le_mul_of_one_le_right roundoff_pos.le hone

/-- The double of an integer that is the number of a magnitude. -/
theorem approximates_exact_integer {n : ℕ} (hn : n ≤ 10 ^ 308) (h : ∃ b, value b = n) :
  Approximates 0 (ofRatio false n 1) n
  := by
  obtain ⟨b, hb⟩ := h
  have hnearest : Nearest n b := hb ▸ nearest_value b
  have hfinite : b < infinityMagnitude := hnearest.lt_infinityMagnitude (by exact_mod_cast hn)
  have hratio : Nearest (n / (1 : ℕ)) b := by rwa [Nat.cast_one, div_one]
  rw [ofRatio_eq Nat.one_pos hratio, min_eq_left hfinite.le]
  apply approximates_ofMagnitude hfinite
  rw [hb]
  exact within_zero _

variable {ε δ q r : ℚ}

theorem Approximates.magnitude_ne_zero (h : Approximates ε x q) (hq : 0 < q) (hε : ε < 1) :
  x.magnitude ≠ 0
  := by
  intro hzero
  have hlower := h.within.lower
  have hpos : 0 < (1 - ε) * q := mul_pos (by linarith) hq
  rw [hzero, value_zero] at hlower
  linarith

/-- A product of approximations is an approximation of the product, rounded. -/
theorem Approximates.exists_mul (hx : Approximates ε x q) (hy : Approximates δ y r) (hq : 0 ≤ q)
    (hr : 0 ≤ r) (hε : 0 ≤ ε) (hε' : ε ≤ 1) (hδ : 0 ≤ δ) (hδ' : δ ≤ 1) :
  ∃ v c, Within (ε + δ + ε * δ) v (q * r) ∧ Nearest v c
    ∧ x.mul y = ofMagnitude false (min c infinityMagnitude)
  := by
  obtain ⟨c, hc⟩ :=
    exists_nearest (mul_nonneg (value_nonneg x.magnitude) (value_nonneg y.magnitude))
  refine ⟨_, c, hx.within.mul hy.within hq hr hε hε' hδ hδ', hc, ?_⟩
  rw [mul_eq hc, hx.negative, hy.negative]
  rfl

/-- A quotient of approximations is an approximation of the quotient, rounded. -/
theorem Approximates.exists_div (hx : Approximates ε x q) (hy : Approximates δ y r) (hq : 0 ≤ q)
    (hr : 0 < r) (hε : 0 ≤ ε) (hε' : ε ≤ 1) (hδ : 0 ≤ δ) (hδ' : δ ≤ 1 / 4) :
  ∃ v c, Within (ε + (δ + 2 * δ ^ 2) + ε * (δ + 2 * δ ^ 2)) v (q / r) ∧ Nearest v c
    ∧ x.div y = ofMagnitude false (min c infinityMagnitude)
  := by
  obtain ⟨c, hc⟩ :=
    exists_nearest (div_nonneg (value_nonneg x.magnitude) (value_nonneg y.magnitude))
  have hinv := hy.within.inv hr hδ (by linarith)
  have hwithin :=
    hx.within.mul hinv hq (inv_nonneg.mpr hr.le) hε hε' (by positivity) (by nlinarith)
  rw [← div_eq_mul_inv, ← div_eq_mul_inv] at hwithin
  refine ⟨_, c, hwithin, hc, ?_⟩
  rw [div_eq (hy.magnitude_ne_zero hr (by linarith)) hc, hx.negative, hy.negative]
  rfl

end TypedSql.Binary64
