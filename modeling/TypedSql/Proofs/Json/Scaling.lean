import TypedSql.Json.Number
import TypedSql.Proofs.Binary64.Arithmetic

/-!
# Scaled numbers

A word times a power of ten is computed in steps, each of which is rounded: the word and the power
are doubles already, and the smallest powers are taken in two parts.  The steps together change
the number by less than two and a half times the relative roundoff (`exists_scale`), and nothing
before the last one changes it if the word and the power are short (`scale_exact`).
-/

namespace TypedSql.JsonNumeral

open Binary64 (value Nearest Within Approximates roundoff infinityMagnitude ofMagnitude)

/-! ### Powers of ten -/

theorem powerOfTen_eq (e : ℕ) :
  powerOfTen e = .ofRatio false (10 ^ e) 1
  :=
  rfl

theorem pow_ten_le {e : ℕ} (he : e ≤ 308) :
  10 ^ e ≤ 10 ^ 308
  :=
  pow_le_pow_right₀ (by decide) he

theorem approximates_powerOfTen {e : ℕ} (he : e ≤ 308) :
  Approximates roundoff (powerOfTen e) (10 ^ e)
  := by
  have h := Binary64.approximates_integer (n := 10 ^ e) (by positivity) (pow_ten_le he)
  rw [← powerOfTen_eq] at h
  exact_mod_cast h

theorem approximates_short_powerOfTen {e : ℕ} (he : e ≤ 22) :
  Approximates 0 (powerOfTen e) (10 ^ e)
  := by
  have hexact : ∃ b, value b = (10 ^ e : ℕ) := by
    exact_mod_cast Binary64.exists_value_eq_pow_ten he
  have h := Binary64.approximates_exact_integer (pow_ten_le (by omega)) hexact
  rw [← powerOfTen_eq] at h
  exact_mod_cast h

/-- The double of the largest power is much closer to it than it need be. -/
theorem approximates_powerOfTen_308 :
  Approximates (roundoff / 10) (powerOfTen 308) (10 ^ 308)
  := by
  have hnearest : Nearest ((10 ^ 308 : ℕ) / (1 : ℕ))
      (2045 * Binary64.exponentPlace + 5010420900022432) := by
    rw [Nat.cast_one, div_one, Nat.cast_pow]
    exact Binary64.nearest_pow_ten_308
  have hexponent : ((2045 : ℕ) : ℤ) - 1074 = (971 : ℕ) := rfl
  rw [powerOfTen_eq, Binary64.ofRatio_eq Nat.one_pos hnearest, min_eq_left (by decide)]
  apply Binary64.approximates_ofMagnitude (by decide)
  rw [Binary64.value_add (by decide) (.inr (by decide)), hexponent, zpow_natCast]
  exact Binary64.within_pow_ten_308

/-! ### Steps -/

variable {x : Binary64} {e : ℤ} {ε δ q : ℚ}

theorem scale_of_nonneg (he : 0 ≤ e) (he' : e ≤ 308) :
  scale x e = if (x.mul (powerOfTen e.natAbs)).isInfinite then none
    else some (x.mul (powerOfTen e.natAbs))
  := by
  have htoNat : e.toNat = e.natAbs := by omega
  rw [scale, if_neg (by omega), if_pos he, htoNat]

theorem scale_of_neg (he : e < 0) (he' : -308 ≤ e) :
  scale x e = some (x.div (powerOfTen e.natAbs))
  := by
  have hsteps : (e.natAbs - 1) / 308 = 0 := by omega
  rw [scale, if_neg (by omega), if_neg (by omega), hsteps]
  rfl

/-- The smallest powers are taken in two parts. -/
theorem scale_of_lt (he : e < -308) (he' : -616 ≤ e) :
  scale x e = scale (x.div (powerOfTen 308)) (e + 308)
  := by
  have hsteps : (e.natAbs - 1) / 308 = 1 := by omega
  have hrest : e.natAbs - 308 * 1 = (e + 308).natAbs := by omega
  rw [scale, if_neg (by omega), if_neg (by omega), hsteps, scale_of_neg (by omega) (by omega),
    ← hrest]
  rfl

/-- A power of ten by its double. -/
theorem exists_scale_of_approximates (hx : Approximates ε x q)
    (hp : Approximates δ (powerOfTen e.natAbs) (10 ^ e.natAbs)) (hq : 0 ≤ q) (hε : 0 ≤ ε)
    (hε' : ε ≤ 1) (hδ : 0 ≤ δ) (hδ' : δ ≤ 1 / 4) (he : -308 ≤ e) (he' : e ≤ 308) :
  ∃ v c, Within (ε + (δ + 2 * δ ^ 2) + ε * (δ + 2 * δ ^ 2)) v (q * 10 ^ e) ∧ Nearest v c
    ∧ scale x e = if 0 ≤ e ∧ infinityMagnitude ≤ c then none
      else some (ofMagnitude false (min c infinityMagnitude))
  := by
  have hpower : (0 : ℚ) < 10 ^ e.natAbs := by positivity
  obtain hnonneg | hneg := le_or_gt 0 e
  · obtain ⟨v, c, hv, hc, hmul⟩ := hx.exists_mul hp hq hpower.le hε hε' hδ (by linarith)
    have hexponent : (10 : ℚ) ^ e.natAbs = 10 ^ e := by
      rw [← zpow_natCast, Int.natAbs_of_nonneg hnonneg]
    have hinfinite : (ofMagnitude false (min c infinityMagnitude)).isInfinite = true
        ↔ 0 ≤ e ∧ infinityMagnitude ≤ c := by
      rw [Binary64.isInfinite_iff, Binary64.magnitude_ofMagnitude_min, min_eq_right_iff]
      exact (and_iff_right hnonneg).symm
    rw [hexponent] at hv
    refine ⟨v, c, hv.mono (mul_nonneg hq (by positivity)) ?_, hc, ?_⟩
    · have hsquare : 0 ≤ (1 + ε) * (2 * δ ^ 2) := by positivity
      linarith
    · rw [scale_of_nonneg hnonneg he', hmul]
      exact if_congr hinfinite rfl rfl
  · obtain ⟨v, c, hv, hc, hdiv⟩ := hx.exists_div hp hq hpower hε hε' hδ hδ'
    have hexponent : q / 10 ^ e.natAbs = q * 10 ^ e := by
      rw [← zpow_natCast, Int.natCast_natAbs, abs_of_neg hneg, zpow_neg, div_inv_eq_mul]
    rw [hexponent] at hv
    refine ⟨v, c, hv, hc, ?_⟩
    rw [scale_of_neg hneg he, hdiv, if_neg fun h => hneg.not_ge h.1]

/-! ### Words -/

theorem le_of_lt_wordLimit {w : ℕ} (hw : w < wordLimit) :
  w ≤ 10 ^ 308
  :=
  calc
    w ≤ wordLimit := hw.le
    _ ≤ 10 ^ 20 := by decide
    _ ≤ 10 ^ 308 := pow_ten_le (by decide)

theorem approximates_word {w : ℕ} (hpos : 0 < w) (hw : w < wordLimit) :
  Approximates roundoff (.ofInt w) w
  := by
  rw [Binary64.ofInt_natCast]
  exact Binary64.approximates_integer hpos (le_of_lt_wordLimit hw)

theorem approximates_exact_word {w : ℕ} (hw : w < wordLimit) (h : ∃ b, value b = w) :
  Approximates 0 (.ofInt w) w
  := by
  rw [Binary64.ofInt_natCast]
  exact Binary64.approximates_exact_integer (le_of_lt_wordLimit hw) h

/-- Half of the least number in the places of the largest power. -/
theorem half_le_div_pow_ten :
  (2 : ℚ) ^ (-1075 : ℤ) ≤ 22251 / 10000 * roundoff / 10 ^ 308
  := by
  have hhalf : (2 : ℚ) ^ (-1075 : ℤ) = roundoff / (2 ^ 51 * 2 ^ 971) := by
    rw [roundoff, div_div, ← pow_add, ← pow_add, zpow_neg, one_div]
    rfl
  have hpower : (0 : ℚ) < 10 ^ 308 := by positivity
  have hplaces : (0 : ℚ) < 2 ^ 51 * 2 ^ 971 := by positivity
  rw [hhalf, div_le_div_iff₀ hplaces hpower]
  have hscaled := mul_le_mul_of_nonneg_left Binary64.pow_ten_308_le Binary64.roundoff_pos.le
  generalize (10 : ℚ) ^ 308 = p at hscaled ⊢
  generalize (2 : ℚ) ^ 971 = q at hscaled ⊢
  linarith only [hscaled]

/-- A quotient by a number `p` that is close to its double.  What rounding the dividend leaves of
the error can be spent on rounding the quotient. -/
theorem exists_within_div {y : Binary64} {p : ℚ} (κ : ℚ) (hx : Approximates ε x q)
    (hy : Approximates (roundoff / 10) y p) (hp : 0 < p) (hq : 0 < q) (hε : 0 ≤ ε)
    (hε' : ε ≤ roundoff) (hκ : 1 ≤ κ) (hsum : ε + κ * roundoff ≤ 9 / 4 * roundoff)
    (hhalf : 2 ^ (-1075 : ℤ) ≤ κ * roundoff * (99 / 100 * (q / p))) :
  ∃ c, Within (12 / 5 * roundoff) (value c) (q / p)
    ∧ x.div y = ofMagnitude false (min c infinityMagnitude)
  := by
  have hroundoff := Binary64.roundoff_pos
  have hsmall : roundoff ≤ 1 / 10 ^ 10 := by norm_num [roundoff]
  have hquotient : 0 < q / p := div_pos hq hp
  obtain ⟨v, c, hv, hc, hdiv⟩ := hx.exists_div hy hq.le hp hε (by linarith) (by linarith)
    (by linarith)
  generalize hη : ε + (roundoff / 10 + 2 * (roundoff / 10) ^ 2)
    + ε * (roundoff / 10 + 2 * (roundoff / 10) ^ 2) = η at hv
  have hη_low : 0 ≤ η := by rw [← hη]; positivity
  have hη_high : η ≤ ε + 11 / 100 * roundoff := by rw [← hη]; nlinarith
  have hv_low : 99 / 100 * (q / p) ≤ v :=
    (mul_le_mul_of_nonneg_right (by linarith) hquotient.le).trans hv.lower
  have hrounded : Within (κ * roundoff) (value c) v :=
    hc.within (le_mul_of_one_le_left hroundoff.le hκ)
      (hhalf.trans (mul_le_mul_of_nonneg_left hv_low (by positivity)))
  refine ⟨c, (hrounded.trans hv hquotient.le (by positivity) (by linarith) hη_low).mono
    hquotient.le ?_, hdiv⟩
  nlinarith

theorem le_pow_ten_of_within {w : ℕ} {v : ℚ} (hw : w < wordLimit)
    (h : Within (12 / 5 * roundoff) v (w / 10 ^ 308)) :
  v ≤ 10 ^ 308
  := by
  have hword : (w : ℚ) ≤ 10 ^ 20 := by exact_mod_cast hw.le.trans (by decide)
  have hsmall : (w : ℚ) / 10 ^ 308 ≤ w :=
    div_le_self (by positivity) (one_le_pow₀ (by norm_num))
  have hfactor : 1 + 12 / 5 * roundoff ≤ 10 := by norm_num [roundoff]
  calc
    v ≤ (1 + 12 / 5 * roundoff) * (w / 10 ^ 308) := h.upper
    _ ≤ 10 * 10 ^ 20 := by gcongr; exact hsmall.trans hword
    _ = 10 ^ 21 := by norm_num
    _ ≤ 10 ^ 308 := pow_le_pow_right₀ (by norm_num) (by decide)

/-- A word divided by the largest power.  A short word is exact, which makes up for the rounding of
a result of only a few bits. -/
theorem approximates_word_div {w : ℕ} (hpos : 0 < w) (hw : w < wordLimit) :
  Approximates (12 / 5 * roundoff) ((Binary64.ofInt w).div (powerOfTen 308)) (w / 10 ^ 308)
  := by
  have hone : (1 : ℚ) ≤ w := by exact_mod_cast hpos
  have hpower : (1 : ℚ) ≤ 10 ^ 308 := one_le_pow₀ (by norm_num)
  have hroundoff := Binary64.roundoff_pos
  obtain ⟨c, hc, hdiv⟩ : ∃ c, Within (12 / 5 * roundoff) (value c) (w / 10 ^ 308)
      ∧ (Binary64.ofInt w).div (powerOfTen 308)
        = ofMagnitude false (min c infinityMagnitude) := by
    have hhalf {κ : ℚ} (hκ : 22251 / 10000 ≤ κ * (99 / 100 * w)) :
        2 ^ (-1075 : ℤ) ≤ κ * roundoff * (99 / 100 * (w / 10 ^ 308)) := by
      refine half_le_div_pow_ten.trans ?_
      generalize (10 : ℚ) ^ 308 = p at hpower
      calc
        22251 / 10000 * roundoff / p ≤ κ * (99 / 100 * w) * roundoff / p := by gcongr
        _ = κ * roundoff * (99 / 100 * (w / p)) := by ring
    have hexists {ε : ℚ} (κ : ℚ) (hx : Approximates ε (.ofInt w) w) :=
      exists_within_div κ hx approximates_powerOfTen_308 (by positivity) (by positivity)
    obtain hshort | hlong := le_or_gt w (2 ^ 53)
    · have hexact : ∃ b, value b = w := Binary64.exists_value_eq_natCast hshort
      exact hexists (9 / 4) (approximates_exact_word hw hexact) le_rfl hroundoff.le (by norm_num)
        (zero_add _).le (hhalf (by linarith only [hone]))
    · have hlong' : (2 ^ 53 : ℚ) < w := by exact_mod_cast hlong
      exact hexists 1 (approximates_word hpos hw) hroundoff.le le_rfl le_rfl
        (by linarith only [hroundoff]) (hhalf (by linarith only [hlong']))
  have hfinite : c < infinityMagnitude :=
    (Binary64.nearest_value c).lt_infinityMagnitude (le_pow_ten_of_within hw hc)
  rw [hdiv, min_eq_left hfinite.le]
  exact Binary64.approximates_ofMagnitude hfinite hc

/-! ### Scaled words -/

variable {w : ℕ}

/-- A scaled word is a number close to the one written, rounded; it is refused when that is too
large. -/
theorem exists_scale (hpos : 0 < w) (hw : w < wordLimit) (he : -330 ≤ e) (he' : e ≤ 308) :
  ∃ v c, Within (12 / 5 * roundoff) v (w * 10 ^ e) ∧ Nearest v c
    ∧ scale (.ofInt w) e = if 0 ≤ e ∧ infinityMagnitude ≤ c then none
      else some (ofMagnitude false (min c infinityMagnitude))
  := by
  have hroundoff := Binary64.roundoff_pos
  have hsmall : roundoff ≤ 1 / 10 ^ 10 := by norm_num [roundoff]
  obtain hone_step | htwo_steps := le_or_gt (-308) e
  · obtain ⟨v, c, hv, hc, hscale⟩ := exists_scale_of_approximates (approximates_word hpos hw)
      (approximates_powerOfTen (e := e.natAbs) (by omega)) (by positivity) hroundoff.le
      (by linarith) hroundoff.le (by linarith) hone_step he'
    refine ⟨v, c, hv.mono (by positivity) ?_, hc, hscale⟩
    nlinarith
  · obtain ⟨v, c, hv, hc, hscale⟩ := exists_scale_of_approximates (approximates_word_div hpos hw)
      (approximates_short_powerOfTen (e := (e + 308).natAbs) (by omega)) (by positivity)
      (by positivity) (by linarith) le_rfl (by norm_num) (by omega) (by omega)
    have hnumber : (w : ℚ) / 10 ^ 308 * 10 ^ (e + 308) = w * 10 ^ e := by
      rw [add_comm, zpow_add₀ (by norm_num), ← mul_assoc]
      congr 1
      exact div_mul_cancel₀ _ (by positivity)
    rw [hnumber] at hv
    refine ⟨v, c, hv.mono (by positivity) (by norm_num), hc, ?_⟩
    rw [scale_of_lt htwo_steps (by omega), hscale, if_neg (by omega), if_neg (by omega)]

/-- A short word with a short power is rounded only once. -/
theorem scale_exact {b : ℕ} (hw : w < wordLimit) (hexact : ∃ b, value b = w)
    (he : e.natAbs ≤ 22) (hb : Nearest (w * 10 ^ e) b) (hfinite : b < infinityMagnitude) :
  scale (.ofInt w) e = some (ofMagnitude false b)
  := by
  obtain ⟨v, c, hv, hc, hscale⟩ := exists_scale_of_approximates (approximates_exact_word hw hexact)
    (approximates_short_powerOfTen he) (by positivity) le_rfl zero_le_one le_rfl (by norm_num)
    (by omega) (by omega)
  have hv' : Within 0 v (w * 10 ^ e) := by simpa using hv
  obtain rfl := hv'.eq
  obtain rfl := hc.unique hb
  rw [hscale, if_neg fun h => hfinite.not_ge h.2, min_eq_left hfinite.le]

end TypedSql.JsonNumeral
