import TypedSql.Proofs.Json.Doubles
import TypedSql.Proofs.Json.Scaling

/-!
# Reading doubles back

A finite double that is written in JSON is read back with its sign, but not always as it was: its
magnitude may be off by a few places (`exists_scaled_shortest`).  It is the same if the double is
the nearest one to a number of at most fifteen digits of which at most twenty-two are behind the
point, since then the digits and the power of ten that are read are doubles themselves
(`factors_shortest_exact`).
-/

namespace TypedSql

open Binary64 (halfway Nearest Within roundoff infinityMagnitude ofMagnitude)

namespace Binary64

/-- What a double may become in a snapshot. -/
structure Reread (x y : Binary64) : Prop where
  negative : y.negative = x.negative
  finite : y.isFinite = true
  upper : y.magnitude ≤ x.magnitude + 3
  lower : x.magnitude ≤ y.magnitude + 3
  /-- Short numbers stay as they were. -/
  exact : ∀ n j : ℕ, n < 10 ^ 15 → j ≤ 22 → Nearest (n / 10 ^ j) x.magnitude → y = x

end Binary64

/-! ### Short numbers -/

namespace Decimal

variable {x : Binary64} {n j : ℕ}

/-- Positive numbers that are rounded to one magnitude differ by the factor three at most. -/
theorem halfway_le_three_mul {a : ℕ} :
  halfway (a + 1) ≤ 3 * halfway a
  := by
  have hnext := Binary64.value_succ_le (b := a + 1) (Nat.succ_pos a)
  have hnonneg := Binary64.value_nonneg a
  rw [halfway, halfway]
  linarith

theorem toRat_shortest_le (hx : x.magnitude ≠ 0) (hfinite : x.magnitude < infinityMagnitude)
    (h : Nearest (n / 10 ^ j) x.magnitude) :
  (shortest .toEven x).toRat ≤ 3 * (n / 10 ^ j)
  := by
  obtain ⟨a, ha⟩ := Nat.exists_eq_add_one_of_ne_zero hx
  have hnearest := (shortest_spec .toEven hx hfinite).1
  rw [ha] at h hnearest
  calc
    (shortest .toEven x).toRat ≤ halfway (a + 1) := hnearest.le_halfway
    _ ≤ 3 * halfway a := halfway_le_three_mul
    _ ≤ 3 * (n / 10 ^ j) := mul_le_mul_of_nonneg_left h.halfway_le (by norm_num)

theorem neg_le_exponent_shortest (hx : x.magnitude ≠ 0)
    (hfinite : x.magnitude < infinityMagnitude) (hj : j ≤ 22)
    (h : Nearest (n / 10 ^ j) x.magnitude) :
  -(j : ℤ) ≤ (shortest .toEven x).exponent
  := by
  apply (shortest_spec .toEven hx hfinite).2 (-(j : ℤ)) n (by omega) (by omega)
  rwa [zpow_neg, zpow_natCast, ← div_eq_mul_inv]

variable {d : Decimal}

/-- A decimal of digits behind the point is read as its digits, which are few. -/
theorem factors_exact_of_neg (hneg : d.exponent < 0) (hn : n < 10 ^ 15) (hj : j ≤ 22)
    (hexponent : -(j : ℤ) ≤ d.exponent) (hle : d.toRat ≤ 3 * (n / 10 ^ j)) :
  (∃ b, Binary64.value b = d.factors.1) ∧ d.factors.2.natAbs ≤ 22
  := by
  have hfactors : d.factors = (d.digits, d.exponent) := if_neg fun h => hneg.not_ge h.1
  have hpower : (0 : ℚ) < 10 ^ j := by positivity
  have hdigits : (d.digits : ℚ) ≤ (3 * n : ℕ) := by
    have hone : (1 : ℚ) ≤ 10 ^ (d.exponent + j) := one_le_zpow₀ (by norm_num) (by omega)
    calc
      (d.digits : ℚ) ≤ d.digits * 10 ^ (d.exponent + j) :=
        le_mul_of_one_le_right (Nat.cast_nonneg _) hone
      _ = d.toRat * 10 ^ j := by
        rw [toRat, zpow_add₀ (by norm_num), zpow_natCast, mul_assoc]
      _ ≤ 3 * (n / 10 ^ j) * 10 ^ j := mul_le_mul_of_nonneg_right hle hpower.le
      _ = (3 * n : ℕ) := by
        push_cast
        field_simp
  have hshort : d.digits ≤ 2 ^ 53 :=
    (Nat.cast_le.mp hdigits).trans (by omega)
  rw [hfactors]
  exact ⟨Binary64.exists_value_eq_natCast hshort, by omega⟩

/-- A whole decimal is no larger than the bound of the short numbers that are rounded as it is. -/
theorem digits_mul_pow_le {p : ℕ} (hp : d.exponent = p) (hn : n < 10 ^ 15)
    (h : Nearest (n / 10 ^ j) x.magnitude) (hd : Nearest d.toRat x.magnitude)
    (hle : d.toRat ≤ 3 * (n / 10 ^ j)) :
  d.digits * 10 ^ p ≤ 10 ^ 15
  := by
  have htoRat : d.toRat = (d.digits * 10 ^ p : ℕ) := by
    rw [toRat, hp, zpow_natCast]
    push_cast
    rfl
  have hquotient : (n : ℚ) / 10 ^ j ≤ (10 ^ 15 : ℕ) :=
    calc
      (n : ℚ) / 10 ^ j ≤ n :=
        div_le_self (Nat.cast_nonneg n) (one_le_pow₀ (by norm_num))
      _ ≤ (10 ^ 15 : ℕ) := by exact_mod_cast hn.le
  -- both the decimal and the bound are short enough to be doubles themselves
  have hshort : d.digits * 10 ^ p ≤ 2 ^ 53 := by
    have hlarge : ((d.digits * 10 ^ p : ℕ) : ℚ) ≤ (3 * 10 ^ 15 : ℕ) := by
      rw [← htoRat]
      push_cast at hquotient ⊢
      linarith
    exact (Nat.cast_le.mp hlarge).trans (by decide)
  obtain ⟨b, hb⟩ := Binary64.exists_value_eq_natCast hshort
  obtain ⟨c, hc⟩ := Binary64.exists_value_eq_natCast (n := 10 ^ 15) (by decide)
  rw [htoRat, ← hb] at hd
  have hbc : x.magnitude ≤ c := h.le_value (hc ▸ hquotient)
  rw [hd.unique (Binary64.nearest_value b)] at hbc
  have hvalue := Binary64.value_strictMono.monotone hbc
  rw [hb, hc] at hvalue
  exact Nat.cast_le.mp hvalue

/-- A whole decimal is a double itself, and it is read as ten times its digits before a power of
ten, which is a double too. -/
theorem factors_exact_of_nonneg (hnonneg : 0 ≤ d.exponent) (hpos : 0 < d.digits)
    (hn : n < 10 ^ 15) (h : Nearest (n / 10 ^ j) x.magnitude) (hd : Nearest d.toRat x.magnitude)
    (hle : d.toRat ≤ 3 * (n / 10 ^ j)) :
  (∃ b, Binary64.value b = d.factors.1) ∧ d.factors.2.natAbs ≤ 22
  := by
  obtain ⟨p, hp⟩ := Int.eq_ofNat_of_zero_le hnonneg
  have hwhole : d.digits * 10 ^ p ≤ 10 ^ 15 := digits_mul_pow_le hp hn h hd hle
  have hp15 : p ≤ 15 := by
    apply (Nat.pow_le_pow_iff_right (a := 10) (by decide)).mp
    exact (Nat.le_mul_of_pos_left _ hpos).trans hwhole
  have hlength : (Nat.toDigits 10 d.digits).length ≤ 16 - p := by
    rw [Nat.length_toDigits_le_iff (by decide) (by omega)]
    apply Nat.lt_of_mul_lt_mul_right (a := 10 ^ p)
    rw [← Nat.pow_add, Nat.sub_add_cancel (by omega)]
    exact hwhole.trans_lt (by decide)
  have hfactors : d.factors = (d.digits * 10 ^ (d.exponent.toNat + 1), -1) :=
    if_pos ⟨hnonneg, by omega⟩
  have hword : 5 * (d.digits * 10 ^ p) * 2 ^ 1 = d.digits * 10 ^ (d.exponent.toNat + 1) := by
    rw [hp, Int.toNat_natCast]
    ring
  rw [hfactors, ← hword]
  exact ⟨Binary64.exists_value_eq (by omega) 1, Nat.one_le_ofNat⟩

/-- The shortest decimal of a short number has factors that are doubles. -/
theorem factors_shortest_exact (hx : x.magnitude ≠ 0)
    (hfinite : x.magnitude < infinityMagnitude) (hn : n < 10 ^ 15) (hj : j ≤ 22)
    (h : Nearest (n / 10 ^ j) x.magnitude) :
  (∃ b, Binary64.value b = (shortest .toEven x).factors.1)
    ∧ (shortest .toEven x).factors.2.natAbs ≤ 22
  := by
  have hle := toRat_shortest_le hx hfinite h
  obtain hnonneg | hneg := le_or_gt 0 (shortest .toEven x).exponent
  · exact factors_exact_of_nonneg hnonneg (digits_shortest_pos hx hfinite .toEven) hn h
      (shortest_spec .toEven hx hfinite).1 hle
  · exact factors_exact_of_neg hneg hn hj (neg_le_exponent_shortest hx hfinite hj h) hle

end Decimal

/-! ### Doubles -/

namespace Binary64

variable {x : Binary64}

/-- The three largest doubles of either sign are not refused. -/
theorem isSome_scaled_largest :
  ∀ (s : Bool) (i : Fin 3),
    0 ≤ (Decimal.shortest .toEven (ofMagnitude s (infinityMagnitude - 1 - i))).factors.2
      ∧ (Decimal.shortest .toEven (ofMagnitude s (infinityMagnitude - 1 - i))).scaled.isSome = true
  := by
  decide +kernel

/-- What is read of the shortest decimal of a double is a few places from it at most. -/
theorem exists_scaled_shortest (hx : x.magnitude ≠ 0) (hfinite : x.magnitude < infinityMagnitude) :
  ∃ c, c < infinityMagnitude ∧ c ≤ x.magnitude + 3 ∧ x.magnitude ≤ c + 3
    ∧ (Decimal.shortest .toEven x).scaled = some (ofMagnitude false c)
  := by
  have hnearest := (Decimal.shortest_spec .toEven hx hfinite).1
  have hpos := Decimal.digits_shortest_pos hx hfinite .toEven
  have hdigits := Decimal.digits_shortest_lt hx hfinite .toEven
  obtain ⟨hlow, hhigh⟩ := Decimal.exponent_shortest_bounds hx hfinite .toEven
  have hpower : -330 ≤ (Decimal.shortest .toEven x).factors.2
      ∧ (Decimal.shortest .toEven x).factors.2 ≤ 308 := by
    have hcases := (Decimal.shortest .toEven x).factors_snd_eq_or
    omega
  obtain ⟨v, c, hv, hc, hscale⟩ := JsonNumeral.exists_scale (Decimal.factors_pos hpos)
    (Decimal.factors_lt hdigits) hpower.1 hpower.2
  rw [Decimal.toRat_factors] at hv
  have hupper : c ≤ x.magnitude + 3 :=
    hv.magnitude_le hc hnearest (by norm_num [roundoff]) (by norm_num [roundoff])
  have hlower : x.magnitude ≤ c + 3 :=
    hv.le_magnitude hc hnearest (by norm_num [roundoff]) (by norm_num [roundoff])
  have hfinite' : c < infinityMagnitude := by
    obtain hsmall | hlarge := lt_or_ge (x.magnitude + 3) infinityMagnitude
    · exact hupper.trans_lt hsmall
    · -- three places above the number there may be infinity, and only a computation excludes it
      by_contra hinfinite
      obtain ⟨i, hi⟩ : ∃ i : Fin 3, x.magnitude = infinityMagnitude - 1 - i :=
        ⟨⟨infinityMagnitude - 1 - x.magnitude, by omega⟩, by simp only; omega⟩
      obtain ⟨hwhole, hsome⟩ := isSome_scaled_largest x.negative i
      rw [← hi, ofMagnitude_magnitude] at hwhole hsome
      rw [Decimal.scaled, hscale, if_pos ⟨hwhole, not_lt.mp hinfinite⟩] at hsome
      cases hsome
  refine ⟨c, hfinite', hupper, hlower, ?_⟩
  rw [Decimal.scaled, hscale, if_neg fun h => h.2.not_gt hfinite', min_eq_left hfinite'.le]

/-- Zeros stay as they were. -/
theorem reread_zero (hx : x.magnitude = 0) :
  Reread x x
  where
  negative := rfl
  finite := by
    rw [isFinite_iff, hx]
    decide
  upper := Nat.le_add_right _ 3
  lower := Nat.le_add_right _ 3
  exact := fun _ _ _ _ _ => rfl

theorem reread_ofMagnitude {c : ℕ} (hx : x.magnitude ≠ 0)
    (hfinite : x.magnitude < infinityMagnitude) (hc : c < infinityMagnitude)
    (hupper : c ≤ x.magnitude + 3) (hlower : x.magnitude ≤ c + 3)
    (hscaled : (Decimal.shortest .toEven x).scaled = some (ofMagnitude false c)) :
  Reread x (ofMagnitude x.negative c)
  := by
  have hlt : c < signPlace := hc.trans infinityMagnitude_lt_signPlace
  refine ⟨negative_ofMagnitude hlt, ?_, ?_, ?_, ?_⟩
  · rwa [isFinite_iff, magnitude_ofMagnitude hlt]
  · rwa [magnitude_ofMagnitude hlt]
  · rwa [magnitude_ofMagnitude hlt]
  · intro n j hn hj h
    obtain ⟨hword, hpower⟩ := Decimal.factors_shortest_exact hx hfinite hn hj h
    have hnearest := (Decimal.shortest_spec .toEven hx hfinite).1
    rw [← Decimal.toRat_factors] at hnearest
    have hexact := JsonNumeral.scale_exact
      (Decimal.factors_lt (Decimal.digits_shortest_lt hx hfinite .toEven)) hword hpower hnearest
      hfinite
    rw [← Decimal.scaled, hscaled, Option.some.injEq] at hexact
    have hmagnitude := congrArg magnitude hexact
    rw [magnitude_ofMagnitude hlt,
      magnitude_ofMagnitude (hfinite.trans infinityMagnitude_lt_signPlace)] at hmagnitude
    rw [hmagnitude, ofMagnitude_magnitude]

/-- A finite double is written as a numeral, and read as a double close to it. -/
theorem exists_reread (h : x.isFinite = true) :
  ∃ (n : JsonNumeral) (y : Binary64),
    Json.Writes (Decimal.json.finite x) (.numeral n) ∧ n.toDouble? = some y ∧ Reread x y
  := by
  have hfinite : x.magnitude < infinityMagnitude := isFinite_iff.mp h
  have hsign {c : ℕ} (hc : c < signPlace) (s : Bool) :
      (if s then (ofMagnitude false c).neg else ofMagnitude false c) = ofMagnitude s c := by
    cases s with
    | false => rfl
    | true => exact neg_ofMagnitude hc
  by_cases hx : x.magnitude = 0
  · have hzero : x.isZero = true := isZero_iff.mpr hx
    refine ⟨.zero x.negative, x, ?_, ?_, reread_zero hx⟩
    · have hwrites := Json.writes_numeral (JsonNumeral.wellFormed_zero x.negative)
      rw [JsonNumeral.write] at hwrites
      rw [Decimal.Layout.finite, if_pos hzero]
      exact hwrites
    · have hsame : ofMagnitude x.negative 0 = x := by rw [← hx, ofMagnitude_magnitude]
      rw [JsonNumeral.toDouble?, JsonNumeral.magnitude?_zero, Option.map_some]
      exact congrArg some ((hsign (by decide) x.negative).trans hsame)
  · obtain ⟨c, hc, hupper, hlower, hscaled⟩ := exists_scaled_shortest hx hfinite
    obtain ⟨hlow, hhigh⟩ := Decimal.exponent_shortest_bounds hx hfinite .toEven
    obtain ⟨n, hform, hnegative, hwrite, hmagnitude⟩ := Decimal.exists_numeral x.negative
      (Decimal.digits_shortest_pos hx hfinite .toEven)
      (Decimal.digits_shortest_lt hx hfinite .toEven) hlow hhigh
    refine ⟨n, ofMagnitude x.negative c, ?_, ?_,
      reread_ofMagnitude hx hfinite hc hupper hlower hscaled⟩
    · have hwrites := Json.writes_numeral hform
      rw [JsonNumeral.write, hnegative, hwrite] at hwrites
      rw [Decimal.Layout.finite, if_neg (isZero_iff.not.mpr hx)]
      exact hwrites
    · rw [JsonNumeral.toDouble?, hmagnitude, hscaled, Option.map_some, hnegative,
        hsign (hc.trans infinityMagnitude_lt_signPlace)]

end Binary64

end TypedSql
