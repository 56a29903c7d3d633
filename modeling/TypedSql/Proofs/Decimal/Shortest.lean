import Mathlib.Algebra.Order.Archimedean.Basic
import TypedSql.Decimal.Shortest
import TypedSql.Proofs.Binary64.Arithmetic

/-!
# Shortest decimals are read back

The neighbourhood of a double holds the numbers that are rounded to it (`contains_iff`), so that a
grid has a point for the double exactly if one of its points is rounded to it
(`isSome_onGrid_iff`).  The shortest decimal is such a point of the coarsest grid that has one
(`shortest_spec`), and its digits fit into a word of sixty-four bits.
-/

namespace TypedSql.Decimal

open Binary64 (halfway Nearest exponentPlace infinityMagnitude)

variable {x : Binary64} {p : ℤ} {n : ℕ} {tie : Tie}

/-- The number of a decimal. -/
def toRat (d : Decimal) : ℚ :=
  d.digits * 10 ^ d.exponent

/-! ### Neighbourhoods -/

/-- Four quarters make a unit in the last place. -/
theorem zpow_eq_quarters (e : ℤ) :
  (2 : ℚ) ^ e = 4 * 2 ^ (e - 2)
  := by
  rw [zpow_sub₀ two_ne_zero]
  norm_num
  ring

theorem halfway_magnitude (x : Binary64) :
  halfway x.magnitude = (neighbourhood x).high * 2 ^ (x.exponent - 2)
  := by
  rw [halfway, Binary64.value_magnitude_succ, Binary64.value_magnitude, zpow_eq_quarters,
    neighbourhood]
  push_cast
  ring

theorem halfway_of_magnitude_eq_succ {a : ℕ} (h : x.magnitude = a + 1) :
  halfway a = (neighbourhood x).low * 2 ^ (x.exponent - 2)
  := by
  obtain ⟨k, hexponent, hsum, hhigh, hlow, hedge⟩ := x.magnitude_eq_add
  have hvalue : Binary64.value (a + 1) = x.significand * 2 ^ x.exponent := by
    rw [← h, Binary64.value_magnitude]
  have hpos : 0 < x.significand := Binary64.significand_pos (by omega)
  rw [halfway, hvalue]
  by_cases hcase : k ≠ 0 ∧ x.significand = exponentPlace
  · -- the number below has another exponent
    obtain ⟨hk, hm⟩ := hcase
    obtain ⟨j, rfl⟩ := Nat.exists_eq_add_one_of_ne_zero hk
    have hbelow : a = j * exponentPlace + (2 * exponentPlace - 1) := by
      rw [hm, Nat.succ_mul] at hsum
      omega
    have hexponent' : (j : ℤ) - 1074 = x.exponent - 1 := by
      rw [hexponent]
      push_cast
      ring
    have hlow : (neighbourhood x).low = 4 * x.significand - 1 := by
      rw [neighbourhood, if_pos (hedge.mpr ⟨hk, hm⟩)]
    rw [hbelow, Binary64.value_add (by omega) (.inr (by omega)), hexponent', hlow, hm,
      zpow_eq_quarters x.exponent, zpow_sub₀ two_ne_zero, zpow_eq_quarters x.exponent,
      Nat.cast_sub (by decide), Nat.cast_sub (by decide)]
    push_cast
    ring
  · have hbelow : a = k * exponentPlace + (x.significand - 1) := by omega
    have hlow : (neighbourhood x).low = 4 * x.significand - 2 := by
      rw [neighbourhood, if_neg (hedge.not.mpr hcase)]
    rw [hbelow, Binary64.value_add (by omega) (by omega), ← hexponent, hlow,
      zpow_eq_quarters x.exponent, Nat.cast_sub (by omega), Nat.cast_sub (by omega)]
    push_cast
    ring

/-! ### Grids -/

/-- The unit in which `onGrid` measures quarters of the last place. -/
def gridUnit (x : Binary64) (p : ℤ) : ℕ :=
  power (-p).toNat <<< (x.exponent - 2).toNat

/-- The distance of the points of a grid, in the places of `gridUnit`. -/
def gridStep (x : Binary64) (p : ℤ) : ℕ :=
  power p.toNat <<< (-(x.exponent - 2)).toNat

theorem gridStep_pos (x : Binary64) (p : ℤ) :
  0 < gridStep x p
  :=
  Binary64.shiftLeft_pos (Nat.pow_pos (by decide)) _

theorem gridUnit_mul (x : Binary64) (p : ℤ) :
  (gridUnit x p : ℚ) * 10 ^ p = gridStep x p * 2 ^ (x.exponent - 2)
  := by
  have hstep : (gridStep x p : ℚ) ≠ 0 := by exact_mod_cast (gridStep_pos x p).ne'
  have hpower : (10 : ℚ) ^ p ≠ 0 := by positivity
  have hdiv : (gridUnit x p : ℚ) / gridStep x p = 10 ^ (-p) * 2 ^ (x.exponent - 2) := by
    have hten := Binary64.pow_toNat_div (x := 10) (by norm_num) (-p)
    rw [neg_neg] at hten
    rw [gridUnit, gridStep, Binary64.shiftLeft_div_shiftLeft, ← hten]
    simp [power]
  rw [div_eq_iff hstep] at hdiv
  rw [hdiv, zpow_neg]
  field_simp

/-- Lengths measured in the unit of a grid are proportional to numbers. -/
theorem exists_gridScale (x : Binary64) (p : ℤ) :
  ∃ K : ℚ, 0 < K ∧ (∀ l : ℕ, ((l * gridUnit x p : ℕ) : ℚ) = K * (l * 2 ^ (x.exponent - 2)))
    ∧ ∀ n : ℕ, ((n * gridStep x p : ℕ) : ℚ) = K * (n * 10 ^ p)
  := by
  have hstep : (0 : ℚ) < gridStep x p := by exact_mod_cast gridStep_pos x p
  have hpower : (0 : ℚ) < 10 ^ p := by positivity
  refine ⟨gridStep x p / 10 ^ p, div_pos hstep hpower, ?_, ?_⟩
  · intro l
    have hunit : (gridUnit x p : ℚ) = gridStep x p / 10 ^ p * 2 ^ (x.exponent - 2) := by
      rw [div_mul_eq_mul_div, ← gridUnit_mul, mul_div_cancel_right₀ _ hpower.ne']
    rw [Nat.cast_mul, hunit]
    ring
  · intro n
    rw [Nat.cast_mul]
    field_simp

/-- The neighbourhood of a double holds the points of a grid that are rounded to it. -/
theorem contains_iff (hx : x.magnitude ≠ 0) :
  (neighbourhood x).contains (gridUnit x p) (n * gridStep x p) = true
    ↔ Nearest (n * 10 ^ p) x.magnitude
  := by
  obtain ⟨a, ha⟩ := Nat.exists_eq_add_one_of_ne_zero hx
  obtain ⟨K, hK, hunit, hstep⟩ := exists_gridScale x p
  obtain ⟨k, -, hsum, -⟩ := x.magnitude_eq_add
  have hlow := halfway_of_magnitude_eq_succ ha
  have hhigh := halfway_magnitude x
  rw [ha] at hhigh
  have hclosed : (neighbourhood x).closed = true ↔ Even (a + 1) := by
    have hplace : Even (k * exponentPlace) := Even.mul_left (by decide) k
    rw [← ha, hsum, Nat.even_add, iff_true_left hplace, Nat.even_iff]
    exact beq_iff_eq
  rw [ha, Binary64.nearest_succ_iff, hlow, hhigh, Neighbourhood.contains]
  by_cases heven : Even (a + 1)
  · rw [if_pos heven, if_pos (hclosed.mpr heven), decide_eq_true_eq, ← Nat.cast_le (α := ℚ),
      ← Nat.cast_le (α := ℚ), hunit, hunit, hstep, mul_le_mul_iff_right₀ hK,
      mul_le_mul_iff_right₀ hK]
  · rw [if_neg heven, if_neg (hclosed.not.mpr heven), decide_eq_true_eq, ← Nat.cast_lt (α := ℚ),
      ← Nat.cast_lt (α := ℚ), hunit, hunit, hstep, mul_lt_mul_iff_right₀ hK,
      mul_lt_mul_iff_right₀ hK]

/-- The last point of a grid that is not above a double. -/
def gridFloor (x : Binary64) (p : ℤ) : ℕ :=
  (neighbourhood x).value * gridUnit x p / gridStep x p

theorem gridFloor_le (x : Binary64) (p : ℤ) :
  gridFloor x p * 10 ^ p ≤ Binary64.value x.magnitude
    ∧ Binary64.value x.magnitude < (gridFloor x p + 1 : ℕ) * 10 ^ p
  := by
  obtain ⟨K, hK, hunit, hstep⟩ := exists_gridScale x p
  have hvalue : Binary64.value x.magnitude
      = (neighbourhood x).value * 2 ^ (x.exponent - 2) := by
    rw [Binary64.value_magnitude, zpow_eq_quarters, neighbourhood]
    push_cast
    ring
  have hlow := Nat.div_mul_le_self ((neighbourhood x).value * gridUnit x p) (gridStep x p)
  have hhigh := Nat.lt_mul_div_succ ((neighbourhood x).value * gridUnit x p) (gridStep_pos x p)
  rw [mul_comm (gridStep x p)] at hhigh
  rw [← Nat.cast_le (α := ℚ), hunit, hstep, mul_le_mul_iff_right₀ hK, ← hvalue] at hlow
  rw [← Nat.cast_lt (α := ℚ), hunit, hstep, mul_lt_mul_iff_right₀ hK, ← hvalue] at hhigh
  exact ⟨hlow, hhigh⟩

theorem Tie.pick_eq_or (tie : Tie) (d : ℕ) :
  tie.pick d = d ∨ tie.pick d = d + 1
  := by
  cases tie with
  | up => exact .inr rfl
  | toEven =>
      obtain h | h := Nat.mod_two_eq_zero_or_one d
      · exact .inl (by rw [Tie.pick, h, Nat.add_zero])
      · exact .inr (by rw [Tie.pick, h])

/-- What is found on a grid depends on which of the two points next to the double are rounded to
it. -/
theorem exists_onGrid_eq (tie : Tie) (x : Binary64) (p : ℤ) :
  ∃ c, (c = gridFloor x p ∨ c = gridFloor x p + 1) ∧ onGrid tie x p =
    match (neighbourhood x).contains (gridUnit x p) (gridFloor x p * gridStep x p),
      (neighbourhood x).contains (gridUnit x p) ((gridFloor x p + 1) * gridStep x p) with
    | true, true => some c
    | true, false => some (gridFloor x p)
    | false, true => some (gridFloor x p + 1)
    | false, false => none
  := by
  refine ⟨_, ?_, rfl⟩
  rw [← gridUnit, ← gridStep, ← gridFloor]
  split_ifs
  · exact .inl rfl
  · exact .inr rfl
  · exact tie.pick_eq_or _

/-- The point of a grid that is found is rounded to the double. -/
theorem nearest_of_onGrid (hx : x.magnitude ≠ 0) (h : onGrid tie x p = some n) :
  Nearest (n * 10 ^ p) x.magnitude
  := by
  rw [← contains_iff hx]
  obtain ⟨c, hc, heq⟩ := exists_onGrid_eq tie x p
  rw [heq] at h
  split at h
  case h_1 hbelow habove =>
    obtain rfl := Option.some.inj h
    obtain rfl | rfl := hc
    · exact hbelow
    · exact habove
  case h_2 hbelow _ =>
    obtain rfl := Option.some.inj h
    exact hbelow
  case h_3 _ habove =>
    obtain rfl := Option.some.inj h
    exact habove
  case h_4 => cases h

/-- When some point of a grid is rounded to the double, one is found. -/
theorem isSome_onGrid (tie : Tie) (hx : x.magnitude ≠ 0) (h : Nearest (n * 10 ^ p) x.magnitude) :
  (onGrid tie x p).isSome = true
  := by
  obtain ⟨c, -, heq⟩ := exists_onGrid_eq tie x p
  obtain ⟨hlow, hhigh⟩ := gridFloor_le x p
  have hpower : (0 : ℚ) < 10 ^ p := by positivity
  have hvalue := Binary64.nearest_value x.magnitude
  -- a point between the given one and the double is rounded to it, too
  have hnext : (neighbourhood x).contains (gridUnit x p) (gridFloor x p * gridStep x p) = true
      ∨ (neighbourhood x).contains (gridUnit x p) ((gridFloor x p + 1) * gridStep x p) = true := by
    rw [contains_iff hx, contains_iff hx]
    obtain hle | hgt := le_or_gt n (gridFloor x p)
    · left
      have hle' : (n : ℚ) * 10 ^ p ≤ gridFloor x p * 10 ^ p :=
        mul_le_mul_of_nonneg_right (by exact_mod_cast hle) hpower.le
      exact h.of_le_of_le hvalue hle' hlow (by positivity)
    · right
      have hgt' : ((gridFloor x p + 1 : ℕ) : ℚ) * 10 ^ p ≤ n * 10 ^ p :=
        mul_le_mul_of_nonneg_right (by exact_mod_cast hgt) hpower.le
      exact hvalue.of_le_of_le h hhigh.le hgt' (by positivity)
  rw [heq]
  split
  case h_4 hbelow habove =>
    rw [hbelow, habove] at hnext
    obtain h | h := hnext <;> cases h
  all_goals rfl

/-! ### The coarsest grid -/

/-- The search finds something when there is something to find, and does not go past it. -/
theorem coarsest_spec {point : ℤ → Option ℕ} {m : ℕ} {p q : ℤ} (hq : (point q).isSome = true)
    (hlow : p - m ≤ q) (hhigh : q ≤ p) :
  point (coarsest point m p).exponent = some (coarsest point m p).digits
    ∧ q ≤ (coarsest point m p).exponent ∧ (coarsest point m p).exponent ≤ p
  := by
  induction m generalizing p with
  | zero =>
      obtain rfl : q = p := by omega
      obtain ⟨d, hd⟩ := Option.isSome_iff_exists.mp hq
      exact ⟨by simp [coarsest, hd], le_rfl, le_rfl⟩
  | succ m ih =>
      cases hp : point p with
      | some d =>
          simp only [coarsest, hp]
          exact ⟨trivial, hhigh, le_rfl⟩
      | none =>
          have hne : q ≠ p := by
            rintro rfl
            rw [hp] at hq
            cases hq
          obtain ⟨hpoint, hqe, hep⟩ := ih (p := p - 1) (by push_cast at hlow; omega) (by omega)
          simp only [coarsest, hp]
          exact ⟨hpoint, hqe, by omega⟩

/-! ### The shortest decimal -/

theorem zpow_ten_lt_zpow_two :
  (10 : ℚ) ^ (-324 : ℤ) < 2 ^ (-1075 : ℤ) ∧ (2 : ℚ) ^ (1024 : ℤ) < 10 ^ (309 : ℤ)
  := by
  have hten : (10 : ℚ) ^ 324 = 10 ^ 16 * 10 ^ 308 := pow_add 10 16 308
  have htwo : (2 : ℚ) ^ 1075 = 2 ^ 104 * 2 ^ 971 := pow_add 2 104 971
  have hten' : (10 : ℚ) ^ 309 = 10 * 10 ^ 308 := pow_succ' 10 308
  have htwo' : (2 : ℚ) ^ 1024 = 2 ^ 53 * 2 ^ 971 := pow_add 2 53 971
  have hle := Binary64.le_pow_ten_308
  have hpower : (0 : ℚ) < 2 ^ 971 := by positivity
  constructor
  · rw [zpow_neg, zpow_neg]
    apply inv_strictAnti₀ (by positivity)
    rw [zpow_ofNat, zpow_ofNat, hten, htwo]
    generalize (10 : ℚ) ^ 308 = p at hle ⊢
    generalize (2 : ℚ) ^ 971 = q at hle hpower ⊢
    linarith only [hle, hpower]
  · rw [zpow_ofNat, zpow_ofNat, hten', htwo']
    generalize (10 : ℚ) ^ 308 = p at hle ⊢
    generalize (2 : ℚ) ^ 971 = q at hle hpower ⊢
    linarith only [hle, hpower]

theorem exponent_bounds (hfinite : x.magnitude < infinityMagnitude) :
  -1074 ≤ x.exponent ∧ x.exponent ≤ 971
  := by
  obtain ⟨k, hexponent, hsum, -, hlow, -⟩ := x.magnitude_eq_add
  obtain rfl | hlong := hlow
  · omega
  · have hlt : (k + 1) * exponentPlace < 2047 * exponentPlace :=
      calc
        (k + 1) * exponentPlace = k * exponentPlace + exponentPlace := Nat.succ_mul k _
        _ ≤ x.magnitude := by omega
        _ < 2047 * exponentPlace := hfinite
    have hk := Nat.lt_of_mul_lt_mul_right hlt
    omega

/-- A grid of steps just below half of the last place has a point that is rounded to the double. -/
theorem exists_fine_grid (hfinite : x.magnitude < infinityMagnitude) :
  ∃ (p : ℤ) (n : ℕ), -324 ≤ p ∧ p ≤ 309 ∧ (2 : ℚ) ^ (x.exponent - 1) ≤ 10 ^ (p + 1)
    ∧ Nearest (n * 10 ^ p) x.magnitude
  := by
  obtain ⟨hlow, hhigh⟩ := exponent_bounds hfinite
  obtain ⟨hten_low, hten_high⟩ := zpow_ten_lt_zpow_two
  have hhalf : (0 : ℚ) < 2 ^ (x.exponent - 1) := by positivity
  obtain ⟨p, hp, hp'⟩ := exists_mem_Ioc_zpow hhalf (show (1 : ℚ) < 10 by norm_num)
  have hfloor := gridFloor_le x p
  refine ⟨p, gridFloor x p + 1, ?_, ?_, hp', ?_⟩
  · have hlt : (10 : ℚ) ^ (-324 : ℤ) < 10 ^ (p + 1) :=
      calc
        (10 : ℚ) ^ (-324 : ℤ) < 2 ^ (-1075 : ℤ) := hten_low
        _ ≤ 2 ^ (x.exponent - 1) := zpow_le_zpow_right₀ one_le_two (by omega)
        _ ≤ 10 ^ (p + 1) := hp'
    have hexponent := (zpow_lt_zpow_iff_right₀ (by norm_num)).mp hlt
    omega
  · have hlt : (10 : ℚ) ^ p < 10 ^ (309 : ℤ) :=
      calc
        (10 : ℚ) ^ p < 2 ^ (x.exponent - 1) := hp
        _ ≤ 2 ^ (1024 : ℤ) := zpow_le_zpow_right₀ one_le_two (by omega)
        _ < 10 ^ (309 : ℤ) := hten_high
    exact ((zpow_lt_zpow_iff_right₀ (by norm_num)).mp hlt).le
  · have hhalfway : halfway x.magnitude
        = Binary64.value x.magnitude + 2 ^ (x.exponent - 1) := by
      rw [halfway, Binary64.value_magnitude_succ, Binary64.value_magnitude,
        zpow_sub_one₀ two_ne_zero]
      ring
    have habove : ((gridFloor x p + 1 : ℕ) : ℚ) * 10 ^ p < halfway x.magnitude := by
      rw [hhalfway]
      push_cast
      linarith [hfloor.1]
    exact Binary64.nearest_of_value_le hfloor.2.le habove

/-- The shortest decimal is rounded to the double, and lies on the coarsest grid with a point that
is. -/
theorem shortest_spec (tie : Tie) (hx : x.magnitude ≠ 0)
    (hfinite : x.magnitude < infinityMagnitude) :
  Nearest (shortest tie x).toRat x.magnitude
    ∧ ∀ (q : ℤ) (n : ℕ), -324 ≤ q → q ≤ 309 → Nearest (n * 10 ^ q) x.magnitude
      → q ≤ (shortest tie x).exponent
  := by
  have hsearch {q : ℤ} {n : ℕ} (hlow : -324 ≤ q) (hhigh : q ≤ 309)
      (h : Nearest (n * 10 ^ q) x.magnitude) :=
    coarsest_spec (m := 653) (p := 309) (isSome_onGrid tie hx h) (by omega) hhigh
  constructor
  · obtain ⟨q, n, hlow, hhigh, -, h⟩ := exists_fine_grid hfinite
    exact nearest_of_onGrid hx (hsearch hlow hhigh h).1
  · intro q n hlow hhigh h
    exact (hsearch hlow hhigh h).2.1

variable (hx : x.magnitude ≠ 0) (hfinite : x.magnitude < infinityMagnitude)
include hx hfinite

theorem digits_shortest_pos (tie : Tie) :
  0 < (shortest tie x).digits
  := by
  obtain ⟨a, ha⟩ := Nat.exists_eq_add_one_of_ne_zero hx
  have hnearest := (shortest_spec tie hx hfinite).1
  rw [ha] at hnearest
  have hpos := (Binary64.halfway_pos a).trans_le hnearest.halfway_le
  apply Nat.pos_of_ne_zero
  intro hzero
  rw [toRat, hzero, Nat.cast_zero, zero_mul] at hpos
  exact hpos.false

/-- The digits of a shortest decimal fit into a word. -/
theorem digits_shortest_lt (tie : Tie) :
  (shortest tie x).digits < 2 ^ 64
  := by
  obtain ⟨p, n, hlow, hhigh, hhalf, h⟩ := exists_fine_grid hfinite
  obtain ⟨hnearest, hcoarsest⟩ := shortest_spec tie hx hfinite
  have hexponent := hcoarsest p n hlow hhigh h
  obtain ⟨-, -, -, hsignificand, -⟩ := x.magnitude_eq_add
  have hlong : (x.significand : ℚ) < 2 ^ 53 := by exact_mod_cast hsignificand
  have hten : (0 : ℚ) < 10 ^ (shortest tie x).exponent := by positivity
  have hdigits : ((shortest tie x).digits : ℚ) * 10 ^ (shortest tie x).exponent
      ≤ (2 * x.significand + 1) * 10 * 10 ^ (shortest tie x).exponent :=
    calc
      ((shortest tie x).digits : ℚ) * 10 ^ (shortest tie x).exponent
          ≤ halfway x.magnitude := hnearest.le_halfway
      _ = (2 * x.significand + 1) * 2 ^ (x.exponent - 1) := by
        rw [halfway, Binary64.value_magnitude_succ, Binary64.value_magnitude,
          zpow_sub_one₀ two_ne_zero]
        ring
      _ ≤ (2 * x.significand + 1) * 10 ^ (p + 1) :=
        mul_le_mul_of_nonneg_left hhalf (by positivity)
      _ ≤ (2 * x.significand + 1) * 10 ^ ((shortest tie x).exponent + 1) :=
        mul_le_mul_of_nonneg_left (zpow_le_zpow_right₀ (by norm_num) (by omega)) (by positivity)
      _ = (2 * x.significand + 1) * 10 * 10 ^ (shortest tie x).exponent := by
        rw [zpow_add_one₀ (by norm_num)]
        ring
  have hbound := le_of_mul_le_mul_right hdigits hten
  have hlt : ((shortest tie x).digits : ℚ) < 2 ^ 64 := by linarith
  exact_mod_cast hlt

theorem exponent_shortest_bounds (tie : Tie) :
  -324 ≤ (shortest tie x).exponent ∧ (shortest tie x).exponent ≤ 308
  := by
  obtain ⟨hnearest, hcoarsest⟩ := shortest_spec tie hx hfinite
  constructor
  · obtain ⟨p, n, hlow, hhigh, -, h⟩ := exists_fine_grid hfinite
    exact hlow.trans (hcoarsest p n hlow hhigh h)
  · have hdigits : (1 : ℚ) ≤ (shortest tie x).digits := by
      exact_mod_cast digits_shortest_pos hx hfinite tie
    have hlt : (10 : ℚ) ^ (shortest tie x).exponent < 10 ^ (309 : ℤ) :=
      calc
        (10 : ℚ) ^ (shortest tie x).exponent ≤ (shortest tie x).toRat :=
          le_mul_of_one_le_left (by positivity) hdigits
        _ ≤ halfway x.magnitude := hnearest.le_halfway
        _ < Binary64.value (x.magnitude + 1) := Binary64.halfway_lt_value _
        _ ≤ Binary64.value infinityMagnitude := Binary64.value_strictMono.monotone hfinite
        _ = 2 ^ (1024 : ℤ) := Binary64.value_infinityMagnitude
        _ < 10 ^ (309 : ℤ) := zpow_ten_lt_zpow_two.2
    exact Int.lt_add_one_iff.mp ((zpow_lt_zpow_iff_right₀ (by norm_num)).mp hlt)

end TypedSql.Decimal
