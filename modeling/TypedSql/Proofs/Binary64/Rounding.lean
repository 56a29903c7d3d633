import Mathlib.Algebra.Group.Nat.Even
import Mathlib.Tactic.GCongr
import TypedSql.Proofs.Binary64.Magnitude

/-!
# Rounding

The midpoints between the numbers of successive magnitudes divide the nonnegative numbers among
the magnitudes.  A number is rounded to the magnitude whose midpoints it lies between, and a
midpoint to the even one of its neighbours: this is the relation `Nearest`.  It is a monotone
function, `roundMagnitude` computes it (`roundMagnitude_eq`), and what is rounded is changed by
the relative roundoff at most, unless it is very small (`Nearest.within`).
-/

namespace TypedSql.Binary64

/-! ### Midpoints -/

/-- The number halfway from that of a magnitude to the next one. -/
def halfway (b : ℕ) : ℚ :=
  (value b + value (b + 1)) / 2

theorem value_lt_halfway (b : ℕ) :
  value b < halfway b
  := by
  have h := value_strictMono b.lt_succ_self
  rw [halfway]
  linarith

theorem halfway_lt_value (b : ℕ) :
  halfway b < value (b + 1)
  := by
  have h := value_strictMono b.lt_succ_self
  rw [halfway]
  linarith

theorem halfway_strictMono :
  StrictMono halfway
  :=
  strictMono_nat_of_lt_succ fun b => (halfway_lt_value b).trans (value_lt_halfway (b + 1))

theorem halfway_pos (b : ℕ) :
  0 < halfway b
  :=
  (value_nonneg b).trans_lt (value_lt_halfway b)

/-- The next midpoint is larger by the relative roundoff at least. -/
theorem halfway_le_succ (b : ℕ) :
  halfway b ≤ (1 - roundoff) * halfway (b + 1)
  := by
  have hlow := value_le_succ b
  have hhigh := value_le_succ (b + 1)
  rw [halfway, halfway]
  linarith

theorem halfway_le_add (b n : ℕ) :
  halfway b ≤ (1 - roundoff) ^ n * halfway (b + n)
  := by
  have hfactor : 0 ≤ 1 - roundoff := by norm_num [roundoff]
  induction n with
  | zero => rw [pow_zero, one_mul, Nat.add_zero]
  | succ n ih =>
      calc
        halfway b ≤ (1 - roundoff) ^ n * halfway (b + n) := ih
        _ ≤ (1 - roundoff) ^ n * ((1 - roundoff) * halfway (b + n + 1)) :=
          mul_le_mul_of_nonneg_left (halfway_le_succ (b + n)) (pow_nonneg hfactor n)
        _ = (1 - roundoff) ^ (n + 1) * halfway (b + (n + 1)) := by
          rw [pow_succ, mul_assoc, Nat.add_assoc]

/-! ### The nearest magnitude -/

/-- A number is rounded to a magnitude: it lies between the midpoints on either side of it, and
on one of them only if the magnitude is even. -/
structure Nearest (q : ℚ) (b : ℕ) : Prop where
  lower : ∀ a, b = a + 1 → halfway a < q ∨ halfway a = q ∧ Even b
  upper : q < halfway b ∨ q = halfway b ∧ Even b

namespace Nearest

variable {q r : ℚ} {b c : ℕ}

theorem halfway_le (h : Nearest q (b + 1)) :
  halfway b ≤ q
  :=
  (h.lower b rfl).elim le_of_lt fun heq => heq.1.le

theorem le_halfway (h : Nearest q b) :
  q ≤ halfway b
  :=
  h.upper.elim le_of_lt fun heq => heq.1.le

/-- Larger numbers are not rounded to smaller magnitudes. -/
theorem le_of_le (hq : Nearest q b) (hr : Nearest r c) (h : q ≤ r) :
  b ≤ c
  := by
  by_contra hlt
  obtain ⟨a, rfl⟩ : ∃ a, b = a + 1 := Nat.exists_eq_add_one_of_ne_zero (by omega)
  have hac : halfway a ≤ halfway c := hq.halfway_le.trans (h.trans hr.le_halfway)
  have hca : c ≤ a := by omega
  have heq : halfway a = halfway c := hac.antisymm (halfway_strictMono.monotone hca)
  obtain rfl : a = c := halfway_strictMono.injective heq
  -- both numbers are the midpoint, and of its neighbours only one is even
  obtain hlow | ⟨-, heven⟩ := hq.lower a rfl
  · exact (hlow.trans_le (h.trans hr.le_halfway)).false
  · obtain hhigh | ⟨-, heven'⟩ := hr.upper
    · exact (hhigh.trans_le (hq.halfway_le.trans h)).false
    · exact Nat.even_add_one.mp heven heven'

/-- A number is rounded to one magnitude only. -/
theorem unique (hb : Nearest q b) (hc : Nearest q c) :
  b = c
  :=
  (hb.le_of_le hc le_rfl).antisymm (hc.le_of_le hb le_rfl)

end Nearest

theorem nearest_of_value_le {q : ℚ} {b : ℕ} (hlow : value b ≤ q) (hhigh : q < halfway b) :
  Nearest q b
  where
  lower := by
    rintro a rfl
    exact .inl ((halfway_lt_value a).trans_le hlow)
  upper := .inl hhigh

/-- The number of a magnitude is rounded to it. -/
theorem nearest_value (b : ℕ) :
  Nearest (value b) b
  :=
  nearest_of_value_le le_rfl (value_lt_halfway b)

theorem Nearest.value_le {q : ℚ} {a b : ℕ} (h : Nearest q b) (ha : value a ≤ q) :
  a ≤ b
  :=
  (nearest_value a).le_of_le h ha

theorem Nearest.le_value {q : ℚ} {a b : ℕ} (h : Nearest q b) (ha : q ≤ value a) :
  b ≤ a
  :=
  h.le_of_le (nearest_value a) ha

theorem nearest_zero :
  Nearest 0 0
  := by
  have h := nearest_value 0
  rwa [value_zero] at h

/-- A magnitude above zero is nearest to the numbers between its midpoints. -/
theorem nearest_succ_iff {q : ℚ} {a : ℕ} :
  Nearest q (a + 1) ↔ if Even (a + 1) then halfway a ≤ q ∧ q ≤ halfway (a + 1)
    else halfway a < q ∧ q < halfway (a + 1)
  := by
  constructor
  · intro h
    split_ifs with heven
    · exact ⟨h.halfway_le, h.le_halfway⟩
    · exact ⟨(h.lower a rfl).resolve_right fun heq => heven heq.2,
        h.upper.resolve_right fun heq => heven heq.2⟩
  · intro h
    split_ifs at h with heven
    · refine ⟨?_, h.2.lt_or_eq.imp_right fun heq => ⟨heq, heven⟩⟩
      rintro b hb
      obtain rfl := Nat.succ.inj hb
      exact h.1.lt_or_eq.imp_right fun heq => ⟨heq, heven⟩
    · refine ⟨?_, .inl h.2⟩
      rintro b hb
      obtain rfl := Nat.succ.inj hb
      exact .inl h.1

/-! ### Rounding in the places of a magnitude -/

section Places

variable {s : ℚ} {k m : ℕ}

/-- The midpoint above a magnitude, in the places of its exponent. -/
theorem halfway_add (hm : m < 2 * exponentPlace) (hk : k = 0 ∨ exponentPlace ≤ m) :
  halfway (k * exponentPlace + m) = (m + 1 / 2) * 2 ^ ((k : ℤ) - 1074)
  := by
  rw [halfway, value_add hm.le hk, Nat.add_assoc, value_add (by omega) (by omega)]
  push_cast
  ring

theorem even_add (k : ℕ) (h : Even m) :
  Even (k * exponentPlace + m)
  :=
  have hplace : Even exponentPlace := by decide
  (hplace.mul_left k).add h

theorem halfway_below_integer {a : ℕ} (ha : k * exponentPlace + m = a + 1)
    (hlow : k = 0 ∨ exponentPlace ≤ s) (hm : m ≤ 2 * exponentPlace)
    (hk : k = 0 ∨ exponentPlace ≤ m) (hs : m - 1 / 2 ≤ s) (heven : m - 1 / 2 = s → Even m) :
  halfway a < s * 2 ^ ((k : ℤ) - 1074)
    ∨ halfway a = s * 2 ^ ((k : ℤ) - 1074) ∧ Even (k * exponentPlace + m)
  := by
  have hplace : 0 < exponentPlace := by decide
  have hunit : (0 : ℚ) < 2 ^ ((k : ℤ) - 1074) := by positivity
  obtain hinside | ⟨hk', rfl⟩ : (∃ l, m = l + 1 ∧ (k = 0 ∨ exponentPlace ≤ l))
      ∨ (k ≠ 0 ∧ m = exponentPlace) := by
    by_cases hzero : k = 0
    · subst hzero
      exact .inl ⟨a, by omega, .inl rfl⟩
    · by_cases hedge : m = exponentPlace
      · exact .inr ⟨hzero, hedge⟩
      · exact .inl ⟨m - 1, by omega, .inr (by omega)⟩
  · obtain ⟨l, rfl, hl⟩ := hinside
    obtain rfl : a = k * exponentPlace + l := by omega
    have hhalf : ((l + 1 : ℕ) : ℚ) - 1 / 2 = l + 1 / 2 := by
      push_cast
      ring
    rw [hhalf] at hs heven
    rw [halfway_add (by omega) hl]
    obtain hlt | heq := hs.lt_or_eq
    · exact .inl (mul_lt_mul_of_pos_right hlt hunit)
    · exact .inr ⟨by rw [heq], even_add k (heven heq)⟩
  · -- below the leading bit the places are closer, but the number is not there
    left
    calc
      halfway a < value (a + 1) := halfway_lt_value a
      _ = exponentPlace * 2 ^ ((k : ℤ) - 1074) := by rw [← ha, value_add hm hk]
      _ ≤ s * 2 ^ ((k : ℤ) - 1074) :=
        mul_le_mul_of_nonneg_right (hlow.resolve_left hk') hunit.le

theorem halfway_above_integer (hhigh : s < 2 * exponentPlace) (hm : m ≤ 2 * exponentPlace)
    (hk : k = 0 ∨ exponentPlace ≤ m) (hs : s ≤ m + 1 / 2) (heven : s = m + 1 / 2 → Even m) :
  s * 2 ^ ((k : ℤ) - 1074) < halfway (k * exponentPlace + m)
    ∨ s * 2 ^ ((k : ℤ) - 1074) = halfway (k * exponentPlace + m) ∧ Even (k * exponentPlace + m)
  := by
  have hunit : (0 : ℚ) < 2 ^ ((k : ℤ) - 1074) := by positivity
  obtain hlt | rfl := hm.lt_or_eq
  · rw [halfway_add hlt hk]
    obtain hs | hs := hs.lt_or_eq
    · exact .inl (mul_lt_mul_of_pos_right hs hunit)
    · exact .inr ⟨by rw [hs], even_add k (heven hs)⟩
  · left
    calc
      s * 2 ^ ((k : ℤ) - 1074) < (2 * exponentPlace : ℕ) * 2 ^ ((k : ℤ) - 1074) := by
        push_cast
        exact mul_lt_mul_of_pos_right hhigh hunit
      _ = value (k * exponentPlace + 2 * exponentPlace) := (value_add hm hk).symm
      _ < halfway (k * exponentPlace + 2 * exponentPlace) := value_lt_halfway _

/-- A number of the length of a significand is rounded by rounding it to an integer.  When it is
short, its place is the least one. -/
theorem nearest_of_integer (hlow : k = 0 ∨ exponentPlace ≤ s) (hhigh : s < 2 * exponentPlace)
    (hm : |s - m| ≤ 1 / 2) (heven : |s - m| = 1 / 2 → Even m) :
  Nearest (s * 2 ^ ((k : ℤ) - 1074)) (k * exponentPlace + m)
  := by
  obtain ⟨hbelow, habove⟩ := abs_le.mp hm
  have hm_high : m ≤ 2 * exponentPlace := by
    have h : (m : ℚ) < (2 * exponentPlace + 1 : ℕ) := by push_cast; linarith
    exact Nat.lt_succ_iff.mp (by exact_mod_cast h)
  have hm_low : k = 0 ∨ exponentPlace ≤ m := by
    refine hlow.imp_right fun hs => ?_
    have h : (exponentPlace : ℚ) < (m + 1 : ℕ) := by push_cast; linarith
    exact Nat.lt_succ_iff.mp (by exact_mod_cast h)
  constructor
  · intro a ha
    refine halfway_below_integer ha hlow hm_high hm_low (by linarith) fun hs => heven ?_
    rw [← hs, sub_sub_cancel_left, abs_neg, abs_of_pos (by norm_num)]
  · refine halfway_above_integer hhigh hm_high hm_low (by linarith) fun hs => heven ?_
    rw [hs, add_sub_cancel_left, abs_of_pos (by norm_num)]

end Places

/-! ### Rounding of quotients -/

variable {num den : ℕ}

theorem divNearest_spec (num : ℕ) (hden : 0 < den) :
  |(num / den : ℚ) - divNearest num den| ≤ 1 / 2
    ∧ (|(num / den : ℚ) - divNearest num den| = 1 / 2 → Even (divNearest num den))
  := by
  have hpos : (0 : ℚ) < den := by exact_mod_cast hden
  have hparts : (num / den : ℚ) = (num / den : ℕ) + (num % den : ℕ) / den := by
    have h : ((den * (num / den) + num % den : ℕ) : ℚ) = num := by rw [Nat.div_add_mod]
    push_cast at h
    rw [← h]
    field_simp
  have hnonneg : (0 : ℚ) ≤ (num % den : ℕ) / den := by positivity
  have hone : ((num % den : ℕ) : ℚ) / den < 1 := by
    rw [div_lt_one hpos]
    exact_mod_cast Nat.mod_lt num hden
  rw [hparts]
  generalize hf : ((num % den : ℕ) : ℚ) / den = f at hnonneg hone
  have hhalf : 2 * f = ((2 * (num % den) : ℕ) : ℚ) / den := by
    rw [← hf]
    push_cast
    ring
  rw [divNearest]
  split_ifs with hlt hgt
  · have h : 2 * f < 1 := by
      rw [hhalf, div_lt_one hpos]
      exact_mod_cast hlt
    rw [add_sub_cancel_left, abs_of_nonneg hnonneg]
    exact ⟨by linarith, fun heq => by linarith⟩
  · have h : 1 < 2 * f := by
      rw [hhalf, one_lt_div hpos]
      exact_mod_cast hgt
    have hdist : ((num / den : ℕ) : ℚ) + f - (num / den + 1 : ℕ) = f - 1 := by
      push_cast
      ring
    rw [hdist, abs_of_nonpos (by linarith)]
    exact ⟨by linarith, fun heq => by linarith⟩
  · have h : 2 * f = 1 := by
      rw [hhalf, div_eq_one_iff_eq hpos.ne']
      exact_mod_cast (by omega : 2 * (num % den) = den)
    obtain rfl : f = 1 / 2 := by linarith
    refine ⟨?_, fun _ => Nat.even_iff.mpr (by omega)⟩
    obtain heven | hodd := Nat.mod_two_eq_zero_or_one (num / den)
    · rw [heven, Nat.add_zero, add_sub_cancel_left, abs_of_pos (by norm_num)]
    · have hdist : ((num / den : ℕ) : ℚ) + 1 / 2 - (num / den + 1 : ℕ) = -(1 / 2) := by
        push_cast
        ring
      rw [hodd, hdist, abs_neg, abs_of_pos (by norm_num)]

/-- A power whose exponent is kept in two parts. -/
theorem pow_toNat_div {x : ℚ} (hx : x ≠ 0) (e : ℤ) :
  x ^ e.toNat / x ^ (-e).toNat = x ^ e
  := by
  rw [← zpow_natCast, ← zpow_natCast, ← zpow_sub₀ hx]
  congr 1
  omega

/-- A quotient with the places of a power of two distributed over its parts. -/
theorem shiftLeft_div_shiftLeft (num den : ℕ) (e : ℤ) :
  ((num <<< e.toNat : ℕ) : ℚ) / (den <<< (-e).toNat : ℕ) = num / den * 2 ^ e
  := by
  rw [← pow_toNat_div two_ne_zero e, Nat.shiftLeft_eq, Nat.shiftLeft_eq]
  push_cast
  rw [mul_div_mul_comm]

theorem shiftLeft_pos (h : 0 < den) (k : ℕ) :
  0 < den <<< k
  := by
  rw [Nat.shiftLeft_eq]
  positivity

/-- The lengths of numerator and denominator locate a quotient between powers of two. -/
theorem zpow_lt_div (hnum : 0 < num) (hden : 0 < den) :
  (2 : ℚ) ^ ((num.log2 : ℤ) - den.log2 - 1) < num / den
    ∧ (num / den : ℚ) < 2 ^ ((num.log2 : ℤ) - den.log2 + 1)
  := by
  have hpos : (0 : ℚ) < den := by exact_mod_cast hden
  have hnum_low : (2 : ℚ) ^ num.log2 ≤ num := by exact_mod_cast Nat.log2_self_le hnum.ne'
  have hnum_high : (num : ℚ) < 2 ^ (num.log2 + 1) := by exact_mod_cast Nat.lt_log2_self
  have hden_low : (2 : ℚ) ^ den.log2 ≤ den := by exact_mod_cast Nat.log2_self_le hden.ne'
  have hden_high : (den : ℚ) < 2 ^ (den.log2 + 1) := by exact_mod_cast Nat.lt_log2_self
  constructor
  · rw [lt_div_iff₀ hpos]
    calc
      (2 : ℚ) ^ ((num.log2 : ℤ) - den.log2 - 1) * den
          < 2 ^ ((num.log2 : ℤ) - den.log2 - 1) * 2 ^ (den.log2 + 1) := by gcongr
      _ = 2 ^ num.log2 := by
        rw [← zpow_natCast, ← zpow_natCast, ← zpow_add₀ two_ne_zero]
        congr 1
        push_cast
        ring
      _ ≤ num := hnum_low
  · rw [div_lt_iff₀ hpos]
    calc
      (num : ℚ) < 2 ^ (num.log2 + 1) := hnum_high
      _ = 2 ^ ((num.log2 : ℤ) - den.log2 + 1) * 2 ^ den.log2 := by
        rw [← zpow_natCast, ← zpow_natCast, ← zpow_add₀ two_ne_zero]
        congr 1
        push_cast
        ring
      _ ≤ 2 ^ ((num.log2 : ℤ) - den.log2 + 1) * den := by gcongr

/-- Rounding a quotient to an integer in the places of an exponent at which it has the length of
a significand. -/
theorem nearest_divNearest {e : ℤ} (he : -1074 ≤ e) (hden : 0 < den)
    (hlow : e = -1074 ∨ exponentPlace ≤ (num / den : ℚ) * 2 ^ (-e))
    (hhigh : (num / den : ℚ) * 2 ^ (-e) < 2 * exponentPlace) :
  Nearest (num / den) ((e + 1074).toNat * exponentPlace
    + divNearest (num <<< (-e).toNat) (den <<< e.toNat))
  := by
  have hscaled := shiftLeft_div_shiftLeft num den (-e)
  rw [neg_neg] at hscaled
  obtain ⟨hm, heven⟩ := divNearest_spec (num <<< (-e).toNat) (shiftLeft_pos hden e.toNat)
  rw [hscaled] at hm heven
  have hnearest := nearest_of_integer (k := (e + 1074).toNat)
    (hlow.imp_left fun heq => by rw [heq]; rfl) hhigh hm heven
  have hexponent : (((e + 1074).toNat : ℕ) : ℤ) - 1074 = e := by omega
  rwa [hexponent, mul_assoc, ← zpow_add₀ two_ne_zero, neg_add_cancel, zpow_zero, mul_one]
    at hnearest

/-- At the exponent that the lengths suggest, a quotient has the length of a significand or one
bit more. -/
theorem div_mul_zpow_bounds (low : ℤ) (hnum : 0 < num) (hden : 0 < den)
    (h : low = max ((num.log2 : ℤ) - den.log2 - 53) (-1074)) :
  (low = -1074 ∨ exponentPlace ≤ (num / den : ℚ) * 2 ^ (-low))
    ∧ (num / den : ℚ) * 2 ^ (-low) < 2 * (2 * exponentPlace)
  := by
  obtain ⟨hbelow, habove⟩ := zpow_lt_div hnum hden
  have hplace : (exponentPlace : ℚ) = 2 ^ (52 : ℤ) := by norm_num [exponentPlace]
  constructor
  · obtain hlow | hlow := max_choice ((num.log2 : ℤ) - den.log2 - 53) (-1074)
    · right
      calc
        (exponentPlace : ℚ) = 2 ^ ((num.log2 : ℤ) - den.log2 - 1) * 2 ^ (-low) := by
          rw [hplace, ← zpow_add₀ two_ne_zero]
          congr 1
          omega
        _ ≤ num / den * 2 ^ (-low) := by gcongr
    · exact .inl (h.trans hlow)
  · calc
      (num / den : ℚ) * 2 ^ (-low)
          < 2 ^ ((num.log2 : ℤ) - den.log2 + 1) * 2 ^ (-low) := by gcongr
      _ = 2 ^ ((num.log2 : ℤ) - den.log2 + 1 - low) := by
        rw [← zpow_add₀ two_ne_zero, sub_eq_add_neg _ low]
      _ ≤ 2 ^ (54 : ℤ) := zpow_le_zpow_right₀ one_le_two (by omega)
      _ = 2 * (2 * exponentPlace) := by
        rw [hplace]
        norm_num

/-- The integer part of a quotient reaches an integer where the quotient does. -/
theorem le_shiftLeft_div_iff (hden : 0 < den) (n : ℕ) (e : ℤ) :
  n ≤ (num <<< (-e).toNat) / (den <<< e.toNat) ↔ (n : ℚ) ≤ num / den * 2 ^ (-e)
  := by
  have hpos := shiftLeft_pos hden e.toNat
  have hscaled := shiftLeft_div_shiftLeft num den (-e)
  rw [neg_neg] at hscaled
  rw [Nat.le_div_iff_mul_le hpos, ← hscaled, le_div_iff₀ (by exact_mod_cast hpos)]
  norm_cast

/-- A quotient is rounded to the nearest magnitude, or to infinity when that is larger. -/
theorem exists_nearest_roundMagnitude (num : ℕ) (hden : 0 < den) :
  ∃ b, Nearest (num / den) b ∧ roundMagnitude num den = min b infinityMagnitude
  := by
  obtain rfl | hnum := Nat.eq_zero_or_pos num
  · refine ⟨0, ?_, by rw [roundMagnitude, if_pos rfl, Nat.zero_min]⟩
    rw [Nat.cast_zero, zero_div]
    exact nearest_zero
  · rw [roundMagnitude, if_neg hnum.ne']
    extract_lets low scaled e m
    obtain ⟨hlow, hhigh⟩ := div_mul_zpow_bounds low hnum hden rfl
    have hlong : 2 * exponentPlace ≤ (scaled low).1 / (scaled low).2
        ↔ 2 * exponentPlace ≤ (num / den : ℚ) * 2 ^ (-low) := by
      exact_mod_cast le_shiftLeft_div_iff hden (2 * exponentPlace) low
    have hsucc : (num / den : ℚ) * 2 ^ (-(low + 1)) = num / den * 2 ^ (-low) / 2 := by
      rw [neg_add, zpow_add₀ two_ne_zero, zpow_neg_one, ← mul_assoc, ← div_eq_mul_inv]
    refine ⟨_, nearest_divNearest (e := e) (by omega) hden ?_ ?_, rfl⟩
    · by_cases h : 2 * exponentPlace ≤ (scaled low).1 / (scaled low).2
      · have he : e = low + 1 := if_pos h
        rw [he, hsucc]
        exact .inr (by linarith [hlong.mp h])
      · have he : e = low := if_neg h
        rwa [he]
    · by_cases h : 2 * exponentPlace ≤ (scaled low).1 / (scaled low).2
      · have he : e = low + 1 := if_pos h
        rw [he, hsucc]
        linarith
      · have he : e = low := if_neg h
        rw [he]
        exact not_le.mp fun hle => h (hlong.mpr hle)

theorem roundMagnitude_eq {b : ℕ} (hden : 0 < den) (h : Nearest (num / den) b) :
  roundMagnitude num den = min b infinityMagnitude
  := by
  obtain ⟨c, hc, hround⟩ := exists_nearest_roundMagnitude num hden
  rw [hround, hc.unique h]

/-- Every nonnegative number is rounded. -/
theorem exists_nearest {q : ℚ} (hq : 0 ≤ q) :
  ∃ b, Nearest q b
  := by
  obtain ⟨b, hb, -⟩ := exists_nearest_roundMagnitude q.num.toNat q.den_pos
  have hnum : ((q.num.toNat : ℕ) : ℚ) = q.num := by
    exact_mod_cast Int.toNat_of_nonneg (Rat.num_nonneg.mpr hq)
  rw [hnum, Rat.num_div_den] at hb
  exact ⟨b, hb⟩

/-- What lies between numbers that are rounded to a magnitude is so, too. -/
theorem Nearest.of_le_of_le {q r s : ℚ} {b : ℕ} (hq : Nearest q b) (hs : Nearest s b)
    (hqr : q ≤ r) (hrs : r ≤ s) (hr : 0 ≤ r) :
  Nearest r b
  := by
  obtain ⟨c, hc⟩ := exists_nearest hr
  obtain rfl : b = c := (hq.le_of_le hc hqr).antisymm (hc.le_of_le hs hrs)
  exact hc

/-! ### Relative errors -/

/-- A number has been changed from `r` to `q` by the part `ε` of it at most. -/
structure Within (ε q r : ℚ) : Prop where
  lower : (1 - ε) * r ≤ q
  upper : q ≤ (1 + ε) * r

theorem roundoff_pos :
  0 < roundoff
  := by
  norm_num [roundoff]

/-- Numbers of the length of a significand are no farther apart than twice the relative
roundoff. -/
theorem value_succ_le_of_normal {b : ℕ} (h : exponentPlace ≤ b) :
  value (b + 1) ≤ (1 + 2 * roundoff) * value b
  := by
  obtain ⟨k, m, -, hk, rfl, hb, hnext⟩ := exists_value_succ b
  have hunit : (0 : ℚ) < 2 ^ ((k : ℤ) - 1074) := by positivity
  have hm : (2 : ℚ) ^ 52 ≤ m := by
    have hlong : 2 ^ 52 ≤ m := by
      obtain rfl | hk := hk
      · rwa [Nat.zero_mul, Nat.zero_add] at h
      · exact hk
    exact_mod_cast hlong
  rw [hb, hnext, ← mul_assoc]
  apply mul_le_mul_of_nonneg_right _ hunit.le
  rw [roundoff]
  linarith

theorem value_succ_of_subnormal {b : ℕ} (h : b < exponentPlace) :
  value (b + 1) = value b + 2 ^ (-1074 : ℤ)
  := by
  have hshort {m : ℕ} (hm : m ≤ exponentPlace) : value m = m * 2 ^ (-1074 : ℤ) := by
    have hvalue := value_add (k := 0) (m := m) (by omega) (.inl rfl)
    rwa [Nat.zero_mul, Nat.zero_add, Nat.cast_zero, zero_sub] at hvalue
  rw [hshort h.le, hshort h, Nat.cast_succ, add_one_mul]

theorem within_zero (q : ℚ) :
  Within 0 q q
  :=
  ⟨by simp, by simp⟩

namespace Within

variable {ε δ q r s t : ℚ}

/-- Without an error nothing has been changed. -/
theorem eq (h : Within 0 q r) :
  q = r
  := by
  have hlower := h.lower
  have hupper := h.upper
  linarith

theorem mono (h : Within ε q r) (hr : 0 ≤ r) (hle : ε ≤ δ) :
  Within δ q r
  where
  lower := (mul_le_mul_of_nonneg_right (by linarith) hr).trans h.lower
  upper := h.upper.trans (mul_le_mul_of_nonneg_right (by linarith) hr)

/-- Errors of factors add up to that of the product, but for their own product. -/
theorem mul (hq : Within ε q r) (hs : Within δ s t) (hr : 0 ≤ r) (ht : 0 ≤ t) (hε : 0 ≤ ε)
    (hε' : ε ≤ 1) (hδ : 0 ≤ δ) (hδ' : δ ≤ 1) :
  Within (ε + δ + ε * δ) (q * s) (r * t)
  := by
  have hr_low : 0 ≤ (1 - ε) * r := mul_nonneg (by linarith) hr
  have ht_low : 0 ≤ (1 - δ) * t := mul_nonneg (by linarith) ht
  have hs_nonneg : 0 ≤ s := ht_low.trans hs.lower
  have hr_high : 0 ≤ (1 + ε) * r := mul_nonneg (by linarith) hr
  have hcross : 0 ≤ ε * δ * (r * t) := by positivity
  constructor
  · calc
      (1 - (ε + δ + ε * δ)) * (r * t) ≤ (1 - ε) * r * ((1 - δ) * t) := by linarith
      _ ≤ q * s := mul_le_mul hq.lower hs.lower ht_low (hr_low.trans hq.lower)
  · calc
      q * s ≤ (1 + ε) * r * ((1 + δ) * t) := mul_le_mul hq.upper hs.upper hs_nonneg hr_high
      _ = (1 + (ε + δ + ε * δ)) * (r * t) := by ring

/-- The errors of two changes of one number. -/
theorem trans (hq : Within ε q r) (hr : Within δ r s) (hs : 0 ≤ s) (hε : 0 ≤ ε) (hε' : ε ≤ 1)
    (hδ : 0 ≤ δ) :
  Within (ε + δ + ε * δ) q s
  := by
  have hcross : 0 ≤ ε * δ * s := by positivity
  constructor
  · calc
      (1 - (ε + δ + ε * δ)) * s ≤ (1 - ε) * ((1 - δ) * s) := by linarith
      _ ≤ (1 - ε) * r := mul_le_mul_of_nonneg_left hr.lower (by linarith)
      _ ≤ q := hq.lower
  · calc
      q ≤ (1 + ε) * r := hq.upper
      _ ≤ (1 + ε) * ((1 + δ) * s) := mul_le_mul_of_nonneg_left hr.upper (by linarith)
      _ = (1 + (ε + δ + ε * δ)) * s := by ring

theorem inv (h : Within ε q r) (hr : 0 < r) (hε : 0 ≤ ε) (hε' : ε ≤ 1 / 2) :
  Within (ε + 2 * ε ^ 2) q⁻¹ r⁻¹
  := by
  have hlow : 0 < (1 - ε) * r := mul_pos (by linarith) hr
  have hq : 0 < q := hlow.trans_le h.lower
  have hdiv : q⁻¹ = r / q * r⁻¹ := by field_simp
  constructor
  · rw [hdiv]
    apply mul_le_mul_of_nonneg_right _ (inv_nonneg.mpr hr.le)
    rw [le_div_iff₀ hq]
    have hfactor : 0 ≤ 1 - ε := by linarith
    calc
      (1 - (ε + 2 * ε ^ 2)) * q ≤ (1 - ε) * q :=
        mul_le_mul_of_nonneg_right (by nlinarith) hq.le
      _ ≤ (1 - ε) * ((1 + ε) * r) := mul_le_mul_of_nonneg_left h.upper hfactor
      _ ≤ r := by nlinarith [mul_nonneg (sq_nonneg ε) hr.le]
  · rw [hdiv]
    apply mul_le_mul_of_nonneg_right _ (inv_nonneg.mpr hr.le)
    rw [div_le_iff₀ hq]
    have hfactor : 1 ≤ (1 + (ε + 2 * ε ^ 2)) * (1 - ε) := by nlinarith [sq_nonneg ε]
    calc
      r ≤ (1 + (ε + 2 * ε ^ 2)) * (1 - ε) * r := le_mul_of_one_le_left hr.le hfactor
      _ = (1 + (ε + 2 * ε ^ 2)) * ((1 - ε) * r) := mul_assoc _ _ _
      _ ≤ (1 + (ε + 2 * ε ^ 2)) * q := mul_le_mul_of_nonneg_left h.lower (by positivity)

end Within

/-- Rounding changes a number of the length of a significand by the relative roundoff. -/
theorem Nearest.within_of_normal {q : ℚ} {b : ℕ} (h : Nearest q b)
    (hq : value exponentPlace ≤ q) :
  Within roundoff (value b) q
  := by
  have hupper := h.le_halfway
  have hnext := value_succ_le_of_normal (h.value_le hq)
  rw [halfway] at hupper
  obtain hlow | hhigh := le_or_gt (value b) q
  · rw [roundoff] at *
    exact ⟨by linarith, by linarith⟩
  · obtain ⟨a, rfl⟩ : ∃ a, b = a + 1 := by
      apply Nat.exists_eq_add_one_of_ne_zero
      rintro rfl
      rw [value_zero] at hhigh
      linarith [value_nonneg exponentPlace]
    -- the number is above its lower midpoint, whose neighbours are both of full length
    have hlower := h.halfway_le
    have ha : exponentPlace ≤ a := by
      by_contra hlt
      have hmono := value_strictMono.monotone (show a + 1 ≤ exponentPlace by omega)
      linarith
    have hgap := value_succ_le_of_normal ha
    rw [halfway] at hlower
    rw [roundoff] at *
    exact ⟨by linarith, by linarith⟩

/-- Rounding changes a number by the relative roundoff, or by half of the least positive number
if that is more. -/
theorem Nearest.within {ε q : ℚ} {b : ℕ} (h : Nearest q b) (hε : roundoff ≤ ε)
    (hq : 2 ^ (-1075 : ℤ) ≤ ε * q) :
  Within ε (value b) q
  := by
  have hhalf : (0 : ℚ) < 2 ^ (-1075 : ℤ) := by positivity
  have hq_pos : 0 < q := pos_of_mul_pos_right (hhalf.trans_le hq) (roundoff_pos.le.trans hε)
  obtain hnormal | hsubnormal := le_or_gt (value exponentPlace) q
  · exact (h.within_of_normal hnormal).mono hq_pos.le hε
  · have hunit : (2 : ℚ) ^ (-1074 : ℤ) = 2 * 2 ^ (-1075 : ℤ) := by
      rw [← zpow_one_add₀ two_ne_zero]
      rfl
    have hupper := h.le_halfway
    have hb : b ≤ exponentPlace := h.le_value hsubnormal.le
    constructor
    · obtain hlt | rfl := hb.lt_or_eq
      · rw [halfway, value_succ_of_subnormal hlt] at hupper
        linarith
      · linarith
    · cases b with
      | zero =>
          rw [value_zero]
          linarith
      | succ a =>
          have hlower := h.halfway_le
          rw [halfway, value_succ_of_subnormal (by omega)] at hlower
          rw [value_succ_of_subnormal (by omega)]
          linarith

/-- A small change of a number moves the magnitude it is rounded to by a few places only. -/
theorem Within.magnitude_le {ε q r : ℚ} {b c n : ℕ} (h : Within ε q r) (hq : Nearest q c)
    (hr : Nearest r b) (hε : 0 ≤ 1 + ε) (hroom : (1 + ε) * (1 - roundoff) ^ n < 1) :
  c ≤ b + n
  := by
  by_contra hlt
  obtain ⟨a, rfl⟩ : ∃ a, c = a + 1 := Nat.exists_eq_add_one_of_ne_zero (by omega)
  have hmono : halfway (b + n) ≤ halfway a :=
    halfway_strictMono.monotone (by omega)
  apply lt_irrefl (halfway (b + n))
  calc
    halfway (b + n) ≤ q := hmono.trans hq.halfway_le
    _ ≤ (1 + ε) * r := h.upper
    _ ≤ (1 + ε) * ((1 - roundoff) ^ n * halfway (b + n)) :=
      mul_le_mul_of_nonneg_left (hr.le_halfway.trans (halfway_le_add b n)) hε
    _ = (1 + ε) * (1 - roundoff) ^ n * halfway (b + n) := (mul_assoc _ _ _).symm
    _ < halfway (b + n) := mul_lt_of_lt_one_left (halfway_pos _) hroom

theorem Within.le_magnitude {ε q r : ℚ} {b c n : ℕ} (h : Within ε q r) (hq : Nearest q c)
    (hr : Nearest r b) (hε : ε ≤ 1) (hroom : (1 - roundoff) ^ n < 1 - ε) :
  b ≤ c + n
  := by
  by_contra hlt
  obtain ⟨a, rfl⟩ : ∃ a, b = a + 1 := Nat.exists_eq_add_one_of_ne_zero (by omega)
  have hmono : halfway (c + n) ≤ halfway a :=
    halfway_strictMono.monotone (by omega)
  apply lt_irrefl q
  calc
    q ≤ halfway c := hq.le_halfway
    _ ≤ (1 - roundoff) ^ n * halfway (c + n) := halfway_le_add c n
    _ < (1 - ε) * halfway (c + n) := mul_lt_mul_of_pos_right hroom (halfway_pos _)
    _ ≤ (1 - ε) * r :=
      mul_le_mul_of_nonneg_left (hmono.trans hr.halfway_le) (sub_nonneg.mpr hε)
    _ ≤ q := h.lower

end TypedSql.Binary64
