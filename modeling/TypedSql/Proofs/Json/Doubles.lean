import TypedSql.Decimal.Layout
import TypedSql.Json.Number
import TypedSql.Proofs.Decimal.Shortest
import TypedSql.Proofs.Json.Documents

/-!
# Written doubles are read

A finite double is written as a numeral with a fraction or an exponent.  The numeral that is read
of it has the same parts (`writes_numeral`), and the word and the power of ten gathered from them
make up the number that was written (`exists_numeral`).
-/

namespace TypedSql

/-! ### Numerals as they are written -/

namespace JsonNumeral

/-- Digits, and at least one of them. -/
def IsDigits (ds : List Char) : Prop :=
  ds ≠ [] ∧ ∀ c ∈ ds, c.isDigit = true

/-- The parts of a numeral consist of digits, of which the first is no superfluous zero. -/
structure WellFormed (n : JsonNumeral) : Prop where
  whole : IsDigits n.whole
  leading : ∀ ds, n.whole = '0' :: ds → ds = []
  fraction : ∀ ds ∈ n.fraction, IsDigits ds
  exponent : ∀ e ∈ n.exponent, IsDigits e.2

def writeFraction : Option (List Char) → List Char
  | none => []
  | some ds => '.' :: ds

def writeExponent : Option (Bool × List Char) → List Char
  | none => []
  | some (negative, ds) => 'e' :: (if negative then '-' else '+') :: ds

/-- A numeral without its sign. -/
def writeUnsigned (n : JsonNumeral) : List Char :=
  n.whole ++ (writeFraction n.fraction ++ writeExponent n.exponent)

/-- A numeral. -/
def write (n : JsonNumeral) : String :=
  String.ofList (if n.negative then '-' :: n.writeUnsigned else n.writeUnsigned)

end JsonNumeral

namespace Json

open JsonNumeral (IsDigits WellFormed writeFraction writeExponent)

variable {r : List Char}

theorem exponentPart_writeExponent {e : Option (Bool × List Char)} (he : ∀ p ∈ e, IsDigits p.2)
    (hr : EndsNumeral r) :
  exponentPart (writeExponent e ++ r) = some (e, r)
  := by
  cases e with
  | none => exact exponentPart_of_ends hr
  | some p =>
      obtain ⟨negative, ds⟩ := p
      obtain ⟨hne, hdigits⟩ := he _ rfl
      have hspan : Decimal.spanDigits (ds ++ r) = (ds, r) :=
        Decimal.spanDigits_digits hdigits fun c hc => (hr c hc).1
      have hnonempty : ds.isEmpty = false := List.isEmpty_eq_false_iff.mpr hne
      cases negative <;> simp [writeExponent, exponentPart, hspan, hnonempty]

theorem fractionPart_writeFraction {f : Option (List Char)} (hf : ∀ ds ∈ f, IsDigits ds)
    (hr : ∀ c ∈ r.head?, c.isDigit = false ∧ c ≠ '.') :
  fractionPart (writeFraction f ++ r) = some (f, r)
  := by
  cases f with
  | none =>
      cases r with
      | nil => rfl
      | cons c r =>
          have hpoint := (hr c rfl).2
          simp [writeFraction, fractionPart, hpoint]
  | some ds =>
      obtain ⟨hne, hdigits⟩ := hf _ rfl
      have hspan : Decimal.spanDigits (ds ++ r) = (ds, r) :=
        Decimal.spanDigits_digits hdigits fun c hc => (hr c hc).1
      have hnonempty : ds.isEmpty = false := List.isEmpty_eq_false_iff.mpr hne
      simp [writeFraction, fractionPart, hspan, hnonempty]

theorem unsignedAt_writeUnsigned {n : JsonNumeral} (h : n.WellFormed) (hr : EndsNumeral r) :
  unsignedAt n.negative (n.writeUnsigned ++ r) = some (n, r)
  := by
  have hexponent : ∀ c ∈ (writeExponent n.exponent ++ r).head?, c.isDigit = false ∧ c ≠ '.' := by
    intro c hc
    cases he : n.exponent with
    | none =>
        rw [he] at hc
        exact ⟨(hr c hc).1, (hr c hc).2.1⟩
    | some p =>
        rw [he] at hc
        obtain rfl := Option.some.inj hc
        decide
  have hfraction : ∀ c ∈ (writeFraction n.fraction ++ (writeExponent n.exponent ++ r)).head?,
      c.isDigit = false := by
    intro c hc
    cases hf : n.fraction with
    | none =>
        rw [hf] at hc
        exact (hexponent c hc).1
    | some ds =>
        rw [hf] at hc
        obtain rfl := Option.some.inj hc
        decide
  have hspan : Decimal.spanDigits (n.writeUnsigned ++ r)
      = (n.whole, writeFraction n.fraction ++ (writeExponent n.exponent ++ r)) := by
    rw [JsonNumeral.writeUnsigned, List.append_assoc, List.append_assoc]
    exact Decimal.spanDigits_digits h.whole.2 hfraction
  simp only [unsignedAt, hspan]
  split
  · rename_i hnil
    exact absurd hnil h.whole.1
  · rename_i hzero
    cases h.leading _ hzero
  · rw [fractionPart_writeFraction h.fraction hexponent, Option.bind_eq_bind, Option.bind_some,
      exponentPart_writeExponent h.exponent hr]
    rfl

theorem writes_numeral {n : JsonNumeral} (h : n.WellFormed) :
  Writes n.write (.numeral n)
  := by
  apply writes_of_succ
  intro m r _ hr
  have hread := unsignedAt_writeUnsigned h hr.endsNumeral
  obtain ⟨c, cs, hwhole⟩ := List.exists_cons_of_ne_nil h.whole.1
  have hc : c.isDigit = true := h.whole.2 c (by rw [hwhole]; exact List.mem_cons_self)
  rw [JsonNumeral.write, String.toList_ofList]
  cases hsign : n.negative with
  | true =>
      rw [hsign] at hread
      rw [if_pos rfl, List.cons_append, valueAt_numeral (.inl rfl), numeralAt_minus, hread]
      rfl
  | false =>
      rw [hsign, JsonNumeral.writeUnsigned, hwhole, List.cons_append, List.cons_append] at hread
      rw [if_neg Bool.false_ne_true, JsonNumeral.writeUnsigned, hwhole, List.cons_append,
        List.cons_append, valueAt_numeral (.inr hc), numeralAt_of_isDigit hc, hread]
      rfl

end Json

/-! ### What is gathered from a numeral -/

namespace JsonNumeral

open Nat (ofDigitChars)

/-- All digits of a numeral. -/
def digits (n : JsonNumeral) : List Char :=
  n.whole ++ n.fraction.getD []

/-- The power of ten that a numeral has besides its digits. -/
def tens (n : JsonNumeral) : ℤ :=
  match n.exponent with
  | none => -(n.fraction.getD []).length
  | some (true, ds) => -(n.fraction.getD []).length - (Decimal.value ds : ℤ)
  | some (false, ds) => -(n.fraction.getD []).length + (Decimal.value ds : ℤ)

theorem le_ofDigitChars (n : ℕ) (ds : List Char) :
  n ≤ ofDigitChars 10 ds n
  := by
  induction ds generalizing n with
  | nil => exact le_rfl
  | cons c ds ih =>
      rw [Nat.ofDigitChars_cons]
      exact le_trans (by omega) (ih _)

/-- All digits are gathered when they fit. -/
theorem gather_eq {n : ℕ} {ds : List Char} (h : ofDigitChars 10 ds n < wordLimit) :
  gather n ds = (ofDigitChars 10 ds n, [])
  := by
  induction ds generalizing n with
  | nil => rfl
  | cons c ds ih =>
      rw [Nat.ofDigitChars_cons] at h
      have hfits : 10 * n + Decimal.digitValue c < wordLimit :=
        (le_ofDigitChars _ ds).trans_lt h
      rw [gather, if_pos hfits]
      exact ih h

/-- A numeral with a fraction or an exponent is the word of its digits, scaled. -/
theorem magnitude?_eq {n : JsonNumeral} (hword : Decimal.value n.digits < wordLimit)
    (hform : n.fraction ≠ none ∨ n.exponent ≠ none)
    (hexponent : ∀ e ∈ n.exponent, Decimal.value e.2 < 2 ^ 31) :
  n.magnitude? = scale (.ofInt (Decimal.value n.digits)) n.tens
  := by
  have hdigits : Decimal.value n.digits
      = ofDigitChars 10 (n.fraction.getD []) (ofDigitChars 10 n.whole 0) :=
    Nat.ofDigitChars_append 0
  rw [hdigits] at hword
  have hwhole : gather 0 n.whole = (ofDigitChars 10 n.whole 0, []) :=
    gather_eq ((le_ofDigitChars _ _).trans_lt hword)
  rw [magnitude?, hwhole, hdigits]
  simp only [gather_eq hword, List.length_nil]
  cases he : n.exponent with
  | none =>
      have hfraction : n.fraction.isNone = false := by
        rw [Option.isNone_eq_false_iff, Option.isSome_iff_ne_none]
        exact hform.resolve_right fun h => h he
      simp [tens, he, hfraction]
  | some e =>
      obtain ⟨negative, ds⟩ := e
      have hlt : Decimal.value ds < 2 ^ 31 := hexponent _ he
      have hsmall : ¬ Decimal.Bounds.signed32.contains (Decimal.value ds) = false := by
        rw [Bool.not_eq_false]
        apply decide_eq_true
        change -2147483648 ≤ (Decimal.value ds : ℤ) ∧ (Decimal.value ds : ℤ) ≤ 2147483647
        omega
      cases negative <;> simp [tens, he, if_neg hsmall]

/-! ### Zeros -/

/-- The numeral of a zero. -/
def zero (negative : Bool) : JsonNumeral :=
  ⟨negative, ['0'], some ['0'], none⟩

theorem wellFormed_zero (negative : Bool) :
  (zero negative).WellFormed
  where
  whole := ⟨by simp [zero], by simp [zero]⟩
  leading := by simp [zero]
  fraction := by
    rintro _ ⟨⟩
    exact ⟨by simp, by simp⟩
  exponent := by simp [zero]

theorem magnitude?_zero (negative : Bool) :
  (zero negative).magnitude? = some .zero
  := by
  cases negative <;> decide

end JsonNumeral

/-! ### Written decimals -/

namespace Decimal

open JsonNumeral (IsDigits WellFormed)

/-- The numeral of digits of which `k` stand before the point. -/
def positionalNumeral (negative : Bool) (ds : List Char) (k : ℤ) : JsonNumeral :=
  if k ≤ 0 then ⟨negative, ['0'], some (List.replicate (-k).toNat '0' ++ ds), none⟩
  else ⟨negative, ds.take k.toNat ++ List.replicate (k.toNat - ds.length) '0',
    some (if (ds.drop k.toNat).isEmpty then ['0'] else ds.drop k.toNat), none⟩

/-- The numeral of digits of which one stands before the point, with an exponent. -/
def scientificNumeral (negative : Bool) (ds : List Char) (s : ℤ) : JsonNumeral :=
  ⟨negative, ds.take 1, if (ds.drop 1).isEmpty then none else some (ds.drop 1),
    some (decide (s < 0), Nat.toDigits 10 s.natAbs)⟩

variable {negative : Bool} {ds : List Char} {k s : ℤ}

theorem writeUnsigned_positionalNumeral :
  (positionalNumeral negative ds k).writeUnsigned = positional ds k
  := by
  rw [positionalNumeral, positional]
  split <;> simp [JsonNumeral.writeUnsigned, JsonNumeral.writeFraction, JsonNumeral.writeExponent]

theorem writeUnsigned_scientificNumeral (h : ds ≠ []) :
  (scientificNumeral negative ds s).writeUnsigned = scientific true ds s
  := by
  match ds with
  | [c] =>
      by_cases hs : s < 0 <;> simp [scientificNumeral, scientific, JsonNumeral.writeUnsigned,
        JsonNumeral.writeFraction, JsonNumeral.writeExponent, hs]
  | c :: d :: r =>
      by_cases hs : s < 0 <;> simp [scientificNumeral, scientific, JsonNumeral.writeUnsigned,
        JsonNumeral.writeFraction, JsonNumeral.writeExponent, hs]

theorem isDigits_toDigits (n : ℕ) :
  IsDigits (Nat.toDigits 10 n)
  :=
  ⟨Nat.toDigits_ne_nil, fun _ hc => Nat.isDigit_of_mem_toDigits (by decide) (by decide) hc⟩

theorem isDigits_zeros_append (n : ℕ) (h : IsDigits ds) :
  IsDigits (List.replicate n '0' ++ ds)
  := by
  refine ⟨by simp [h.1], ?_⟩
  intro c hc
  obtain hc | hc := List.mem_append.mp hc
  · rw [List.eq_of_mem_replicate hc]
    rfl
  · exact h.2 c hc

theorem negative_positionalNumeral :
  (positionalNumeral negative ds k).negative = negative
  := by
  rw [positionalNumeral]
  split <;> rfl

theorem fraction_positionalNumeral :
  (positionalNumeral negative ds k).fraction ≠ none
  := by
  rw [positionalNumeral]
  split <;> exact Option.some_ne_none _

theorem exponent_positionalNumeral :
  (positionalNumeral negative ds k).exponent = none
  := by
  rw [positionalNumeral]
  split <;> rfl

theorem wellFormed_positionalNumeral (h : IsDigits ds) (hlead : ∀ r, ds ≠ '0' :: r) :
  (positionalNumeral negative ds k).WellFormed
  := by
  obtain ⟨c, cs, rfl⟩ := List.exists_cons_of_ne_nil h.1
  rw [positionalNumeral]
  split
  · refine ⟨⟨by simp, by simp⟩, by simp, ?_, by simp⟩
    rintro _ ⟨⟩
    exact isDigits_zeros_append _ h
  · obtain ⟨j, hj⟩ : ∃ j, k.toNat = j + 1 := Nat.exists_eq_add_one_of_ne_zero (by omega)
    rw [hj]
    refine ⟨⟨by simp, ?_⟩, ?_, ?_, by simp⟩
    · intro d hd
      obtain hd | hd := List.mem_append.mp hd
      · exact h.2 d (List.mem_of_mem_take hd)
      · rw [List.eq_of_mem_replicate hd]
        rfl
    · intro r hr
      obtain ⟨rfl, -⟩ := List.cons.inj hr
      exact absurd rfl (hlead cs)
    · rintro _ ⟨⟩
      split
      · exact ⟨by simp, by simp⟩
      · rename_i hdrop
        exact ⟨by simpa using hdrop, fun d hd => h.2 d (List.mem_of_mem_drop hd)⟩

theorem wellFormed_scientificNumeral (h : IsDigits ds) :
  (scientificNumeral negative ds s).WellFormed
  := by
  obtain ⟨c, cs, rfl⟩ := List.exists_cons_of_ne_nil h.1
  refine ⟨⟨by simp [scientificNumeral], ?_⟩, ?_, ?_, ?_⟩
  · intro d hd
    exact h.2 d (List.mem_of_mem_take hd)
  · intro r hr
    exact (List.cons.inj hr).2.symm
  · intro f hf
    rw [scientificNumeral] at hf
    simp only at hf
    split at hf
    · cases hf
    · rename_i hdrop
      obtain rfl := Option.some.inj hf
      exact ⟨by simpa using hdrop, fun d hd => h.2 d (List.mem_of_mem_drop hd)⟩
  · rintro _ ⟨⟩
    exact isDigits_toDigits _

/-! ### The parts of a written decimal -/

theorem value_append (as bs : List Char) :
  value (as ++ bs) = Nat.ofDigitChars 10 bs (value as)
  :=
  Nat.ofDigitChars_append 0

theorem value_zeros_append (n : ℕ) (ds : List Char) :
  value (List.replicate n '0' ++ ds) = value ds
  := by
  rw [value_append]
  congr 1
  exact Nat.ofDigitChars_replicate_zero

theorem value_append_zeros (ds : List Char) (n : ℕ) :
  value (ds ++ List.replicate n '0') = value ds * 10 ^ n
  := by
  rw [value_append, Nat.ofDigitChars_replicate_zero, mul_comm]

/-- With all digits before the point there is a zero behind it. -/
theorem parts_positionalNumeral_of_le (negative : Bool) (hk : ds.length ≤ k) (hpos : 0 < k) :
  value (positionalNumeral negative ds k).digits
      = value ds * 10 ^ ((k - ds.length).toNat + 1)
    ∧ (positionalNumeral negative ds k).tens = -1
  := by
  have hdrop : ds.drop k.toNat = [] := List.drop_of_length_le (by omega)
  have htake : ds.take k.toNat = ds := List.take_of_length_le (by omega)
  have hzeros : k.toNat - ds.length + 1 = (k - ds.length).toNat + 1 := by omega
  rw [positionalNumeral, if_neg (by omega), hdrop, htake]
  constructor
  · rw [← hzeros, ← value_append_zeros, List.replicate_succ', ← List.append_assoc]
    rfl
  · rfl

theorem parts_positionalNumeral_of_lt (negative : Bool) (hk : k < ds.length) :
  value (positionalNumeral negative ds k).digits = value ds
    ∧ (positionalNumeral negative ds k).tens = k - ds.length
  := by
  rw [positionalNumeral]
  split
  · constructor
    · change value ('0' :: (List.replicate (-k).toNat '0' ++ ds)) = _
      rw [← List.cons_append, ← List.replicate_succ, value_zeros_append]
    · simp only [JsonNumeral.tens, Option.getD_some, List.length_append, List.length_replicate]
      omega
  · have hdrop : (ds.drop k.toNat).isEmpty = false := by
      rw [List.isEmpty_eq_false_iff, Ne, List.drop_eq_nil_iff]
      omega
    have hzeros : k.toNat - ds.length = 0 := by omega
    constructor
    · simp [JsonNumeral.digits, hdrop, hzeros]
    · simp only [JsonNumeral.tens, hdrop, Option.getD_some, Bool.false_eq_true, if_false,
        List.length_drop]
      omega

theorem parts_scientificNumeral (negative : Bool) (s : ℤ) (h : ds ≠ []) :
  value (scientificNumeral negative ds s).digits = value ds
    ∧ (scientificNumeral negative ds s).tens = s + 1 - ds.length
  := by
  obtain ⟨c, cs, rfl⟩ := List.exists_cons_of_ne_nil h
  have hfraction : (if cs.isEmpty then none else some cs).getD [] = cs := by
    cases cs <;> rfl
  constructor
  · change value (c :: (if cs.isEmpty then none else some cs).getD []) = value (c :: cs)
    rw [hfraction]
  · simp only [JsonNumeral.tens, scientificNumeral, List.drop_succ_cons, List.drop_zero,
      List.length_cons, hfraction]
    by_cases hs : s < 0
    · simp only [hs, decide_true, value_toDigits]
      omega
    · simp only [hs, decide_false, value_toDigits]
      omega

/-! ### Reading a written decimal -/

/-- The word and the power of ten that are read of a decimal. -/
def factors (d : Decimal) : ℕ × ℤ :=
  if 0 ≤ d.exponent ∧ d.exponent + (Nat.toDigits 10 d.digits).length ≤ 16 then
    (d.digits * 10 ^ (d.exponent.toNat + 1), -1)
  else (d.digits, d.exponent)

/-- The double that is read of a decimal. -/
def scaled (d : Decimal) : Option Binary64 :=
  JsonNumeral.scale (.ofInt d.factors.1) d.factors.2

theorem toRat_factors (d : Decimal) :
  (d.factors.1 : ℚ) * 10 ^ d.factors.2 = d.toRat
  := by
  rw [factors, toRat]
  split
  · rename_i h
    have hexponent : (10 : ℚ) ^ d.exponent = 10 ^ d.exponent.toNat := by
      rw [← zpow_natCast, Int.toNat_of_nonneg h.1]
    rw [hexponent]
    push_cast
    rw [zpow_neg_one, pow_succ]
    field_simp
  · rfl

/-- The word that is read fits when the digits do. -/
theorem factors_lt {d : Decimal} (h : d.digits < 2 ^ 64) :
  d.factors.1 < JsonNumeral.wordLimit
  := by
  rw [factors]
  split
  · rename_i hwhole
    have hpos : 0 < (Nat.toDigits 10 d.digits).length := Nat.length_toDigits_pos
    have hdigits : d.digits < 10 ^ (Nat.toDigits 10 d.digits).length :=
      (Nat.length_toDigits_le_iff (by decide) hpos).mp le_rfl
    calc
      d.digits * 10 ^ (d.exponent.toNat + 1)
          < 10 ^ (Nat.toDigits 10 d.digits).length * 10 ^ (d.exponent.toNat + 1) :=
        Nat.mul_lt_mul_of_pos_right hdigits (by positivity)
      _ = 10 ^ ((Nat.toDigits 10 d.digits).length + (d.exponent.toNat + 1)) :=
        (Nat.pow_add 10 _ _).symm
      _ ≤ 10 ^ 17 := Nat.pow_le_pow_right (by decide) (by omega)
      _ < JsonNumeral.wordLimit := by decide
  · exact h

theorem factors_pos {d : Decimal} (h : 0 < d.digits) :
  0 < d.factors.1
  := by
  rw [factors]
  split
  · positivity
  · exact h

/-- The power of ten that is read is the exponent, or a tenth. -/
theorem factors_snd_eq_or (d : Decimal) :
  d.factors.2 = -1 ∨ d.factors.2 = d.exponent
  := by
  rw [factors]
  split
  · exact .inl rfl
  · exact .inr rfl

/-- A numeral for a decimal: it has the form and the sign that are written, and its parts are the
factors of the decimal. -/
structure IsNumeral (negative : Bool) (d : Decimal) (n : JsonNumeral) : Prop where
  wellFormed : n.WellFormed
  negative : n.negative = negative
  written : n.writeUnsigned = json.write d
  real : n.fraction ≠ none ∨ n.exponent ≠ none
  exponent : ∀ e ∈ n.exponent, value e.2 < 2 ^ 31
  word : value n.digits = d.factors.1
  tens : n.tens = d.factors.2

theorem ne_zero_cons_toDigits {n : ℕ} (hn : 0 < n) (r : List Char) :
  Nat.toDigits 10 n ≠ '0' :: r
  := by
  intro hr
  have hzero := congrArg value hr
  rw [eq_nil_of_toDigits hr, value_toDigits] at hzero
  exact hn.ne' hzero

theorem parts_positionalNumeral (negative : Bool) {d : Decimal}
    (hds : Nat.toDigits 10 d.digits = ds) (hhigh : d.exponent + ds.length ≤ 16) :
  value (positionalNumeral negative ds (d.exponent + ds.length)).digits = d.factors.1
    ∧ (positionalNumeral negative ds (d.exponent + ds.length)).tens = d.factors.2
  := by
  have hone : 0 < ds.length := hds ▸ Nat.length_toDigits_pos
  have hvalue : value ds = d.digits := by rw [← hds, value_toDigits]
  rw [factors, hds]
  obtain hwhole | hfraction := le_or_gt 0 d.exponent
  · have hk : ds.length ≤ d.exponent + ds.length := by omega
    obtain ⟨hword, htens⟩ := parts_positionalNumeral_of_le negative hk (by omega)
    rw [if_pos ⟨hwhole, hhigh⟩, hword, htens, hvalue, add_sub_cancel_right]
    exact ⟨rfl, rfl⟩
  · have hk : d.exponent + ds.length < ds.length := by omega
    obtain ⟨hword, htens⟩ := parts_positionalNumeral_of_lt negative hk
    rw [if_neg fun h => hfraction.not_ge h.1, hword, htens, hvalue, add_sub_cancel_right]
    exact ⟨rfl, rfl⟩

/-- The numeral of a decimal that is written with its digits on both sides of the point. -/
theorem isNumeral_positional (negative : Bool) {d : Decimal} (hpos : 0 < d.digits)
    (hds : Nat.toDigits 10 d.digits = ds) (hlow : -5 < d.exponent + ds.length)
    (hhigh : d.exponent + ds.length ≤ 16) :
  IsNumeral negative d (positionalNumeral negative ds (d.exponent + ds.length))
  where
  wellFormed := by
    subst hds
    exact wellFormed_positionalNumeral (isDigits_toDigits _) (ne_zero_cons_toDigits hpos)
  negative := negative_positionalNumeral
  written := by
    rw [writeUnsigned_positionalNumeral, Layout.write, hds]
    exact (if_pos ⟨hlow, hhigh⟩).symm
  real := .inl fraction_positionalNumeral
  exponent := by simp [exponent_positionalNumeral]
  word := (parts_positionalNumeral negative hds hhigh).1
  tens := (parts_positionalNumeral negative hds hhigh).2

/-- The numeral of a decimal that is written with an exponent. -/
theorem isNumeral_scientific (negative : Bool) {d : Decimal} (hword : d.digits < 2 ^ 64)
    (hlow : -324 ≤ d.exponent) (hhigh : d.exponent ≤ 308)
    (hds : Nat.toDigits 10 d.digits = ds)
    (hlayout : ¬ (-5 < d.exponent + ds.length ∧ d.exponent + ds.length ≤ 16)) :
  IsNumeral negative d (scientificNumeral negative ds (d.exponent + ds.length - 1))
  := by
  have hdigits : IsDigits ds := hds ▸ isDigits_toDigits d.digits
  have hlength : ds.length ≤ 20 :=
    hds ▸ (Nat.length_toDigits_le_iff (by decide) (by decide)).mpr (hword.trans (by decide))
  have hvalue : value ds = d.digits := by rw [← hds, value_toDigits]
  have hfactors : d.factors = (d.digits, d.exponent) := by
    rw [factors, hds]
    exact if_neg fun h => hlayout ⟨by omega, h.2⟩
  obtain ⟨hparts, htens⟩ :=
    parts_scientificNumeral negative (d.exponent + ds.length - 1) hdigits.1
  exact {
    wellFormed := wellFormed_scientificNumeral hdigits
    negative := rfl
    written := by
      rw [writeUnsigned_scientificNumeral hdigits.1, Layout.write, hds]
      exact (if_neg hlayout).symm
    real := .inr (Option.some_ne_none _)
    exponent := by
      rintro _ ⟨⟩
      rw [value_toDigits]
      omega
    word := by rw [hparts, hvalue, hfactors]
    tens := by
      rw [htens, hfactors]
      ring }

/-- A decimal is written as a numeral whose parts are its factors. -/
theorem exists_isNumeral (negative : Bool) {d : Decimal} (hpos : 0 < d.digits)
    (hword : d.digits < 2 ^ 64) (hlow : -324 ≤ d.exponent) (hhigh : d.exponent ≤ 308) :
  ∃ n, IsNumeral negative d n
  := by
  by_cases hlayout : -5 < d.exponent + (Nat.toDigits 10 d.digits).length
      ∧ d.exponent + (Nat.toDigits 10 d.digits).length ≤ 16
  · exact ⟨_, isNumeral_positional negative hpos rfl hlayout.1 hlayout.2⟩
  · exact ⟨_, isNumeral_scientific negative hword hlow hhigh rfl hlayout⟩

/-- What is read of a written decimal is the product of its factors. -/
theorem exists_numeral (negative : Bool) {d : Decimal} (hpos : 0 < d.digits)
    (hword : d.digits < 2 ^ 64) (hlow : -324 ≤ d.exponent) (hhigh : d.exponent ≤ 308) :
  ∃ n : JsonNumeral, n.WellFormed ∧ n.negative = negative ∧ n.writeUnsigned = json.write d
    ∧ n.magnitude? = d.scaled
  := by
  obtain ⟨n, hn⟩ := exists_isNumeral negative hpos hword hlow hhigh
  refine ⟨n, hn.wellFormed, hn.negative, hn.written, ?_⟩
  rw [scaled, ← hn.word, ← hn.tens]
  exact JsonNumeral.magnitude?_eq (hn.word ▸ factors_lt hword) hn.real hn.exponent

end Decimal

end TypedSql
