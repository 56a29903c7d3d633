import TypedSql.Json.Reader

/-!
# Written integers are read

An integer is written with its sign, if it is negative, and the decimal digits of its magnitude,
of which the first is zero only for zero.  What is read of a written integer, up to a character
that cannot go on a numeral, is the numeral of it: `numeralAt_toString`; and this writes the
integer in every range that contains it: `integerWithin?_ofInt`.
-/

namespace TypedSql

/-! ### Digits -/

namespace Decimal

theorem value_toDigits (n : Nat) :
  value (Nat.toDigits 10 n) = n
  :=
  Nat.ofDigitChars_ten_toDigits

/-- Only zero is written with a zero in front. -/
theorem eq_nil_of_toDigits {n : Nat} {ds : List Char} (h : Nat.toDigits 10 n = '0' :: ds) :
  ds = []
  := by
  induction n using Nat.strongRecOn generalizing ds with
  | ind n ih =>
      obtain hn | hn := Nat.lt_or_ge n 10
      · rw [Nat.toDigits_of_lt_base hn] at h
        exact (List.cons.inj h).2.symm
      · rw [Nat.toDigits_of_base_le (by decide) hn] at h
        cases hrest : Nat.toDigits 10 (n / 10) with
        | nil => exact absurd hrest Nat.toDigits_ne_nil
        | cons d ds' =>
            rw [hrest, List.cons_append] at h
            obtain ⟨rfl, -⟩ := List.cons.inj h
            -- the digits in front would be a zero, but what they write is positive
            rw [ih (n / 10) (by omega) hrest] at hrest
            have hzero : n / 10 = 0 := by rw [← value_toDigits (n / 10), hrest]; rfl
            omega

theorem spanDigits_digits {ds r : List Char} (hds : ∀ c ∈ ds, c.isDigit = true)
    (hr : ∀ c ∈ r.head?, c.isDigit = false) :
  spanDigits (ds ++ r) = (ds, r)
  := by
  have hstop : r.takeWhile Char.isDigit = [] ∧ r.dropWhile Char.isDigit = r := by
    cases r with
    | nil => exact ⟨rfl, rfl⟩
    | cons c r => simp [hr c rfl]
  rw [spanDigits, List.takeWhile_append_of_pos hds, List.dropWhile_append_of_pos hds, hstop.1,
    hstop.2, List.append_nil]

end Decimal

/-! ### Numerals -/

/-- The numeral of an integer. -/
def JsonNumeral.ofInt (i : Int) : JsonNumeral :=
  ⟨decide (i < 0), Nat.toDigits 10 i.natAbs, none, none⟩

/-- The numeral of an integer writes it. -/
theorem JsonNumeral.integerWithin?_ofInt {b : Decimal.Bounds} {i : Int}
    (h : b.contains i = true) :
  (ofInt i).integerWithin? b = some i
  := by
  by_cases hneg : i < 0
  · have hvalue : -(i.natAbs : Int) = i := by omega
    have hpos : i.natAbs ≠ 0 := by omega
    simp only [integerWithin?, ofInt, Decimal.value_toDigits, hneg, decide_true, hpos, and_false,
      if_false, if_true, hvalue, h]
  · have hvalue : (i.natAbs : Int) = i := by omega
    simp only [integerWithin?, ofInt, Decimal.value_toDigits, hneg, decide_false,
      Bool.false_eq_true, false_and, if_false, if_true, hvalue, h]

namespace Json

/-- Characters that do not go on a numeral of an integer. -/
def EndsNumeral (r : List Char) : Prop :=
  ∀ c ∈ r.head?, c.isDigit = false ∧ c ≠ '.' ∧ c ≠ 'e' ∧ c ≠ 'E'

variable {r : List Char}

theorem fractionPart_of_ends (h : EndsNumeral r) :
  fractionPart r = some (none, r)
  := by
  cases r with
  | nil => rfl
  | cons c r =>
      obtain ⟨-, hpoint, -, -⟩ := h c rfl
      rw [fractionPart]
      simpa using hpoint

theorem exponentPart_of_ends (h : EndsNumeral r) :
  exponentPart r = some (none, r)
  := by
  cases r with
  | nil => rfl
  | cons c r =>
      obtain ⟨-, -, he, hE⟩ := h c rfl
      simp [exponentPart, he, hE]

theorem toList_toString_ofNat (n : Nat) :
  (toString (Int.ofNat n)).toList = Nat.toDigits 10 n
  := by
  simp [Int.toString_eq_repr, Int.repr, Nat.repr]

theorem toList_toString_negSucc (n : Nat) :
  (toString (Int.negSucc n)).toList = '-' :: Nat.toDigits 10 (n + 1)
  := by
  simp [Int.toString_eq_repr, Int.repr, Nat.repr]

/-- The digits of a number begin with one. -/
theorem exists_toDigits_eq_cons (n : Nat) :
  ∃ c cs, Nat.toDigits 10 n = c :: cs ∧ c.isDigit = true
  := by
  obtain ⟨c, cs, h⟩ := List.exists_cons_of_ne_nil (Nat.toDigits_ne_nil (n := n) (b := 10))
  refine ⟨c, cs, h, Nat.isDigit_of_mem_toDigits (b := 10) (n := n) (by decide) (by decide) ?_⟩
  rw [h]
  exact List.mem_cons_self

/-- A written integer begins with a sign or a digit. -/
theorem exists_toString_eq_cons (i : Int) :
  ∃ c cs, (toString i).toList = c :: cs ∧ (c = '-' ∨ c.isDigit = true)
  := by
  cases i with
  | ofNat n =>
      obtain ⟨c, cs, h, hc⟩ := exists_toDigits_eq_cons n
      exact ⟨c, cs, by rw [toList_toString_ofNat, h], .inr hc⟩
  | negSucc n => exact ⟨_, _, toList_toString_negSucc n, .inl rfl⟩

/-- Reads a numeral from behind its sign. -/
def unsignedAt (negative : Bool) (cs : List Char) : Option (JsonNumeral × List Char) :=
  let s := Decimal.spanDigits cs
  match s.1 with
  | [] => none
  | '0' :: _ :: _ => none
  | whole => do
    let (fraction, r) ← fractionPart s.2
    let (exponent, r) ← exponentPart r
    return (⟨negative, whole, fraction, exponent⟩, r)

theorem numeralAt_minus (cs : List Char) :
  numeralAt ('-' :: cs) = unsignedAt true cs
  :=
  rfl

theorem numeralAt_of_isDigit {c : Char} (h : c.isDigit = true) (cs : List Char) :
  numeralAt (c :: cs) = unsignedAt false (c :: cs)
  := by
  have hminus : c ≠ '-' := by
    rintro rfl
    cases h
  rw [numeralAt]
  · rfl
  · exact fun _ hcs => hminus (List.cons.inj hcs).1

theorem unsignedAt_toDigits (negative : Bool) (n : Nat) (h : EndsNumeral r) :
  unsignedAt negative (Nat.toDigits 10 n ++ r)
    = some (⟨negative, Nat.toDigits 10 n, none, none⟩, r)
  := by
  have hspan : Decimal.spanDigits (Nat.toDigits 10 n ++ r) = (Nat.toDigits 10 n, r) :=
    Decimal.spanDigits_digits (fun c hc => Nat.isDigit_of_mem_toDigits (by decide) (by decide) hc)
      fun c hc => (h c hc).1
  simp only [unsignedAt, hspan, fractionPart_of_ends h]
  split
  · rename_i hnil
    exact absurd hnil Nat.toDigits_ne_nil
  · rename_i hzero
    cases Decimal.eq_nil_of_toDigits hzero
  · rw [Option.bind_eq_bind, Option.bind_some, exponentPart_of_ends h]
    rfl

/-- What is read of a written integer is its numeral. -/
theorem numeralAt_toString (i : Int) (h : EndsNumeral r) :
  numeralAt ((toString i).toList ++ r) = some (.ofInt i, r)
  := by
  cases i with
  | ofNat n =>
      obtain ⟨c, cs, hdigits, hc⟩ := exists_toDigits_eq_cons n
      have hread := unsignedAt_toDigits false n h
      rw [hdigits, List.cons_append] at hread
      rw [toList_toString_ofNat, hdigits, List.cons_append, numeralAt_of_isDigit hc, hread]
      simp [JsonNumeral.ofInt, hdigits]
  | negSucc n =>
      rw [toList_toString_negSucc, List.cons_append, numeralAt_minus,
        unsignedAt_toDigits true (n + 1) h]
      simp [JsonNumeral.ofInt]

/-- Integers that are written the same are the same. -/
theorem eq_of_toString_eq {i j : Int} (h : toString i = toString j) :
  i = j
  := by
  have hends : EndsNumeral [] := fun c hc => nomatch hc
  have hread := numeralAt_toString i hends
  rw [h, numeralAt_toString j hends] at hread
  simp only [JsonNumeral.ofInt, Option.some.injEq, Prod.mk.injEq, JsonNumeral.mk.injEq,
    decide_eq_decide, and_true] at hread
  obtain ⟨hsign, hdigits⟩ := hread
  have habs := congrArg Decimal.value hdigits
  rw [Decimal.value_toDigits, Decimal.value_toDigits] at habs
  omega

end Json

end TypedSql
