import Mathlib.Data.List.Induction
import TypedSql.Proofs.Json.Numerals
import TypedSql.Proofs.Value.Extraction

/-!
# Casts to integers

The texts that are cast to integers are those that write an integer of the range: ASCII digits
after at most one sign (`Decimal.Writes`).  The text of an integer is one of these and writes it.
Whatever is cast to a long integer is cast to the same integer of thirty-two bits if that is
possible, be it a number, a truth value or a text.  The main statement is
`Value.cast_integer_exact`.
-/

namespace TypedSql

namespace Decimal

/-! ### What numerals write -/

/-- One or more ASCII digits, the last of which is the ones, write a natural number. -/
inductive WritesNatural : List Char → Nat → Prop where
  | ones {d : Char} (hd : d.isDigit = true) : WritesNatural [d] (d.toNat - '0'.toNat)
  | tens {ds : List Char} {n : Nat} {d : Char} (h : WritesNatural ds n) (hd : d.isDigit = true) :
    WritesNatural (ds ++ [d]) (10 * n + (d.toNat - '0'.toNat))

/-- Digits after at most one sign write an integer. -/
inductive Writes : List Char → Int → Prop where
  | unsigned {ds : List Char} {n : Nat} (h : WritesNatural ds n) : Writes ds n
  | plus {ds : List Char} {n : Nat} (h : WritesNatural ds n) : Writes ('+' :: ds) n
  | minus {ds : List Char} {n : Nat} (h : WritesNatural ds n) : Writes ('-' :: ds) (-n)

variable {cs : List Char} {n : Nat} {i : Int}

theorem value_append_singleton (ds : List Char) (d : Char) :
  value (ds ++ [d]) = 10 * value ds + digitValue d
  := by
  rw [value, List.foldl_append, value, List.foldl_cons, List.foldl_nil]

theorem WritesNatural.isDigit_of_mem (h : WritesNatural cs n) :
  ∀ d ∈ cs, d.isDigit = true
  := by
  induction h with
  | ones hd => simpa using hd
  | tens _ hd ih => simpa [or_imp, forall_and] using ⟨ih, hd⟩

theorem WritesNatural.ne_nil (h : WritesNatural cs n) :
  cs ≠ []
  := by
  cases h <;> simp

theorem WritesNatural.value_eq (h : WritesNatural cs n) :
  value cs = n
  := by
  induction h with
  | ones _ => simp [value, digitValue]
  | tens _ _ ih => rw [value_append_singleton, ih, digitValue]; rfl

theorem writesNatural_value (hne : cs ≠ []) (hdigits : ∀ d ∈ cs, d.isDigit = true) :
  WritesNatural cs (value cs)
  := by
  induction cs using List.reverseRecOn with
  | nil => exact absurd rfl hne
  | append_singleton ds d ih =>
      have hd := hdigits d (by simp)
      by_cases hds : ds = []
      · subst hds
        have hone : value ([] ++ [d]) = d.toNat - '0'.toNat := by simp [value, digitValue]
        rw [hone]
        exact .ones hd
      · rw [value_append_singleton]
        exact .tens (ih hds fun c hc => hdigits c (by simp [hc])) hd

theorem digits?_eq_some_iff :
  digits? cs = some n ↔ WritesNatural cs n
  := by
  rw [digits?, Option.ite_none_right_eq_some, List.all_eq_true]
  constructor
  · rintro ⟨⟨hne, hdigits⟩, hvalue⟩
    obtain rfl := Option.some.inj hvalue
    exact writesNatural_value hne hdigits
  · intro h
    exact ⟨⟨h.ne_nil, h.isDigit_of_mem⟩, congrArg some h.value_eq⟩

theorem integer?_minus (ds : List Char) :
  integer? ('-' :: ds) = (digits? ds).map fun n => -Int.ofNat n
  := by
  rw [integer?]
  cases digits? ds <;> rfl

/-- What has no minus sign is read as a natural number. -/
theorem integer?_of_ne_minus (h : ∀ ds, cs ≠ '-' :: ds) :
  integer? cs = (natural? cs).map Int.ofNat
  := by
  rw [integer?]
  · cases natural? cs <;> rfl
  · exact h

theorem natural?_of_ne_plus (h : ∀ ds, cs ≠ '+' :: ds) :
  natural? cs = digits? cs
  := by
  rw [natural?]
  exact h

theorem WritesNatural.ne_cons {c : Char} (h : WritesNatural cs n) (hc : c.isDigit = false) :
  ∀ ds, cs ≠ c :: ds
  := by
  rintro ds rfl
  rw [h.isDigit_of_mem c List.mem_cons_self] at hc
  cases hc

theorem natural?_eq_some_iff :
  natural? cs = some n ↔ WritesNatural cs n ∨ ∃ ds, cs = '+' :: ds ∧ WritesNatural ds n
  := by
  by_cases hplus : ∃ ds, cs = '+' :: ds
  · obtain ⟨ds, rfl⟩ := hplus
    have hsigned : ¬ WritesNatural ('+' :: ds) n := fun h => h.ne_cons (by decide) ds rfl
    rw [natural?, digits?_eq_some_iff]
    simp [hsigned]
  · rw [natural?_of_ne_plus (not_exists.mp hplus), digits?_eq_some_iff]
    constructor
    · exact .inl
    · rintro (h | ⟨ds, hcs, -⟩)
      · exact h
      · exact absurd ⟨ds, hcs⟩ hplus

/-- The texts that are read are those that write the integer. -/
theorem integer?_eq_some_iff :
  integer? cs = some i ↔ Writes cs i
  := by
  by_cases hminus : ∃ ds, cs = '-' :: ds
  · obtain ⟨ds, rfl⟩ := hminus
    rw [integer?_minus, Option.map_eq_some_iff]
    constructor
    · rintro ⟨n, hn, rfl⟩
      exact .minus (digits?_eq_some_iff.mp hn)
    · intro h
      cases h with
      | unsigned h => exact absurd rfl (h.ne_cons (by decide) ds)
      | minus h => exact ⟨_, digits?_eq_some_iff.mpr h, rfl⟩
  · rw [integer?_of_ne_minus (not_exists.mp hminus), Option.map_eq_some_iff]
    constructor
    · rintro ⟨n, hn, rfl⟩
      obtain h | ⟨ds, rfl, h⟩ := natural?_eq_some_iff.mp hn
      · exact .unsigned h
      · exact .plus h
    · intro h
      cases h with
      | unsigned h => exact ⟨_, natural?_eq_some_iff.mpr (.inl h), rfl⟩
      | plus h => exact ⟨_, natural?_eq_some_iff.mpr (.inr ⟨_, rfl, h⟩), rfl⟩
      | minus _ => exact absurd ⟨_, rfl⟩ hminus

/-- The integers of a range that are read are those that are written. -/
theorem integerWithin?_eq_some_iff {b : Bounds} :
  integerWithin? b cs = some i ↔ Writes cs i ∧ b.low ≤ i ∧ i ≤ b.high
  := by
  rw [integerWithin?, Option.filter_eq_some_iff, integer?_eq_some_iff, Bounds.contains,
    decide_eq_true_iff]

/-- A text writes one integer at most. -/
theorem Writes.unique {j : Int} (hi : Writes cs i) (hj : Writes cs j) :
  i = j
  := by
  rw [← integer?_eq_some_iff] at hi hj
  exact Option.some.inj (hi.symm.trans hj)

theorem writesNatural_toDigits (n : Nat) :
  WritesNatural (Nat.toDigits 10 n) n
  := by
  have hdigits : ∀ d ∈ Nat.toDigits 10 n, d.isDigit = true := fun d hd =>
    Nat.isDigit_of_mem_toDigits (by decide) (by decide) hd
  have h := writesNatural_value Nat.toDigits_ne_nil hdigits
  rwa [value_toDigits] at h

/-- The text of an integer writes it. -/
theorem writes_toString (i : Int) :
  Writes (toString i).toList i
  := by
  cases i with
  | ofNat n =>
      rw [Json.toList_toString_ofNat]
      exact .unsigned (writesNatural_toDigits n)
  | negSucc n =>
      rw [Json.toList_toString_negSucc, Int.negSucc_eq]
      exact .minus (writesNatural_toDigits (n + 1))

end Decimal

/-! ### Truncation -/

namespace Binary64

open Decimal (Bounds)

variable {a b : Bounds}

theorem bounds_truncateWithin (hb : b.low ≤ 0 ∧ 0 ≤ b.high) (x : Binary64) :
  b.low ≤ x.truncateWithin b ∧ x.truncateWithin b ≤ b.high
  := by
  rw [truncateWithin]
  split
  · exact hb
  · split
    · split <;> omega
    · rw [Bounds.clamp]
      omega

/-- An integer part that lies in a range is the same in every wider range. -/
theorem truncateWithin_of_bounds (hlow : b.low < a.low) (hhigh : a.high < b.high) {x : Binary64}
    (h : a.low ≤ x.truncateWithin b ∧ x.truncateWithin b ≤ a.high) :
  x.truncateWithin a = x.truncateWithin b
  := by
  rw [truncateWithin] at h
  rw [truncateWithin, truncateWithin]
  split
  · rfl
  · rename_i hnan
    rw [if_neg hnan] at h
    split
    · rename_i hinfinite
      -- an infinity is at one of the wider bounds
      rw [if_pos hinfinite] at h
      split at h <;> omega
    · rename_i hfinite
      rw [if_neg hfinite] at h
      rw [Bounds.clamp] at h ⊢
      rw [Bounds.clamp]
      omega

end Binary64

/-! ### Integers of a width -/

/-- The members of a type are the integers of a range. -/
structure Decimal.Bounds.Holds {α : Type} (b : Bounds) (toInt : α → Int)
    (ofInt : Int → α) : Prop where
  low_le (n : α) : b.low ≤ toInt n
  le_high (n : α) : toInt n ≤ b.high
  toInt_ofInt {i : Int} (hlow : b.low ≤ i) (hhigh : i ≤ b.high) : toInt (ofInt i) = i
  ofInt_toInt (n : α) : ofInt (toInt n) = n

namespace Decimal.Bounds

theorem holds_signed32 :
  signed32.Holds Int32.toInt Int32.ofInt
  where
  low_le := Int32.le_toInt
  le_high n := Int.le_sub_one_of_lt n.toInt_lt
  toInt_ofInt hlow hhigh := Int32.toInt_ofInt_of_le hlow (Int.lt_of_le_sub_one hhigh)
  ofInt_toInt := Int32.ofInt_toInt

theorem holds_signed64 :
  signed64.Holds Int64.toInt Int64.ofInt
  where
  low_le := Int64.le_toInt
  le_high n := Int.le_sub_one_of_lt n.toInt_lt
  toInt_ofInt hlow hhigh := Int64.toInt_ofInt_of_le hlow (Int.lt_of_le_sub_one hhigh)
  ofInt_toInt := Int64.ofInt_toInt

/-- The member that is read is the one that is written. -/
theorem Holds.integerWithin?_iff {α : Type} {b : Bounds} {toInt : α → Int} {ofInt : Int → α}
    (h : b.Holds toInt ofInt) {cs : List Char} {n : α} :
  (integerWithin? b cs).map ofInt = some n ↔ Writes cs (toInt n)
  := by
  rw [Option.map_eq_some_iff]
  constructor
  · rintro ⟨i, hi, rfl⟩
    obtain ⟨hwrites, hlow, hhigh⟩ := integerWithin?_eq_some_iff.mp hi
    rwa [h.toInt_ofInt hlow hhigh]
  · intro hwrites
    exact ⟨toInt n, integerWithin?_eq_some_iff.mpr ⟨hwrites, h.low_le n, h.le_high n⟩,
      h.ofInt_toInt n⟩

end Decimal.Bounds

/-! ### Casts of texts -/

namespace Value

open Decimal (Writes)
open Decimal.Bounds (holds_signed32 holds_signed64)

variable {s : String} {v w : Value}

theorem toInteger_text (s : String) :
  (text s).toInteger
    = match (Decimal.integerWithin? .signed32 s.toList).map Int32.ofInt with
      | some n => .ok (some n)
      | none => .error ⟨text s, .integer, .unparsableText⟩
  := by
  rw [toInteger]
  cases Decimal.integerWithin? .signed32 s.toList <;> rfl

theorem toLong_text (s : String) :
  (text s).toLong
    = match (Decimal.integerWithin? .signed64 s.toList).map Int64.ofInt with
      | some n => .ok (some n)
      | none => .error ⟨text s, .long, .unparsableText⟩
  := by
  rw [toLong]
  cases Decimal.integerWithin? .signed64 s.toList <;> rfl

theorem toInteger_text_iff {n : Int32} :
  (text s).toInteger = .ok (some n) ↔ Writes s.toList n.toInt
  := by
  rw [← holds_signed32.integerWithin?_iff, toInteger_text]
  cases (Decimal.integerWithin? .signed32 s.toList).map Int32.ofInt <;> simp

theorem toLong_text_iff {n : Int64} :
  (text s).toLong = .ok (some n) ↔ Writes s.toList n.toInt
  := by
  rw [← holds_signed64.integerWithin?_iff, toLong_text]
  cases (Decimal.integerWithin? .signed64 s.toList).map Int64.ofInt <;> simp

theorem cast_integer_text_eq_ok_iff :
  (text s).cast .integer = .ok w ↔ ∃ n : Int32, Writes s.toList n.toInt ∧ w = integer n
  := by
  simp only [← toInteger_text_iff]
  exact cast_eq_ok_iff_of_ne (k := .integer) (by simp)

theorem cast_long_text_eq_ok_iff :
  (text s).cast .long = .ok w ↔ ∃ n : Int64, Writes s.toList n.toInt ∧ w = long n
  := by
  simp only [← toLong_text_iff]
  exact cast_eq_ok_iff_of_ne (k := .long) (by simp)

/-- A text that writes no integer of thirty-two bits is refused as not numeric. -/
theorem cast_integer_text_eq_error (h : ∀ n : Int32, ¬ Writes s.toList n.toInt) :
  (text s).cast .integer = .error ⟨text s, .integer, .unparsableText⟩
  := by
  have hnone : (Decimal.integerWithin? .signed32 s.toList).map Int32.ofInt = none :=
    Option.eq_none_iff_forall_ne_some.mpr fun n hn => h n (holds_signed32.integerWithin?_iff.mp hn)
  rw [cast, toInteger_text, hnone]
  rfl

/-! ### The two widths -/

/-- A value that is cast to a long integer is cast to the integer of thirty-two bits that is equal
to it, if there is one. -/
theorem cast_integer_of_cast_long {l : Int64} {n : Int32} (h : v.cast .long = .ok (long l))
    (hn : n.toInt = l.toInt) :
  v.cast .integer = .ok (integer n)
  := by
  cases v with
  | null => cases h
  | integer m =>
      cases h
      rw [Int32.toInt_toInt64] at hn
      rw [Int32.toInt_inj.mp hn]
      rfl
  | long m =>
      cases h
      have hl : l.toInt32 = n := by
        rw [← Int32.toInt_inj, Int64.toInt_toInt32, ← hn]
        exact Int.bmod_eq_of_le n.le_toInt n.toInt_lt
      rw [← hl]
      rfl
  | double x =>
      cases h
      have hwide := x.bounds_truncateWithin (b := .signed64) (by decide)
      rw [holds_signed64.toInt_ofInt hwide.1 hwide.2] at hn
      have hnarrow : x.truncateWithin .signed32 = x.truncateWithin .signed64 := by
        apply Binary64.truncateWithin_of_bounds (by decide) (by decide)
        rw [← hn]
        exact ⟨holds_signed32.low_le n, holds_signed32.le_high n⟩
      rw [cast, toInteger, hnarrow, ← hn, Int32.ofInt_toInt]
      rfl
  | text s =>
      obtain ⟨m, hm, ⟨⟩⟩ := cast_long_text_eq_ok_iff.mp h
      rw [← hn] at hm
      exact cast_integer_text_eq_ok_iff.mpr ⟨n, hm, rfl⟩
  | boolean b =>
      cases h
      have hb : n = if b then 1 else 0 := by
        rw [← Int32.toInt_inj, hn]
        cases b <;> rfl
      rw [hb]
      rfl
  | blob bytes => cases h

/-- Integer casts are exact where they can be.  A text is cast to an integer precisely if it writes
one of the range, and the text of every integer writes it.  What is cast to a long integer is cast
to the same integer of thirty-two bits if there is one; otherwise long integers are reduced modulo
`2 ^ 32`, and texts are refused. -/
theorem cast_integer_exact :
  (∀ s w, (text s).cast .integer = .ok w
      ↔ ∃ n : Int32, Writes s.toList n.toInt ∧ w = integer n)
    ∧ (∀ s w, (text s).cast .long = .ok w
        ↔ ∃ n : Int64, Writes s.toList n.toInt ∧ w = long n)
    ∧ (∀ n, ∃ s, (integer n).canonicalText = some s ∧ (text s).cast .integer = .ok (integer n))
    ∧ (∀ n, ∃ s, (long n).canonicalText = some s ∧ (text s).cast .long = .ok (long n))
    ∧ ∀ v l, v.cast .long = .ok (long l) →
        (∀ n : Int32, n.toInt = l.toInt → v.cast .integer = .ok (integer n))
          ∧ ((∀ n : Int32, n.toInt ≠ l.toInt) →
              (∀ m, v = long m →
                ∃ n : Int32, n.toInt = l.toInt.bmod Int32.size ∧ v.cast .integer = .ok (integer n))
              ∧ ∀ s, v = text s → v.cast .integer = .error ⟨v, .integer, .unparsableText⟩)
  := by
  refine ⟨fun s w => cast_integer_text_eq_ok_iff, fun s w => cast_long_text_eq_ok_iff,
    fun n => ⟨_, rfl, cast_integer_text_eq_ok_iff.mpr ⟨n, Decimal.writes_toString _, rfl⟩⟩,
    fun n => ⟨_, rfl, cast_long_text_eq_ok_iff.mpr ⟨n, Decimal.writes_toString _, rfl⟩⟩,
    fun v l h => ⟨fun n => cast_integer_of_cast_long h, fun hwide => ⟨?_, ?_⟩⟩⟩
  · rintro m rfl
    cases h
    exact ⟨l.toInt32, l.toInt_toInt32, rfl⟩
  · rintro s rfl
    obtain ⟨m, hm, ⟨⟩⟩ := cast_long_text_eq_ok_iff.mp h
    exact cast_integer_text_eq_error fun n hn => hwide n (hn.unique hm)

/-- The first number after those of thirty-two bits is the least one of them when it is given as a
long integer, and nothing when it is written out; the one before it is a number of both widths. -/
theorem cast_integer_exact_overflow :
  (text "+2147483647").cast .integer = .ok (integer 2147483647)
    ∧ (text "2147483648").cast .long = .ok (long 2147483648)
    ∧ (text "2147483648").cast .integer
        = .error ⟨text "2147483648", .integer, .unparsableText⟩
    ∧ ∃ n : Int32, n.toInt = -2147483648
        ∧ (long 2147483648).cast .integer = .ok (integer n)
  := by
  obtain ⟨-, -, -, -, hwidths⟩ := cast_integer_exact
  have hlast : (text "+2147483647").cast .long = .ok (long 2147483647) := rfl
  have hnext : (text "2147483648").cast .long = .ok (long 2147483648) := rfl
  have hwide : ∀ n : Int32, n.toInt ≠ (2147483648 : Int64).toInt := fun n =>
    Int.ne_of_lt n.toInt_lt
  obtain ⟨-, hrefused⟩ := (hwidths _ _ hnext).2 hwide
  obtain ⟨hwrapped, -⟩ := (hwidths (long 2147483648) _ rfl).2 hwide
  exact ⟨(hwidths _ _ hlast).1 2147483647 rfl, hnext, hrefused _ rfl, hwrapped _ rfl⟩

end Value

end TypedSql
