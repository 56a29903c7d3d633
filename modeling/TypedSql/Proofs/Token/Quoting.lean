import TypedSql.Proofs.Token.Harmless

/-!
# Tokens of literals

The literal of a text is one quoted token, and that of a sequence of bytes a letter and a
quoted token, whatever they contain; literals of numbers are characters of code in which no
two dashes meet.  So the literal of every value is harmless (`harmless_literal`).
-/

namespace TypedSql.Sql

/-! ### Quoted texts -/

/-- The content of a quoted text leaves the quote open. -/
theorem Mode.scan_escapeQuotes (read cs b : List Char) :
  (quote '\x27' read).scan (escapeQuotes cs ++ b)
    = (quote '\x27' ((escapeQuotes cs).reverse ++ read)).scan b
  := by
  induction cs generalizing read with
  | nil => rfl
  | cons c cs ih =>
      by_cases hc : c = '\x27'
      · subst hc
        simp [escapeQuotes, scan, step, ih]
      · simp [escapeQuotes, scan, step, hc, ih]

/-- Characters other than the closing mark leave the quote open. -/
theorem Mode.scan_quote_of_ne {close : Char} {cs : List Char} (h : ∀ c ∈ cs, c ≠ close)
    (read b : List Char) :
  (quote close read).scan (cs ++ b) = (quote close (cs.reverse ++ read)).scan b
  := by
  induction cs generalizing read with
  | nil => rfl
  | cons c cs ih =>
      obtain ⟨hc, hcs⟩ := List.forall_mem_cons.mp h
      simp [scan, step, hc, ih hcs]

/-- The literal of a text is one closed token. -/
theorem tokens_quote (s : String) :
  tokens (quote s).toList = [.quoted (quote s).toList]
  := by
  simp [quote, tokens, Mode.scan, Mode.step, Mode.start, Mode.scan_escapeQuotes, Mode.finish]

theorem hexadecimal_ne_mark (bytes : List UInt8) :
  ∀ c ∈ (hexadecimal bytes).toList, c ≠ '\x27'
  := by
  intro c hc
  simp only [hexadecimal, String.toList_ofList, List.mem_flatMap] at hc
  obtain ⟨b, -, hc⟩ := hc
  simp only [List.mem_cons, List.not_mem_nil, or_false] at hc
  rcases hc with rfl | rfl <;> exact Nat.digitChar_ne '\x27' (by decide)

/-- The literal of a sequence of bytes is a letter and one closed token. -/
theorem tokens_hexadecimal (bytes : List UInt8) :
  tokens ("X'" ++ hexadecimal bytes ++ "'").toList
    = [.code 'X', .quoted ('\x27' :: ((hexadecimal bytes).toList ++ ['\x27']))]
  := by
  have h := Mode.scan_quote_of_ne (hexadecimal_ne_mark bytes) ['\x27'] ['\x27']
  simp only [String.toList_append]
  simp [tokens, Mode.scan, Mode.step, Mode.start, h, Mode.finish]

/-! ### Numbers -/

theorem isPlain_of_isDigit {c : Char} (h : c.isDigit = true) :
  isPlain c = true
  := by
  apply isPlain_of_isNameRest
  simp [isNameRest, Char.isAlphanum, h]

theorem isPlain_of_mem_toDigits {n : Nat} :
  ∀ c ∈ Nat.toDigits 10 n, isPlain c = true
  := fun _ hc => isPlain_of_isDigit (Nat.isDigit_of_mem_toDigits (by decide) (by decide) hc)

/-- Plain characters can stand before any harmless text. -/
theorem harmless_append_of_isPlain {a b : List Char} (ha : ∀ c ∈ a, isPlain c = true)
    (hb : Harmless (tokens b)) :
  Harmless (tokens (a ++ b))
  := by
  have h := harmless_of_isPlain ha
  rw [tokens_of_isInert (isInert_of_isPlain ha)] at h
  rw [tokens_append_of_isInert (isInert_of_isPlain ha)]
  apply h.append hb

/-- A dash can stand before every harmless text that begins with another character. -/
theorem harmless_dash_cons {b : List Char} (hd : b.head? ≠ some '-')
    (hb : Harmless (tokens b)) :
  Harmless (tokens ('-' :: b))
  := by
  have h : tokens (['-'] ++ b) = tokens ['-'] ++ tokens b := by
    apply tokens_append
    simpa [Mode.after, Mode.step, Mode.start, Mode.endsBefore] using hd
  rw [List.singleton_append] at h
  rw [h]
  apply Harmless.append (by decide) hb

theorem head?_ne_dash_of_isPlain {a : List Char} (h : ∀ c ∈ a, isPlain c = true) :
  a.head? ≠ some '-'
  := by
  intro hd
  cases a with
  | nil => cases hd
  | cons c a =>
      obtain rfl : c = '-' := by simpa using hd
      exact absurd (h '-' List.mem_cons_self) (by decide)

/-- A dash before plain characters is harmless. -/
theorem harmless_dash_of_isPlain {a : List Char} (h : ∀ c ∈ a, isPlain c = true) :
  Harmless (tokens ('-' :: a))
  := harmless_dash_cons (head?_ne_dash_of_isPlain h) (harmless_of_isPlain h)

theorem harmless_toString_int (n : Int) :
  Harmless (tokens (toString n).toList)
  := by
  cases n with
  | ofNat m =>
      apply harmless_of_isPlain
      rw [show (toString (Int.ofNat m)).toList = Nat.toDigits 10 m by
        simp [Int.toString_eq_repr, Int.repr, Nat.repr]]
      exact isPlain_of_mem_toDigits
  | negSucc m =>
      rw [show (toString (Int.negSucc m)).toList = '-' :: Nat.toDigits 10 (m + 1) by
        simp [Int.toString_eq_repr, Int.repr, Nat.repr]]
      apply harmless_dash_of_isPlain isPlain_of_mem_toDigits

/-- The positional form of a decimal consists of digits and a point. -/
theorem isPlain_positional {ds : List Char} (h : ∀ c ∈ ds, isPlain c = true) (k : Int) :
  ∀ c ∈ Decimal.positional ds k, isPlain c = true
  := by
  intro c hc
  unfold Decimal.positional at hc
  split at hc
  · simp only [List.mem_cons, List.mem_append, List.mem_replicate] at hc
    rcases hc with rfl | rfl | ⟨-, rfl⟩ | hc
    · decide
    · decide
    · decide
    · apply h c hc
  · simp only [List.mem_cons, List.mem_append, List.mem_replicate] at hc
    rcases hc with (hc | ⟨-, rfl⟩) | rfl | hc
    · apply h c (List.mem_of_mem_take hc)
    · decide
    · decide
    · split at hc
      · obtain rfl : c = '0' := by simpa using hc
        decide
      · apply h c (List.mem_of_mem_drop hc)

/-- The scientific form of a decimal has a dash only before the digits of the exponent. -/
theorem harmless_scientific {plus : Bool} {ds : List Char}
    (h : ∀ c ∈ ds, isPlain c = true) (e : Int) :
  Harmless (tokens (Decimal.scientific plus ds e))
    ∧ (Decimal.scientific plus ds e).head? ≠ some '-'
  := by
  obtain ⟨a, ha, heq⟩ : ∃ a : List Char, (∀ c ∈ a, isPlain c = true) ∧
      Decimal.scientific plus ds e
        = (a ++ ['e']) ++ ((if e < 0 then ['-'] else if plus then ['+'] else [])
            ++ Nat.toDigits 10 e.natAbs) := by
    unfold Decimal.scientific
    split
    · rename_i d d' r
      refine ⟨d :: '.' :: d' :: r, ?_, by simp⟩
      simp only [List.forall_mem_cons] at h ⊢
      exact ⟨h.1, by decide, h.2⟩
    · exact ⟨ds, h, by simp⟩
  have hmantissa : ∀ c ∈ a ++ ['e'], isPlain c = true := by
    rw [List.forall_mem_append, List.forall_mem_singleton]
    exact ⟨ha, by decide⟩
  rw [heq]
  constructor
  · apply harmless_append_of_isPlain hmantissa
    split
    · apply harmless_dash_of_isPlain isPlain_of_mem_toDigits
    · apply harmless_of_isPlain
      rw [List.forall_mem_append]
      refine ⟨?_, isPlain_of_mem_toDigits⟩
      rw [← List.all_eq_true]
      split <;> decide
  · have hne : (a ++ ['e']).head? ≠ none := by simp
    rw [List.head?_append, Option.or_of_isSome (Option.isSome_iff_ne_none.mpr hne)]
    apply head?_ne_dash_of_isPlain hmantissa

/-- A written decimal is harmless and begins with a digit. -/
theorem harmless_write (layout : Decimal.Layout) (d : Decimal) :
  Harmless (tokens (layout.write d)) ∧ (layout.write d).head? ≠ some '-'
  := by
  have hds := @isPlain_of_mem_toDigits d.digits
  unfold Decimal.Layout.write
  dsimp only
  split
  · have hp := isPlain_positional hds (d.exponent + (Nat.toDigits 10 d.digits).length)
    exact ⟨harmless_of_isPlain hp, head?_ne_dash_of_isPlain hp⟩
  · apply harmless_scientific hds _

theorem harmless_finite (layout : Decimal.Layout) (x : Binary64) :
  Harmless (tokens (layout.finite x).toList)
  := by
  obtain ⟨body, heq, hb, hd⟩ : ∃ body : List Char,
      (if x.isZero then ['0', '.', '0'] else layout.write (Decimal.shortest layout.tie x)) = body
        ∧ Harmless (tokens body) ∧ body.head? ≠ some '-' := by
    refine ⟨_, rfl, ?_⟩
    split
    · decide
    · apply harmless_write
  rw [Decimal.Layout.finite, String.toList_ofList, heq]
  split
  · apply harmless_dash_cons hd hb
  · exact hb

/-- The literal of every value is harmless. -/
theorem harmless_literal {validated : Bool} {v : Value} {s : String}
    (h : literal validated v = .ok s) :
  Harmless (tokens s.toList)
  := by
  cases v with
  | null =>
      cases h
      decide
  | integer n =>
      cases h
      apply harmless_toString_int
  | long n =>
      cases h
      apply harmless_toString_int
  | double x =>
      cases h
      unfold doubleLiteral
      repeat' split
      · decide
      · decide
      · decide
      · apply harmless_finite
  | text t =>
      simp only [literal] at h
      split at h
      · cases h
      · cases h
        rw [tokens_quote]
        rfl
  | boolean b =>
      cases h
      cases b <;> decide
  | blob bytes =>
      cases h
      rw [tokens_hexadecimal]
      rfl

end TypedSql.Sql
