import TypedSql.Json.Reader
import TypedSql.Proofs.Token.Lexemes
import TypedSql.Proofs.Token.Quoting
import TypedSql.Proofs.Token.Segments
import TypedSql.Proofs.Token.Substitution
import TypedSql.Proofs.Value.Integers

/-!
# Literals are read back

An engine reads a literal as one of four things, whatever the type of the value that it was
written for: nothing, an integer, a text or a sequence of bytes.  A reader of literals gives what
the value is to the engine, and a literal of a text is one token in front of whatever does not
begin with another apostrophe (`literal_read`).
-/

namespace TypedSql

namespace Sql

/-- What a literal is read as. -/
inductive Datum where
  | null
  | integer (n : Int)
  | text (s : String)
  | blob (bytes : List UInt8)
deriving DecidableEq

/-! ### The reader -/

/-- Reads a quoted text from behind its opening apostrophe.  Two apostrophes are one of the text,
and a single one is the end. -/
def unquote? : List Char → Option (List Char)
  | ['\x27'] => some []
  | '\x27' :: '\x27' :: cs => (unquote? cs).map ('\x27' :: ·)
  | c :: cs => if c = '\x27' then none else (unquote? cs).map (c :: ·)
  | [] => none

/-- Reads bytes, of two hexadecimal digits each, up to the apostrophe at the end. -/
def bytes? : List Char → Option (List UInt8)
  | ['\x27'] => some []
  | c :: d :: cs => do
    let m ← Json.hexValue? c
    let n ← Json.hexValue? d
    let bytes ← bytes? cs
    return .ofNat (16 * m + n) :: bytes
  | _ => none

/-- Reads a literal. -/
def Datum.read? : List Char → Option Datum
  | ['N', 'U', 'L', 'L'] => some null
  | '\x27' :: cs => (unquote? cs).map fun s => text (.ofList s)
  | 'X' :: '\x27' :: cs => (bytes? cs).map blob
  | cs => (Decimal.integer? cs).map integer

end Sql

/-- What a value is to an engine, when it is no double: integers of both widths are integers, and
truth values are one and zero. -/
def Value.datum? : Value → Option Sql.Datum
  | null => some .null
  | integer n => some (.integer n.toInt)
  | long n => some (.integer n.toInt)
  | double _ => none
  | text s => some (.text s)
  | boolean b => some (.integer (if b then 1 else 0))
  | blob bytes => some (.blob bytes)

namespace Sql

/-! ### Texts -/

theorem unquote?_escapeQuotes (cs : List Char) :
  unquote? (escapeQuotes cs ++ ['\x27']) = some cs
  := by
  induction cs with
  | nil => rfl
  | cons c cs ih =>
      by_cases hc : c = '\x27'
      · subst hc
        rw [escapeQuotes, if_pos rfl, List.cons_append, List.cons_append, unquote?, ih,
          Option.map_some]
      · rw [escapeQuotes, if_neg hc, List.cons_append, unquote?, if_neg hc, ih, Option.map_some]
        · exact fun h _ => hc h
        · exact fun _ h _ => hc h

theorem read?_quote (s : String) :
  Datum.read? (quote s).toList = some (.text s)
  := by
  rw [quote, String.toList_ofList, Datum.read?, unquote?_escapeQuotes, Option.map_some,
    String.ofList_toList]

/-- The apostrophes of a text are all written twice. -/
theorem content_escapeQuotes (cs : List Char) :
  Content '\x27' (escapeQuotes cs)
  := by
  induction cs with
  | nil => exact .nil
  | cons c cs ih =>
      rw [escapeQuotes]
      split
      · rename_i hc
        exact .doubled (by decide) ih
      · rename_i hc
        exact .other hc ih

/-- The literal of a text is one token in front of a text that does not begin with an apostrophe. -/
theorem tokens_quote_append (s : String) {t : List Char} (ht : t.head? ≠ some '\x27') :
  tokens ((quote s).toList ++ t) = .quoted (quote s).toList :: tokens t
  := by
  have h := tokens_of_content (o := '\x27') rfl (content_escapeQuotes s.toList) (.inr ht)
  rw [quote, String.toList_ofList, List.cons_append, List.append_assoc, List.singleton_append, h]

/-- A token that is not reported only shifts what is behind it. -/
theorem located_quote_append (s : String) {t : List Char} (ht : t.head? ≠ some '\x27') :
  located ((quote s).toList ++ t) = (located t).map (Located.shift (byteSize (quote s).toList))
  := by
  have htokens : tokens ((quote s).toList ++ t) = tokens (quote s).toList ++ tokens t := by
    rw [tokens_quote_append s ht, tokens_quote, List.singleton_append]
  rw [located_append htokens, located, tokens_quote]
  rfl

/-! ### Bytes -/

theorem hexValue?_digitChar :
  ∀ n < 16, Json.hexValue? (Nat.digitChar n) = some n
  := by
  decide

/-- The two digits of a byte are read as the byte. -/
theorem bytes?_digitChar (b : UInt8) (cs : List Char) :
  bytes? (Nat.digitChar (b.toNat / 16) :: Nat.digitChar (b.toNat % 16) :: cs)
    = (bytes? cs).map (b :: ·)
  := by
  have hhigh := hexValue?_digitChar (b.toNat / 16) (Nat.div_lt_of_lt_mul b.toNat_lt)
  have hlow := hexValue?_digitChar (b.toNat % 16) (Nat.mod_lt _ (by decide))
  have hbyte : UInt8.ofNat (16 * (b.toNat / 16) + b.toNat % 16) = b := by
    rw [Nat.div_add_mod, UInt8.ofNat_toNat]
  rw [bytes?, hhigh, hlow]
  simp only [Option.bind_eq_bind, Option.bind_some, hbyte]
  cases bytes? cs <;> rfl

theorem bytes?_hexadecimal (bytes : List UInt8) :
  bytes? ((hexadecimal bytes).toList ++ ['\x27']) = some bytes
  := by
  rw [hexadecimal, String.toList_ofList]
  induction bytes with
  | nil => rfl
  | cons b bytes ih =>
      rw [List.flatMap_cons, List.append_assoc]
      exact (bytes?_digitChar b _).trans (congrArg (Option.map (b :: ·)) ih)

theorem read?_blob (bytes : List UInt8) :
  Datum.read? ("X'" ++ hexadecimal bytes ++ "'").toList = some (.blob bytes)
  := by
  have htext : ("X'" ++ hexadecimal bytes ++ "'").toList
      = 'X' :: '\x27' :: ((hexadecimal bytes).toList ++ ['\x27']) := by
    simp
  rw [htext, Datum.read?, bytes?_hexadecimal, Option.map_some]

/-! ### Numbers -/

/-- What begins with a sign or a digit is read as an integer. -/
theorem read?_cons {c : Char} (h : c = '-' ∨ c.isDigit = true) (cs : List Char) :
  Datum.read? (c :: cs) = (Decimal.integer? (c :: cs)).map .integer
  := by
  have hne {d : Char} (hd : ¬ (d = '-' ∨ d.isDigit = true)) : c ≠ d := by
    rintro rfl
    exact hd h
  rw [Datum.read?]
  · exact fun hcs => hne (by decide) (List.cons.inj hcs).1
  · exact fun _ hcs => hne (by decide) (List.cons.inj hcs).1
  · exact fun _ hcs => hne (by decide) (List.cons.inj hcs).1

theorem read?_integer (n : Int) :
  Datum.read? (toString n).toList = some (.integer n)
  := by
  obtain ⟨c, cs, htext, hc⟩ := Json.exists_toString_eq_cons n
  rw [htext, read?_cons hc, ← htext, Decimal.integer?_eq_some_iff.mpr (Decimal.writes_toString n),
    Option.map_some]

/-! ### Values -/

/-- Without a check every value that is no double has a literal, which is read as what the value
is. -/
theorem exists_read?_literal {v : Value} {d : Datum} (h : v.datum? = some d) :
  ∃ s, literal false v = .ok s ∧ Datum.read? s.toList = some d
  := by
  cases v with
  | null =>
      cases h
      exact ⟨_, rfl, rfl⟩
  | integer n =>
      cases h
      exact ⟨_, rfl, read?_integer n.toInt⟩
  | long n =>
      cases h
      exact ⟨_, rfl, read?_integer n.toInt⟩
  | double x => cases h
  | text s =>
      cases h
      exact ⟨_, rfl, read?_quote s⟩
  | boolean b =>
      cases h
      refine ⟨_, rfl, ?_⟩
      cases b <;> decide
  | blob bytes =>
      cases h
      exact ⟨_, rfl, read?_blob bytes⟩

/-- Under a check only texts with the character NUL have no literal. -/
theorem exists_literal_eq_error_iff {v : Value} :
  (∃ e, literal true v = .error e) ↔ ∃ s, v = .text s ∧ '\x00' ∈ s.toList
  := by
  constructor
  · rintro ⟨e, h⟩
    exact (exists_of_literal_eq_error h).2
  · rintro ⟨s, rfl, hnul⟩
    refine ⟨.nulInText, ?_⟩
    rw [literal, Bool.true_and, if_pos (List.contains_iff_mem.mpr hnul)]

/-- The literal of every value that is no double is read as what the value is.  The literal of a
text is one closed token in front of every text that does not begin with an apostrophe, whose
lexemes are only shifted by the length of the literal.  Under a check a value has no literal
precisely if it is a text with the character NUL, and otherwise it has the same. -/
theorem literal_read :
  (∀ v d, v.datum? = some d → ∃ s, literal false v = .ok s ∧ Datum.read? s.toList = some d)
    ∧ (∀ (s : String) (t : List Char), t.head? ≠ some '\x27' →
        tokens ((quote s).toList ++ t) = .quoted (quote s).toList :: tokens t
          ∧ located ((quote s).toList ++ t)
              = (located t).map (Located.shift (byteSize (quote s).toList)))
    ∧ ∀ v, ((∃ e, literal true v = .error e) ↔ ∃ s, v = .text s ∧ '\x00' ∈ s.toList)
        ∧ ∀ s, literal true v = .ok s → literal false v = .ok s
  :=
  ⟨fun _ _ => exists_read?_literal,
    fun s _ ht => ⟨tokens_quote_append s ht, located_quote_append s ht⟩,
    fun _ => ⟨exists_literal_eq_error_iff, fun _ h => literal_of_validated h false⟩⟩

/-- A text with apostrophes at either end, a backslash, a line feed and a bracket, of eleven bytes
as a literal, and the least long integer. -/
theorem literal_read_apostrophes :
  (∃ s, literal false (.text "'é\\\n['") = .ok s
      ∧ Datum.read? s.toList = some (.text "'é\\\n['"))
    ∧ located "'''é\\\n['''] = ? --".toList
        = [⟨11, .code ']'⟩, ⟨12, .code ' '⟩, ⟨13, .code '='⟩, ⟨14, .code ' '⟩,
          ⟨15, .placeholder false⟩, ⟨16, .code ' '⟩, ⟨17, .lineComment⟩]
    ∧ (∃ s, literal false (.long (-9223372036854775808)) = .ok s
      ∧ Datum.read? s.toList = some (.integer (-9223372036854775808)))
    ∧ literal true (.text "a") = .ok "'a'" ∧ literal false (.text "a") = .ok "'a'"
  := by
  obtain ⟨hread, htokens, hchecked⟩ := literal_read
  have hlong : (Value.long (-9223372036854775808)).datum?
      = some (.integer (-9223372036854775808)) := by
    decide
  have hlocated := (htokens "'é\\\n['" "] = ? --".toList (by decide)).2
  have htext : (quote "'é\\\n['").toList ++ "] = ? --".toList
      = "'''é\\\n['''] = ? --".toList := by
    decide
  rw [htext] at hlocated
  refine ⟨hread _ _ rfl, hlocated.trans (by decide), hread _ _ hlong, rfl, (hchecked _).2 _ rfl⟩

end Sql

end TypedSql
