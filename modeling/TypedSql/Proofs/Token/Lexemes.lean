import TypedSql.Proofs.Token.Juncture

/-!
# Lexemes

The lexemes of a text of SQL are what the scanner reports outside of quotes: characters of
code, placeholders, and the marks of comments and of quotes that are left open.  Where each of
them stands is told by the located lexemes.

Where a text can be cut into two that are scanned one after the other, the located lexemes of the
second stand behind those of the first, shifted by the length of the first (`located_append`).
-/

namespace TypedSql.Sql

/-- What the scanner reports of a text of SQL. -/
inductive Lexeme where
  | code (c : Char)
  | placeholder (isArray : Bool)
  | lineComment
  | blockComment
  | unterminated
deriving DecidableEq

/-- The lexeme of a token; closed quotes have none. -/
def Token.lexeme? : Token → Option Lexeme
  | code c => some (.code c)
  | placeholder array => some (.placeholder array)
  | lineComment _ => some .lineComment
  | blockComment _ => some .blockComment
  | unterminated _ => some .unterminated
  | quoted _ => none

/-- The lexemes of a text, in order. -/
def lexemes (cs : List Char) : List Lexeme :=
  (tokens cs).filterMap Token.lexeme?

/-! ### Offsets -/

theorem byteSize_append (a b : List Char) :
  byteSize (a ++ b) = byteSize a + byteSize b
  := by
  induction a with
  | nil => simp [byteSize]
  | cons c a ih => simp only [List.cons_append, byteSize, ih, Nat.add_assoc]

theorem utf8ByteSize_ofList (a : List Char) :
  (String.ofList a).utf8ByteSize = byteSize a
  := by
  induction a with
  | nil => rfl
  | cons c a ih =>
      rw [String.ofList_cons, String.utf8ByteSize_append, String.utf8ByteSize_singleton, ih]
      rfl

/-- The bytes of a text are those of its characters. -/
theorem byteSize_toList (s : String) :
  byteSize s.toList = s.utf8ByteSize
  := by
  rw [← utf8ByteSize_ofList, String.ofList_toList]

/-- A lexeme, and where it begins, in bytes from the start of the text. -/
structure Located where
  offset : Nat
  lexeme : Lexeme
deriving DecidableEq

/-- The lexeme behind a text of `n` bytes more. -/
def Located.shift (n : Nat) (l : Located) : Located :=
  ⟨n + l.offset, l.lexeme⟩

/-- The lexemes of tokens, the first of which stands at the offset `n`. -/
def locatedFrom (n : Nat) : List Token → List Located
  | [] => []
  | t :: ts =>
    let rest := locatedFrom (n + byteSize t.text) ts
    match t.lexeme? with
    | some l => ⟨n, l⟩ :: rest
    | none => rest

/-- The lexemes of a text with their offsets, in order. -/
def located (cs : List Char) : List Located :=
  locatedFrom 0 (tokens cs)

theorem locatedFrom_append (n : Nat) (ts us : List Token) :
  locatedFrom n (ts ++ us)
    = locatedFrom n ts ++ locatedFrom (n + byteSize (ts.flatMap Token.text)) us
  := by
  induction ts generalizing n with
  | nil => rfl
  | cons t ts ih =>
      have h := ih (n + byteSize t.text)
      rw [Nat.add_assoc, ← byteSize_append, ← List.flatMap_cons] at h
      rw [List.cons_append, locatedFrom, locatedFrom, h]
      cases t.lexeme? <;> rfl

theorem locatedFrom_add (m n : Nat) (ts : List Token) :
  locatedFrom (m + n) ts = (locatedFrom n ts).map (Located.shift m)
  := by
  induction ts generalizing n with
  | nil => rfl
  | cons t ts ih =>
      rw [locatedFrom, locatedFrom, Nat.add_assoc, ih]
      cases t.lexeme? <;> rfl

/-- The lexemes of two texts that are scanned one after the other. -/
theorem located_append {a b : List Char} (h : tokens (a ++ b) = tokens a ++ tokens b) :
  located (a ++ b) = located a ++ (located b).map (Located.shift (byteSize a))
  := by
  rw [located, h, locatedFrom_append, text_tokens, Nat.add_comm, locatedFrom_add]
  rfl

end TypedSql.Sql
