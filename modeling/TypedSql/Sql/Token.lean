/-!
# Tokens

A text of SQL is cut into tokens: single characters of code, placeholders, quoted texts and
comments.  Only the boundaries of quotes and comments are looked for, so that everything
inside them is opaque.  The scanner is a finite control that reads one character at a time;
between two characters it is in a `Mode`, which holds what has been read of an unfinished
token.

The main statement, `text_tokens`, says that the tokens are the text cut into pieces:
nothing is lost and nothing is added.
-/

namespace TypedSql.Sql

/-- A piece of a text of SQL. -/
inductive Token where
  /-- A character outside quotes and comments. -/
  | code (c : Char)
  /-- The placeholder of one value, or of an array of values. -/
  | placeholder (isArray : Bool)
  /-- A quoted text or bracketed identifier, with its marks. -/
  | quoted (text : List Char)
  /-- A quoted text or bracketed identifier that the input does not close. -/
  | unterminated (text : List Char)
  /-- A comment from two dashes to the end of the line. -/
  | lineComment (text : List Char)
  /-- A comment between a slash with a star and a star with a slash. -/
  | blockComment (text : List Char)
deriving DecidableEq

/-- The placeholder of one value. -/
def scalarMark : List Char := ['?']

/-- The placeholder of an array of values. -/
def arrayMark : List Char := ['?', '[', ']']

/-- The text of a token. -/
def Token.text : Token → List Char
  | code c => [c]
  | placeholder array => if array then arrayMark else scalarMark
  | quoted text | unterminated text | lineComment text | blockComment text => text

/-- Whether a token is a placeholder. -/
def Token.isPlaceholder : Token → Bool
  | placeholder _ => true
  | _ => false

/-! ### The scanner -/

/-- The state of the scanner between two characters.  Texts of unfinished tokens are kept
with their last character first. -/
inductive Mode where
  /-- Outside of every token. -/
  | code
  /-- After a dash, which may open a comment. -/
  | dash
  /-- After a slash, which may open a comment. -/
  | slash
  /-- After a question mark, which may be followed by brackets. -/
  | question
  /-- After a question mark and an opening bracket. -/
  | questionBracket
  /-- Inside a quoted text that `close` will close. -/
  | quote (close : Char) (read : List Char)
  /-- After a closing mark that the same mark may yet turn into an escaped one. -/
  | closing (close : Char) (read : List Char)
  /-- Inside a comment that ends with the line. -/
  | line (read : List Char)
  /-- Inside a comment between marks, and whether the last character was a star. -/
  | block (star : Bool) (read : List Char)
deriving DecidableEq

namespace Mode

/-- Reads a character outside of every token. -/
def start (c : Char) : Mode × List Token :=
  if c = '\x27' ∨ c = '\x22' ∨ c = '\x60' then (quote c [c], [])
  else if c = '[' then (quote ']' [c], [])
  else if c = '-' then (dash, [])
  else if c = '/' then (slash, [])
  else if c = '?' then (question, [])
  else (code, [.code c])

/-- Reads a character outside of every token, after finishing the token `t`. -/
def restart (t : Token) (c : Char) : Mode × List Token :=
  ((start c).1, t :: (start c).2)

/-- Reads a character. -/
def step : Mode → Char → Mode × List Token
  | code, c => start c
  | dash, c => if c = '-' then (line ['-', '-'], []) else restart (.code '-') c
  | slash, c => if c = '*' then (block false ['*', '/'], []) else restart (.code '/') c
  | question, c =>
    if c = '[' then (questionBracket, []) else restart (.placeholder false) c
  | questionBracket, c =>
    if c = ']' then (code, [.placeholder true])
    else (quote ']' [c, '['], [.placeholder false])
  | quote close read, c =>
    if c ≠ close then (quote close (c :: read), [])
    else if close = ']' then (code, [.quoted (c :: read).reverse])
    else (closing close (c :: read), [])
  | closing close read, c =>
    if c = close then (quote close (c :: read), []) else restart (.quoted read.reverse) c
  | line read, c =>
    if c = '\n' then (code, [.lineComment (c :: read).reverse]) else (line (c :: read), [])
  | block star read, c =>
    if star ∧ c = '/' then (code, [.blockComment (c :: read).reverse])
    else (block (c == '*') (c :: read), [])

/-- The tokens that the end of the input finishes. -/
def finish : Mode → List Token
  | code => []
  | dash => [.code '-']
  | slash => [.code '/']
  | question => [.placeholder false]
  | questionBracket => [.placeholder false, .unterminated ['[']]
  | quote _ read => [.unterminated read.reverse]
  | closing _ read => [.quoted read.reverse]
  | line read => [.lineComment read.reverse]
  | block _ read => [.blockComment read.reverse]

/-- Reads a text to its end. -/
def scan (m : Mode) : List Char → List Token
  | [] => m.finish
  | c :: cs => (m.step c).2 ++ (m.step c).1.scan cs

/-- What has been read of the unfinished token. -/
def pending : Mode → List Char
  | code => []
  | dash => ['-']
  | slash => ['/']
  | question => ['?']
  | questionBracket => ['?', '[']
  | quote _ read | closing _ read | line read | block _ read => read.reverse

theorem text_finish (m : Mode) :
  m.finish.flatMap Token.text = m.pending
  := by
  cases m <;> simp [finish, pending, Token.text, scalarMark]

theorem text_start (c : Char) :
  (start c).2.flatMap Token.text ++ (start c).1.pending = [c]
  := by
  unfold start
  split
  · simp [pending]
  repeat' split
  all_goals simp_all [pending, Token.text]

theorem text_step (m : Mode) (c : Char) :
  (m.step c).2.flatMap Token.text ++ (m.step c).1.pending = m.pending ++ [c]
  := by
  have h := text_start c
  cases m <;> simp only [step, restart] <;> repeat' split
  all_goals
    simp_all [pending, Token.text, scalarMark, arrayMark]

theorem text_scan (m : Mode) (cs : List Char) :
  (m.scan cs).flatMap Token.text = m.pending ++ cs
  := by
  induction cs generalizing m with
  | nil => simp [scan, text_finish]
  | cons c cs ih =>
    rw [scan, List.flatMap_append, ih, ← List.append_assoc, text_step]
    simp

end Mode

/-- The tokens of a text. -/
def tokens (cs : List Char) : List Token :=
  Mode.code.scan cs

theorem text_tokens (cs : List Char) :
  (tokens cs).flatMap Token.text = cs
  := Mode.text_scan .code cs

/-! ### Placeholders -/

/-- A placeholder: where it stands, in bytes from the start of the text, and whether it
takes an array. -/
structure Placeholder where
  offset : Nat
  isArray : Bool
deriving DecidableEq

/-- The number of bytes of a text. -/
def byteSize : List Char → Nat
  | [] => 0
  | c :: cs => c.utf8Size + byteSize cs

/-- The placeholders among tokens, the first of which stands at the offset `n`. -/
def placeholdersFrom (n : Nat) : List Token → List Placeholder
  | [] => []
  | t :: ts =>
    let rest := placeholdersFrom (n + byteSize t.text) ts
    match t with
    | .placeholder array => ⟨n, array⟩ :: rest
    | _ => rest

/-- The placeholders of a text outside quotes and comments. -/
def placeholders (s : String) : List Placeholder :=
  placeholdersFrom 0 (tokens s.toList)

/-- The number of placeholders outside quotes and comments. -/
def placeholderCount (s : String) : Nat :=
  (tokens s.toList).countP Token.isPlaceholder

end TypedSql.Sql
