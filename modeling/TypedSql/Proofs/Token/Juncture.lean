import Mathlib.Tactic.Common
import TypedSql.Sql.Token

/-!
# Junctures

Where a text can be cut into two that are scanned one after the other.

`Mode.after m cs` is the mode of the scanner after the text `cs`, and `Mode.emitted m cs` the
tokens that are finished by then.  When the mode after a text is outside of quotes and
comments, and the following text does not continue the unfinished token, then the tokens of
the two texts together are the tokens of the one followed by the tokens of the other
(`tokens_append`).
-/

namespace TypedSql.Sql

namespace Mode

/-- The mode after a text. -/
def after (m : Mode) : List Char → Mode
  | [] => m
  | c :: cs => (m.step c).1.after cs

/-- The tokens that are finished after a text. -/
def emitted (m : Mode) : List Char → List Token
  | [] => []
  | c :: cs => (m.step c).2 ++ (m.step c).1.emitted cs

/-- Scanning two texts is finishing what the first one finishes, and then scanning the
second one from the mode after the first. -/
theorem scan_append (m : Mode) (a b : List Char) :
  m.scan (a ++ b) = m.emitted a ++ (m.after a).scan b
  := by
  induction a generalizing m with
  | nil => rfl
  | cons c a ih => simp only [List.cons_append, scan, emitted, after, ih, List.append_assoc]

theorem scan_eq (m : Mode) (a : List Char) :
  m.scan a = m.emitted a ++ (m.after a).finish
  := by
  have h := scan_append m a []
  rw [List.append_nil] at h
  exact h

/-- Whether the scanner is outside of quotes, brackets and comments. -/
def isOutside : Mode → Bool
  | code | dash | slash | question | closing _ _ => true
  | questionBracket | quote _ _ | line _ | block _ _ => false

/-- Whether the unfinished token of a mode outside of quotes and comments ends where a text
begins. -/
def endsBefore : Mode → List Char → Bool
  | code, _ => true
  | dash, b => b.head? != some '-'
  | slash, b => b.head? != some '*'
  | question, b => b.take 2 != ['[', ']']
  | closing close _, b => b.head? != some close
  | questionBracket, _ | quote _ _, _ | line _, _ | block _ _, _ => false

/-- A text that does not continue the unfinished token is scanned as if it stood alone. -/
theorem scan_of_endsBefore {m : Mode} {b : List Char} (h : m.endsBefore b = true) :
  m.scan b = m.finish ++ tokens b
  := by
  cases m with
  | code => rfl
  | dash =>
      cases b with
      | nil => rfl
      | cons c b =>
          have hc : c ≠ '-' := by simpa [endsBefore] using h
          simp [scan, step, hc, restart, finish, tokens]
  | slash =>
      cases b with
      | nil => rfl
      | cons c b =>
          have hc : c ≠ '*' := by simpa [endsBefore] using h
          simp [scan, step, hc, restart, finish, tokens]
  | question =>
      cases b with
      | nil => rfl
      | cons c b =>
          by_cases hc : c = '['
          · subst hc
            cases b with
            | nil => rfl
            | cons d b =>
                have hd : d ≠ ']' := by simpa [endsBefore] using h
                simp [scan, step, hd, start, finish, tokens]
          · simp [scan, step, hc, restart, finish, tokens]
  | closing close read =>
      cases b with
      | nil => rfl
      | cons c b =>
          have hc : c ≠ close := by simpa [endsBefore] using h
          simp [scan, step, hc, restart, finish, tokens]
  | questionBracket => cases h
  | quote close read => cases h
  | line read => cases h
  | block star read => cases h

end Mode

/-- The tokens of two texts are those of the first followed by those of the second when the
unfinished token after the first ends where the second begins. -/
theorem tokens_append {a b : List Char} (h : (Mode.code.after a).endsBefore b = true) :
  tokens (a ++ b) = tokens a ++ tokens b
  := by
  rw [tokens, Mode.scan_append, Mode.scan_of_endsBefore h, ← List.append_assoc, ← Mode.scan_eq]
  rfl

/-! ### Separating characters -/

/-- The marks that close the quotes they open. -/
def isMark (c : Char) : Bool :=
  c == '\x27' || c == '\x22' || c == '\x60'

/-- Whether a character, at the beginning of a text, continues no unfinished token outside of
quotes and comments. -/
def isSeparating (c : Char) : Bool :=
  !isMark c && c != '[' && c != '-' && c != '*'

/-- Whether a text is empty or begins with a separating character. -/
def isApart (b : List Char) : Bool :=
  b.head?.all isSeparating

namespace Mode

/-- Whether a mode waits only for marks that the scanner itself has opened. -/
def isProper : Mode → Bool
  | quote close _ => isMark close || close == ']'
  | closing close _ => isMark close
  | _ => true

theorem isProper_start (c : Char) :
  (start c).1.isProper = true
  := by
  unfold start
  split
  · rename_i h
    rcases h with rfl | rfl | rfl <;> rfl
  · repeat' split
    all_goals rfl

theorem isProper_step {m : Mode} (h : m.isProper = true) (c : Char) :
  (m.step c).1.isProper = true
  := by
  cases m with
  | quote close read =>
      simp only [isProper, Bool.or_eq_true, beq_iff_eq] at h
      simp only [step]
      repeat' split
      · simpa [isProper] using h
      · rfl
      · rename_i hc
        simpa [isProper, hc] using h
  | closing close read =>
      simp only [step]
      split
      · simpa [isProper] using Or.inl h
      · apply isProper_start
  | _ =>
      simp only [step, restart]
      repeat' split
      all_goals first | rfl | apply isProper_start

theorem isProper_after {m : Mode} (h : m.isProper = true) (a : List Char) :
  (m.after a).isProper = true
  := by
  induction a generalizing m with
  | nil => exact h
  | cons c a ih => apply ih (isProper_step h c)

/-- Outside of quotes and comments a separating character ends every unfinished token. -/
theorem endsBefore_of_isApart {m : Mode} {b : List Char} (hm : m.isProper = true)
    (ho : m.isOutside = true) (hb : isApart b = true) :
  m.endsBefore b = true
  := by
  cases b with
  | nil => cases m <;> first | rfl | cases ho
  | cons c b =>
      have hc : isSeparating c = true := hb
      simp only [isSeparating, Bool.and_eq_true, Bool.not_eq_true', bne_iff_ne] at hc
      obtain ⟨⟨⟨hmark, hbracket⟩, hdash⟩, hstar⟩ := hc
      cases m with
      | code => rfl
      | dash => simpa [endsBefore] using hdash
      | slash => simpa [endsBefore] using hstar
      | question => cases b <;> simp [endsBefore, hbracket]
      | closing close read =>
          have hclose : isMark close = true := hm
          have hne : c ≠ close := by
            rintro rfl
            rw [hmark] at hclose
            cases hclose
          simpa [endsBefore] using hne
      | questionBracket => cases ho
      | quote close read => cases ho
      | line read => cases ho
      | block star read => cases ho

end Mode

/-- Whether the end of a text is outside of quotes, brackets and comments. -/
def endsOutside (a : List Char) : Bool :=
  (Mode.code.after a).isOutside

/-- The tokens of two texts are those of the first followed by those of the second when the
first ends outside of quotes and comments and a separating character follows. -/
theorem tokens_append_of_isApart {a b : List Char} (ha : endsOutside a = true)
    (hb : isApart b = true) :
  tokens (a ++ b) = tokens a ++ tokens b
  := by
  apply tokens_append
  apply Mode.endsBefore_of_isApart _ ha hb
  apply Mode.isProper_after rfl

/-! ### Inert texts -/

/-- Whether every character of a text is scanned as code, and nothing is unfinished at its
end. -/
def isInert (a : List Char) : Bool :=
  Mode.code.after a == .code && Mode.code.emitted a == a.map .code

/-- An inert text can stand before any other. -/
theorem tokens_append_of_isInert {a : List Char} (h : isInert a = true) (b : List Char) :
  tokens (a ++ b) = a.map .code ++ tokens b
  := by
  simp only [isInert, Bool.and_eq_true, beq_iff_eq] at h
  rw [tokens, Mode.scan_append, h.1, h.2]
  rfl

theorem tokens_of_isInert {a : List Char} (h : isInert a = true) :
  tokens a = a.map .code
  := by
  have h' := tokens_append_of_isInert h []
  rw [List.append_nil] at h'
  rw [h', show tokens [] = [] from rfl, List.append_nil]

/-- Whether a character is scanned as code wherever it stands outside of quotes and
comments, and is no separator of statements and no parenthesis. -/
def isPlain (c : Char) : Bool :=
  !isMark c && !(['[', '-', '/', '?', ';', '(', ')'].contains c)

theorem isInert_of_isPlain {a : List Char} (h : ∀ c ∈ a, isPlain c = true) :
  isInert a = true
  := by
  induction a with
  | nil => rfl
  | cons c a ih =>
      obtain ⟨hc, ha⟩ := List.forall_mem_cons.mp h
      have hstep : Mode.code.step c = (.code, [.code c]) := by
        simp [isPlain, isMark] at hc
        simp [Mode.step, Mode.start, hc]
      have ih' := ih ha
      simp only [isInert, Bool.and_eq_true, beq_iff_eq] at ih' ⊢
      simp [Mode.after, Mode.emitted, hstep, ih']

end TypedSql.Sql
