import Mathlib.Data.List.Induction
import TypedSql.Proofs.Token.Lexemes
import TypedSql.Proofs.Token.Single

/-!
# Boundaries

Where the scanner can be started anew.  A text ends outside of quotes, brackets and comments when
its last token is closed; and it is joined to a following text when its last token makes another
one together with what the following text begins with.  Both are matters of the last token alone,
without the scanner.

Between a text that ends outside and a text that it is not joined to, the scanner can be started
anew, and nowhere else (`tokens_append_iff`).  The lexemes of the two are then those of the one
and, behind its bytes, those of the other (`located_concat`).
-/

namespace TypedSql.Sql

/-! ### Ends and joints -/

/-- A token that the end of the text has not cut off: a quote or a bracket is closed, a comment of
a line has met the end of the line, and a comment between marks the second mark. -/
inductive Token.Closed : Token → Prop where
  | code (c : Char) : Closed (.code c)
  | placeholder (array : Bool) : Closed (.placeholder array)
  | quoted (text : List Char) : Closed (.quoted text)
  | lineComment (body : List Char) : Closed (.lineComment (['-', '-'] ++ body ++ ['\n']))
  | blockComment (body : List Char) :
    Closed (.blockComment (['/', '*'] ++ body ++ ['*', '/']))

/-- A token that becomes another one before the text `b`: two dashes, or a slash and a star, open a
comment, brackets make an array of a placeholder, and a mark behind a closing mark escapes it. -/
inductive Token.Joins (b : List Char) : Token → Prop where
  | dash (hb : b.head? = some '-') : Joins b (.code '-')
  | slash (hb : b.head? = some '*') : Joins b (.code '/')
  | questionMark (hb : ['[', ']'] <+: b) : Joins b (.placeholder false)
  | mark {text : List Char} {c : Char} (hc : isMark c = true) (hb : b.head? = some c) :
    Joins b (.quoted (text ++ [c]))

namespace Token

variable {b : List Char}

theorem joins_dash :
  Joins b (.code '-') ↔ b.head? = some '-'
  := by
  constructor
  · intro h
    cases h with
    | dash hb => exact hb
  · exact .dash

theorem joins_slash :
  Joins b (.code '/') ↔ b.head? = some '*'
  := by
  constructor
  · intro h
    cases h with
    | slash hb => exact hb
  · exact .slash

theorem joins_placeholder :
  Joins b (.placeholder false) ↔ ['[', ']'] <+: b
  := by
  constructor
  · intro h
    cases h with
    | questionMark hb => exact hb
  · exact .questionMark

theorem joins_quoted {text : List Char} {c : Char} (hc : isMark c = true) :
  Joins b (.quoted (text ++ [c])) ↔ b.head? = some c
  := by
  constructor
  · intro h
    generalize htext : text ++ [c] = all at h
    cases h with
    | mark _ hb =>
        obtain ⟨-, hmark⟩ := List.append_inj' htext rfl
        cases hmark
        exact hb
  · exact .mark hc

end Token

/-- Whether a text ends outside of quotes, brackets and comments.  Behind `?[` it does not, since
the bracket is open. -/
def ClosedEnd (a : List Char) : Prop :=
  ∀ t ∈ (tokens a).getLast?, t.Closed

/-- Whether the end of a text and the beginning of another one make a token together. -/
def Joint (a b : List Char) : Prop :=
  ∃ t ∈ (tokens a).getLast?, t.Joins b

/-! ### What the scanner holds -/

namespace Mode

/-- What has been read of an unfinished token, with the last character first: a closing mark is
the last, the line of a comment has not ended, and neither has a comment between marks. -/
def Holds : Mode → Prop
  | closing close read => ∃ body, read = close :: body
  | line read => ∃ body, read = body ++ ['-', '-'] ∧ '\n' ∉ body
  | block star read =>
    ∃ body, read = body ++ ['*', '/'] ∧ star = (body.head? == some '*')
      ∧ ¬ ['/', '*'] <+: body
  | _ => True

theorem holds_start (c : Char) :
  (start c).1.Holds
  := by
  unfold start
  repeat' split
  all_goals trivial

variable {m : Mode}

theorem Holds.step (h : m.Holds) (c : Char) :
  (m.step c).1.Holds
  := by
  have hstart := holds_start c
  cases m with
  | code => exact hstart
  | dash =>
      simp only [Mode.step]
      split
      · exact ⟨[], rfl, List.not_mem_nil⟩
      · exact hstart
  | slash =>
      simp only [Mode.step]
      split
      · exact ⟨[], rfl, rfl, by simp⟩
      · exact hstart
  | question =>
      simp only [Mode.step]
      split
      · trivial
      · exact hstart
  | questionBracket =>
      simp only [Mode.step]
      split <;> trivial
  | quote close read =>
      simp only [Mode.step]
      repeat' split
      · trivial
      · trivial
      · rename_i hc _
        exact ⟨read, by rw [not_ne_iff.mp hc]⟩
  | closing close read =>
      simp only [Mode.step]
      split
      · trivial
      · exact hstart
  | line read =>
      obtain ⟨body, rfl, hbody⟩ := h
      simp only [Mode.step]
      split
      · trivial
      · rename_i hc
        exact ⟨c :: body, rfl, List.not_mem_cons_of_ne_of_not_mem (Ne.symm hc) hbody⟩
  | block star read =>
      obtain ⟨body, rfl, rfl, hbody⟩ := h
      simp only [Mode.step]
      split
      · trivial
      · rename_i hc
        refine ⟨c :: body, rfl, by simp, ?_⟩
        rintro ⟨rest, hrest⟩
        obtain ⟨rfl, rfl⟩ := List.cons.inj hrest
        exact hc ⟨rfl, rfl⟩

theorem Holds.after (h : m.Holds) (a : List Char) :
  (m.after a).Holds
  := by
  induction a generalizing m with
  | nil => exact h
  | cons c a ih => exact ih (h.step c)

theorem holds_after (a : List Char) :
  (code.after a).Holds
  := by
  apply Holds.after
  trivial

end Mode

/-! ### The last token -/

/-- A token that ends with its last character, whatever follows. -/
def Token.Final (t : Token) : Prop :=
  t.Closed ∧ ∀ b, ¬ t.Joins b

theorem Mode.not_closed_line {read : List Char} (h : (Mode.line read).Holds) :
  ¬ Token.Closed (.lineComment read.reverse)
  := by
  obtain ⟨body, rfl, hbody⟩ := h
  generalize htext : (body ++ ['-', '-']).reverse = text
  rintro ⟨⟩
  rename_i mid
  have hline : '\n' ∈ (body ++ ['-', '-']).reverse := by
    rw [htext]
    simp
  simp [hbody] at hline

theorem Mode.not_closed_block {star : Bool} {read : List Char}
    (h : (Mode.block star read).Holds) :
  ¬ Token.Closed (.blockComment read.reverse)
  := by
  obtain ⟨body, rfl, -, hbody⟩ := h
  generalize htext : (body ++ ['*', '/']).reverse = text
  rintro ⟨⟩
  rename_i mid
  apply hbody
  have hread : body ++ ['*', '/'] = ['/', '*'] ++ mid.reverse ++ ['*', '/'] := by
    simpa using congrArg List.reverse htext
  exact ⟨mid.reverse, (List.append_cancel_right hread).symm⟩

theorem Token.final_code {c : Char} (hdash : c ≠ '-') (hslash : c ≠ '/') :
  Final (.code c)
  := by
  refine ⟨.code c, fun b h => ?_⟩
  cases h with
  | dash hb => exact hdash rfl
  | slash hb => exact hslash rfl

theorem Token.final_array :
  Final (.placeholder true)
  := by
  refine ⟨.placeholder true, fun b h => ?_⟩
  cases h

theorem Token.final_bracketed (text : List Char) :
  Final (.quoted (text ++ [']']))
  := by
  refine ⟨.quoted _, fun b h => ?_⟩
  generalize htext : text ++ [']'] = all at h
  cases h with
  | mark hc hb =>
      obtain ⟨-, hbracket⟩ := List.append_inj' htext rfl
      cases hbracket
      cases hc

theorem Token.final_lineComment (body : List Char) :
  Final (.lineComment (['-', '-'] ++ body ++ ['\n']))
  := by
  refine ⟨.lineComment body, fun b h => ?_⟩
  cases h

theorem Token.final_blockComment (body : List Char) :
  Final (.blockComment (['/', '*'] ++ body ++ ['*', '/']))
  := by
  refine ⟨.blockComment body, fun b h => ?_⟩
  cases h

namespace Mode

variable {m : Mode}

theorem final_of_start {c : Char} (h : (start c).1 = code) :
  ∃ t, (start c).2 = [t] ∧ t.Final
  := by
  unfold start at h ⊢
  repeat' split at h
  all_goals try cases h
  rename_i hmark hbracket hdash hslash hquestion
  simp only [hmark, hbracket, hdash, hslash, hquestion, if_false]
  exact ⟨_, rfl, Token.final_code hdash hslash⟩

/-- A character after which no token is unfinished ends a token for good. -/
theorem Holds.final_of_step (h : m.Holds) {c : Char} (hc : (m.step c).1 = code) :
  ∃ ts t, (m.step c).2 = ts ++ [t] ∧ t.Final
  := by
  have hrestart (u : Token) (hu : (restart u c).1 = code) :
      ∃ ts t, (restart u c).2 = ts ++ [t] ∧ t.Final := by
    obtain ⟨t, ht, hfinal⟩ := final_of_start hu
    exact ⟨[u], t, by rw [restart, ht]; rfl, hfinal⟩
  cases m with
  | code =>
      obtain ⟨t, ht, hfinal⟩ := final_of_start hc
      exact ⟨[], t, ht, hfinal⟩
  | questionBracket =>
      simp only [Mode.step] at hc ⊢
      split at hc
      · rename_i hbracket
        rw [if_pos hbracket]
        exact ⟨[], _, rfl, Token.final_array⟩
      · cases hc
  | quote close read =>
      simp only [Mode.step] at hc ⊢
      repeat' split at hc
      · cases hc
      · rename_i hclose hbracket
        rw [if_neg hclose, if_pos hbracket, List.reverse_cons, not_ne_iff.mp hclose, hbracket]
        exact ⟨[], _, rfl, Token.final_bracketed _⟩
      · cases hc
  | line read =>
      obtain ⟨body, rfl, -⟩ := h
      simp only [Mode.step] at hc ⊢
      split at hc
      · rename_i hend
        rw [if_pos hend, hend]
        refine ⟨[], _, rfl, ?_⟩
        simpa using Token.final_lineComment body.reverse
      · cases hc
  | block star read =>
      obtain ⟨body, rfl, hstar, -⟩ := h
      simp only [Mode.step] at hc ⊢
      split at hc
      · rename_i hend
        rw [if_pos hend]
        obtain ⟨rfl, rfl⟩ := hend
        obtain ⟨body, rfl⟩ : ∃ r, body = '*' :: r := by
          rw [eq_comm, beq_iff_eq, List.head?_eq_some_iff] at hstar
          exact hstar
        refine ⟨[], _, rfl, ?_⟩
        simpa using Token.final_blockComment body.reverse
      · cases hc
  | _ =>
      simp only [Mode.step] at hc ⊢
      split at hc
      · cases hc
      · rename_i hne
        rw [if_neg hne]
        exact hrestart _ hc

end Mode

/-! ### Ends and joints of the scanner -/

section

variable {a b : List Char}

/-- Where no token is unfinished, the last one is final. -/
theorem final_of_after_eq_code (h : Mode.code.after a = .code) :
  ∀ t ∈ (tokens a).getLast?, t.Final
  := by
  induction a using List.reverseRecOn with
  | nil =>
      intro t ht
      cases ht
  | append_singleton a c _ =>
      have hstep : ((Mode.code.after a).step c).1 = .code := by
        rw [Mode.after_append] at h
        exact h
      obtain ⟨ts, t, hts, hfinal⟩ := (Mode.holds_after a).final_of_step hstep
      have htokens : tokens (a ++ [c]) = Mode.code.emitted a ++ ts ++ [t] := by
        rw [tokens, Mode.scan_append, Mode.scan, hstep, hts, List.append_assoc ts,
          List.append_assoc]
        rfl
      intro u hu
      rw [htokens, List.getLast?_concat, Option.mem_some_iff] at hu
      rwa [← hu]

/-- The last token of a text is the last of those that its end finishes. -/
theorem getLast?_tokens {t : Token} (h : (Mode.code.after a).finish.getLast? = some t) :
  (tokens a).getLast? = some t
  := by
  rw [tokens, Mode.scan_eq, List.getLast?_append, h, Option.some_or]

theorem closedEnd_iff_of_finish {t : Token}
    (h : (Mode.code.after a).finish.getLast? = some t) :
  ClosedEnd a ↔ t.Closed
  := by
  simp [ClosedEnd, getLast?_tokens h]

theorem joint_iff_of_finish {t : Token}
    (h : (Mode.code.after a).finish.getLast? = some t) :
  Joint a b ↔ t.Joins b
  := by
  simp [Joint, getLast?_tokens h]

/-- A text ends outside of quotes, brackets and comments exactly when the scanner does. -/
theorem closedEnd_iff :
  ClosedEnd a ↔ endsOutside a = true
  := by
  have hholds := Mode.holds_after a
  unfold endsOutside
  cases hm : Mode.code.after a with
  | code =>
      simp only [Mode.isOutside, iff_true]
      exact fun t ht => (final_of_after_eq_code hm t ht).1
  | dash =>
      rw [closedEnd_iff_of_finish (t := .code '-') (by rw [hm]; rfl)]
      simpa [Mode.isOutside] using Token.Closed.code '-'
  | slash =>
      rw [closedEnd_iff_of_finish (t := .code '/') (by rw [hm]; rfl)]
      simpa [Mode.isOutside] using Token.Closed.code '/'
  | question =>
      rw [closedEnd_iff_of_finish (t := .placeholder false) (by rw [hm]; rfl)]
      simpa [Mode.isOutside] using Token.Closed.placeholder false
  | closing close read =>
      rw [closedEnd_iff_of_finish (t := .quoted read.reverse) (by rw [hm]; rfl)]
      simpa [Mode.isOutside] using Token.Closed.quoted read.reverse
  | questionBracket =>
      rw [closedEnd_iff_of_finish (t := .unterminated ['[']) (by rw [hm]; rfl)]
      simp only [Mode.isOutside, Bool.false_eq_true, iff_false]
      rintro ⟨⟩
  | quote close read =>
      rw [closedEnd_iff_of_finish (t := .unterminated read.reverse) (by rw [hm]; rfl)]
      simp only [Mode.isOutside, Bool.false_eq_true, iff_false]
      rintro ⟨⟩
  | line read =>
      rw [closedEnd_iff_of_finish (t := .lineComment read.reverse) (by rw [hm]; rfl)]
      simp only [Mode.isOutside, Bool.false_eq_true, iff_false]
      rw [hm] at hholds
      exact Mode.not_closed_line hholds
  | block star read =>
      rw [closedEnd_iff_of_finish (t := .blockComment read.reverse) (by rw [hm]; rfl)]
      simp only [Mode.isOutside, Bool.false_eq_true, iff_false]
      rw [hm] at hholds
      exact Mode.not_closed_block hholds

/-- Behind a text that ends outside, what the scanner holds ends before another text exactly when
the two make no token together. -/
theorem endsBefore_iff (ha : ClosedEnd a) :
  (Mode.code.after a).endsBefore b = true ↔ ¬ Joint a b
  := by
  have hholds := Mode.holds_after a
  have hproper : (Mode.code.after a).isProper = true := Mode.isProper_after rfl a
  have houtside : (Mode.code.after a).isOutside = true := closedEnd_iff.mp ha
  cases hm : Mode.code.after a with
  | code =>
      simp only [Mode.endsBefore, true_iff]
      rintro ⟨t, ht, hjoins⟩
      exact (final_of_after_eq_code hm t ht).2 b hjoins
  | dash =>
      rw [joint_iff_of_finish (t := .code '-') (by rw [hm]; rfl)]
      rw [Token.joins_dash]
      simp [Mode.endsBefore]
  | slash =>
      rw [joint_iff_of_finish (t := .code '/') (by rw [hm]; rfl)]
      rw [Token.joins_slash]
      simp [Mode.endsBefore]
  | question =>
      rw [joint_iff_of_finish (t := .placeholder false) (by rw [hm]; rfl)]
      rw [Token.joins_placeholder, List.prefix_iff_eq_take]
      rw [Mode.endsBefore, bne_iff_ne]
      exact not_congr eq_comm
  | closing close read =>
      rw [joint_iff_of_finish (t := .quoted read.reverse) (by rw [hm]; rfl)]
      rw [hm] at hholds hproper
      obtain ⟨body, rfl⟩ := hholds
      rw [List.reverse_cons, Token.joins_quoted hproper]
      simp [Mode.endsBefore]
  | _ =>
      rw [hm] at houtside
      cases houtside

end

/-! ### Where the scanner can be started anew -/

namespace Mode

/-- Whether the scanner is inside of quotes or comments, or behind a mark that may be escaped. -/
def isOpaque : Mode → Bool
  | quote _ _ | closing _ _ | line _ | block _ _ => true
  | code | dash | slash | question | questionBracket => false

variable {m : Mode}

/-- Inside of quotes and comments what follows belongs to the unfinished token, or ends it. -/
theorem isOpaque_step (h : m.isOpaque = true) (c : Char) :
  ((m.step c).2 = [] ∧ (m.step c).1.isOpaque = true)
    ∨ ∃ t ts, (m.step c).2 = t :: ts ∧ m.pending <+: t.text
  := by
  cases m with
  | quote close read =>
      simp only [step]
      repeat' split
      · exact .inl ⟨rfl, rfl⟩
      · exact .inr ⟨_, _, rfl, by simp [pending, Token.text]⟩
      · exact .inl ⟨rfl, rfl⟩
  | closing close read =>
      simp only [step]
      split
      · exact .inl ⟨rfl, rfl⟩
      · exact .inr ⟨_, _, rfl, by simp [pending, Token.text]⟩
  | line read =>
      simp only [step]
      split
      · exact .inr ⟨_, _, rfl, by simp [pending, Token.text]⟩
      · exact .inl ⟨rfl, rfl⟩
  | block star read =>
      simp only [step]
      split
      · exact .inr ⟨_, _, rfl, by simp [pending, Token.text]⟩
      · exact .inl ⟨rfl, rfl⟩
  | _ => cases h

/-- The next token has all that has been read of it. -/
theorem exists_scan_of_isOpaque (h : m.isOpaque = true) (cs : List Char) :
  ∃ t ts, m.scan cs = t :: ts ∧ m.pending <+: t.text
  := by
  induction cs generalizing m with
  | nil =>
      cases m with
      | code | dash | slash | question | questionBracket => cases h
      | _ => exact ⟨_, _, rfl, by simp [pending, Token.text]⟩
  | cons c cs ih =>
      rcases isOpaque_step h c with ⟨hnil, hopaque⟩ | ⟨t, ts, hstep, hpending⟩
      · obtain ⟨t, ts, hscan, hpending⟩ := ih hopaque
        have htext := text_step m c
        rw [hnil, List.flatMap_nil, List.nil_append] at htext
        refine ⟨t, ts, ?_, ?_⟩
        · rw [scan, hnil, hscan]
          rfl
        · rw [htext] at hpending
          exact (List.prefix_append _ _).trans hpending
      · refine ⟨t, ts ++ (m.step c).1.scan cs, ?_, hpending⟩
        rw [scan, hstep]
        rfl

/-- Inside of quotes and comments the next token is longer than one that ends before. -/
theorem scan_ne_cons_of_isOpaque (h : m.isOpaque = true) {t : Token}
    (ht : t.text.length < m.pending.length) (cs : List Char) (ts : List Token) :
  m.scan cs ≠ t :: ts
  := by
  intro hscan
  obtain ⟨u, us, hu, hpending⟩ := exists_scan_of_isOpaque h cs
  rw [hu] at hscan
  obtain ⟨rfl, -⟩ := List.cons.inj hscan
  exact absurd hpending.length_le (Nat.not_le.mpr ht)

/-- A text that continues the unfinished token is not scanned as if it stood alone. -/
theorem scan_ne_of_not_endsBefore (houtside : m.isOutside = true) {b : List Char}
    (h : ¬ m.endsBefore b = true) :
  m.scan b ≠ m.finish ++ tokens b
  := by
  cases m with
  | code => exact absurd rfl h
  | dash =>
      obtain ⟨b, rfl⟩ : ∃ r, b = '-' :: r := by
        rwa [endsBefore, bne_iff_ne, not_ne_iff, List.head?_eq_some_iff] at h
      exact scan_ne_cons_of_isOpaque (m := line ['-', '-']) rfl (by decide) b _
  | slash =>
      obtain ⟨b, rfl⟩ : ∃ r, b = '*' :: r := by
        rwa [endsBefore, bne_iff_ne, not_ne_iff, List.head?_eq_some_iff] at h
      exact scan_ne_cons_of_isOpaque (m := block false ['*', '/']) rfl (by decide) b _
  | question =>
      obtain ⟨b, rfl⟩ : ∃ r, b = '[' :: ']' :: r := by
        rw [endsBefore, bne_iff_ne, not_ne_iff] at h
        exact ⟨b.drop 2, by rw [← List.take_append_drop 2 b, h]; rfl⟩
      intro hscan
      cases (List.cons.inj hscan).1
  | closing close read =>
      obtain ⟨b, rfl⟩ : ∃ r, b = close :: r := by
        rwa [endsBefore, bne_iff_ne, not_ne_iff, List.head?_eq_some_iff] at h
      rw [scan, step, if_pos rfl]
      apply scan_ne_cons_of_isOpaque rfl
      simp [pending, Token.text]
  | _ => cases houtside

end Mode

section

variable {a b : List Char}

/-- Behind a text that ends outside the scanner can be started anew exactly when no token is made
of both texts. -/
theorem tokens_append_iff (ha : ClosedEnd a) :
  tokens (a ++ b) = tokens a ++ tokens b ↔ ¬ Joint a b
  := by
  rw [← endsBefore_iff ha]
  constructor
  · intro h
    by_contra hbefore
    apply Mode.scan_ne_of_not_endsBefore (closedEnd_iff.mp ha) hbefore
    have htokens : tokens a = Mode.code.emitted a ++ (Mode.code.after a).finish :=
      Mode.scan_eq .code a
    rw [htokens, tokens, Mode.scan_append, List.append_assoc] at h
    exact List.append_cancel_left h
  · apply tokens_append

end

/-- The lexemes of two texts of which the first ends outside of quotes, brackets and comments: where
no token is made of both, they are the lexemes of the first and, behind its bytes, those of the
second.  Where one is, the tokens are others than those of the two texts. -/
theorem located_concat {a b : String} (ha : ClosedEnd a.toList) :
  (¬ Joint a.toList b.toList
      → located (a ++ b).toList
        = located a.toList ++ (located b.toList).map (Located.shift a.utf8ByteSize))
    ∧ (tokens (a ++ b).toList = tokens a.toList ++ tokens b.toList
      ↔ ¬ Joint a.toList b.toList)
  := by
  rw [String.toList_append, ← byteSize_toList]
  refine ⟨fun hjoint => ?_, tokens_append_iff ha⟩
  apply located_append
  exact (tokens_append_iff ha).mpr hjoint

/-- A star behind a comment that has ended is a character of code, and the question mark inside of
the comment is no placeholder. -/
theorem located_concat_blockComment :
  ClosedEnd "é /* ? */".toList
    ∧ ¬ Joint "é /* ? */".toList "*?".toList
    ∧ located ("é /* ? */" ++ "*?").toList
      = [⟨0, .code 'é'⟩, ⟨2, .code ' '⟩, ⟨3, .blockComment⟩, ⟨10, .code '*'⟩,
          ⟨11, .placeholder false⟩]
  := by
  have hends : ClosedEnd "é /* ? */".toList := by
    rw [closedEnd_iff]
    decide
  have hjoint : ¬ Joint "é /* ? */".toList "*?".toList := by
    rw [← endsBefore_iff hends]
    decide
  refine ⟨hends, hjoint, ?_⟩
  rw [(located_concat hends).1 hjoint]
  decide

end TypedSql.Sql
