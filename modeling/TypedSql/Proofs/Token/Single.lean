import TypedSql.Proofs.Token.Harmless

/-!
# Single tokens

Each token of a text is what its own text is scanned as (`tokens_text`), and the tokens behind it
are those of what is left of the text (`tokens_flatMap_of_cons`).

The hazard of a text depends on less than its tokens.  Behind a closing mark, which the same mark
could still turn into an escaped one, and behind a question mark, which brackets could still
follow, every text has the hazard that it has alone; only a dash and a slash can become a hazard
by what follows them (`hazardFrom_tokens_append`).
-/

namespace TypedSql.Sql

/-! ### What a mode holds -/

namespace Mode

theorem after_append (m : Mode) (a b : List Char) :
  m.after (a ++ b) = (m.after a).after b
  := by
  induction a generalizing m with
  | nil => rfl
  | cons c a ih => apply ih

theorem emitted_append (m : Mode) (a b : List Char) :
  m.emitted (a ++ b) = m.emitted a ++ (m.after a).emitted b
  := by
  induction a generalizing m with
  | nil => rfl
  | cons c a ih => simp only [List.cons_append, emitted, after, ih, List.append_assoc]

/-- A mode holds all of the unfinished token: it is the mode after that text, which finishes no
token. -/
structure IsFaithful (m : Mode) : Prop where
  after : code.after m.pending = m
  emitted : code.emitted m.pending = []

theorem isFaithful_code :
  IsFaithful code
  := ⟨rfl, rfl⟩

theorem isFaithful_start (c : Char) :
  IsFaithful (start c).1
  := by
  unfold start
  split
  · rename_i h
    constructor <;> simp [pending, Mode.after, Mode.emitted, step, start, h]
  · repeat' split
    all_goals
      constructor <;> simp_all [pending, Mode.after, Mode.emitted, step, start]

variable {m : Mode}

/-- The token that a mode is in the middle of is finished by the end of the input. -/
theorem IsFaithful.tokens_pending (h : m.IsFaithful) :
  tokens m.pending = m.finish
  := by
  rw [tokens, scan_eq, h.emitted, h.after, List.nil_append]

/-- A character that finishes no token is held too. -/
theorem IsFaithful.step_of_nil (h : m.IsFaithful) {c : Char} (hc : (m.step c).2 = []) :
  (m.step c).1.IsFaithful
  := by
  have hpending := text_step m c
  rw [hc, List.flatMap_nil, List.nil_append] at hpending
  constructor
  · rw [hpending, after_append, h.after]
    rfl
  · rw [hpending, emitted_append, h.after, h.emitted, Mode.emitted, hc]
    rfl

theorem IsFaithful.step (h : m.IsFaithful) (c : Char) :
  (m.step c).1.IsFaithful
  := by
  by_cases hnil : (m.step c).2 = []
  · apply h.step_of_nil hnil
  · have hstart := isFaithful_start c
    cases m with
    | code => exact hstart
    | questionBracket =>
        simp only [Mode.step]
        split
        · apply isFaithful_code
        · constructor <;> simp_all [pending, Mode.after, Mode.emitted, Mode.step, start]
    | quote close read =>
        simp only [Mode.step] at hnil ⊢
        repeat' split
        all_goals simp_all [isFaithful_code]
    | line read =>
        simp only [Mode.step] at hnil ⊢
        split <;> simp_all [isFaithful_code]
    | block star read =>
        simp only [Mode.step] at hnil ⊢
        split <;> simp_all [isFaithful_code]
    | _ =>
        simp only [Mode.step] at hnil ⊢
        split <;> simp_all [restart]

/-! ### Tokens of their own text -/

/-- A token that ends with a character is the token of its text. -/
theorem IsFaithful.tokens_text_of_step (h : m.IsFaithful) {c : Char} {t : Token}
    (ht : m.step c = (code, [t])) :
  tokens t.text = [t]
  := by
  have htext : t.text = m.pending ++ [c] := by
    rw [← text_step, ht]
    simp [pending]
  rw [htext, tokens, scan_append, h.after, h.emitted, List.nil_append, scan, ht]
  rfl

theorem IsFaithful.tokens_text_of_finish (h : m.IsFaithful) :
  ∀ t ∈ m.finish, tokens t.text = [t]
  := by
  intro t ht
  have hpending := h.tokens_pending
  have htext := text_finish m
  cases m with
  | code => cases ht
  | questionBracket =>
      simp only [finish, List.mem_cons, List.not_mem_nil, or_false] at ht
      rcases ht with rfl | rfl <;> rfl
  | _ =>
      obtain rfl := List.mem_singleton.mp ht
      simp only [finish, List.flatMap_singleton] at htext hpending
      rw [htext, hpending]

theorem tokens_text_of_start (c : Char) :
  ∀ t ∈ (start c).2, tokens t.text = [t]
  := by
  intro t ht
  have hcode : start c = (code, [t]) := by
    unfold start at ht ⊢
    repeat' split
    all_goals simp_all
  exact isFaithful_code.tokens_text_of_step hcode

theorem IsFaithful.tokens_text_of_restart (h : m.IsFaithful) {c : Char} {u : Token}
    (hu : m.finish = [u]) :
  ∀ t ∈ (restart u c).2, tokens t.text = [t]
  := by
  intro t ht
  rcases List.mem_cons.mp ht with rfl | ht
  · apply h.tokens_text_of_finish t
    rw [hu]
    apply List.mem_singleton_self
  · apply tokens_text_of_start c t ht

theorem IsFaithful.tokens_text_of_mem_step (h : m.IsFaithful) (c : Char) :
  ∀ t ∈ (m.step c).2, tokens t.text = [t]
  := by
  intro t ht
  cases m with
  | code => exact tokens_text_of_start c t ht
  | questionBracket =>
      simp only [Mode.step] at ht
      split at ht <;> (obtain rfl := List.mem_singleton.mp ht; rfl)
  | quote close read =>
      apply h.tokens_text_of_step (c := c)
      simp only [Mode.step] at ht ⊢
      repeat' split
      all_goals simp_all
  | line read =>
      apply h.tokens_text_of_step (c := c)
      simp only [Mode.step] at ht ⊢
      split <;> simp_all
  | block star read =>
      apply h.tokens_text_of_step (c := c)
      simp only [Mode.step] at ht ⊢
      split <;> simp_all
  | _ =>
      simp only [Mode.step] at ht
      split at ht
      · cases ht
      · exact h.tokens_text_of_restart rfl t ht

theorem IsFaithful.tokens_text_of_mem_scan (h : m.IsFaithful) (cs : List Char) :
  ∀ t ∈ m.scan cs, tokens t.text = [t]
  := by
  induction cs generalizing m with
  | nil => exact h.tokens_text_of_finish
  | cons c cs ih =>
      rw [scan, List.forall_mem_append]
      exact ⟨h.tokens_text_of_mem_step c, ih (h.step c)⟩

/-- Behind the first token a text is scanned as if what is left of it stood alone. -/
theorem exists_of_scan_eq_cons {cs : List Char} {t : Token} {ts : List Token}
    (h : m.scan cs = t :: ts) :
  ∃ rest, ts = tokens rest
  := by
  induction cs generalizing m with
  | nil =>
      cases m with
      | code => cases h
      | questionBracket =>
          obtain ⟨-, rfl⟩ := List.cons.inj h
          exact ⟨['['], rfl⟩
      | _ =>
          obtain ⟨-, rfl⟩ := List.cons.inj h
          exact ⟨[], rfl⟩
  | cons c cs ih =>
      rw [scan] at h
      by_cases hnil : (m.step c).2 = []
      · rw [hnil] at h
        exact ih h
      cases m with
      | code =>
          have hcode : start c = (code, [.code c]) := by
            simp only [step] at hnil
            unfold start at hnil ⊢
            repeat' split
            all_goals simp_all
          rw [step, hcode] at h
          obtain ⟨-, rfl⟩ := List.cons.inj h
          exact ⟨cs, rfl⟩
      | questionBracket =>
          simp only [step] at h
          split at h
          · obtain ⟨-, rfl⟩ := List.cons.inj h
            exact ⟨cs, rfl⟩
          · rename_i hc
            obtain ⟨-, rfl⟩ := List.cons.inj h
            refine ⟨'[' :: c :: cs, ?_⟩
            simp [tokens, scan, step, start, hc]
      | quote close read =>
          simp only [step] at h hnil
          repeat' split at h
          · simp_all
          · obtain ⟨-, rfl⟩ := List.cons.inj h
            exact ⟨cs, rfl⟩
          · simp_all
      | line read =>
          simp only [step] at h hnil
          split at h
          · obtain ⟨-, rfl⟩ := List.cons.inj h
            exact ⟨cs, rfl⟩
          · simp_all
      | block star read =>
          simp only [step] at h hnil
          split at h
          · obtain ⟨-, rfl⟩ := List.cons.inj h
            exact ⟨cs, rfl⟩
          · simp_all
      | _ =>
          simp only [step] at h hnil
          split at h
          · simp_all
          · obtain ⟨-, rfl⟩ := List.cons.inj h
            exact ⟨c :: cs, rfl⟩

end Mode

/-- Each token of a text is what its own text is scanned as. -/
theorem tokens_text {cs : List Char} :
  ∀ t ∈ tokens cs, tokens t.text = [t]
  := Mode.isFaithful_code.tokens_text_of_mem_scan cs

/-- The tokens behind the first one are those of what is left of the text. -/
theorem tokens_flatMap_of_cons {cs : List Char} {t : Token} {ts : List Token}
    (h : tokens cs = t :: ts) :
  tokens (ts.flatMap Token.text) = ts
  := by
  obtain ⟨rest, rfl⟩ := Mode.exists_of_scan_eq_cons h
  rw [text_tokens]

theorem text_ne_nil {t : Token} (h : tokens t.text = [t]) :
  t.text ≠ []
  := by
  intro hnil
  rw [hnil] at h
  cases h

/-! ### Hazards of what follows -/

namespace Mode

/-- The hazard of what follows inside of quotes does not depend on what has been read of them. -/
theorem hazardFrom_scan_read (close : Char) (d : Nat) (cs : List Char) :
  (∀ r r', hazardFrom d ((quote close r).scan cs) = hazardFrom d ((quote close r').scan cs))
    ∧ ∀ r r', hazardFrom d ((closing close r).scan cs) = hazardFrom d ((closing close r').scan cs)
  := by
  induction cs with
  | nil => exact ⟨fun _ _ => rfl, fun _ _ => rfl⟩
  | cons c cs ih =>
      constructor
      · intro r r'
        by_cases hc : c = close
        · by_cases hbracket : close = ']'
          · simp [scan, step, hc, hbracket, hazardFrom]
          · simpa [scan, step, hc, hbracket] using ih.2 _ _
        · simpa [scan, step, hc] using ih.1 _ _
      · intro r r'
        by_cases hc : c = close
        · simpa [scan, step, hc] using ih.1 _ _
        · simp [scan, step, hc, restart, hazardFrom]

/-- Whether a mode is outside of quotes and comments, and not behind a dash or a slash. -/
def isSettled : Mode → Bool
  | code | question | closing _ _ => true
  | dash | slash | questionBracket | quote _ _ | line _ | block _ _ => false

theorem hazardFrom_scan_closing {close : Char} (h : isMark close = true) (read : List Char)
    (d : Nat) (cs : List Char) :
  hazardFrom d ((closing close read).scan cs) = hazardFrom d (tokens cs)
  := by
  cases cs with
  | nil => rfl
  | cons c cs =>
      by_cases hc : c = close
      · subst hc
        have hquote : start c = (quote c [c], []) := by
          simp only [isMark, Bool.or_eq_true, beq_iff_eq, or_assoc] at h
          simp [start, h]
        simpa [tokens, scan, step, hquote] using (hazardFrom_scan_read c d cs).1 _ _
      · simp [tokens, scan, step, hc, restart, hazardFrom]

theorem hazardFrom_scan_question (d : Nat) (cs : List Char) :
  hazardFrom d (question.scan cs) = hazardFrom d (tokens cs)
  := by
  cases cs with
  | nil => rfl
  | cons c cs =>
      by_cases hc : c = '['
      · subst hc
        cases cs with
        | nil => rfl
        | cons e cs =>
            by_cases he : e = ']'
            · simp [tokens, scan, step, start, he, hazardFrom]
            · simp [tokens, scan, step, start, he, hazardFrom]
      · simp [tokens, scan, step, hc, restart, hazardFrom]

variable {m : Mode}

/-- Behind a settled mode every text has the hazard that it has alone. -/
theorem hazardFrom_scan_of_isSettled (hm : m.isProper = true) (h : m.isSettled = true) (d : Nat)
    (cs : List Char) :
  hazardFrom d (m.scan cs) = hazardFrom d (tokens cs)
  := by
  cases m with
  | code => rfl
  | question => apply hazardFrom_scan_question
  | closing close read => exact hazardFrom_scan_closing hm read d cs
  | _ => cases h

theorem harmless_finish_of_isSettled (h : m.isSettled = true) :
  Harmless m.finish
  := by
  cases m <;> first | rfl | cases h

end Mode

/-- Whether the end of a text is settled. -/
def endsSettled (a : List Char) : Bool :=
  (Mode.code.after a).isSettled

/-- Two texts, the first of which ends settled, have the hazard of the tokens of both. -/
theorem hazardFrom_tokens_append {a : List Char} (h : endsSettled a = true) (b : List Char)
    (d : Nat) :
  hazardFrom d (tokens (a ++ b)) = hazardFrom d (tokens a ++ tokens b)
  := by
  have hproper : (Mode.code.after a).isProper = true := Mode.isProper_after rfl a
  have ha : tokens a = Mode.code.emitted a ++ (Mode.code.after a).finish := Mode.scan_eq _ a
  rw [ha, tokens, Mode.scan_append, List.append_assoc]
  apply hazardFrom_append_congr
  intro d
  rw [Mode.hazardFrom_scan_of_isSettled hproper h,
    (Mode.harmless_finish_of_isSettled h).hazardFrom_append]

/-- What is scanned as a single token that is no hazard ends settled, unless it is a dash or a
slash. -/
theorem endsSettled_of_single {a : List Char} {t : Token} (h : tokens a = [t])
    (ht : t.isHazard = false) (hdash : t ≠ .code '-') (hslash : t ≠ .code '/') :
  endsSettled a = true
  := by
  have hlast (u : Token) (hu : (Mode.code.after a).finish.getLast? = some u) : u = t := by
    rw [tokens, Mode.scan_eq] at h
    have hlast := congrArg List.getLast? h
    rw [List.getLast?_append, hu] at hlast
    simpa using hlast
  unfold endsSettled
  cases hm : Mode.code.after a with
  | code => rfl
  | question => rfl
  | closing close read => rfl
  | dash =>
      rw [hm] at hlast
      exact absurd (hlast _ rfl).symm hdash
  | slash =>
      rw [hm] at hlast
      exact absurd (hlast _ rfl).symm hslash
  | _ =>
      rw [hm] at hlast
      rw [← hlast _ rfl] at ht
      cases ht

/-- A harmless text ends settled where its last character is neither a dash nor a slash. -/
theorem endsSettled_of_getLast? {a : List Char} (h : Harmless (tokens a))
    (hlast : ∀ c ∈ a.getLast?, c ≠ '-' ∧ c ≠ '/') :
  endsSettled a = true
  := by
  have houtside := endsOutside_of_harmless h
  have htext : a = (Mode.code.emitted a).flatMap Token.text ++ (Mode.code.after a).pending := by
    rw [← Mode.text_finish, ← List.flatMap_append, ← Mode.scan_eq]
    exact (text_tokens a).symm
  unfold endsOutside at houtside
  unfold endsSettled
  cases hm : Mode.code.after a with
  | code => rfl
  | question => rfl
  | closing close read => rfl
  | dash =>
      rw [hm] at htext
      have hc : '-' ∈ a.getLast? := by
        rw [htext, List.getLast?_append]
        rfl
      exact absurd rfl (hlast '-' hc).1
  | slash =>
      rw [hm] at htext
      have hc : '/' ∈ a.getLast? := by
        rw [htext, List.getLast?_append]
        rfl
      exact absurd rfl (hlast '/' hc).2
  | _ =>
      rw [hm] at houtside
      cases houtside

/-! ### Dashes and slashes -/

theorem hazardFrom_scan_line (read : List Char) (d : Nat) (cs : List Char) :
  hazardFrom d ((Mode.line read).scan cs) = some .lineComment
  := by
  induction cs generalizing read with
  | nil => rfl
  | cons c cs ih =>
      by_cases hc : c = '\n'
      · simp [Mode.scan, Mode.step, hc, hazardFrom]
      · simpa [Mode.scan, Mode.step, hc] using ih _

theorem hazardFrom_scan_block (star : Bool) (read : List Char) (d : Nat) (cs : List Char) :
  hazardFrom d ((Mode.block star read).scan cs) = some .blockComment
  := by
  induction cs generalizing star read with
  | nil => rfl
  | cons c cs ih =>
      by_cases hc : star = true ∧ c = '/'
      · simp [Mode.scan, Mode.step, hc, hazardFrom]
      · simpa [Mode.scan, Mode.step, hc] using ih _ _

/-- A dash before a text opens a comment exactly where another dash begins the text. -/
theorem hazardFrom_dash_cons (d : Nat) (b : List Char) :
  hazardFrom d (tokens ('-' :: b))
    = if b.head? = some '-' then some .lineComment else hazardFrom d (tokens b)
  := by
  cases b with
  | nil => rfl
  | cons c b =>
      by_cases hc : c = '-'
      · subst hc
        exact hazardFrom_scan_line _ d b
      · simp [tokens, Mode.scan, Mode.step, Mode.start, Mode.restart, hc, hazardFrom]

/-- A slash before a text opens a comment exactly where a star begins the text. -/
theorem hazardFrom_slash_cons (d : Nat) (b : List Char) :
  hazardFrom d (tokens ('/' :: b))
    = if b.head? = some '*' then some .blockComment else hazardFrom d (tokens b)
  := by
  cases b with
  | nil => rfl
  | cons c b =>
      by_cases hc : c = '*'
      · subst hc
        exact hazardFrom_scan_block _ _ d b
      · simp [tokens, Mode.scan, Mode.step, Mode.start, Mode.restart, hc, hazardFrom]

end TypedSql.Sql
