import TypedSql.Proofs.Token.Single

/-!
# Segments

A grammar of fragments that knows nothing of the scanner.  A text is split from the left to the
right into segments: quoted texts and bracketed identifiers with their marks, placeholders, and
single characters.  Comments have no part in the split, since a fragment is refused before
anything can depend on what a comment hides.  Every text has exactly one split.

The check of fragments is a matter of the split alone (`checkFragment_splits`): it accepts the
texts whose segments are sound, and refuses the others for the first segment that offends.
-/

namespace TypedSql.Sql

/-- A part of a text that is looked at as a whole. -/
inductive Segment where
  /-- A single character outside of all other segments. -/
  | character (c : Char)
  | placeholder (isArray : Bool)
  /-- A quoted text or bracketed identifier, with its marks. -/
  | quoted (text : List Char)
  /-- A quoted text or bracketed identifier that goes on to the end of the text. -/
  | unclosed (text : List Char)
deriving DecidableEq

/-! ### Quoted texts -/

/-- The character that closes what a character opens, if it opens anything. -/
def closer? (c : Char) : Option Char :=
  if isMark c then some c else if c = '[' then some ']' else none

/-- The texts that a closing character does not end: it does not occur in them, unless it is
written twice.  A bracket cannot be written twice. -/
inductive Content (close : Char) : List Char → Prop where
  | nil : Content close []
  | other {c : Char} {cs : List Char} (hc : c ≠ close) (h : Content close cs) :
    Content close (c :: cs)
  | doubled {cs : List Char} (hclose : close ≠ ']') (h : Content close cs) :
    Content close (close :: close :: cs)

/-- A closing character ends its segment before a text that does not write it a second time. -/
def EndsBefore (close : Char) (r : List Char) : Prop :=
  close = ']' ∨ r.head? ≠ some close

/-- A text is content to its end, or content up to the character that ends the segment. -/
theorem content_or_exists_endsBefore (close : Char) :
    ∀ s : List Char, Content close s
      ∨ ∃ cs r, s = cs ++ close :: r ∧ Content close cs ∧ EndsBefore close r
  | [] => .inl .nil
  | [c] => by
      by_cases hc : c = close
      · subst hc
        exact .inr ⟨[], [], rfl, .nil, .inr (by simp)⟩
      · exact .inl (.other hc .nil)
  | c :: d :: s => by
      by_cases hc : c = close
      · subst hc
        by_cases hend : EndsBefore c (d :: s)
        · exact .inr ⟨[], d :: s, rfl, .nil, hend⟩
        · obtain ⟨hbracket, rfl⟩ : c ≠ ']' ∧ d = c := by simpa [EndsBefore] using hend
          rcases content_or_exists_endsBefore d s with h | ⟨cs, r, rfl, hcs, hr⟩
          · exact .inl (.doubled hbracket h)
          · exact .inr ⟨d :: d :: cs, r, rfl, .doubled hbracket hcs, hr⟩
      · rcases content_or_exists_endsBefore close (d :: s) with h | ⟨cs, r, heq, hcs, hr⟩
        · exact .inl (.other hc h)
        · exact .inr ⟨c :: cs, r, by rw [heq, List.cons_append], .other hc hcs, hr⟩

section

variable {o close : Char} {cs r : List Char}

/-- Content leaves the quote open. -/
theorem Content.scan (h : Content close cs) (read b : List Char) :
  (Mode.quote close read).scan (cs ++ b) = (Mode.quote close (cs.reverse ++ read)).scan b
  := by
  induction h generalizing read with
  | nil => rfl
  | other hc _ ih => simp [Mode.scan, Mode.step, hc, ih]
  | doubled hclose _ ih => simp [Mode.scan, Mode.step, hclose, ih]

theorem EndsBefore.scan (h : EndsBefore close r) (read : List Char) :
  (Mode.quote close read).scan (close :: r) = .quoted (close :: read).reverse :: tokens r
  := by
  by_cases hbracket : close = ']'
  · simp [Mode.scan, Mode.step, hbracket, tokens]
  · have hr : r.head? ≠ some close := h.resolve_left hbracket
    cases r with
    | nil => simp [Mode.scan, Mode.step, hbracket, Mode.finish, tokens]
    | cons c r =>
        have hc : c ≠ close := by simpa using hr
        simp [Mode.scan, Mode.step, hbracket, hc, Mode.restart, tokens]

theorem Mode.start_of_closer? (h : closer? o = some close) :
  start o = (quote close [o], [])
  := by
  unfold closer? at h
  split at h
  · rename_i hmark
    obtain rfl : o = close := Option.some.inj h
    have hmark' : o = '\x27' ∨ o = '\x22' ∨ o = '\x60' := by
      simpa [isMark, or_assoc] using hmark
    simp [start, hmark']
  · split at h
    · rename_i hbracket
      obtain rfl : ']' = close := Option.some.inj h
      subst hbracket
      rfl
    · cases h

/-- A closed segment is a single token. -/
theorem tokens_of_content (ho : closer? o = some close) (hcs : Content close cs)
    (hr : EndsBefore close r) :
  tokens (o :: (cs ++ close :: r)) = .quoted (o :: (cs ++ [close])) :: tokens r
  := by
  rw [tokens, Mode.scan, Mode.step, Mode.start_of_closer? ho, List.nil_append, hcs.scan, hr.scan]
  simp

/-- A segment that nothing closes is the last token. -/
theorem tokens_of_content_end (ho : closer? o = some close) (hcs : Content close cs) :
  tokens (o :: cs) = [.unterminated (o :: cs)]
  := by
  have h := hcs.scan [o] []
  rw [List.append_nil] at h
  rw [tokens, Mode.scan, Mode.step, Mode.start_of_closer? ho, List.nil_append, h]
  simp [Mode.scan, Mode.finish]

end

/-! ### Splits -/

/-- A text is split into segments. -/
inductive Splits : List Char → List Segment → Prop where
  | nil : Splits [] []
  | quoted {o close : Char} {cs r : List Char} {ps : List Segment} (ho : closer? o = some close)
    (hcs : Content close cs) (hr : EndsBefore close r) (h : Splits r ps) :
    Splits (o :: (cs ++ close :: r)) (.quoted (o :: (cs ++ [close])) :: ps)
  | unclosed {o close : Char} {cs : List Char} (ho : closer? o = some close)
    (hcs : Content close cs) :
    Splits (o :: cs) [.unclosed (o :: cs)]
  | array {r : List Char} {ps : List Segment} (h : Splits r ps) :
    Splits ('?' :: '[' :: ']' :: r) (.placeholder true :: ps)
  | single {r : List Char} {ps : List Segment} (hr : ¬ ['[', ']'] <+: r) (h : Splits r ps) :
    Splits ('?' :: r) (.placeholder false :: ps)
  | character {c : Char} {r : List Char} {ps : List Segment} (hc : closer? c = none)
    (hmark : c ≠ '?') (h : Splits r ps) :
    Splits (c :: r) (.character c :: ps)

namespace Splits

variable {c o close : Char} {s : List Char} {ps qs : List Segment}

/-- Every text can be split. -/
theorem exists_splits (s : List Char) :
  ∃ ps, Splits s ps
  := by
  induction hn : s.length using Nat.strongRecOn generalizing s with
  | ind n ih =>
      subst hn
      have rest {r : List Char} (h : r.length < s.length) : ∃ ps, Splits r ps := ih _ h r rfl
      cases s with
      | nil => exact ⟨[], .nil⟩
      | cons c s =>
          cases hc : closer? c with
          | some close =>
              rcases content_or_exists_endsBefore close s with h | ⟨cs, r, rfl, hcs, hr⟩
              · exact ⟨_, .unclosed hc h⟩
              · obtain ⟨ps, hps⟩ := rest (r := r) (by simp; omega)
                exact ⟨_, .quoted hc hcs hr hps⟩
          | none =>
              by_cases hmark : c = '?'
              · subst hmark
                by_cases harray : ['[', ']'] <+: s
                · obtain ⟨r, rfl⟩ := harray
                  obtain ⟨ps, hps⟩ := rest (r := r) (by simp; omega)
                  exact ⟨_, .array hps⟩
                · obtain ⟨ps, hps⟩ := rest (r := s) (by simp)
                  exact ⟨_, .single harray hps⟩
              · obtain ⟨ps, hps⟩ := rest (r := s) (by simp)
                exact ⟨_, .character hc hmark hps⟩

/-- The first segment of a text that begins with an opening character. -/
theorem of_opening (ho : closer? o = some close) (h : Splits (o :: s) ps) :
  (Content close s ∧ ps = [.unclosed (o :: s)])
    ∨ ∃ cs r qs, s = cs ++ close :: r ∧ Content close cs ∧ EndsBefore close r ∧ Splits r qs
      ∧ ps = .quoted (o :: (cs ++ [close])) :: qs
  := by
  cases h with
  | @quoted _ close' cs r qs ho' hcs hr h =>
      obtain rfl : close = close' := Option.some.inj (ho.symm.trans ho')
      exact .inr ⟨cs, r, qs, rfl, hcs, hr, h, rfl⟩
  | @unclosed _ close' _ ho' hcs =>
      obtain rfl : close = close' := Option.some.inj (ho.symm.trans ho')
      exact .inl ⟨hcs, rfl⟩
  | array h => cases ho
  | single hr h => cases ho
  | character hc hmark h => cases ho.symm.trans hc

/-- The first segment of a text that begins with a question mark. -/
theorem of_questionMark (h : Splits ('?' :: s) ps) :
  (∃ r qs, s = '[' :: ']' :: r ∧ Splits r qs ∧ ps = .placeholder true :: qs)
    ∨ ¬ ['[', ']'] <+: s ∧ ∃ qs, Splits s qs ∧ ps = .placeholder false :: qs
  := by
  cases h with
  | quoted ho hcs hr h => cases ho
  | unclosed ho hcs => cases ho
  | @array r qs h => exact .inl ⟨r, qs, rfl, h, rfl⟩
  | @single _ qs hr h => exact .inr ⟨hr, qs, h, rfl⟩
  | character hc hmark h => exact absurd rfl hmark

/-- The first segment of a text that begins with any other character. -/
theorem of_character (hc : closer? c = none) (hmark : c ≠ '?') (h : Splits (c :: s) ps) :
  ∃ qs, Splits s qs ∧ ps = .character c :: qs
  := by
  cases h with
  | quoted ho hcs hr h => cases hc.symm.trans ho
  | unclosed ho hcs => cases hc.symm.trans ho
  | array h => exact absurd rfl hmark
  | single hr h => exact absurd rfl hmark
  | @character _ _ qs hc hmark h => exact ⟨qs, h, rfl⟩

/-- A text can be split in one way only. -/
theorem unique (h : Splits s ps) (h' : Splits s qs) :
  ps = qs
  := by
  induction h generalizing qs with
  | nil =>
      cases h'
      rfl
  | @quoted o close cs r ps ho hcs hr _ ih =>
      -- what the scanner makes of the segment says where it ends
      have htokens := tokens_of_content ho hcs hr
      rcases h'.of_opening ho with ⟨hcontent, rfl⟩ | ⟨cs', r', qs, heq, hcs', hr', hqs, rfl⟩
      · rw [tokens_of_content_end ho hcontent] at htokens
        cases htokens
      · rw [heq, tokens_of_content ho hcs' hr'] at htokens
        obtain ⟨htext, -⟩ := List.cons.inj htokens
        obtain rfl : cs' = cs := by simpa using htext
        obtain rfl : r = r' := by simpa using heq
        rw [ih hqs]
  | @unclosed o close cs ho hcs =>
      have htokens := tokens_of_content_end ho hcs
      rcases h'.of_opening ho with ⟨-, rfl⟩ | ⟨cs', r', qs, rfl, hcs', hr', -, rfl⟩
      · rfl
      · rw [tokens_of_content ho hcs' hr'] at htokens
        cases htokens
  | array _ ih =>
      rcases h'.of_questionMark with ⟨r, qs, heq, hqs, rfl⟩ | ⟨hr, -⟩
      · obtain rfl := (List.cons.inj (List.cons.inj heq).2).2
        rw [ih hqs]
      · exact absurd ⟨_, rfl⟩ hr
  | single hr _ ih =>
      rcases h'.of_questionMark with ⟨r, qs, rfl, -, -⟩ | ⟨-, qs, hqs, rfl⟩
      · exact absurd ⟨r, rfl⟩ hr
      · rw [ih hqs]
  | character hc hmark _ ih =>
      obtain ⟨qs, hqs, rfl⟩ := h'.of_character hc hmark
      rw [ih hqs]

/-- A character that is a segment of its own begins a text exactly where it is its first
segment. -/
theorem head?_eq_iff (hc : closer? c = none) (hmark : c ≠ '?') (h : Splits s ps) :
  ps.head? = some (.character c) ↔ s.head? = some c
  := by
  constructor
  · intro hhead
    cases h with
    | character hc' hmark' h => simpa using hhead
    | _ => cases hhead
  · intro hhead
    obtain ⟨s, rfl⟩ : ∃ r, s = c :: r := by
      cases s with
      | nil => cases hhead
      | cons d r => exact ⟨r, by rw [Option.some.inj hhead]⟩
    obtain ⟨qs, -, rfl⟩ := h.of_character hc hmark
    rfl

end Splits

/-! ### Offences -/

/-- The number of parentheses that are opened outside of quotes. -/
def opened (ps : List Segment) : Nat :=
  ps.count (.character '(')

/-- The number of parentheses that are closed outside of quotes. -/
def closed (ps : List Segment) : Nat :=
  ps.count (.character ')')

/-- The segment number `i` offends, where `depth` parentheses are open before the segments: it is
or begins what a fragment must not contain, or it closes a parenthesis that is not open. -/
def Offends (depth : Nat) (ps : List Segment) (i : Nat) : Hazard → Prop
  | .separator => ps[i]? = some (.character ';')
  | .lineComment => ps[i]? = some (.character '-') ∧ ps[i + 1]? = some (.character '-')
  | .blockComment => ps[i]? = some (.character '/') ∧ ps[i + 1]? = some (.character '*')
  | .unterminatedQuote => ∃ text, ps[i]? = some (.unclosed text)
  | .unbalancedParentheses =>
    ps[i]? = some (.character ')') ∧ depth + opened (ps.take (i + 1)) < closed (ps.take (i + 1))

/-- Segments are refused for the first of them that offends, or, where none of them does, for a
parenthesis that stays open. -/
def Refused (depth : Nat) (ps : List Segment) (h : Hazard) : Prop :=
  (∃ i, Offends depth ps i h ∧ ∀ j < i, ∀ h', ¬ Offends depth ps j h')
    ∨ h = .unbalancedParentheses ∧ (∀ i h', ¬ Offends depth ps i h')
      ∧ closed ps < depth + opened ps

/-- Segments of which a fragment may consist. -/
structure Sound (ps : List Segment) : Prop where
  closed_all : ∀ text, .unclosed text ∉ ps
  no_separator : .character ';' ∉ ps
  no_lineComment : ¬ [.character '-', .character '-'] <:+: ps
  no_blockComment : ¬ [.character '/', .character '*'] <:+: ps
  closed_le_opened : ∀ qs, qs <+: ps → closed qs ≤ opened qs
  opened_eq_closed : opened ps = closed ps

section

variable {d e : Nat} {p : Segment} {ps : List Segment} {h h' : Hazard}

/-- A first segment offends in one way at most. -/
theorem Offends.unique (hh : Offends d ps 0 h) (hh' : Offends d ps 0 h') :
  h = h'
  := by
  cases h <;> cases h' <;> simp_all [Offends]

/-- Segments the first of which offends are refused for it. -/
theorem refused_iff_of_offends (hh : Offends d ps 0 h) :
  Refused d ps h' ↔ h' = h
  := by
  constructor
  · rintro (⟨i, hi, hfirst⟩ | ⟨-, hnone, -⟩)
    · cases i with
      | zero => exact hi.unique hh
      | succ i => exact absurd hh (hfirst 0 i.succ_pos h)
    · exact absurd hh (hnone 0 h)
  · rintro rfl
    exact .inl ⟨0, hh, fun j hj => absurd hj j.not_lt_zero⟩

theorem opened_cons (p : Segment) (ps : List Segment) :
  opened (p :: ps) = opened [p] + opened ps
  := by
  rw [← List.singleton_append, opened, List.count_append, opened, opened]

theorem closed_cons (p : Segment) (ps : List Segment) :
  closed (p :: ps) = closed [p] + closed ps
  := by
  rw [← List.singleton_append, closed, List.count_append, closed, closed]

/-- The other segments offend as they do without the first one, with the parentheses that are
open behind it. -/
theorem offends_cons_succ (hd : e + closed [p] = d + opened [p]) (i : Nat) (h : Hazard) :
  Offends d (p :: ps) (i + 1) h ↔ Offends e ps i h
  := by
  cases h with
  | unbalancedParentheses =>
      simp only [Offends, List.getElem?_cons_succ, List.take_succ_cons,
        opened_cons p (List.take _ _), closed_cons p (List.take _ _)]
      have hlt : d + (opened [p] + opened (ps.take (i + 1)))
            < closed [p] + closed (ps.take (i + 1))
          ↔ e + opened (ps.take (i + 1)) < closed (ps.take (i + 1)) := by omega
      rw [hlt]
  | _ => simp only [Offends, List.getElem?_cons_succ]

/-- Segments the first of which does not offend are refused as they are without it. -/
theorem refused_cons_iff (hp : ∀ h, ¬ Offends d (p :: ps) 0 h)
    (hd : e + closed [p] = d + opened [p]) :
  Refused d (p :: ps) h ↔ Refused e ps h
  := by
  have hopened := opened_cons p ps
  have hclosed := closed_cons p ps
  constructor
  · rintro (⟨i, hi, hfirst⟩ | ⟨rfl, hnone, hlt⟩)
    · cases i with
      | zero => exact absurd hi (hp h)
      | succ i =>
          refine .inl ⟨i, (offends_cons_succ hd i h).mp hi, ?_⟩
          intro j hj h' hh'
          apply hfirst (j + 1) (Nat.succ_lt_succ hj) h'
          apply (offends_cons_succ hd j h').mpr hh'
    · refine .inr ⟨rfl, ?_, by omega⟩
      intro i h' hh'
      apply hnone (i + 1) h'
      apply (offends_cons_succ hd i h').mpr hh'
  · rintro (⟨i, hi, hfirst⟩ | ⟨rfl, hnone, hlt⟩)
    · refine .inl ⟨i + 1, (offends_cons_succ hd i h).mpr hi, ?_⟩
      intro j hj h' hh'
      cases j with
      | zero => exact hp h' hh'
      | succ j =>
          apply hfirst j (Nat.lt_of_succ_lt_succ hj) h'
          apply (offends_cons_succ hd j h').mp hh'
    · refine .inr ⟨rfl, ?_, by omega⟩
      intro i h' hh'
      cases i with
      | zero => exact hp h' hh'
      | succ i => exact hnone i h' ((offends_cons_succ hd i h').mp hh')

/-- Where the first segment offends in one way, and under one condition, what is refused is
decided by the condition. -/
theorem refused_cons_iff_ite {k : Hazard} {P : Prop} [Decidable P]
    (hp : ∀ h, Offends d (p :: ps) 0 h ↔ h = k ∧ P)
    (hd : ¬ P → e + closed [p] = d + opened [p]) :
  Refused d (p :: ps) h ↔ if P then h = k else Refused e ps h
  := by
  split
  · rename_i hP
    apply refused_iff_of_offends
    apply (hp k).mpr ⟨rfl, hP⟩
  · rename_i hP
    apply refused_cons_iff _ (hd hP)
    intro h hh
    exact hP ((hp h).mp hh).2

/-- Neither a closed segment nor a placeholder is a reason to refuse. -/
theorem refused_cons_iff_of_ne (hcharacter : ∀ c, p ≠ .character c)
    (hunclosed : ∀ t, p ≠ .unclosed t) :
  Refused d (p :: ps) h ↔ Refused d ps h
  := by
  have hopened : opened [p] = 0 := by simp [opened, hcharacter]
  have hclosed : closed [p] = 0 := by simp [closed, hcharacter]
  apply refused_cons_iff
  · intro h
    cases h <;> simp [Offends, hcharacter, hunclosed]
  · rw [hopened, hclosed]

theorem offends_dash_iff :
  Offends d (.character '-' :: ps) 0 h ↔ h = .lineComment ∧ ps.head? = some (.character '-')
  := by
  cases h <;> simp [Offends, List.head?_eq_getElem?]

theorem offends_slash_iff :
  Offends d (.character '/' :: ps) 0 h ↔ h = .blockComment ∧ ps.head? = some (.character '*')
  := by
  cases h <;> simp [Offends, List.head?_eq_getElem?]

theorem offends_semicolon_iff :
  Offends d (.character ';' :: ps) 0 h ↔ h = .separator ∧ True
  := by
  cases h <;> simp [Offends]

theorem offends_closing_iff :
  Offends d (.character ')' :: ps) 0 h ↔ h = .unbalancedParentheses ∧ d = 0
  := by
  cases h <;> simp [Offends, opened, closed]

theorem not_offends_character {c : Char} (hdash : c ≠ '-') (hslash : c ≠ '/') (hsep : c ≠ ';')
    (hclose : c ≠ ')') :
  ¬ Offends d (.character c :: ps) 0 h
  := by
  cases h <;> simp [Offends, *]

end

/-! ### The check -/

/-- Most characters that are segments of their own are tokens of their own. -/
theorem tokens_character {c : Char} (hc : closer? c = none) (hmark : c ≠ '?') (hdash : c ≠ '-')
    (hslash : c ≠ '/') (r : List Char) :
  tokens (c :: r) = .code c :: tokens r
  := by
  have hquote : isMark c = false ∧ c ≠ '[' := by
    unfold closer? at hc
    repeat' split at hc
    · cases hc
    · cases hc
    · simp_all
  have hstart : Mode.start c = (.code, [.code c]) := by
    simp [isMark] at hquote
    simp [Mode.start, hquote, hdash, hslash, hmark]
  rw [tokens, Mode.scan, Mode.step, hstart]
  rfl

theorem hazardFrom_character {c : Char} (hc : closer? c = none) (hmark : c ≠ '?') {r : List Char}
    {ps : List Segment} (hr : Splits r ps)
    (ih : ∀ d h, hazardFrom d (tokens r) = some h ↔ Refused d ps h) (d : Nat) (h : Hazard) :
  hazardFrom d (tokens (c :: r)) = some h ↔ Refused d (.character c :: ps) h
  := by
  by_cases hdash : c = '-'
  · subst hdash
    rw [hazardFrom_dash_cons, refused_cons_iff_ite (fun _ => offends_dash_iff) fun _ => rfl]
    simp only [hr.head?_eq_iff hc hmark, ← ih]
    split <;> simp [eq_comm]
  by_cases hslash : c = '/'
  · subst hslash
    rw [hazardFrom_slash_cons, refused_cons_iff_ite (fun _ => offends_slash_iff) fun _ => rfl]
    simp only [hr.head?_eq_iff (show closer? '*' = none from rfl) (by decide), ← ih]
    split <;> simp [eq_comm]
  rw [tokens_character hc hmark hdash hslash]
  by_cases hsep : c = ';'
  · subst hsep
    rw [refused_cons_iff_ite (e := d) (fun _ => offends_semicolon_iff) fun h => absurd trivial h]
    simp [hazardFrom, eq_comm]
  by_cases hclose : c = ')'
  · subst hclose
    rw [refused_cons_iff_ite (e := d - 1) (fun _ => offends_closing_iff)]
    · cases d with
      | zero => simp [hazardFrom, eq_comm]
      | succ d => exact ih d h
    · intro hd
      exact Nat.sub_add_cancel (Nat.pos_of_ne_zero hd)
  have quiet (h : Hazard) : ¬ Offends d (.character c :: ps) 0 h :=
    not_offends_character hdash hslash hsep hclose
  by_cases hopen : c = '('
  · subst hopen
    rw [refused_cons_iff (e := d + 1) quiet rfl]
    exact ih (d + 1) h
  · have hskip : hazardFrom d (.code c :: tokens r) = hazardFrom d (tokens r) := by
      simp [hazardFrom, hsep, hopen, hclose]
    rw [refused_cons_iff (e := d) quiet (by simp [opened, closed, hopen, hclose]), hskip]
    exact ih d h

/-- The tokens of a text have the hazard for which its segments are refused. -/
theorem Splits.hazardFrom_eq_some_iff {s : List Char} {ps : List Segment} (hs : Splits s ps)
    (d : Nat) (h : Hazard) :
  hazardFrom d (tokens s) = some h ↔ Refused d ps h
  := by
  induction hs generalizing d h with
  | nil =>
      have hnone (i : Nat) (h' : Hazard) : ¬ Offends d [] i h' := by cases h' <;> simp [Offends]
      simp only [Refused, hnone]
      by_cases hd : d = 0
      · simp [tokens, Mode.scan, Mode.finish, hazardFrom, opened, closed, hd]
      · have hpos : 0 < d := Nat.pos_of_ne_zero hd
        simp [tokens, Mode.scan, Mode.finish, hazardFrom, opened, closed, hd, hpos, eq_comm]
  | quoted ho hcs hr _ ih =>
      rw [tokens_of_content ho hcs hr, refused_cons_iff_of_ne (by simp) (by simp)]
      exact ih d h
  | unclosed ho hcs =>
      rw [tokens_of_content_end ho hcs, refused_iff_of_offends (h := .unterminatedQuote) ⟨_, rfl⟩]
      simp [hazardFrom, eq_comm]
  | array _ ih =>
      rw [refused_cons_iff_of_ne (by simp) (by simp)]
      exact ih d h
  | @single r ps hr _ ih =>
      have hquestion : tokens ('?' :: r) = Mode.question.scan r := rfl
      rw [hquestion, Mode.hazardFrom_scan_question, refused_cons_iff_of_ne (by simp) (by simp)]
      exact ih d h
  | character hc hmark hr ih => exact hazardFrom_character hc hmark hr ih d h

/-- Where some segment offends, the segments are refused. -/
theorem exists_refused {d i : Nat} {ps : List Segment} {h : Hazard} (hi : Offends d ps i h) :
  ∃ h', Refused d ps h'
  := by
  induction i using Nat.strongRecOn generalizing h with
  | ind i ih =>
      by_cases hfirst : ∀ j < i, ∀ h', ¬ Offends d ps j h'
      · exact ⟨h, .inl ⟨i, hi, hfirst⟩⟩
      · simp only [not_forall, not_not] at hfirst
        obtain ⟨j, hj, h', hh'⟩ := hfirst
        exact ih j hj hh'

/-- A pair of segments stands somewhere exactly where it has an index. -/
theorem pair_infix_iff {ps : List Segment} {p q : Segment} :
  [p, q] <:+: ps ↔ ∃ i, ps[i]? = some p ∧ ps[i + 1]? = some q
  := by
  rw [List.infix_iff_getElem?]
  constructor
  · rintro ⟨k, -, h⟩
    use k
    constructor
    · simpa using h 0 (by simp)
    · simpa [Nat.add_comm] using h 1 (by simp)
  · rintro ⟨k, hp, hq⟩
    obtain ⟨hlt, -⟩ := List.getElem?_eq_some_iff.mp hq
    refine ⟨k, by simp; omega, ?_⟩
    intro i hi
    match i, hi with
    | 0, _ => simpa using hp
    | 1, _ => simpa [Nat.add_comm] using hq

/-- Where no segment offends, no part before one closes more parentheses than it opens. -/
theorem closed_take_le {ps : List Segment}
    (hnone : ∀ i, ¬ Offends 0 ps i .unbalancedParentheses) (n : Nat) :
  closed (ps.take n) ≤ opened (ps.take n)
  := by
  induction n with
  | zero => simp [closed, opened]
  | succ n ih =>
      by_cases hclose : ps[n]? = some (.character ')')
      · have hn := hnone n
        simp only [Offends, hclose, true_and] at hn
        omega
      · have hopened : opened (ps.take (n + 1)) = opened (ps.take n) + opened ps[n]?.toList := by
          rw [List.take_add_one, opened, List.count_append, opened, opened]
        have hclosed : closed (ps.take (n + 1)) = closed (ps.take n) := by
          rw [List.take_add_one, closed, List.count_append, closed]
          cases hp : ps[n]? with
          | none => rfl
          | some p =>
              have hne : p ≠ .character ')' := by
                rintro rfl
                exact hclose hp
              simp [hne]
        omega

/-- Segments are sound exactly where none of them offends and no parenthesis stays open. -/
theorem sound_iff {ps : List Segment} :
  Sound ps ↔ (∀ i h, ¬ Offends 0 ps i h) ∧ opened ps ≤ closed ps
  := by
  constructor
  · intro hs
    refine ⟨?_, Nat.le_of_eq hs.opened_eq_closed⟩
    intro i h hh
    cases h with
    | separator => exact hs.no_separator (List.mem_of_getElem? hh)
    | lineComment => exact hs.no_lineComment (pair_infix_iff.mpr ⟨i, hh⟩)
    | blockComment => exact hs.no_blockComment (pair_infix_iff.mpr ⟨i, hh⟩)
    | unterminatedQuote =>
        obtain ⟨text, htext⟩ := hh
        exact hs.closed_all text (List.mem_of_getElem? htext)
    | unbalancedParentheses =>
        have hle := hs.closed_le_opened _ (List.take_prefix (i + 1) ps)
        have hlt := hh.2
        omega
  · rintro ⟨hnone, hle⟩
    have hall : ∀ qs, qs <+: ps → closed qs ≤ opened qs := by
      intro qs hqs
      rw [List.prefix_iff_eq_take.mp hqs]
      apply closed_take_le fun i => hnone i _
    constructor
    · intro text hmem
      obtain ⟨i, hi⟩ := List.mem_iff_getElem?.mp hmem
      exact hnone i .unterminatedQuote ⟨text, hi⟩
    · intro hmem
      obtain ⟨i, hi⟩ := List.mem_iff_getElem?.mp hmem
      exact hnone i .separator hi
    · intro hpair
      obtain ⟨i, hi⟩ := pair_infix_iff.mp hpair
      exact hnone i .lineComment hi
    · intro hpair
      obtain ⟨i, hi⟩ := pair_infix_iff.mp hpair
      exact hnone i .blockComment hi
    · exact hall
    · exact Nat.le_antisymm hle (hall ps List.prefix_rfl)

/-- Segments are sound exactly where they are not refused. -/
theorem sound_iff_forall_not_refused {ps : List Segment} :
  Sound ps ↔ ∀ h, ¬ Refused 0 ps h
  := by
  rw [sound_iff]
  constructor
  · rintro ⟨hnone, hle⟩ h (⟨i, hi, -⟩ | ⟨-, -, hlt⟩)
    · exact hnone i h hi
    · omega
  · intro hrefused
    have hnone : ∀ i h, ¬ Offends 0 ps i h := by
      intro i h hh
      obtain ⟨h', hh'⟩ := exists_refused hh
      exact hrefused h' hh'
    refine ⟨hnone, ?_⟩
    by_contra hlt
    exact hrefused .unbalancedParentheses (.inr ⟨rfl, hnone, by omega⟩)

/-- The check of fragments accepts exactly the texts whose segments are sound.  The others it
refuses for the first segment that offends, and for a parenthesis that stays open only where no
segment offends. -/
theorem checkFragment_splits (s : String) :
  ∃ ps, (∀ qs, Splits s.toList qs ↔ qs = ps)
    ∧ (checkFragment s = .ok () ↔ Sound ps)
    ∧ ∀ e, checkFragment s = .error e ↔ ∃ h, e = .unsafeFragment s h ∧ Refused 0 ps h
  := by
  obtain ⟨ps, hps⟩ := Splits.exists_splits s.toList
  have hhazard (h : Hazard) : hazard? s = some h ↔ Refused 0 ps h := hps.hazardFrom_eq_some_iff 0 h
  refine ⟨ps, ?_, ?_, ?_⟩
  · intro qs
    constructor
    · intro hqs
      exact hqs.unique hps
    · rintro rfl
      exact hps
  · rw [sound_iff_forall_not_refused]
    simp only [← hhazard, checkFragment]
    cases hazard? s <;> simp
  · intro e
    simp only [← hhazard, checkFragment]
    cases hazard? s <;> simp [eq_comm]

/-- The separator comes first, although a parenthesis is open before it. -/
example : checkFragment "(a; b" = .error (.unsafeFragment "(a; b" .separator) := by decide

end TypedSql.Sql
