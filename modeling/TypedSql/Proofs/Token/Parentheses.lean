import Mathlib.Logic.Relation
import TypedSql.Proofs.Token.Segments
import TypedSql.Proofs.Token.Substitution
import TypedSql.Proofs.Token.Quoting

/-!
# Parentheses outside of quotes

A text can be read character by character with the quote that is open in mind, and with the
number of parentheses that are.  It is matched when, at its end, nothing is open that it opened
outside of quotes, and it closed nothing else.  Fragments that pass their check are matched, and
so are literals, and fragments with literals in them.  Unlike harmlessness this is a matter of the
characters alone, which do not run together to something else where texts meet.

A text becomes another when pairs of parentheses are deleted from it (`Loosens`).  The parentheses
of a pair are segments of their own in the split of the text, and what stands between them is
matched.
-/

namespace TypedSql.Sql

/-! ### Open quotes -/

/-- What closes the quote that is open after a character, given what closes the one before. -/
def quoteStep : Option Char → Char → Option Char
  | none, c => closer? c
  | some close, c => if c = close then none else some close

/-- What closes the quote that is open after a text, given what closes the one before. -/
def quoteAfter (quote : Option Char) (s : List Char) : Option Char :=
  s.foldl quoteStep quote

theorem quoteAfter_append (quote : Option Char) (a b : List Char) :
  quoteAfter quote (a ++ b) = quoteAfter (quoteAfter quote a) b
  := List.foldl_append

theorem quoteAfter_opening {o close : Char} (ho : closer? o = some close) (s : List Char) :
  quoteAfter none (o :: s) = quoteAfter (some close) s
  := by
  rw [quoteAfter, List.foldl_cons, quoteStep, ho]
  rfl

theorem quoteAfter_closing (close : Char) (s : List Char) :
  quoteAfter (some close) (close :: s) = quoteAfter none s
  := by
  rw [quoteAfter, List.foldl_cons, quoteStep, if_pos rfl]
  rfl

/-- What closes a quote opens one, unless it is a bracket. -/
theorem closer?_close {o close : Char} (h : closer? o = some close) (hbracket : close ≠ ']') :
  closer? close = some close
  := by
  unfold closer? at h
  split at h
  · rename_i hmark
    obtain rfl : o = close := Option.some.inj h
    rw [closer?, if_pos hmark]
  · split at h
    · exact absurd (Option.some.inj h).symm hbracket
    · cases h

/-! ### Matched texts -/

/-- Whether a text closes the quote and the parentheses that are open before it and those that it
opens itself, and no others. -/
def matchedFrom (quote : Option Char) (depth : Nat) : List Char → Bool
  | [] => quote.isNone && depth == 0
  | c :: s =>
    if quote = none ∧ c = '(' then matchedFrom none (depth + 1) s
    else if quote = none ∧ c = ')' then
      match depth with
      | 0 => false
      | d + 1 => matchedFrom none d s
    else matchedFrom (quoteStep quote c) depth s

/-- Whether the parentheses and quotes of a text are matched. -/
def Matched (s : List Char) : Prop :=
  matchedFrom none 0 s = true

section

variable {quote : Option Char} {k : Nat} {a b : List Char} {c : Char}

theorem matchedFrom_cons (hopen : quote = none → c ≠ '(') (hclose : quote = none → c ≠ ')') :
  matchedFrom quote k (c :: a) = matchedFrom (quoteStep quote c) k a
  := by
  have hopen' : ¬ (quote = none ∧ c = '(') := fun h => hopen h.1 h.2
  have hclose' : ¬ (quote = none ∧ c = ')') := fun h => hclose h.1 h.2
  simp only [matchedFrom, hopen', hclose', if_false]

theorem matchedFrom_opening {o close : Char} (ho : closer? o = some close) (k : Nat)
    (a : List Char) :
  matchedFrom none k (o :: a) = matchedFrom (some close) k a
  := by
  have hopen : o ≠ '(' := by
    rintro rfl
    cases ho
  have hclose : o ≠ ')' := by
    rintro rfl
    cases ho
  rw [matchedFrom_cons (fun _ => hopen) (fun _ => hclose), quoteStep, ho]

/-- A text that closes what is open, and nothing else, can be left out. -/
theorem matchedFrom_append (h : matchedFrom quote k a = true) (d : Nat) (b : List Char) :
  matchedFrom quote (d + k) (a ++ b) = matchedFrom none d b
  := by
  induction a generalizing quote k with
  | nil =>
      obtain ⟨hquote, rfl⟩ : quote = none ∧ k = 0 := by simpa [matchedFrom] using h
      rw [hquote]
      rfl
  | cons c a ih =>
      by_cases hopen : quote = none ∧ c = '('
      · obtain ⟨rfl, rfl⟩ := hopen
        exact ih (k := k + 1) h
      by_cases hclose : quote = none ∧ c = ')'
      · obtain ⟨rfl, rfl⟩ := hclose
        cases k with
        | zero => cases h
        | succ k => exact ih (k := k) h
      · simp only [List.cons_append, matchedFrom, hopen, hclose, if_false] at h ⊢
        apply ih h

/-- After a text that closes what is open no quote is open. -/
theorem quoteAfter_eq_none (h : matchedFrom quote k a = true) :
  quoteAfter quote a = none
  := by
  induction a generalizing quote k with
  | nil =>
      obtain ⟨hquote, -⟩ : quote = none ∧ k = 0 := by simpa [matchedFrom] using h
      exact hquote
  | cons c a ih =>
      by_cases hopen : quote = none ∧ c = '('
      · obtain ⟨rfl, rfl⟩ := hopen
        exact ih (k := k + 1) h
      by_cases hclose : quote = none ∧ c = ')'
      · obtain ⟨rfl, rfl⟩ := hclose
        cases k with
        | zero => cases h
        | succ k => exact ih (k := k) h
      · simp only [matchedFrom, hopen, hclose, if_false] at h
        apply ih h

theorem Matched.matchedFrom_append (h : Matched a) (d : Nat) (b : List Char) :
  matchedFrom none d (a ++ b) = matchedFrom none d b
  := Sql.matchedFrom_append h d b

theorem Matched.append (ha : Matched a) (hb : Matched b) :
  Matched (a ++ b)
  := (ha.matchedFrom_append 0 b).trans hb

end

/-! ### Matching segments -/

/-- Segments with matching parentheses, `depth` of which are open before them: no segment is left
open, and the parentheses that are closed outside of quotes are those that are open. -/
structure Matching (depth : Nat) (ps : List Segment) : Prop where
  closed_all : ∀ text, .unclosed text ∉ ps
  closed_le_opened : ∀ qs, qs <+: ps → closed qs ≤ depth + opened qs
  closed_eq_opened : closed ps = depth + opened ps

section

variable {d e : Nat} {p : Segment} {ps : List Segment}

theorem matching_nil_iff :
  Matching d [] ↔ d = 0
  := by
  constructor
  · intro h
    simpa [closed, opened, eq_comm] using h.closed_eq_opened
  · rintro rfl
    constructor
    · simp
    · intro qs hqs
      rw [List.prefix_nil.mp hqs]
      exact Nat.le_refl 0
    · rfl

/-- The other segments match the parentheses that are open behind the first one. -/
theorem matching_cons_iff (hp : ∀ text, p ≠ .unclosed text)
    (hd : e + closed [p] = d + opened [p]) :
  Matching d (p :: ps) ↔ Matching e ps
  := by
  have hopened (qs : List Segment) := opened_cons p qs
  have hclosed (qs : List Segment) := closed_cons p qs
  constructor
  · intro h
    constructor
    · intro text hmem
      exact h.closed_all text (List.mem_cons_of_mem p hmem)
    · intro qs hqs
      have hle := h.closed_le_opened (p :: qs) (List.cons_prefix_cons.mpr ⟨rfl, hqs⟩)
      rw [hopened, hclosed] at hle
      omega
    · have heq := h.closed_eq_opened
      rw [hopened, hclosed] at heq
      omega
  · intro h
    constructor
    · intro text hmem
      rcases List.mem_cons.mp hmem with htext | hmem
      · exact hp text htext.symm
      · exact h.closed_all text hmem
    · intro qs hqs
      cases qs with
      | nil => exact Nat.zero_le _
      | cons q qs =>
          obtain ⟨rfl, hrest⟩ := List.cons_prefix_cons.mp hqs
          have hle := h.closed_le_opened qs hrest
          rw [hopened, hclosed]
          omega
    · have heq := h.closed_eq_opened
      rw [hopened, hclosed]
      omega

/-- Segments that are neither parentheses nor left open have no part in the matching. -/
theorem matching_cons_iff_of_ne (hp : ∀ text, p ≠ .unclosed text) (hopen : p ≠ .character '(')
    (hclose : p ≠ .character ')') :
  Matching d (p :: ps) ↔ Matching d ps
  := by
  apply matching_cons_iff hp
  simp [opened, closed, hopen, hclose]

end

section

variable {o close : Char} {cs : List Char}

/-- Content leaves its quote open. -/
theorem Content.quoteAfter (h : Content close cs) (ho : closer? o = some close) :
  Sql.quoteAfter (some close) cs = some close
  := by
  induction h with
  | nil => rfl
  | other hc _ ih =>
      rw [Sql.quoteAfter, List.foldl_cons, quoteStep, if_neg hc]
      exact ih
  | doubled hclose _ ih =>
      rw [quoteAfter_closing, quoteAfter_opening (closer?_close ho hclose)]
      exact ih

theorem Content.matchedFrom_append (h : Content close cs) (ho : closer? o = some close) (d : Nat)
    (r : List Char) :
  matchedFrom (some close) d (cs ++ r) = matchedFrom (some close) d r
  := by
  have hsome {c : Char} {s : List Char} :
      matchedFrom (some close) d (c :: s) = matchedFrom (quoteStep (some close) c) d s :=
    matchedFrom_cons nofun nofun
  induction h with
  | nil => rfl
  | other hc _ ih =>
      rw [List.cons_append, hsome, quoteStep, if_neg hc]
      exact ih
  | doubled hclose _ ih =>
      rw [List.cons_append, List.cons_append, hsome, quoteStep, if_pos rfl,
        matchedFrom_opening (closer?_close ho hclose)]
      exact ih

end

/-- A text is matched exactly where its segments match. -/
theorem Splits.matchedFrom_iff {s : List Char} {ps : List Segment} (h : Splits s ps) (d : Nat) :
  matchedFrom none d s = true ↔ Matching d ps
  := by
  induction h generalizing d with
  | nil => simp [matchedFrom, matching_nil_iff]
  | @quoted o close cs r ps ho hcs hr _ ih =>
      have hquoted : matchedFrom none d (o :: (cs ++ close :: r)) = matchedFrom none d r := by
        rw [matchedFrom_opening ho, hcs.matchedFrom_append ho]
        simp [matchedFrom, quoteStep]
      rw [hquoted, matching_cons_iff_of_ne (by simp) (by simp) (by simp)]
      exact ih d
  | @unclosed o close cs ho hcs =>
      have hcontent := hcs.matchedFrom_append ho d []
      rw [List.append_nil] at hcontent
      rw [matchedFrom_opening ho, hcontent]
      constructor
      · intro hfalse
        simp [matchedFrom] at hfalse
      · intro hmatching
        exact absurd List.mem_cons_self (hmatching.closed_all (o :: cs))
  | @array r ps _ ih =>
      have hbrackets : matchedFrom none d ('?' :: '[' :: ']' :: r) = matchedFrom none d r := by
        simp [matchedFrom, quoteStep, closer?, isMark]
      rw [hbrackets, matching_cons_iff_of_ne (by simp) (by simp) (by simp)]
      exact ih d
  | @single r ps hr _ ih =>
      have hquestion : matchedFrom none d ('?' :: r) = matchedFrom none d r := by
        simp [matchedFrom, quoteStep, closer?, isMark]
      rw [hquestion, matching_cons_iff_of_ne (by simp) (by simp) (by simp)]
      exact ih d
  | @character c r ps hc hmark _ ih =>
      by_cases hopen : c = '('
      · subst hopen
        rw [matching_cons_iff (e := d + 1) (by simp) rfl]
        exact ih (d + 1)
      by_cases hclose : c = ')'
      · subst hclose
        cases d with
        | zero =>
            constructor
            · intro hfalse
              simp [matchedFrom] at hfalse
            · intro hmatching
              have hle := hmatching.closed_le_opened [.character ')'] (by simp)
              simp [closed, opened] at hle
        | succ d =>
            rw [matching_cons_iff (e := d) (by simp) rfl]
            exact ih d
      · rw [matchedFrom_cons (fun _ => hopen) (fun _ => hclose), quoteStep, hc,
          matching_cons_iff_of_ne (by simp) (by simpa using hopen) (by simpa using hclose)]
        exact ih d

/-! ### Fragments and literals -/

theorem matched_of_harmless {s : List Char} (h : Harmless (tokens s)) :
  Matched s
  := by
  obtain ⟨ps, hps⟩ := Splits.exists_splits s
  have hsound : Sound ps := by
    rw [sound_iff_forall_not_refused]
    intro hazard hrefused
    rw [← hps.hazardFrom_eq_some_iff, h] at hrefused
    cases hrefused
  apply (hps.matchedFrom_iff 0).mpr
  constructor
  · exact hsound.closed_all
  · simpa using hsound.closed_le_opened
  · simpa using hsound.opened_eq_closed.symm

theorem matched_literal {validated : Bool} {v : Value} {s : String}
    (h : literal validated v = .ok s) :
  Matched s.toList
  := matched_of_harmless (harmless_literal h)

/-- A token that is no hazard changes how many parentheses are open as its text does. -/
theorem exists_matchedFrom_text {t : Token} (ht : tokens t.text = [t]) {d : Nat}
    {ts : List Token} (h : hazardFrom d (t :: ts) = none) :
  ∃ d', hazardFrom d' ts = none ∧ ∀ r, matchedFrom none d (t.text ++ r) = matchedFrom none d' r
  := by
  have left (hh : Harmless [t]) (r : List Char) :
      matchedFrom none d (t.text ++ r) = matchedFrom none d r :=
    (matched_of_harmless (ht ▸ hh)).matchedFrom_append d r
  cases t with
  | code c =>
      by_cases hsep : c = ';'
      · simp [hazardFrom, hsep] at h
      by_cases hopen : c = '('
      · subst hopen
        exact ⟨d + 1, h, fun r => rfl⟩
      by_cases hclose : c = ')'
      · subst hclose
        cases d with
        | zero => cases h
        | succ d => exact ⟨d, h, fun r => rfl⟩
      · simp only [hazardFrom, hsep, hopen, hclose, if_false] at h
        exact ⟨d, h, left (by simp [Harmless, hazardFrom, hsep, hopen, hclose])⟩
  | placeholder array => exact ⟨d, h, left rfl⟩
  | quoted text => exact ⟨d, h, left rfl⟩
  | unterminated text => cases h
  | lineComment text => cases h
  | blockComment text => cases h

theorem exists_matchedFrom_flatMap {ts us : List Token} (hts : ∀ t ∈ ts, tokens t.text = [t])
    {d : Nat} (h : hazardFrom d (ts ++ us) = none) :
  ∃ d', hazardFrom d' us = none
    ∧ ∀ r, matchedFrom none d (ts.flatMap Token.text ++ r) = matchedFrom none d' r
  := by
  induction ts generalizing d with
  | nil => exact ⟨d, h, fun r => rfl⟩
  | cons t ts ih =>
      obtain ⟨ht, hts⟩ := List.forall_mem_cons.mp hts
      obtain ⟨e, he, htext⟩ := exists_matchedFrom_text ht h
      obtain ⟨d', hd', hrest⟩ := ih hts he
      use d', hd'
      intro r
      rw [List.flatMap_cons, List.append_assoc, htext, hrest]

/-- Literals in the place of placeholders leave matched what is matched. -/
theorem matchedFrom_substitute {validated : Bool} {ts : List Token} {vs : List Value}
    (hcount : ts.countP Token.isPlaceholder = vs.length)
    (hts : ∀ t ∈ ts, tokens t.text = [t]) ⦃d : Nat⦄ ⦃r : List Char⦄
    (h : hazardFrom d ts = none) (hr : substitute validated ts vs = .ok r) :
  matchedFrom none d r = true
  := by
  revert hts d r
  refine matched_induction ?nil ?placeholder ?other ts vs hcount
  case nil =>
    intro _ d r h hr
    obtain rfl : r = [] := by simpa [substitute, eq_comm] using hr
    simpa [hazardFrom, matchedFrom] using h
  case placeholder =>
    intro array ts v vs _ ih hts d r h hr
    obtain ⟨l, r', hl, hr', rfl⟩ := substitute_placeholder.mp hr
    have hbrackets : Matched (if array then ['[', ']'] else []) := by cases array <;> rfl
    rw [((matched_literal hl).append hbrackets).matchedFrom_append]
    apply ih (List.forall_mem_cons.mp hts).2 h hr'
  case other =>
    intro t ts vs hp _ ih hts d r h hr
    obtain ⟨ht, hts⟩ := List.forall_mem_cons.mp hts
    obtain ⟨r', hr', rfl⟩ := (substitute_cons hp).mp hr
    obtain ⟨d', hd', htext⟩ := exists_matchedFrom_text ht h
    rw [htext]
    apply ih hts hd' hr'

/-- A fragment that passes its check is matched with the literals of values in it too, also where
these make a hazard. -/
theorem matched_inlineArguments {validated : Bool} {s t : String} {args : List Value}
    (hs : checkFragment s = .ok ()) (h : inlineArguments validated s args = .ok t) :
  Matched t.toList
  := by
  obtain ⟨hcount, hr⟩ := inlineArguments_eq_ok_iff.mp h
  apply matchedFrom_substitute hcount tokens_text ((checkFragment_eq_ok_iff s).mp hs) hr

/-! ### Pairs of parentheses -/

/-- Whether a text becomes another when one pair of parentheses is deleted from it.  The
parentheses are segments of their own, so that they stand outside of quoted texts, and those of the
text between them, which satisfies `P`, match. -/
def DropsPair (P : List Char → Prop) (s t : List Char) : Prop :=
  ∃ a b c ps qs rs, s = a ++ '(' :: (b ++ ')' :: c) ∧ t = a ++ (b ++ c)
    ∧ Splits a ps ∧ Splits b qs ∧ Splits c rs
    ∧ Splits s (ps ++ .character '(' :: (qs ++ .character ')' :: rs))
    ∧ Matching 0 qs ∧ P b

/-- Whether a text becomes another when pairs of parentheses are deleted from it, one after the
other, each around a text that satisfies `P`. -/
def Loosens (P : List Char → Prop) : List Char → List Char → Prop :=
  Relation.ReflTransGen (DropsPair P)

/-- Where no quote is open, a parenthesis is a segment of its own. -/
theorem Splits.append_cons {a : List Char} {ps : List Segment} (ha : Splits a ps)
    (hquote : quoteAfter none a = none) {c : Char} (hc : closer? c = none) (hmark : c ≠ '?')
    (hbracket : c ≠ ']') {r : List Char} {rs : List Segment} (hr : Splits r rs) :
  Splits (a ++ c :: r) (ps ++ .character c :: rs)
  := by
  induction ha with
  | nil => exact .character hc hmark hr
  | @quoted o close cs b ps ho hcs hb _ ih =>
      have hb' : EndsBefore close (b ++ c :: r) := by
        cases b with
        | nil =>
            by_cases hclose : close = ']'
            · exact .inl hclose
            · right
              rintro ⟨⟩
              cases (closer?_close ho hclose).symm.trans hc
        | cons d b => exact hb
      rw [quoteAfter_opening ho, quoteAfter_append, hcs.quoteAfter ho, quoteAfter_closing]
        at hquote
      rw [List.cons_append, List.append_assoc, List.cons_append, List.cons_append]
      exact .quoted ho hcs hb' (ih hquote)
  | @unclosed o close cs ho hcs =>
      rw [quoteAfter_opening ho, hcs.quoteAfter ho] at hquote
      cases hquote
  | array _ ih => exact .array (ih hquote)
  | @single b ps hb _ ih =>
      refine .single ?_ (ih hquote)
      intro hprefix
      match b with
      | [] =>
          obtain rfl : '[' = c := (List.cons_prefix_cons.mp hprefix).1
          cases hc
      | [d] =>
          obtain ⟨-, hprefix⟩ := List.cons_prefix_cons.mp hprefix
          exact hbracket (List.cons_prefix_cons.mp hprefix).1.symm
      | d :: e :: b =>
          obtain ⟨hd, hprefix⟩ := List.cons_prefix_cons.mp hprefix
          obtain ⟨he, -⟩ := List.cons_prefix_cons.mp hprefix
          exact hb ⟨b, by rw [← hd, ← he]; rfl⟩
  | character hd hmark' _ ih =>
      refine .character hd hmark' (ih ?_)
      rw [quoteAfter, List.foldl_cons, quoteStep, hd] at hquote
      exact hquote

/-- The parentheses around a matched text, where no quote is open before them, are a pair that
can be deleted. -/
def DropsMatched (P : List Char → Prop) (s t : List Char) : Prop :=
  ∃ a b c, s = a ++ '(' :: (b ++ ')' :: c) ∧ t = a ++ (b ++ c)
    ∧ quoteAfter none a = none ∧ Matched b ∧ P b

namespace DropsMatched

variable {P : List Char → Prop} {s t : List Char}

theorem dropsPair (h : DropsMatched P s t) :
  DropsPair P s t
  := by
  obtain ⟨a, b, c, rfl, rfl, ha, hb, hP⟩ := h
  obtain ⟨ps, hps⟩ := Splits.exists_splits a
  obtain ⟨qs, hqs⟩ := Splits.exists_splits b
  obtain ⟨rs, hrs⟩ := Splits.exists_splits c
  have hclose := hqs.append_cons (quoteAfter_eq_none hb) (c := ')') rfl (by decide) (by decide) hrs
  have hopen := hps.append_cons ha (c := '(') rfl (by decide) (by decide) hclose
  exact ⟨a, b, c, ps, qs, rs, rfl, rfl, hps, hqs, hrs, hopen, (hqs.matchedFrom_iff 0).mp hb, hP⟩

theorem append_left (h : DropsMatched P s t) {x : List Char} (hx : quoteAfter none x = none) :
  DropsMatched P (x ++ s) (x ++ t)
  := by
  obtain ⟨a, b, c, rfl, rfl, ha, hb, hP⟩ := h
  refine ⟨x ++ a, b, c, (List.append_assoc _ _ _).symm, (List.append_assoc _ _ _).symm, ?_, hb, hP⟩
  rw [quoteAfter_append, hx, ha]

theorem append_right (h : DropsMatched P s t) (y : List Char) :
  DropsMatched P (s ++ y) (t ++ y)
  := by
  obtain ⟨a, b, c, rfl, rfl, ha, hb, hP⟩ := h
  refine ⟨a, b, c ++ y, ?_, ?_, ha, hb, hP⟩
  · simp only [List.append_assoc, List.cons_append]
  · simp only [List.append_assoc]

/-- Pairs are deleted from two texts one after the other. -/
theorem reflTransGen_append {s' t' : List Char}
    (h : Relation.ReflTransGen (DropsMatched P) s t)
    (h' : Relation.ReflTransGen (DropsMatched P) s' t') (hs : quoteAfter none s = none) :
  Relation.ReflTransGen (DropsMatched P) (s ++ s') (t ++ t')
  := by
  have hright : Relation.ReflTransGen (DropsMatched P) (s ++ s') (s ++ t') :=
    h'.lift (s ++ ·) fun _ _ hdrop => hdrop.append_left hs
  have hleft : Relation.ReflTransGen (DropsMatched P) (s ++ t') (t ++ t') :=
    h.lift (· ++ t') fun _ _ hdrop => hdrop.append_right t'
  exact hright.trans hleft

end DropsMatched

namespace Loosens

variable {P : List Char → Prop} {s t : List Char}

theorem of_dropsMatched (h : Relation.ReflTransGen (DropsMatched P) s t) :
  Loosens P s t
  := h.lift id fun _ _ hdrop => hdrop.dropsPair

/-- But for their parentheses the two texts are the same. -/
theorem filter_eq (h : Loosens P s t) :
  s.filter (fun c => c != '(' && c != ')') = t.filter fun c => c != '(' && c != ')'
  := by
  induction h with
  | refl => rfl
  | tail _ hdrop ih =>
      obtain ⟨a, b, c, -, -, -, rfl, rfl, -⟩ := hdrop
      rw [ih]
      simp [List.filter_append]

end Loosens

end TypedSql.Sql
