import Mathlib.Data.List.Basic
import TypedSql.Proofs.Token.Quoting
import TypedSql.Proofs.Token.Single
import TypedSql.Proofs.Token.Substitution

/-!
# Literals in fragments

A fragment passes its check before values are put in the place of its placeholders.  What it
becomes is scanned anew, where a literal meets the characters around it: quotes may run together,
and a placeholder of an array leaves its brackets behind.  None of this is a hazard.  The only
hazard is a dash of the fragment directly before the dash of a negative number, which together
open a comment (`checkFragment_inlineArguments`).
-/

namespace TypedSql

/-- Whether a value is a negative number, among which is the negative zero. -/
def Value.isNegative : Value → Bool
  | integer n => n.toInt < 0
  | long n => n.toInt < 0
  | double x => x.negative && !x.isNaN
  | null | text _ | boolean _ | blob _ => false

namespace Sql

/-! ### Where literals begin and end -/

/-- Whether a text begins and ends with a digit. -/
def isNumeral (a : List Char) : Bool :=
  a.head?.any Char.isDigit && a.getLast?.any Char.isDigit

theorem isNumeral_append {a b : List Char} (ha : a.head?.any Char.isDigit = true)
    (hb : b.getLast?.any Char.isDigit = true) :
  isNumeral (a ++ b) = true
  := by
  obtain ⟨c, hc, hcdigit⟩ := (Option.any_eq_true _ _).mp ha
  obtain ⟨e, he, hedigit⟩ := (Option.any_eq_true _ _).mp hb
  simp [isNumeral, List.head?_append, List.getLast?_append, hc, he, hcdigit, hedigit]

theorem head?_any_isDigit {a : List Char} (hne : a ≠ []) (h : ∀ c ∈ a, c.isDigit = true) :
  a.head?.any Char.isDigit = true
  := by
  rw [List.head?_eq_some_head hne]
  apply h _ (List.head_mem hne)

theorem getLast?_any_isDigit {a : List Char} (hne : a ≠ []) (h : ∀ c ∈ a, c.isDigit = true) :
  a.getLast?.any Char.isDigit = true
  := by
  rw [List.getLast?_eq_some_getLast hne]
  apply h _ (List.getLast_mem hne)

theorem isDigit_of_mem_toDigits (n : Nat) :
  ∀ c ∈ Nat.toDigits 10 n, c.isDigit = true
  := fun _ hc => Nat.isDigit_of_mem_toDigits (by decide) (by decide) hc

theorem isNumeral_toDigits (n : Nat) :
  isNumeral (Nat.toDigits 10 n) = true
  := by
  have hne : Nat.toDigits 10 n ≠ [] := Nat.toDigits_ne_nil
  rw [isNumeral, head?_any_isDigit hne (isDigit_of_mem_toDigits n),
    getLast?_any_isDigit hne (isDigit_of_mem_toDigits n)]
  rfl

theorem isNumeral_positional {ds : List Char} (hne : ds ≠ []) (h : ∀ c ∈ ds, c.isDigit = true)
    (k : Int) :
  isNumeral (Decimal.positional ds k) = true
  := by
  unfold Decimal.positional
  split
  · rw [show ∀ r : List Char, '0' :: '.' :: r = ['0', '.'] ++ r from fun _ => rfl]
    apply isNumeral_append rfl
    obtain ⟨c, hc, hdigit⟩ := (Option.any_eq_true _ _).mp (getLast?_any_isDigit hne h)
    simp [List.getLast?_append, hc, hdigit]
  · rename_i hk
    have hbefore : ds.take k.toNat ≠ [] := by
      rw [Ne, List.take_eq_nil_iff, not_or]
      exact ⟨by omega, hne⟩
    have hhead := head?_any_isDigit hbefore fun c hc => h c (List.mem_of_mem_take hc)
    obtain ⟨c, hc, hdigit⟩ := (Option.any_eq_true _ _).mp hhead
    apply isNumeral_append
    · simp [List.head?_append, hc, hdigit]
    · rw [List.getLast?_cons]
      split
      · rfl
      · rename_i hafter
        have hafter' : ds.drop k.toNat ≠ [] := by
          rintro hnil
          rw [hnil] at hafter
          exact hafter rfl
        have hlast := getLast?_any_isDigit hafter' fun c hc => h c (List.mem_of_mem_drop hc)
        obtain ⟨e, he, hedigit⟩ := (Option.any_eq_true _ _).mp hlast
        simp [he, hedigit]

theorem isNumeral_scientific {plus : Bool} {ds : List Char} (hne : ds ≠ [])
    (h : ∀ c ∈ ds, c.isDigit = true) (e : Int) :
  isNumeral (Decimal.scientific plus ds e) = true
  := by
  have hexponent := isNumeral_toDigits e.natAbs
  rw [isNumeral, Bool.and_eq_true] at hexponent
  obtain ⟨c, hc, hdigit⟩ := (Option.any_eq_true _ _).mp hexponent.2
  unfold Decimal.scientific
  apply isNumeral_append
  · have hhead := head?_any_isDigit hne h
    split
    · exact hhead
    · exact hhead
  · simp [List.getLast?_cons, List.getLast?_append, hc, hdigit]

/-- The text of a finite number is a numeral, behind a dash when the number is negative. -/
theorem exists_isNumeral_finite (layout : Decimal.Layout) (x : Binary64) :
  ∃ body, isNumeral body = true
    ∧ (layout.finite x).toList = if x.negative then '-' :: body else body
  := by
  refine ⟨_, ?_, String.toList_ofList⟩
  split
  · rfl
  · have hne : ∀ n, Nat.toDigits 10 n ≠ [] := fun n => Nat.toDigits_ne_nil
    unfold Decimal.Layout.write
    dsimp only
    split
    · apply isNumeral_positional (hne _) (isDigit_of_mem_toDigits _)
    · apply isNumeral_scientific (hne _) (isDigit_of_mem_toDigits _)

/-- The text of an integer is a numeral, behind a dash when the integer is negative. -/
theorem exists_isNumeral_toString (n : Int) :
  ∃ body, isNumeral body = true
    ∧ (toString n).toList = if n < 0 then '-' :: body else body
  := by
  cases n with
  | ofNat m =>
      refine ⟨_, isNumeral_toDigits m, ?_⟩
      simp [Int.toString_eq_repr, Int.repr, Nat.repr]
  | negSucc m =>
      refine ⟨_, isNumeral_toDigits (m + 1), ?_⟩
      simp [Int.toString_eq_repr, Int.repr, Nat.repr, Int.negSucc_lt_zero]

/-- The first and the last character of a literal, which is that of a negative number or not. -/
structure Edges (negative : Bool) (a : List Char) : Prop where
  dash : a.head? = some '-' ↔ negative = true
  star : a.head? ≠ some '*'
  ne_nil : a ≠ []
  last : ∀ c ∈ a.getLast?, c ≠ '-' ∧ c ≠ '/'

theorem edges_of_isNumeral {a : List Char} (h : isNumeral a = true) (negative : Bool) :
  Edges negative (if negative then '-' :: a else a)
  := by
  rw [isNumeral, Bool.and_eq_true] at h
  obtain ⟨c, hc, hdigit⟩ := (Option.any_eq_true _ _).mp h.1
  obtain ⟨e, he, hedigit⟩ := (Option.any_eq_true _ _).mp h.2
  have hdash : c ≠ '-' := by
    rintro rfl
    cases hdigit
  have hstar : c ≠ '*' := by
    rintro rfl
    cases hdigit
  have hlast : e ≠ '-' ∧ e ≠ '/' := by
    constructor
    all_goals
      rintro rfl
      cases hedigit
  have hne : a ≠ [] := by
    rintro rfl
    cases hc
  cases negative with
  | false => constructor <;> simp [hc, he, hdash, hstar, hlast, hne]
  | true => constructor <;> simp [List.getLast?_cons, he, hlast]

theorem edges_quoted {c : Char} {a : List Char} (hdash : c ≠ '-') (hstar : c ≠ '*') :
  Edges false (c :: (a ++ ['\x27']))
  := by
  constructor <;> simp [hdash, hstar, List.getLast?_cons, List.getLast?_append]

theorem edges_doubleLiteral (x : Binary64) :
  Edges (x.negative && !x.isNaN) (doubleLiteral x).toList
  := by
  unfold doubleLiteral
  by_cases hnan : x.isNaN = true
  · rw [if_pos hnan, hnan]
    constructor <;> simp
  rw [if_neg hnan, Bool.eq_false_iff.mpr hnan, Bool.not_false, Bool.and_true]
  split
  · cases x.negative <;> constructor <;> simp
  · obtain ⟨body, hbody, htext⟩ := exists_isNumeral_finite Decimal.plain x
    rw [htext]
    apply edges_of_isNumeral hbody

theorem edges_literal {validated : Bool} {v : Value} {s : String}
    (h : literal validated v = .ok s) :
  Edges v.isNegative s.toList
  := by
  cases v with
  | null =>
      cases h
      constructor <;> simp [Value.isNegative]
  | integer n =>
      cases h
      obtain ⟨body, hbody, htext⟩ := exists_isNumeral_toString n.toInt
      rw [htext]
      simpa [Value.isNegative] using edges_of_isNumeral hbody (n.toInt < 0)
  | long n =>
      cases h
      obtain ⟨body, hbody, htext⟩ := exists_isNumeral_toString n.toInt
      rw [htext]
      simpa [Value.isNegative] using edges_of_isNumeral hbody (n.toInt < 0)
  | double x =>
      cases h
      apply edges_doubleLiteral
  | text t =>
      simp only [literal] at h
      split at h
      · cases h
      · cases h
        rw [quote, String.toList_ofList]
        apply edges_quoted <;> decide
  | boolean b =>
      cases h
      cases b <;> constructor <;> simp [Value.isNegative]
  | blob bytes =>
      cases h
      rw [String.toList_append, String.toList_append, List.append_assoc]
      apply edges_quoted (a := '\x27' :: (hexadecimal bytes).toList) <;> decide

/-! ### What follows a literal -/

/-- A literal can stand before every text. -/
theorem hazardFrom_literal_append {validated : Bool} {v : Value} {s : String}
    (h : literal validated v = .ok s) (b : List Char) (d : Nat) :
  hazardFrom d (tokens (s.toList ++ b)) = hazardFrom d (tokens b)
  := by
  have hharmless := harmless_literal h
  have hsettled := endsSettled_of_getLast? hharmless (edges_literal h).last
  rw [hazardFrom_tokens_append hsettled, hharmless.hazardFrom_append]

/-- The brackets of an array can stand before every text. -/
theorem hazardFrom_brackets_append (array : Bool) (b : List Char) (d : Nat) :
  hazardFrom d (tokens ((if array then ['[', ']'] else []) ++ b)) = hazardFrom d (tokens b)
  := by
  cases array <;> rfl

/-- Whether tokens begin with a placeholder whose value is negative. -/
def startsNegative : List Token → List Value → Bool
  | .placeholder _ :: _, v :: _ => v.isNegative
  | _, _ => false

/-- What is substituted begins with a dash where the text does in which it is substituted, or where
a negative number is in the place of its first placeholder; it begins with a star where the text
does. -/
theorem head?_substitute {validated : Bool} {ts : List Token} {vs : List Value} {r : List Char}
    (hts : ∀ t ∈ ts, t.text ≠ []) (h : substitute validated ts vs = .ok r) :
  (r.head? = some '-'
      ↔ startsNegative ts vs = true ∨ (ts.flatMap Token.text).head? = some '-')
    ∧ (r.head? = some '*' ↔ (ts.flatMap Token.text).head? = some '*')
  := by
  cases ts with
  | nil =>
      obtain rfl : r = [] := by simpa [substitute, eq_comm] using h
      simp [startsNegative]
  | cons t ts =>
      obtain ⟨ht, -⟩ := List.forall_mem_cons.mp hts
      rw [List.flatMap_cons, List.head?_append_of_ne_nil _ ht]
      by_cases hp : t.isPlaceholder = true
      · cases t with
        | placeholder array =>
            have hmark : (Token.placeholder array).text.head? = some '?' := by
              cases array <;> rfl
            cases vs with
            | nil =>
                rw [substitute_nil, Except.ok.injEq] at h
                rw [← h, List.flatMap_cons, List.head?_append_of_ne_nil _ ht, hmark]
                simp [startsNegative]
            | cons v vs =>
                obtain ⟨l, r', hl, -, rfl⟩ := substitute_placeholder.mp h
                have hedges := edges_literal hl
                rw [List.append_assoc, List.head?_append_of_ne_nil _ hedges.ne_nil, hmark]
                simp [startsNegative, hedges.dash, hedges.star]
        | _ => cases hp
      · obtain ⟨r', -, rfl⟩ := (substitute_cons (Bool.eq_false_iff.mpr hp)).mp h
        rw [List.head?_append_of_ne_nil _ ht]
        cases t with
        | placeholder array => exact absurd rfl hp
        | _ => simp [startsNegative]

/-! ### Dashes that meet -/

/-- Whether a dash among tokens stands directly before a placeholder whose value is negative. -/
def dashesMeet : List Token → List Value → Bool
  | [], _ => false
  | .placeholder _ :: ts, vs => dashesMeet ts vs.tail
  | t :: ts, vs => (t = .code '-' && startsNegative ts vs) || dashesMeet ts vs

theorem dashesMeet_cons {t : Token} (ht : t.isPlaceholder = false) (ts : List Token)
    (vs : List Value) :
  dashesMeet (t :: ts) vs = ((t = .code '-' && startsNegative ts vs) || dashesMeet ts vs)
  := by
  cases t with
  | placeholder array => cases ht
  | _ => rfl

/-- A token without hazard changes how many parentheses are open, and nothing else. -/
theorem exists_depth {d : Nat} {t : Token} {ts : List Token} (h : hazardFrom d (t :: ts) = none) :
  ∃ d', ∀ us, hazardFrom d (t :: us) = hazardFrom d' us
  := by
  cases t with
  | code c =>
      by_cases hsep : c = ';'
      · simp [hazardFrom, hsep] at h
      by_cases hopen : c = '('
      · use d + 1
        simp [hazardFrom, hopen]
      by_cases hclose : c = ')'
      · cases d with
        | zero => simp [hazardFrom, hclose] at h
        | succ d =>
            use d
            simp [hazardFrom, hclose]
      · use d
        simp [hazardFrom, hsep, hopen, hclose]
  | placeholder array => exact ⟨d, fun _ => rfl⟩
  | quoted text => exact ⟨d, fun _ => rfl⟩
  | unterminated text => cases h
  | lineComment text => cases h
  | blockComment text => cases h

section

variable {d : Nat} {t : Token} {ts : List Token}

/-- A token that is followed by another text than before is scanned as it was, when it does not
open a comment with that text. -/
theorem hazardFrom_text_append (ht : tokens t.text = [t]) (hazard : t.isHazard = false)
    {b : List Char} (hdash : t = .code '-' → b.head? ≠ some '-')
    (hslash : t = .code '/' → b.head? ≠ some '*') :
  hazardFrom d (tokens (t.text ++ b)) = hazardFrom d (t :: tokens b)
  := by
  by_cases hd : t = .code '-'
  · subst hd
    exact (hazardFrom_dash_cons d b).trans (if_neg (hdash rfl))
  by_cases hs : t = .code '/'
  · subst hs
    exact (hazardFrom_slash_cons d b).trans (if_neg (hslash rfl))
  · rw [hazardFrom_tokens_append (endsSettled_of_single ht hazard hd hs), ht]
    rfl

/-- No dash follows a dash of a fragment. -/
theorem head?_ne_dash (hts : tokens ((Token.code '-' :: ts).flatMap Token.text) = .code '-' :: ts)
    (h : hazardFrom d (.code '-' :: ts) = none) :
  (ts.flatMap Token.text).head? ≠ some '-'
  := by
  intro hhead
  have hcons := hazardFrom_dash_cons d (ts.flatMap Token.text)
  rw [if_pos hhead] at hcons
  change hazardFrom d (tokens ((Token.code '-' :: ts).flatMap Token.text)) = _ at hcons
  rw [hts, h] at hcons
  cases hcons

/-- No star follows a slash of a fragment. -/
theorem head?_ne_star (hts : tokens ((Token.code '/' :: ts).flatMap Token.text) = .code '/' :: ts)
    (h : hazardFrom d (.code '/' :: ts) = none) :
  (ts.flatMap Token.text).head? ≠ some '*'
  := by
  intro hhead
  have hcons := hazardFrom_slash_cons d (ts.flatMap Token.text)
  rw [if_pos hhead] at hcons
  change hazardFrom d (tokens ((Token.code '/' :: ts).flatMap Token.text)) = _ at hcons
  rw [hts, h] at hcons
  cases hcons

end

/-! ### Substitution -/

/-- What is substituted in tokens without hazard has one only where dashes meet, and then it is the
comment that they open. -/
theorem hazardFrom_substitute {validated : Bool} {ts : List Token} {vs : List Value}
    (hcount : ts.countP Token.isPlaceholder = vs.length)
    (hts : tokens (ts.flatMap Token.text) = ts) ⦃d : Nat⦄ ⦃r : List Char⦄
    (h : hazardFrom d ts = none) (hr : substitute validated ts vs = .ok r) :
  hazardFrom d (tokens r) = if dashesMeet ts vs then some .lineComment else none
  := by
  revert hts d r
  refine matched_induction ?nil ?placeholder ?other ts vs hcount
  case nil =>
    intro _ d r h hr
    obtain rfl : r = [] := by simpa [substitute, eq_comm] using hr
    exact h
  case placeholder =>
    intro array ts v vs _ ih hts d r h hr
    obtain ⟨l, r', hl, hr', rfl⟩ := substitute_placeholder.mp hr
    rw [List.append_assoc, hazardFrom_literal_append hl, hazardFrom_brackets_append]
    apply ih (tokens_flatMap_of_cons hts) h hr'
  case other =>
    intro t ts vs hp _ ih hts d r h hr
    have hsingle : ∀ u ∈ t :: ts, tokens u.text = [u] := by
      rw [← hts]
      apply tokens_text
    obtain ⟨r', hr', rfl⟩ := (substitute_cons hp).mp hr
    have hne (u : Token) (hu : u ∈ ts) : u.text ≠ [] :=
      text_ne_nil (hsingle u (List.mem_cons_of_mem t hu))
    obtain ⟨hdash, hstar⟩ := head?_substitute hne hr'
    have hmeet (ht : t = .code '-') : r'.head? = some '-' ↔ startsNegative ts vs = true := by
      subst ht
      rw [hdash, or_iff_left (head?_ne_dash hts h)]
    have hslash : t = .code '/' → r'.head? ≠ some '*' := by
      rintro rfl
      rw [Ne, hstar]
      apply head?_ne_star hts h
    rw [dashesMeet_cons hp]
    by_cases hm : t = .code '-' ∧ r'.head? = some '-'
    · obtain ⟨rfl, hhead⟩ := hm
      rw [(hmeet rfl).mp hhead]
      exact (hazardFrom_dash_cons d r').trans (if_pos hhead)
    · have hdash' (ht : t = .code '-') : r'.head? ≠ some '-' := fun hhead => hm ⟨ht, hhead⟩
      have hapart : (decide (t = .code '-') && startsNegative ts vs) = false := by
        rw [Bool.and_eq_false_imp]
        intro ht
        rw [decide_eq_true_iff] at ht
        rw [Bool.eq_false_iff, Ne, ← hmeet ht]
        apply hdash' ht
      obtain ⟨d', hd'⟩ := exists_depth h
      rw [hapart, Bool.false_or, hazardFrom_text_append (hsingle t List.mem_cons_self)
        (isHazard_of_mem h List.mem_cons_self) hdash' hslash, hd']
      apply ih (tokens_flatMap_of_cons hts) (hd' ts ▸ h) hr'

/-- A fragment that passes its check passes it with the literals of values in the place of its
placeholders too, unless a dash of the fragment stands directly before a negative number; then
what it becomes is refused for the comment in it. -/
theorem checkFragment_inlineArguments {validated : Bool} {s t : String} {args : List Value}
    (hs : checkFragment s = .ok ()) (h : inlineArguments validated s args = .ok t) :
  checkFragment t
    = if dashesMeet (tokens s.toList) args then .error (.unsafeFragment t .lineComment)
      else .ok ()
  := by
  obtain ⟨hcount, hr⟩ := inlineArguments_eq_ok_iff.mp h
  have hts : tokens ((tokens s.toList).flatMap Token.text) = tokens s.toList := by
    rw [text_tokens]
  have hazard := hazardFrom_substitute hcount hts ((checkFragment_eq_ok_iff s).mp hs) hr
  rw [checkFragment, hazard?, hazard]
  cases dashesMeet (tokens s.toList) args <;> rfl

/-- A dash before a number that is not negative, one that a blank keeps away from a negative
number, and a text that runs together with a quoted text before it are no hazard. -/
theorem checkFragment_inlineArguments_quotes :
  checkFragment "size -3 > - -4 AND (name = 'o''--' OR tag = X'00')" = .ok ()
  := by
  have hinline : inlineArguments true "size -? > - ? AND (name = 'o'? OR tag = ?)"
      [.integer 3, .integer (-4), .text "--", .blob [0]]
        = .ok "size -3 > - -4 AND (name = 'o''--' OR tag = X'00')" := by
    rfl
  rw [checkFragment_inlineArguments rfl hinline]
  rfl

/-- A dash before a placeholder and a negative number make a comment of the rest of the
fragment. -/
theorem not_checkFragment_inlineArguments :
  checkFragment "size -?" = .ok () ∧ placeholderCount "size -?" = [Value.integer (-1)].length
    ∧ ∃ t, inlineArguments true "size -?" [.integer (-1)] = .ok t ∧ checkFragment t ≠ .ok ()
  := by
  refine ⟨rfl, rfl, "size --1", rfl, ?_⟩
  intro h
  cases h

end Sql

end TypedSql
