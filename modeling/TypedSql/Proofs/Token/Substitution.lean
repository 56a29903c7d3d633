import Mathlib.Tactic.Common
import TypedSql.Sql.Fragment

/-!
# Substitution of literals

The placeholders of a fragment are replaced by the literals of values.  Checking the literals
only refuses some of them, and the substitution of two lists of tokens, one after the other,
is that of each of them.
-/

namespace TypedSql.Sql

/-! ### Literals -/

/-- The check of a literal only refuses, it does not change the literal. -/
theorem literal_of_validated {v : Value} {s : String} (h : literal true v = .ok s)
    (validated : Bool) :
  literal validated v = .ok s
  := by
  cases v with
  | text t =>
      simp only [literal, Bool.true_and] at h ⊢
      split at h
      · cases h
      · rename_i hnul
        rw [Bool.eq_false_iff.mpr hnul, Bool.and_false]
        exact h
  | _ => exact h

/-- A value without a literal is a text that contains the character NUL. -/
theorem exists_of_literal_eq_error {validated : Bool} {v : Value} {e : CompileError}
    (h : literal validated v = .error e) :
  e = .nulInText ∧ ∃ s, v = .text s ∧ '\x00' ∈ s.toList
  := by
  cases v with
  | text t =>
      simp only [literal] at h
      split at h
      · rename_i hnul
        simp only [Bool.and_eq_true, List.contains_iff_mem] at hnul
        cases h
        exact ⟨rfl, t, rfl, hnul.2⟩
      · cases h
  | _ => cases h

/-! ### Substituting -/

theorem substitute_placeholder {validated array : Bool} {ts : List Token} {v : Value}
    {vs : List Value} {c : List Char} :
  substitute validated (.placeholder array :: ts) (v :: vs) = .ok c
    ↔ ∃ l r, literal validated v = .ok l ∧ substitute validated ts vs = .ok r
        ∧ c = l.toList ++ (if array then ['[', ']'] else []) ++ r
  := by
  cases hl : literal validated v with
  | error e => simp [substitute, hl, bind, Except.bind]
  | ok l =>
      cases hr : substitute validated ts vs with
      | error e => simp [substitute, hl, hr, bind, Except.bind]
      | ok r => simp [substitute, hl, hr, bind, Except.bind, pure, Except.pure, eq_comm]

theorem substitute_cons {validated : Bool} {t : Token} (ht : t.isPlaceholder = false)
    {ts : List Token} {vs : List Value} {c : List Char} :
  substitute validated (t :: ts) vs = .ok c
    ↔ ∃ r, substitute validated ts vs = .ok r ∧ c = t.text ++ r
  := by
  cases t with
  | placeholder array => cases ht
  | _ => cases hr : substitute validated ts vs <;> simp [substitute, hr, eq_comm]

/-- Tokens and as many values as there are placeholders among them are taken apart from the front:
each placeholder takes the next value. -/
@[elab_as_elim]
theorem matched_induction {motive : List Token → List Value → Prop} (nil : motive [] [])
    (placeholder : ∀ array ts v vs, ts.countP Token.isPlaceholder = vs.length → motive ts vs →
      motive (.placeholder array :: ts) (v :: vs))
    (other : ∀ t ts vs, t.isPlaceholder = false → ts.countP Token.isPlaceholder = vs.length →
      motive ts vs → motive (t :: ts) vs)
    (ts : List Token) (vs : List Value) (h : ts.countP Token.isPlaceholder = vs.length) :
  motive ts vs
  := by
  induction ts generalizing vs with
  | nil =>
      obtain rfl : vs = [] := List.length_eq_zero_iff.mp h.symm
      exact nil
  | cons t ts ih =>
      cases ht : t.isPlaceholder with
      | false =>
          have hts : ts.countP Token.isPlaceholder = vs.length := by
            simpa [List.countP_cons, ht] using h
          apply other t ts vs ht hts (ih vs hts)
      | true =>
          obtain ⟨array, rfl⟩ : ∃ array, t = .placeholder array := by
            cases t with
            | placeholder array => exact ⟨array, rfl⟩
            | _ => cases ht
          cases vs with
          | nil => simp [ht] at h
          | cons v vs =>
              have hts : ts.countP Token.isPlaceholder = vs.length := by
                simpa [List.countP_cons, ht] using h
              apply placeholder array ts v vs hts (ih vs hts)

/-- As many values as there are placeholders are substituted by themselves. -/
theorem substitute_append {validated : Bool} {ts us : List Token} {vs ws : List Value}
    {a b : List Char} (h : ts.countP Token.isPlaceholder = vs.length)
    (ha : substitute validated ts vs = .ok a) (hb : substitute validated us ws = .ok b) :
  substitute validated (ts ++ us) (vs ++ ws) = .ok (a ++ b)
  := by
  induction ts generalizing vs a with
  | nil =>
      obtain rfl : vs = [] := List.length_eq_zero_iff.mp h.symm
      obtain rfl : a = [] := by simpa [substitute, eq_comm] using ha
      exact hb
  | cons t ts ih =>
      by_cases ht : t.isPlaceholder = true
      · cases t with
        | placeholder array =>
            cases vs with
            | nil => simp [List.countP_cons, Token.isPlaceholder] at h
            | cons v vs =>
                obtain ⟨l, r, hl, hr, rfl⟩ := substitute_placeholder.mp ha
                have h' : ts.countP Token.isPlaceholder = vs.length := by
                  simpa [List.countP_cons, Token.isPlaceholder] using h
                apply substitute_placeholder.mpr
                use l, r ++ b, hl, ih h' hr
                simp
        | _ => cases ht
      · have ht' := Bool.eq_false_iff.mpr ht
        obtain ⟨r, hr, rfl⟩ := (substitute_cons ht').mp ha
        have h' : ts.countP Token.isPlaceholder = vs.length := by
          simpa [List.countP_cons, ht] using h
        apply (substitute_cons ht').mpr
        use r ++ b, ih h' hr
        simp

/-- Where nothing is substituted the text stays as it is. -/
theorem substitute_nil (validated : Bool) (ts : List Token) :
  substitute validated ts [] = .ok (ts.flatMap Token.text)
  := by
  induction ts with
  | nil => rfl
  | cons t ts ih => cases t <;> simp [substitute, ih]

/-- The check of literals only refuses, it does not change the text. -/
theorem substitute_of_validated {ts : List Token} {vs : List Value} {c : List Char}
    (h : substitute true ts vs = .ok c) (validated : Bool) :
  substitute validated ts vs = .ok c
  := by
  induction ts generalizing vs c with
  | nil => exact h
  | cons t ts ih =>
      cases t with
      | placeholder array =>
          cases vs with
          | nil =>
              rw [substitute_nil] at h ⊢
              exact h
          | cons v vs =>
              obtain ⟨l, r, hl, hr, hc⟩ := substitute_placeholder.mp h
              apply substitute_placeholder.mpr
              use l, r, literal_of_validated hl validated, ih hr, hc
      | _ =>
          obtain ⟨r, hr, hc⟩ := (substitute_cons rfl).mp h
          apply (substitute_cons rfl).mpr
          use r, ih hr, hc

/-- A substitution fails only at a value without a literal. -/
theorem exists_of_substitute_eq_error {validated : Bool} {ts : List Token} {vs : List Value}
    {e : CompileError} (h : substitute validated ts vs = .error e) :
  ∃ v ∈ vs, literal validated v = .error e
  := by
  induction ts generalizing vs with
  | nil => simp [substitute] at h
  | cons t ts ih =>
      cases t with
      | placeholder array =>
          cases vs with
          | nil => simp [substitute_nil] at h
          | cons v vs =>
              cases hl : literal validated v with
              | error e' =>
                  simp [substitute, hl, bind, Except.bind] at h
                  use v, List.mem_cons_self
                  rw [hl, h]
              | ok l =>
                  cases hr : substitute validated ts vs with
                  | ok r => simp [substitute, hl, hr, bind, Except.bind, pure, Except.pure] at h
                  | error e' =>
                      simp [substitute, hl, hr, bind, Except.bind] at h
                      rw [h] at hr
                      obtain ⟨w, hw, hlw⟩ := ih hr
                      use w, List.mem_cons_of_mem v hw
      | _ =>
          cases hr : substitute validated ts vs with
          | ok r => simp [substitute, hr] at h
          | error e' =>
              simp [substitute, hr] at h
              rw [h] at hr
              apply ih hr

/-- A fragment takes as many values as it has placeholders, each of which has a literal. -/
theorem inlineArguments_eq_ok_iff {validated : Bool} {s t : String} {args : List Value} :
  inlineArguments validated s args = .ok t
    ↔ placeholderCount s = args.length
        ∧ substitute validated (tokens s.toList) args = .ok t.toList
  := by
  simp only [inlineArguments]
  by_cases hcount : (tokens s.toList).countP Token.isPlaceholder = args.length
  · simp only [placeholderCount, hcount, if_true, true_and]
    cases hr : substitute validated (tokens s.toList) args with
    | error e => simp [Except.map]
    | ok r =>
        simp only [Except.map, Except.ok.injEq]
        constructor
        · rintro rfl
          simp
        · rintro rfl
          simp
  · simp [placeholderCount, hcount]

/-- A fragment with as many values as placeholders fails only at a value without a
literal. -/
theorem exists_of_inlineArguments_eq_error {validated : Bool} {s : String}
    {args : List Value} {e : CompileError} (hcount : placeholderCount s = args.length)
    (h : inlineArguments validated s args = .error e) :
  ∃ v ∈ args, literal validated v = .error e
  := by
  simp only [placeholderCount] at hcount
  simp only [inlineArguments, hcount, if_true] at h
  cases hr : substitute validated (tokens s.toList) args with
  | ok r => simp [hr, Except.map] at h
  | error e' =>
      simp only [hr, Except.map, Except.error.injEq] at h
      rw [h] at hr
      apply exists_of_substitute_eq_error hr

/-- Without values a fragment stays as it is. -/
theorem inlineArguments_nil {validated : Bool} {s t : String}
    (h : inlineArguments validated s [] = .ok t) :
  t = s
  := by
  obtain ⟨-, hs⟩ := inlineArguments_eq_ok_iff.mp h
  rw [substitute_nil, text_tokens, Except.ok.injEq] at hs
  apply (String.toList_inj.mp hs).symm

end TypedSql.Sql
