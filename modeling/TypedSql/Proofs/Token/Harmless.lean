import TypedSql.Proofs.Token.Juncture
import TypedSql.Sql.Emission

/-!
# Harmless texts

A list of tokens is harmless when it has no hazard: it has no separator, comment or
unterminated quote, and its parentheses match.  Harmless tokens can be put anywhere among
others without changing the hazard of the whole (`Harmless.hazardFrom_append`).

Fragments that pass their check are exactly the harmless ones, and the characters of
identifiers that pass theirs are all scanned as code.
-/

namespace TypedSql.Sql

/-- Tokens without a hazard. -/
def Harmless (ts : List Token) : Prop :=
  hazardFrom 0 ts = none

instance (ts : List Token) : Decidable (Harmless ts) :=
  inferInstanceAs (Decidable (hazardFrom 0 ts = none))

/-- Tokens that close the `k` parentheses open before them, and are without hazard, can be
left out. -/
theorem hazardFrom_append {ts : List Token} {k : Nat} (h : hazardFrom k ts = none) (d : Nat)
    (us : List Token) :
  hazardFrom (d + k) (ts ++ us) = hazardFrom d us
  := by
  induction ts generalizing k with
  | nil =>
      obtain rfl : k = 0 := by
        by_contra hk
        simp [hazardFrom, hk] at h
      rfl
  | cons t ts ih =>
      cases t with
      | code c =>
          simp only [List.cons_append, hazardFrom] at h ⊢
          by_cases hsep : c = ';'
          · simp [hsep] at h
          by_cases hopen : c = '('
          · simp only [hopen] at h ⊢
            apply ih (k := k + 1) h
          by_cases hclose : c = ')'
          · subst hclose
            cases k with
            | zero => cases h
            | succ k => exact ih (k := k) h
          · simp only [hsep, hopen, hclose, if_false] at h ⊢
            apply ih h
      | placeholder array => exact ih h
      | quoted text => exact ih h
      | unterminated text => cases h
      | lineComment text => cases h
      | blockComment text => cases h

theorem Harmless.hazardFrom_append {ts : List Token} (h : Harmless ts) (d : Nat)
    (us : List Token) :
  hazardFrom d (ts ++ us) = hazardFrom d us
  := Sql.hazardFrom_append h d us

/-- Tokens with the same hazard under every number of open parentheses have the same hazard
after any others. -/
theorem hazardFrom_append_congr {us vs : List Token}
    (h : ∀ d, hazardFrom d us = hazardFrom d vs) (ts : List Token) (d : Nat) :
  hazardFrom d (ts ++ us) = hazardFrom d (ts ++ vs)
  := by
  induction ts generalizing d with
  | nil => exact h d
  | cons t ts ih =>
      cases t with
      | code c => cases d <;> simp only [List.cons_append, hazardFrom, ih]
      | _ => simp only [List.cons_append, hazardFrom, ih]

theorem Harmless.append {ts us : List Token} (ht : Harmless ts) (hu : Harmless us) :
  Harmless (ts ++ us)
  := (ht.hazardFrom_append 0 us).trans hu

/-- Harmless tokens inside of others leave them harmless. -/
theorem Harmless.insert {ts us vs : List Token} (hu : Harmless us) (h : Harmless (ts ++ vs)) :
  Harmless (ts ++ (us ++ vs))
  := (hazardFrom_append_congr (fun d => hu.hazardFrom_append d vs) ts 0).trans h

/-- Characters of code that are neither separators nor parentheses are harmless. -/
theorem harmless_map_code {a : List Char} (h : ∀ c ∈ a, c ≠ ';' ∧ c ≠ '(' ∧ c ≠ ')') :
  Harmless (a.map .code)
  := by
  induction a with
  | nil => rfl
  | cons c a ih =>
      obtain ⟨⟨hsep, hopen, hclose⟩, ha⟩ := List.forall_mem_cons.mp h
      simpa [Harmless, hazardFrom, hsep, hopen, hclose] using ih ha

theorem harmless_of_isPlain {a : List Char} (h : ∀ c ∈ a, isPlain c = true) :
  Harmless (tokens a)
  := by
  rw [tokens_of_isInert (isInert_of_isPlain h)]
  apply harmless_map_code
  intro c hc
  have hp := h c hc
  simp [isPlain] at hp
  exact hp.2.2.2.2.2

/-! ### Ends -/

/-- Whether a token is a comment or an unterminated quote. -/
def Token.isHazard : Token → Bool
  | unterminated _ | lineComment _ | blockComment _ => true
  | code _ | placeholder _ | quoted _ => false

theorem isHazard_of_mem {ts : List Token} {d : Nat} (h : hazardFrom d ts = none) {t : Token}
    (ht : t ∈ ts) :
  t.isHazard = false
  := by
  induction ts generalizing d with
  | nil => cases ht
  | cons u ts ih =>
      cases u with
      | code c =>
          rcases List.mem_cons.mp ht with rfl | ht
          · rfl
          · simp only [hazardFrom] at h
            repeat' split at h
            · cases h
            · apply ih h ht
            · cases h
            · apply ih h ht
            · apply ih h ht
      | placeholder array =>
          rcases List.mem_cons.mp ht with rfl | ht
          · rfl
          · apply ih h ht
      | quoted text =>
          rcases List.mem_cons.mp ht with rfl | ht
          · rfl
          · apply ih h ht
      | unterminated text => cases h
      | lineComment text => cases h
      | blockComment text => cases h

/-- A text that ends inside of quotes or of a comment has a token that says so. -/
theorem Mode.exists_isHazard_finish {m : Mode} (h : m.isOutside = false) :
  ∃ t ∈ m.finish, t.isHazard = true
  := by
  cases m with
  | questionBracket => exact ⟨.unterminated ['['], by simp [finish], rfl⟩
  | quote close read => exact ⟨_, List.mem_singleton_self _, rfl⟩
  | line read => exact ⟨_, List.mem_singleton_self _, rfl⟩
  | block star read => exact ⟨_, List.mem_singleton_self _, rfl⟩
  | _ => cases h

theorem endsOutside_of_harmless {a : List Char} (h : Harmless (tokens a)) :
  endsOutside a = true
  := by
  by_contra ho
  obtain ⟨t, ht, hazard⟩ := Mode.exists_isHazard_finish (Bool.eq_false_iff.mpr ho)
  have hmem : t ∈ tokens a := by
    rw [tokens, Mode.scan_eq]
    apply List.mem_append_right _ ht
  rw [isHazard_of_mem h hmem] at hazard
  cases hazard

/-! ### Fragments and identifiers -/

theorem checkFragment_eq_ok_iff (s : String) :
  checkFragment s = .ok () ↔ Harmless (tokens s.toList)
  := by
  unfold checkFragment hazard? Harmless
  cases hazardFrom 0 (tokens s.toList) <;> simp

theorem isPlain_of_isNameRest {c : Char} (h : isNameRest c = true) :
  isPlain c = true
  := by
  by_contra hp
  simp only [isPlain, isMark, List.contains_cons, Bool.not_or, Bool.and_eq_true] at hp
  have hc : c ∈ ['\x27', '\x22', '\x60', '[', '-', '/', '?', ';', '(', ')'] := by
    by_contra hc
    simp at hc
    simp [hc] at hp
  simp only [List.mem_cons, List.not_mem_nil, or_false] at hc
  rcases hc with rfl | rfl | rfl | rfl | rfl | rfl | rfl | rfl | rfl | rfl <;> cases h

theorem isPlain_of_isName {cs : List Char} (h : isName cs = true) :
  ∀ c ∈ cs, isPlain c = true
  := by
  cases cs with
  | nil => simp
  | cons c cs =>
      simp only [isName, Bool.and_eq_true, List.all_eq_true] at h
      obtain ⟨hstart, hrest⟩ := h
      have hc : isNameRest c = true := by
        simp only [isNameStart, Bool.or_eq_true, beq_iff_eq] at hstart
        simp only [isNameRest, Char.isAlphanum, Bool.or_eq_true, beq_iff_eq]
        rcases hstart with h | h
        · apply Or.inl (Or.inl (Or.inl h))
        · apply Or.inl (Or.inr h)
      rw [List.forall_mem_cons]
      exact ⟨isPlain_of_isNameRest hc, fun d hd => isPlain_of_isNameRest (hrest d hd)⟩

/-- The characters of an accepted identifier are scanned as code. -/
theorem isPlain_of_isIdentifier {cs : List Char} (h : isIdentifier cs = true) :
  ∀ c ∈ cs, isPlain c = true
  := by
  simp only [isIdentifier, Bool.and_eq_true] at h
  obtain ⟨hfirst, hsecond⟩ := h
  rw [← List.takeWhile_append_dropWhile (p := (· != '.')) (l := cs)]
  rw [List.forall_mem_append]
  constructor
  · apply isPlain_of_isName hfirst
  · cases hd : cs.dropWhile (· != '.') with
    | nil => simp
    | cons d ds =>
        rw [hd] at hsecond
        have hpoint : d = '.' := by
          have hnot := List.head?_dropWhile_not (· != '.') cs
          rw [hd] at hnot
          simpa using hnot
        subst hpoint
        rw [List.forall_mem_cons]
        exact ⟨by decide, isPlain_of_isName hsecond⟩

theorem isPlain_of_checkIdentifier {s : String} (h : checkIdentifier s = .ok ()) :
  ∀ c ∈ s.toList, isPlain c = true
  := by
  apply isPlain_of_isIdentifier
  by_contra hs
  simp [checkIdentifier, hs] at h

/-! ### Texts in the place of values -/

theorem tokens_null :
  tokens "NULL".toList = "NULL".toList.map .code
  := by
  decide

theorem tokens_scalarMark :
  tokens "?".toList = [.placeholder false]
  := by
  decide

theorem tokens_arrayMark :
  tokens "?[]".toList = [.placeholder true]
  := by
  decide

end TypedSql.Sql
