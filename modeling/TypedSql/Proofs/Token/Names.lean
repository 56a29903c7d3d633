import Mathlib.Data.List.Induction
import Mathlib.Data.List.TakeWhile
import TypedSql.Proofs.Token.Harmless
import TypedSql.Proofs.Token.Lexemes

/-!
# Plain names

The grammar of the names that can stand in a statement without quotes: one or two simple names
with a point between them.  The check of identifiers accepts exactly the plain names, and the
scanner reads each of them, in front of whatever text, as one character of code after the other
(`checkIdentifier_plainName`).
-/

namespace TypedSql.Sql

/-! ### The grammar -/

/-- The letters of ASCII. -/
def IsLetter (c : Char) : Prop :=
  ('a' ≤ c ∧ c ≤ 'z') ∨ ('A' ≤ c ∧ c ≤ 'Z')

/-- A simple name is a letter or an underscore, and then letters, digits, underscores and dollar
signs. -/
inductive SimpleName : List Char → Prop where
  | first {c : Char} (hc : IsLetter c ∨ c = '_') : SimpleName [c]
  | next {cs : List Char} {c : Char} (h : SimpleName cs)
    (hc : IsLetter c ∨ ('0' ≤ c ∧ c ≤ '9') ∨ c = '_' ∨ c = '$') : SimpleName (cs ++ [c])

/-- A plain name is a simple name, or two with a point between them. -/
inductive PlainName : List Char → Prop where
  | simple {cs : List Char} (h : SimpleName cs) : PlainName cs
  | qualified {cs ds : List Char} (hcs : SimpleName cs) (hds : SimpleName ds) :
    PlainName (cs ++ '.' :: ds)

variable {c : Char} {cs : List Char}

theorem isAlpha_iff :
  c.isAlpha = true ↔ IsLetter c
  := by
  have hcases : c.isAlpha = true ↔ c.isUpper = true ∨ c.isLower = true := Bool.or_eq_true_iff
  have hupper : c.isUpper = true ↔ 'A' ≤ c ∧ c ≤ 'Z' := decide_eq_true_iff
  have hlower : c.isLower = true ↔ 'a' ≤ c ∧ c ≤ 'z' :=
    Bool.and_eq_true_iff.trans (and_congr decide_eq_true_iff decide_eq_true_iff)
  rw [hcases, hupper, hlower, or_comm, IsLetter]

theorem isNameStart_iff :
  isNameStart c = true ↔ IsLetter c ∨ c = '_'
  := by
  rw [isNameStart, Bool.or_eq_true, isAlpha_iff, beq_iff_eq]

theorem isNameRest_iff :
  isNameRest c = true ↔ IsLetter c ∨ ('0' ≤ c ∧ c ≤ '9') ∨ c = '_' ∨ c = '$'
  := by
  have hdigit : c.isDigit = true ↔ '0' ≤ c ∧ c ≤ '9' := by
    simp [Char.isDigit, Char.le_def]
  simp only [isNameRest, Char.isAlphanum, Bool.or_eq_true, isAlpha_iff, hdigit, beq_iff_eq,
    or_assoc]

/-- The texts that are taken for names are the simple names. -/
theorem isName_iff :
  isName cs = true ↔ SimpleName cs
  := by
  constructor
  · intro h
    induction cs using List.reverseRecOn with
    | nil => cases h
    | append_singleton cs c ih =>
        cases cs with
        | nil =>
            rw [List.nil_append, isName, Bool.and_eq_true, isNameStart_iff] at h
            exact .first h.1
        | cons d cs =>
            rw [List.cons_append, isName, List.all_append, Bool.and_eq_true, Bool.and_eq_true] at h
            obtain ⟨hd, hcs, hc⟩ := h
            apply SimpleName.next
            · apply ih
              rw [isName, hd, hcs, Bool.and_true]
            · simpa [isNameRest_iff] using hc
  · intro h
    induction h with
    | first hc => simpa [isName, isNameStart_iff] using hc
    | @next cs c _ hc ih =>
        cases cs with
        | nil => cases ih
        | cons d cs =>
            rw [isName, Bool.and_eq_true] at ih
            rw [List.cons_append, isName, List.all_append, ih.1, ih.2]
            simpa [isNameRest_iff] using hc

/-- No simple name contains a point. -/
theorem SimpleName.ne_point (h : SimpleName cs) :
  ∀ c ∈ cs, (c != '.') = true
  := by
  have hplain : ∀ c, isNameRest c = true → c ≠ '.' := by
    rintro _ hc rfl
    cases hc
  have hstart : ∀ c, isNameStart c = true → c ≠ '.' := by
    rintro _ hc rfl
    cases hc
  induction h with
  | first hc => simpa using hstart _ (isNameStart_iff.mpr hc)
  | next _ hc ih =>
      rw [List.forall_mem_append, List.forall_mem_singleton]
      exact ⟨ih, by simpa using hplain _ (isNameRest_iff.mpr hc)⟩

/-- The texts that are taken for identifiers are the plain names. -/
theorem isIdentifier_iff :
  isIdentifier cs = true ↔ PlainName cs
  := by
  rw [isIdentifier, Bool.and_eq_true, isName_iff]
  constructor
  · rintro ⟨hfirst, hsecond⟩
    have hsplit := List.takeWhile_append_dropWhile (p := (· != '.')) (l := cs)
    cases hd : cs.dropWhile (· != '.') with
    | nil =>
        rw [hd, List.append_nil] at hsplit
        rw [← hsplit]
        exact .simple hfirst
    | cons d ds =>
        have hpoint : d = '.' := by
          have hnot := List.head?_dropWhile_not (· != '.') cs
          rw [hd] at hnot
          simpa using hnot
        subst hpoint
        rw [hd] at hsplit hsecond
        rw [← hsplit]
        exact .qualified hfirst (isName_iff.mp hsecond)
  · intro h
    cases h with
    | simple h =>
        rw [List.takeWhile_eq_self_iff.mpr h.ne_point, List.dropWhile_eq_nil_iff.mpr h.ne_point]
        exact ⟨h, rfl⟩
    | @qualified cs ds hcs hds =>
        rw [List.takeWhile_append_of_pos hcs.ne_point, List.dropWhile_append_of_pos hcs.ne_point]
        exact ⟨by simpa using hcs, isName_iff.mpr hds⟩

/-! ### Lexemes -/

/-- What characters of one byte are read as, when all of them are code. -/
theorem locatedFrom_map_code (h : ∀ c ∈ cs, c.utf8Size = 1) (n : Nat) :
  locatedFrom n (cs.map .code) = cs.mapIdx fun i c => ⟨n + i, .code c⟩
  := by
  induction cs generalizing n with
  | nil => rfl
  | cons c cs ih =>
      obtain ⟨hc, hcs⟩ := List.forall_mem_cons.mp h
      rw [List.map_cons, locatedFrom, List.mapIdx_cons]
      simp only [Token.text, byteSize, hc, ih hcs, Token.lexeme?, Nat.add_zero, Nat.add_assoc,
        Nat.add_comm 1]

theorem byteSize_of_utf8Size (h : ∀ c ∈ cs, c.utf8Size = 1) :
  byteSize cs = cs.length
  := by
  induction cs with
  | nil => rfl
  | cons c cs ih =>
      obtain ⟨hc, hcs⟩ := List.forall_mem_cons.mp h
      rw [byteSize, hc, ih hcs, List.length_cons, Nat.add_comm]

theorem utf8Size_of_isNameRest (h : isNameRest c = true) :
  c.utf8Size = 1
  := by
  rw [Char.utf8Size_eq_one_iff]
  obtain (⟨-, hc⟩ | ⟨-, hc⟩) | ⟨-, hc⟩ | rfl | rfl := isNameRest_iff.mp h
  · exact UInt32.le_trans hc (by decide)
  · exact UInt32.le_trans hc (by decide)
  · exact UInt32.le_trans hc (by decide)
  · decide
  · decide

theorem SimpleName.isNameRest (h : SimpleName cs) :
  ∀ c ∈ cs, isNameRest c = true
  := by
  induction h with
  | first hc =>
      rw [List.forall_mem_singleton, isNameRest_iff]
      exact hc.imp_right fun hc => .inr (.inl hc)
  | next _ hc ih =>
      rw [List.forall_mem_append, List.forall_mem_singleton]
      exact ⟨ih, isNameRest_iff.mpr hc⟩

/-- All characters of a plain name have one byte. -/
theorem PlainName.utf8Size (h : PlainName cs) :
  ∀ c ∈ cs, c.utf8Size = 1
  := by
  cases h with
  | simple h => exact fun c hc => utf8Size_of_isNameRest (h.isNameRest c hc)
  | qualified hcs hds =>
      rw [List.forall_mem_append, List.forall_mem_cons]
      exact ⟨fun c hc => utf8Size_of_isNameRest (hcs.isNameRest c hc), by decide,
        fun c hc => utf8Size_of_isNameRest (hds.isNameRest c hc)⟩

/-- In front of any text a plain name is read as its characters. -/
theorem PlainName.tokens_append (h : PlainName cs) (t : List Char) :
  tokens (cs ++ t) = cs.map .code ++ tokens t
  := by
  have hplain := isPlain_of_isIdentifier (isIdentifier_iff.mpr h)
  exact tokens_append_of_isInert (isInert_of_isPlain hplain) t

theorem PlainName.located_append (h : PlainName cs) (t : List Char) :
  located (cs ++ t)
    = (cs.mapIdx fun i c => ⟨i, .code c⟩) ++ (located t).map (Located.shift cs.length)
  := by
  have hname : tokens cs = cs.map .code := by
    have hcs := h.tokens_append []
    rwa [List.append_nil, show tokens [] = [] from rfl, List.append_nil] at hcs
  have htext : tokens (cs ++ t) = tokens cs ++ tokens t := by
    rw [hname]
    exact h.tokens_append t
  rw [Sql.located_append htext, byteSize_of_utf8Size h.utf8Size, located, hname,
    locatedFrom_map_code h.utf8Size]
  simp only [Nat.zero_add]

/-- A plain name separates nothing, and opens and closes nothing. -/
theorem PlainName.ne_structure (h : PlainName cs) :
  ∀ c ∈ cs, c ≠ ';' ∧ c ≠ '(' ∧ c ≠ ')'
  := by
  intro c hc
  have hplain := isPlain_of_isIdentifier (isIdentifier_iff.mpr h) c hc
  refine ⟨?_, ?_, ?_⟩ <;> rintro rfl <;> cases hplain

/-! ### The check -/

theorem checkIdentifier_eq_ok_iff (s : String) :
  checkIdentifier s = .ok () ↔ PlainName s.toList
  := by
  rw [← isIdentifier_iff, checkIdentifier]
  cases isIdentifier s.toList <;> simp

theorem checkIdentifier_eq_error_iff (s : String) :
  checkIdentifier s = .error (.invalidIdentifier s) ↔ ¬ PlainName s.toList
  := by
  rw [← isIdentifier_iff, checkIdentifier]
  cases isIdentifier s.toList <;> simp

/-- A text is accepted as an identifier precisely if it is a plain name, and refused otherwise.  In
front of any text a plain name is read as one character of code after the other, none of which
separates statements or is a parenthesis, and what follows it is read as if it stood alone. -/
theorem checkIdentifier_plainName (s : String) :
  (checkIdentifier s = .ok () ↔ PlainName s.toList)
    ∧ (checkIdentifier s = .error (.invalidIdentifier s) ↔ ¬ PlainName s.toList)
    ∧ (checkIdentifier s = .ok () → ∀ t : List Char,
        tokens (s.toList ++ t) = s.toList.map .code ++ tokens t
          ∧ located (s.toList ++ t)
              = (s.toList.mapIdx fun i c => ⟨i, .code c⟩)
                ++ (located t).map (Located.shift s.toList.length)
          ∧ ∀ c ∈ s.toList, c ≠ ';' ∧ c ≠ '(' ∧ c ≠ ')')
  := by
  refine ⟨checkIdentifier_eq_ok_iff s, checkIdentifier_eq_error_iff s, fun hs t => ?_⟩
  have h := (checkIdentifier_eq_ok_iff s).mp hs
  exact ⟨h.tokens_append t, h.located_append t, h.ne_structure⟩

/-- A qualified name with a dollar sign, in front of brackets, a placeholder and a comment. -/
theorem checkIdentifier_plainName_qualified :
  checkIdentifier "_p.a$1" = .ok ()
    ∧ tokens "_p.a$1[?]=?--;".toList
        = [.code '_', .code 'p', .code '.', .code 'a', .code '$', .code '1',
          .quoted ['[', '?', ']'], .code '=', .placeholder false,
          .lineComment ['-', '-', ';']]
    ∧ located "_p.a$1[?]=?--;".toList
        = [⟨0, .code '_'⟩, ⟨1, .code 'p'⟩, ⟨2, .code '.'⟩, ⟨3, .code 'a'⟩, ⟨4, .code '$'⟩,
          ⟨5, .code '1'⟩, ⟨9, .code '='⟩, ⟨10, .placeholder false⟩, ⟨11, .lineComment⟩]
  := by
  have hname : checkIdentifier "_p.a$1" = .ok () := by decide
  obtain ⟨htokens, hlocated, -⟩ :=
    (checkIdentifier_plainName "_p.a$1").2.2 hname "[?]=?--;".toList
  exact ⟨hname, htokens, hlocated⟩

end TypedSql.Sql
