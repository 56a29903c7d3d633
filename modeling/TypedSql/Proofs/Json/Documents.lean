import Mathlib.Data.List.DropRight
import Mathlib.Data.List.Forall2
import TypedSql.Proofs.Json.Numerals
import TypedSql.Proofs.Json.Strings

/-!
# Written documents are read

A text writes a document when it is read as the document wherever a document can stand.  There is
a rule for each way of writing documents, by which the document that a text writes follows the
way in which the text is put together.  A whole text that writes a document is read as the
document: `Writes.read?`.
-/

namespace TypedSql.Json

/-- What can stand behind a document: nothing, or what goes on with an array or an object, or
ends it. -/
def Ends (r : List Char) : Prop :=
  ∀ c ∈ r.head?, c = ',' ∨ c = ']' ∨ c = '\x7d'

/-- A text writes a document when the text is read as the document, as long as more calls are
allowed than there are characters. -/
def Writes (s : String) (j : Json) : Prop :=
  ∀ n r, s.toList.length < n → Ends r → valueAt n (s.toList ++ r) = some (j, r)

variable {r : List Char}

theorem skipSpace_cons {c : Char} (h : isSpace c = false) (cs : List Char) :
  skipSpace (c :: cs) = c :: cs
  :=
  List.dropWhile_cons_of_neg (by simp [h])

theorem isSpace_comma :
  isSpace ',' = false
  :=
  rfl

theorem ends_nil :
  Ends []
  := by
  simp [Ends]

theorem ends_cons {c : Char} (h : c = ',' ∨ c = ']' ∨ c = '\x7d') (r : List Char) :
  Ends (c :: r)
  := by
  rintro d hd
  obtain rfl := Option.some.inj hd
  exact h

theorem Ends.endsNumeral (h : Ends r) :
  EndsNumeral r
  := by
  intro c hc
  obtain rfl | rfl | rfl := h c hc <;> decide

/-- At least one call is allowed. -/
theorem writes_of_succ {s : String} {j : Json}
    (h : ∀ n r, s.toList.length ≤ n → Ends r → valueAt (n + 1) (s.toList ++ r) = some (j, r)) :
  Writes s j
  := by
  intro n r hn hr
  obtain ⟨n, rfl⟩ := Nat.exists_eq_add_one_of_ne_zero (Nat.ne_zero_of_lt hn)
  exact h n r (Nat.le_of_lt_succ hn) hr

/-! ### Documents without parts -/

theorem writes_null :
  Writes "null" .null
  := by
  apply writes_of_succ
  intro n r _ _
  rfl

theorem writes_boolean (b : Bool) :
  Writes (if b then "true" else "false") (.boolean b)
  := by
  apply writes_of_succ
  intro n r _ _
  cases b <;> rfl

theorem writes_quote (s : String) :
  Writes (quote s) (.string (some s))
  := by
  apply writes_of_succ
  intro n r _ _
  have hread : valueAt (n + 1) ('\x22' :: (s.toList.flatMap escape ++ '\x22' :: r))
      = (stringText (s.toList.flatMap escape ++ '\x22' :: r)).map fun p => (.string p.1, p.2) :=
    rfl
  rw [quote, String.toList_ofList, List.cons_append, List.append_assoc, List.singleton_append,
    hread, stringText_quote]
  rfl

theorem isSpace_of_numeral {c : Char} (h : c = '-' ∨ c.isDigit = true) :
  isSpace c = false
  := by
  cases hspace : isSpace c with
  | false => rfl
  | true =>
      simp only [isSpace, Bool.or_eq_true, beq_iff_eq] at hspace
      obtain ((rfl | rfl) | rfl) | rfl := hspace <;> exact absurd h (by decide)

/-- What begins with a sign or a digit is read as a numeral. -/
theorem valueAt_numeral {c : Char} (h : c = '-' ∨ c.isDigit = true) (n : Nat) (cs : List Char) :
  valueAt (n + 1) (c :: cs) = (numeralAt (c :: cs)).map fun p => (.numeral p.1, p.2)
  := by
  have hother {d : Char} {ds : List Char} (heq : c :: cs = d :: ds)
      (hd : ¬ (d = '-' ∨ d.isDigit = true)) : False :=
    hd ((List.cons.inj heq).1 ▸ h)
  rw [valueAt, skipSpace_cons (isSpace_of_numeral h)]
  split
  case h_7 => rfl
  all_goals
    rename_i heq
    exact (hother heq (by decide)).elim

theorem writes_integer (i : Int) :
  Writes (toString i) (.numeral (.ofInt i))
  := by
  apply writes_of_succ
  intro n r _ hr
  obtain ⟨c, cs, htext, hc⟩ := exists_toString_eq_cons i
  have hread := numeralAt_toString i hr.endsNumeral
  rw [htext, List.cons_append] at hread ⊢
  rw [valueAt_numeral hc, hread]
  rfl

/-! ### Arrays -/

/-- Spaces in front of a document are skipped. -/
theorem valueAt_skipSpace (n : Nat) (cs : List Char) :
  valueAt n (skipSpace cs) = valueAt n cs
  := by
  cases n with
  | zero => rfl
  | succ n => rw [valueAt, valueAt, skipSpace, skipSpace, List.dropWhile_idempotent]

theorem elementsAt_skipSpace (n : Nat) (cs : List Char) :
  elementsAt n (skipSpace cs) = elementsAt n cs
  := by
  cases n with
  | zero => rfl
  | succ n => rw [elementsAt, elementsAt, valueAt_skipSpace]

/-- No element begins with the end of an array. -/
theorem elementsAt_bracket (n : Nat) (cs : List Char) :
  elementsAt n (']' :: cs) = none
  := by
  cases n with
  | zero => rfl
  | succ n =>
      cases n with
      | zero => rfl
      | succ n => rfl

/-- The elements of a written array are read one after the other. -/
theorem elementsAt_intercalate {s : String} {j : Json} {es : List String} {js : List Json}
    (hs : Writes s j) (h : List.Forall₂ Writes es js) (n : Nat) (r : List Char)
    (hn : (",".intercalate (s :: es)).toList.length + 1 < n) :
  elementsAt n ((",".intercalate (s :: es)).toList ++ ']' :: r) = some (j :: js, r)
  := by
  induction h generalizing s j n with
  | nil =>
      rw [String.intercalate_singleton] at hn ⊢
      obtain ⟨n, rfl⟩ := Nat.exists_eq_add_one_of_ne_zero (Nat.ne_zero_of_lt hn)
      have hread := hs n (']' :: r) (by omega) (ends_cons (by simp) r)
      rw [elementsAt, hread]
      rfl
  | @cons t i es js ht _ ih =>
      rw [String.intercalate_cons_cons, String.toList_append, String.toList_append] at hn ⊢
      have hcomma : ",".toList.length = 1 := rfl
      simp only [List.length_append] at hn
      obtain ⟨n, rfl⟩ := Nat.exists_eq_add_one_of_ne_zero (Nat.ne_zero_of_lt hn)
      have hrest := ih ht n (by omega)
      have hread := hs n (',' :: ((",".intercalate (t :: es)).toList ++ ']' :: r)) (by omega)
        (ends_cons (by simp) _)
      have htext : s.toList ++ ",".toList ++ (",".intercalate (t :: es)).toList ++ ']' :: r
          = s.toList ++ ',' :: ((",".intercalate (t :: es)).toList ++ ']' :: r) := by
        simp
      rw [htext, elementsAt, hread]
      simp only [Option.bind_eq_bind, Option.bind_some, skipSpace_cons isSpace_comma, hrest]
      rfl

/-- Elements behind an opening bracket are those of an array. -/
theorem valueAt_array {n : Nat} {cs : List Char} {es : List Json}
    (h : elementsAt n cs = some (es, r)) :
  valueAt (n + 1) ('[' :: cs) = some (.array es, r)
  := by
  have hbracket : isSpace '[' = false := rfl
  rw [← elementsAt_skipSpace] at h
  rw [valueAt]
  simp only [skipSpace_cons hbracket]
  split
  · rename_i hend
    rw [hend, elementsAt_bracket] at h
    cases h
  · rw [h]
    rfl

theorem writes_array {es : List String} {js : List Json} (h : List.Forall₂ Writes es js) :
  Writes (writeArray es) (.array js)
  := by
  apply writes_of_succ
  intro n r hn _
  have harray : (writeArray es).toList = '[' :: ((",".intercalate es).toList ++ [']']) := by
    simp [writeArray]
  have hlength : (",".intercalate es).toList.length + 1 < n := by
    rw [harray, List.length_cons, List.length_append, List.length_singleton] at hn
    omega
  rw [harray, List.cons_append, List.append_assoc, List.singleton_append]
  cases h with
  | nil => rfl
  | @cons s j es js hs hes =>
      exact valueAt_array (elementsAt_intercalate hs hes n r hlength)

/-! ### Objects -/

/-- A key and a document as a member of an object. -/
def writeMember (m : String × String) : String :=
  quote m.1 ++ ":" ++ m.2

/-- A text for a member writes a member when its key is that of the member and its text writes
the document of the member. -/
def WritesMember (m : String × String) (e : Option String × Json) : Prop :=
  e.1 = some m.1 ∧ Writes m.2 e.2

/-- Reads an object from behind a member. -/
def membersAfter (n : Nat) (e : Option String × Json) (cs : List Char) :
    Option (List (Option String × Json) × List Char) :=
  match skipSpace cs with
  | '\x7d' :: r => some ([e], r)
  | ',' :: r => do
    let (es, r) ← membersAt n r
    return (e :: es, r)
  | _ => none

/-- A written member is read, and then what follows it. -/
theorem membersAt_member {m : String × String} {e : Option String × Json} (h : WritesMember m e)
    {n : Nat} (hn : (writeMember m).toList.length < n) (hr : Ends r) :
  membersAt (n + 1) ((writeMember m).toList ++ r) = membersAfter n e r
  := by
  obtain ⟨k, v⟩ := m
  obtain ⟨key, j⟩ := e
  obtain ⟨rfl, hv⟩ := h
  have htext : (writeMember (k, v)).toList ++ r
      = '\x22' :: (k.toList.flatMap escape ++ '\x22' :: ':' :: (v.toList ++ r)) := by
    simp [writeMember, quote]
  have hlength : v.toList.length ≤ (writeMember (k, v)).toList.length := by
    rw [writeMember, String.toList_append, List.length_append]
    exact Nat.le_add_left _ _
  have hread : valueAt n (v.toList ++ r) = some (j, r) :=
    hv n r (Nat.lt_of_le_of_lt hlength hn) hr
  have hmark : isSpace '\x22' = false := rfl
  have hcolon : isSpace ':' = false := rfl
  rw [htext, membersAt]
  simp only [skipSpace_cons hmark, stringText_quote, Option.bind_eq_bind, Option.bind_some,
    skipSpace_cons hcolon, hread]
  rfl

/-- The members of a written object are read one after the other. -/
theorem membersAt_intercalate {m : String × String} {e : Option String × Json}
    {ms : List (String × String)} {es : List (Option String × Json)} (he : WritesMember m e)
    (h : List.Forall₂ WritesMember ms es) (n : Nat) (r : List Char)
    (hn : (",".intercalate ((m :: ms).map writeMember)).toList.length + 1 < n) :
  membersAt n ((",".intercalate ((m :: ms).map writeMember)).toList ++ '\x7d' :: r)
    = some (e :: es, r)
  := by
  induction h generalizing m e n with
  | nil =>
      rw [List.map_singleton, String.intercalate_singleton] at hn ⊢
      obtain ⟨n, rfl⟩ := Nat.exists_eq_add_one_of_ne_zero (Nat.ne_zero_of_lt hn)
      rw [membersAt_member he (by omega) (ends_cons (by simp) r)]
      rfl
  | @cons l d ms es hd _ ih =>
      rw [List.map_cons, List.map_cons, String.intercalate_cons_cons, ← List.map_cons,
        String.toList_append, String.toList_append] at hn ⊢
      have hcomma : ",".toList.length = 1 := rfl
      simp only [List.length_append] at hn
      obtain ⟨n, rfl⟩ := Nat.exists_eq_add_one_of_ne_zero (Nat.ne_zero_of_lt hn)
      have hrest := ih hd n (by omega)
      have htext (cs : List Char) : (writeMember m).toList ++ ",".toList ++ cs
          = (writeMember m).toList ++ ',' :: cs := by simp
      rw [List.append_assoc, htext, membersAt_member he (by omega) (ends_cons (by simp) _)]
      simp only [membersAfter, skipSpace_cons isSpace_comma, hrest]
      rfl

theorem membersAt_skipSpace (n : Nat) (cs : List Char) :
  membersAt n (skipSpace cs) = membersAt n cs
  := by
  cases n with
  | zero => rfl
  | succ n => rw [membersAt, membersAt, skipSpace, skipSpace, List.dropWhile_idempotent]

/-- No member begins with the end of an object. -/
theorem membersAt_brace (n : Nat) (cs : List Char) :
  membersAt n ('\x7d' :: cs) = none
  := by
  cases n <;> rfl

/-- Members behind an opening brace are those of an object. -/
theorem valueAt_object {n : Nat} {cs : List Char} {es : List (Option String × Json)}
    (h : membersAt n cs = some (es, r)) :
  valueAt (n + 1) ('\x7b' :: cs) = some (.object es, r)
  := by
  have hbrace : isSpace '\x7b' = false := rfl
  rw [← membersAt_skipSpace] at h
  rw [valueAt]
  simp only [skipSpace_cons hbrace]
  split
  · rename_i hend
    rw [hend, membersAt_brace] at h
    cases h
  · rw [h]
    rfl

theorem writes_object {ms : List (String × String)} {es : List (Option String × Json)}
    (h : List.Forall₂ WritesMember ms es) :
  Writes (writeObject ms) (.object es)
  := by
  apply writes_of_succ
  intro n r hn _
  have hobject : (writeObject ms).toList
      = '\x7b' :: ((",".intercalate (ms.map writeMember)).toList ++ ['\x7d']) := by
    change ("\x7b" ++ ",".intercalate (ms.map writeMember) ++ "\x7d").toList = _
    simp
  have hlength : (",".intercalate (ms.map writeMember)).toList.length + 1 < n := by
    rw [hobject, List.length_cons, List.length_append, List.length_singleton] at hn
    omega
  rw [hobject, List.cons_append, List.append_assoc, List.singleton_append]
  cases h with
  | nil => rfl
  | @cons m e ms es he hes =>
      exact valueAt_object (membersAt_intercalate he hes n r hlength)

/-! ### Whole texts -/

/-- A text that writes a document is read as the document. -/
theorem Writes.read? {s : String} {j : Json} (h : Writes s j) :
  read? s = some j
  := by
  have hread := h (2 * s.toList.length + 2) [] (by omega) ends_nil
  rw [List.append_nil] at hread
  rw [Json.read?]
  simp only [hread]
  rfl

end TypedSql.Json
