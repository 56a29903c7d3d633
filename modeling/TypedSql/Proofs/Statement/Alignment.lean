import TypedSql.Proofs.Token.Lexemes
import TypedSql.Proofs.Tree.Written

/-!
# Placeholders and arguments

When values are bound, a statement has as many placeholders as arguments, and the argument
number `i` belongs to the placeholder number `i`.  The placeholders are found by scanning the
whole text of the statement, while the arguments are collected step by step.  What ties them
together are the slots: the placeholders that a step writes at an offset, each with the
argument that is pushed for it.
-/

namespace TypedSql.Sql

/-! ### Offsets -/

theorem placeholdersFrom_append (n : Nat) (ts us : List Token) :
  placeholdersFrom n (ts ++ us)
    = placeholdersFrom n ts ++ placeholdersFrom (n + byteSize (ts.flatMap Token.text)) us
  := by
  induction ts generalizing n with
  | nil => simp [placeholdersFrom, byteSize]
  | cons t ts ih =>
      have h := ih (n + byteSize t.text)
      cases t <;>
        simp only [List.cons_append, placeholdersFrom, h, List.flatMap_cons, byteSize_append,
          Nat.add_assoc]

/-- The placeholders of a text followed by others. -/
theorem placeholdersFrom_tokens_append (n : Nat) (cs : List Char) (us : List Token) :
  placeholdersFrom n (tokens cs ++ us)
    = placeholdersFrom n (tokens cs) ++ placeholdersFrom (n + byteSize cs) us
  := by
  rw [placeholdersFrom_append, text_tokens]

theorem length_placeholdersFrom (n : Nat) (ts : List Token) :
  (placeholdersFrom n ts).length = ts.countP Token.isPlaceholder
  := by
  induction ts generalizing n with
  | nil => rfl
  | cons t ts ih => cases t <;> simp [placeholdersFrom, Token.isPlaceholder, List.countP_cons, ih]

theorem placeholdersFrom_eq_nil {ts : List Token} (h : ts.countP Token.isPlaceholder = 0)
    (n : Nat) :
  placeholdersFrom n ts = []
  := by
  apply List.length_eq_zero_iff.mp
  rw [length_placeholdersFrom, h]

theorem exists_of_placeholder_mem {ts : List Token} {array : Bool}
    (h : .placeholder array ∈ ts) (n : Nat) :
  ∃ p ∈ placeholdersFrom n ts, p.isArray = array
  := by
  induction ts generalizing n with
  | nil => cases h
  | cons t ts ih =>
      rcases List.mem_cons.mp h with rfl | h
      · exact ⟨⟨n, array⟩, List.mem_cons_self, rfl⟩
      · obtain ⟨p, hp, hpa⟩ := ih h (n + byteSize t.text)
        use p
        refine ⟨?_, hpa⟩
        cases t with
        | placeholder _ => exact List.mem_cons_of_mem _ hp
        | _ => exact hp

theorem countP_map_code (a : List Char) :
  (a.map Token.code).countP Token.isPlaceholder = 0
  := by
  simp [Token.isPlaceholder]

/-! ### Slots -/

/-- The placeholders that are written with a piece at the offset `n` when values are bound,
each with the argument that is pushed for it. -/
def Piece.slots (n : Nat) : Piece → List (Placeholder × BoundArg)
  | text _ | identifier _ | fragment _ | refusal _ => []
  | scalar v => if v.isNull then [] else [(⟨n, false⟩, .value v)]
  | list vs => [(⟨n, true⟩, .array vs)]
  | condition s args => (placeholdersFrom n (tokens s.toList)).zip (args.map .value)

/-- The slots of steps, the first of which is written at the offset `n`. -/
def slotsFrom (n : Nat) : List Step → List (Placeholder × BoundArg)
  | [] => []
  | s :: ss => s.piece.slots n ++ slotsFrom (n + byteSize (s.written .bound)) ss

/-- An array is pushed only for the placeholder of an array. -/
theorem Piece.isArray_of_mem_slots {p : Piece} {n : Nat} {q : Placeholder} {vs : List Value}
    (h : (q, .array vs) ∈ p.slots n) :
  q.isArray = true
  := by
  cases p with
  | list ws =>
      simp only [slots, List.mem_singleton, Prod.mk.injEq] at h
      rw [h.1]
  | scalar v =>
      cases hn : v.isNull <;> simp [slots, hn] at h
  | condition s args =>
      have hmem := (List.of_mem_zip h).2
      simp at hmem
  | _ => cases h

theorem isArray_of_mem_slotsFrom {ss : List Step} {n : Nat} {q : Placeholder}
    {vs : List Value} (h : (q, .array vs) ∈ slotsFrom n ss) :
  q.isArray = true
  := by
  induction ss generalizing n with
  | nil => cases h
  | cons s ss ih =>
      rcases List.mem_append.mp h with h | h
      · apply Piece.isArray_of_mem_slots h
      · apply ih h

/-- The arguments that a step pushes are those of its slots. -/
theorem Step.Valid.args_eq_slots {n : Node} {s : Step} (hs : s.Valid n .bound) (k : Nat) :
  (Emission.ofStep .bound s).args = (s.piece.slots k).map Prod.snd
  := by
  have hv := hs.validates
  have h := hs.succeeds
  obtain ⟨flags, piece⟩ := s
  cases piece with
  | text t => rfl
  | identifier t => exact Emission.args_checked _ _ _
  | fragment t => exact Emission.args_checked _ _ _
  | refusal e => cases h
  | list vs => rfl
  | scalar v =>
      cases hn : v.isNull with
      | true =>
          rw [Emission.ofStep_null hn]
          simp [Emission.ofText, Piece.slots, hn]
      | false =>
          rw [Emission.ofStep_bound hn]
          simp [Piece.slots, hn]
  | condition t args =>
      have hok := Emission.checkFragment_of_condition (hv rfl) h
      rw [Emission.ofStep_condition hok] at h ⊢
      obtain ⟨hcount, heq⟩ := Emission.condition_bound h
      rw [heq, Piece.slots, List.map_snd_zip]
      rw [length_placeholdersFrom, List.length_map]
      apply Nat.le_of_eq hcount.symm

/-- The placeholders of what a validated step writes are those of its slots. -/
theorem Step.Valid.placeholders_eq_slots {n : Node} {s : Step} (hs : s.Valid n .bound)
    (hf : ∀ t, .fragment t ∈ n.leaves → placeholderCount t = 0) (k : Nat) :
  placeholdersFrom k (tokens (s.written .bound)) = (s.piece.slots k).map Prod.fst
  := by
  have hv := hs.validates
  have h := hs.succeeds
  obtain ⟨flags, piece⟩ := s
  cases piece with
  | text t =>
      change placeholdersFrom k (tokens t.toList) = []
      rw [tokens_of_isInert (hs.inert t rfl)]
      apply placeholdersFrom_eq_nil (countP_map_code _) k
  | identifier name =>
      obtain ⟨hok, ht⟩ := Emission.check_of_checked (hv rfl) h
      change placeholdersFrom k (tokens (Emission.checked _ _ _).text.toList) = []
      rw [ht, tokens_of_isInert (isInert_of_isPlain (isPlain_of_checkIdentifier hok))]
      apply placeholdersFrom_eq_nil (countP_map_code _) k
  | fragment t =>
      obtain ⟨-, ht⟩ := Emission.check_of_checked (hv rfl) h
      change placeholdersFrom k (tokens (Emission.checked _ _ _).text.toList) = []
      rw [ht]
      apply placeholdersFrom_eq_nil (hf t (hs.leaf rfl)) k
  | refusal e => cases h
  | list vs =>
      change placeholdersFrom k (tokens "?[]".toList) = _
      rw [tokens_arrayMark]
      rfl
  | scalar v =>
      cases hn : v.isNull with
      | true =>
          simp only [Step.written, Emission.ofStep_null hn, Emission.ofText, tokens_null,
            Piece.slots, hn, if_true]
          apply placeholdersFrom_eq_nil (countP_map_code _) k
      | false =>
          simp only [Step.written, Emission.ofStep_bound hn, tokens_scalarMark, Piece.slots, hn,
            Bool.false_eq_true, if_false]
          rfl
  | condition t args =>
      have hok := Emission.checkFragment_of_condition (hv rfl) h
      rw [Emission.ofStep_condition hok] at h
      obtain ⟨hcount, heq⟩ := Emission.condition_bound h
      rw [Step.written, Emission.ofStep_condition hok, heq, Piece.slots, List.map_fst_zip]
      rw [length_placeholdersFrom, List.length_map]
      apply Nat.le_of_eq hcount

/-- A validated step writes as many placeholders as it pushes arguments. -/
theorem Step.Valid.countP_written {n : Node} {s : Step} (hs : s.Valid n .bound)
    (hf : ∀ t, .fragment t ∈ n.leaves → placeholderCount t = 0) :
  (tokens (s.written .bound)).countP Token.isPlaceholder
    = (Emission.ofStep .bound s).args.length
  := by
  rw [← length_placeholdersFrom 0, hs.placeholders_eq_slots hf, hs.args_eq_slots 0,
    List.length_map, List.length_map]

/-- The placeholders of valid steps, found in one text after the other, are those of their
slots. -/
theorem placeholdersFrom_flatMap {n : Node} {ss : List Step}
    (hs : ∀ s ∈ ss, s.Valid n .bound)
    (hf : ∀ t, .fragment t ∈ n.leaves → placeholderCount t = 0) (k : Nat) :
  placeholdersFrom k (ss.flatMap fun s => tokens (s.written .bound))
    = (slotsFrom k ss).map Prod.fst
  := by
  induction ss generalizing k with
  | nil => rfl
  | cons s ss ih =>
      obtain ⟨h, hss⟩ := List.forall_mem_cons.mp hs
      rw [List.flatMap_cons, placeholdersFrom_tokens_append, h.placeholders_eq_slots hf,
        ih hss, slotsFrom, List.map_append]

/-- The arguments of valid steps are those of their slots. -/
theorem args_flatMap {n : Node} {ss : List Step} (hs : ∀ s ∈ ss, s.Valid n .bound) (k : Nat) :
  (ss.flatMap fun s => (Emission.ofStep .bound s).args) = (slotsFrom k ss).map Prod.snd
  := by
  induction ss generalizing k with
  | nil => rfl
  | cons s ss ih =>
      obtain ⟨h, hss⟩ := List.forall_mem_cons.mp hs
      rw [List.flatMap_cons, h.args_eq_slots k, ih hss, slotsFrom, List.map_append]

theorem Options.binding_eq_bound {o : Options} (h : o.withArguments = true) :
  o.binding = .bound
  := by
  simp [binding, h]

/-- In a statement that is compiled with bound values under validation, placeholders and
arguments are aligned: there are as many of the ones as of the others, the placeholder
number `i` is the one that was written when the argument number `i` was pushed, arrays
belong to `?[]`, and every plain `?` has a single value. -/
theorem Node.aligned_compileWith {n : Node} {o : Options} {st : Statement}
    (hv : o.flags.validates = true) (hb : o.withArguments = true)
    (hf : ∀ s, .fragment s ∈ n.leaves → placeholderCount s = 0)
    (h : n.compileWith o = .ok st) :
  placeholderCount st.sql = st.args.length
    ∧ (placeholders st.sql).zip st.args = slotsFrom 0 (n.stepsWith o)
    ∧ ∀ (i : Nat) (p : Placeholder) (a : BoundArg), (placeholders st.sql)[i]? = some p →
        st.args[i]? = some a → (∀ vs, a = .array vs → p.isArray = true)
          ∧ (p.isArray = false → ∃ v, a = .value v)
  := by
  have hcompiled := compiled h
  have hvalid := valid_of_mem hv hcompiled
  have hp := congrArg (placeholdersFrom 0) (tokens_compileWith hv (by simp [hb]) hcompiled)
  have ha := hcompiled.args hb
  rw [Options.binding_eq_bound hb] at hvalid hp ha
  rw [placeholdersFrom_flatMap hvalid hf] at hp
  rw [args_flatMap hvalid 0] at ha
  change placeholders st.sql = _ at hp
  have hzip : (placeholders st.sql).zip st.args = slotsFrom 0 (n.stepsWith o) := by
    rw [hp, ha, ← List.unzip_fst, ← List.unzip_snd, List.zip_unzip]
  refine ⟨?_, hzip, ?_⟩
  · have hlength := congrArg List.length hp
    rw [placeholders, length_placeholdersFrom, List.length_map] at hlength
    rw [placeholderCount, hlength, ha, List.length_map]
  · intro i p a hpi hai
    have hmem : (p, a) ∈ slotsFrom 0 (n.stepsWith o) := by
      rw [← hzip]
      apply List.mem_of_getElem?
      rw [List.getElem?_zip_eq_some]
      exact ⟨hpi, hai⟩
    have harray (vs : List Value) (hvs : a = .array vs) : p.isArray = true := by
      subst hvs
      apply isArray_of_mem_slotsFrom hmem
    use harray
    intro hplain
    cases a with
    | value v => exact ⟨v, rfl⟩
    | array vs =>
        rw [harray vs rfl] at hplain
        cases hplain

/-- A membership of a quoted question mark in a list, and a condition with a placeholder. -/
def Criterion.quotedMark : Criterion :=
  .combination .and
    [.member (.node (.computed (.raw "'?'"))) (.list [.integer 1, .integer 2]) false,
      .raw "size > ?" [.integer 3]]

/-- A question mark between apostrophes is no placeholder, so that the arguments of the list
and of the raw condition belong to the placeholders that follow. -/
theorem Node.aligned_compileWith_quoted_mark :
  (Node.criterion .quotedMark).compileWith Options.standard.validated
      = .ok ⟨"('?' IN (?[]) AND (size > ?))",
          [.array [.integer 1, .integer 2], .value (.integer 3)], true⟩
    ∧ placeholderCount "('?' IN (?[]) AND (size > ?))" = 2
    ∧ (placeholders "('?' IN (?[]) AND (size > ?))").zip
        [.array [.integer 1, .integer 2], .value (.integer 3)]
      = [(⟨9, true⟩, BoundArg.array [.integer 1, .integer 2]),
          (⟨26, false⟩, BoundArg.value (.integer 3))]
  := by
  have hcompile : (Node.criterion .quotedMark).compileWith Options.standard.validated
      = .ok ⟨"('?' IN (?[]) AND (size > ?))",
          [.array [.integer 1, .integer 2], .value (.integer 3)], true⟩ := rfl
  have haligned := Node.aligned_compileWith (by decide) rfl (fun s hs => by
    change _ ∈ [Piece.fragment "'?'", .list [.integer 1, .integer 2],
      .condition "size > ?" [.integer 3]] at hs
    simp at hs
    rw [hs]
    decide) hcompile
  use hcompile, haligned.1
  rw [haligned.2.1]
  rfl

end TypedSql.Sql
