import TypedSql.Proofs.Statement.Inlining

/-!
# Flattened statements

Flattening a statement replaces its placeholders, each by what stands for its argument, and
leaves everything else where it is.  That is so of every statement (`Statement.replaces_flatten`).
The text that comes out has to be scanned again, however, to be bound, and what has been put into
it could make or hide placeholders together with what surrounds it.  It does not where the
statement has been compiled under validation (`Node.flatten_compileWith`): the flattened text has
plain placeholders only, one for each value, so that flattening it again changes nothing.
-/

namespace TypedSql.Sql

namespace BoundArg

/-- The values that an argument consists of. -/
def elements : BoundArg → List Value
  | value v => [v]
  | array vs => vs

/-- What stands for the placeholder of an argument when arrays are spread out. -/
def expansion : BoundArg → List Char
  | value _ => scalarMark
  | array vs => Statement.spread vs

theorem length_elements (a : BoundArg) :
  a.elements.length = a.width
  := by
  cases a <;> rfl

end BoundArg

/-! ### Replacing placeholders -/

/-- A text that begins at the offset `n` becomes another one when the text of some of its
placeholders is replaced and everything between them is kept. -/
inductive Replaces : Nat → List (Placeholder × List Char) → List Char → List Char → Prop where
  | rest (n : Nat) (a : List Char) : Replaces n [] a a
  | next {n : Nat} {p : Placeholder} {c e a b : List Char}
    {r : List (Placeholder × List Char)} (hp : p.offset = n + byteSize c)
    (h : Replaces (p.offset + byteSize (Token.placeholder p.isArray).text) r a b) :
    Replaces n ((p, e) :: r) (c ++ ((Token.placeholder p.isArray).text ++ a)) (c ++ (e ++ b))

/-- What stands before is kept. -/
theorem Replaces.append_left {n : Nat} {a b before : List Char}
    {r : List (Placeholder × List Char)} (h : Replaces (n + byteSize before) r a b) :
  Replaces n r (before ++ a) (before ++ b)
  := by
  cases h with
  | rest => exact .rest n _
  | next hp h =>
      rw [← List.append_assoc, ← List.append_assoc before]
      apply Replaces.next _ h
      rw [hp, byteSize_append, Nat.add_assoc]

namespace Statement

/-- Flattening tokens replaces placeholders as long as there are arguments. -/
theorem replaces_flattenTokens (ts : List Token) (as : List BoundArg) (n : Nat) :
  Replaces n ((placeholdersFrom n ts).zip (as.map BoundArg.expansion)) (ts.flatMap Token.text)
    (flattenTokens ts as).1
  := by
  induction ts generalizing as n with
  | nil => exact .rest n []
  | cons t ts ih =>
      cases t with
      | placeholder array =>
          cases as with
          | nil =>
              rw [flattenTokens_nil, List.map_nil, List.zip_nil_right]
              exact .rest n _
          | cons a as =>
              have hrest := ih as (n + byteSize (Token.placeholder array).text)
              have hnext := Replaces.next (p := ⟨n, array⟩) (c := []) (e := a.expansion) rfl hrest
              cases a <;> exact hnext
      | _ => exact (ih as _).append_left

/-- Flattening a statement replaces its placeholders, in their order, by what stands for its
arguments, and keeps everything else. -/
theorem replaces_flatten (st : Statement) :
  Replaces 0 ((placeholders st.sql).zip (st.args.map BoundArg.expansion)) st.sql.toList
    st.flatten.1.toList
  := by
  have h := replaces_flattenTokens (tokens st.sql.toList) st.args 0
  rw [text_tokens] at h
  simpa [flatten, placeholders] using h

/-- The values of as many arguments as there are placeholders are all kept. -/
theorem values_flattenTokens {ts : List Token} {as : List BoundArg}
    (h : ts.countP Token.isPlaceholder = as.length) :
  (flattenTokens ts as).2 = as.flatMap BoundArg.elements
  := by
  induction ts generalizing as with
  | nil =>
      obtain rfl : as = [] := List.length_eq_zero_iff.mp h.symm
      rfl
  | cons t ts ih =>
      cases t with
      | placeholder array =>
          cases as with
          | nil => simp [List.countP_cons, Token.isPlaceholder] at h
          | cons a as =>
              have h' : ts.countP Token.isPlaceholder = as.length := by
                simpa [List.countP_cons, Token.isPlaceholder] using h
              cases a <;> simp [flattenTokens, ih h', BoundArg.elements]
      | _ =>
          have h' : ts.countP Token.isPlaceholder = as.length := by
            simpa [List.countP_cons, Token.isPlaceholder] using h
          simp [flattenTokens, ih h']

theorem length_elements (st : Statement) :
  (st.args.flatMap BoundArg.elements).length = st.width
  := by
  unfold width
  induction st.args with
  | nil => rfl
  | cons a as ih =>
      rw [List.flatMap_cons, List.length_append, ih, a.length_elements, List.foldr_cons]

/-- A statement whose placeholders are plain, and have a single value each, is flat. -/
theorem flatten_values {s : String} {vs : List Value} (hplain : .placeholder true ∉ tokens s.toList)
    (hcount : placeholderCount s = vs.length) (needsValidation : Bool) :
  flatten ⟨s, vs.map .value, needsValidation⟩ = (s, vs)
  := by
  rw [flatten, flattenTokens_values hplain hcount, text_tokens, String.ofList_toList]

theorem placeholder_not_mem_spread (vs : List Value) :
  .placeholder true ∉ tokens (spread vs)
  := by
  induction vs with
  | nil => decide
  | cons v vs ih =>
      cases vs with
      | nil => exact show _ ∉ tokens "?".toList by decide
      | cons w vs =>
          rw [tokens_spread_cons]
          simpa using ih

end Statement

/-- Where no token is the placeholder of an array, all placeholders are plain. -/
theorem isArray_eq_false {ts : List Token} (h : .placeholder true ∉ ts) (n : Nat) :
  ∀ p ∈ placeholdersFrom n ts, p.isArray = false
  := by
  induction ts generalizing n with
  | nil => exact List.forall_mem_nil _
  | cons t ts ih =>
      obtain ⟨ht, hts⟩ := List.ne_and_not_mem_of_not_mem_cons h
      cases t with
      | placeholder array =>
          obtain rfl : array = false := by cases array <;> simp at ht ⊢
          exact List.forall_mem_cons.mpr ⟨rfl, ih hts _⟩
      | _ => exact ih hts _

/-! ### Compiled statements -/

/-- What a valid step writes has plain placeholders only when it is flattened, where its raw
fragments have no placeholder and its raw conditions only plain ones. -/
theorem Step.Valid.placeholder_not_mem_flattened {n : Node} {s : Step} (hs : s.Valid n .bound)
    (hf : ∀ t, .fragment t ∈ n.leaves → placeholderCount t = 0)
    (hc : ∀ t args, .condition t args ∈ n.leaves → ∀ p ∈ placeholders t, p.isArray = false) :
  .placeholder true ∉ tokens s.flattened.1
  := by
  have hv := hs.validates
  have h := hs.succeeds
  have hcount := hs.countP_written hf
  have hargs := hs.args_eq_slots 0
  have none {t : Step} (ht : (tokens (t.written .bound)).countP Token.isPlaceholder = 0)
      (hargs : (Emission.ofStep .bound t).args = []) :
      .placeholder true ∉ tokens t.flattened.1 := by
    rw [flattened, hargs, Statement.flattenTokens_nil, text_tokens]
    exact fun hmem => List.countP_eq_zero.mp ht _ hmem rfl
  obtain ⟨flags, piece⟩ := s
  cases piece with
  | refusal e => cases h
  | scalar v =>
      cases hn : v.isNull with
      | true =>
          have hnull : (Emission.ofStep .bound ⟨flags, .scalar v⟩).args = [] := by
            rw [Emission.ofStep_null hn]
            rfl
          rw [hnull] at hcount
          apply none hcount hnull
      | false =>
          rw [flattened, written, Emission.ofStep_bound hn, tokens_scalarMark]
          exact show _ ∉ tokens "?".toList by decide
  | list vs =>
      have hflat : flattened ⟨flags, .list vs⟩ = Statement.flattenTokens (tokens "?[]".toList)
          [.array vs] := rfl
      rw [hflat, tokens_arrayMark]
      simpa [Statement.flattenTokens] using Statement.placeholder_not_mem_spread vs
  | condition t args =>
      have hok := Emission.checkFragment_of_condition (hv rfl) h
      have hplain := placeholder_not_mem (hc t args (hs.leaf rfl))
      rw [Emission.ofStep_condition hok] at h
      obtain ⟨hargs, heq⟩ := Emission.condition_bound h
      rw [flattened, written, Emission.ofStep_condition hok, heq,
        Statement.flattenTokens_values hplain hargs, text_tokens]
      exact hplain
  | _ =>
      rw [hargs] at hcount
      apply none hcount hargs

/-- Flattening a statement that is compiled under validation replaces its placeholders by what
stands for their arguments, with the values of these in their order, and leaves plain
placeholders only, one for each value; flattening it once more changes nothing. -/
theorem Node.flatten_compileWith {n : Node} {o : Options} {st : Statement}
    (hv : o.flags.validates = true) (hb : o.withArguments = true)
    (hf : ∀ s, .fragment s ∈ n.leaves → placeholderCount s = 0)
    (hc : ∀ s args, .condition s args ∈ n.leaves → ∀ p ∈ placeholders s, p.isArray = false)
    (h : n.compileWith o = .ok st) :
  placeholderCount st.sql = st.args.length
    ∧ Replaces 0 ((placeholders st.sql).zip (st.args.map BoundArg.expansion)) st.sql.toList
        st.flatten.1.toList
    ∧ st.flatten.2 = st.args.flatMap BoundArg.elements
    ∧ st.flatten.2.length = st.width
    ∧ (∀ p ∈ placeholders st.flatten.1, p.isArray = false)
    ∧ placeholderCount st.flatten.1 = st.flatten.2.length
    ∧ ∀ needsValidation,
        Statement.flatten ⟨st.flatten.1, st.flatten.2.map .value, needsValidation⟩ = st.flatten
  := by
  have hcompiled := compiled h
  have hvalid := valid_of_mem hv hcompiled
  have htokens := tokens_compileWith hv (by simp [hb]) hcompiled
  have hargs := hcompiled.args hb
  rw [Options.binding_eq_bound hb] at hvalid htokens hargs
  have hinlines : ∀ s ∈ n.stepsWith o, s.Inlines := fun s hs => (hvalid s hs).inlines hf hc
  have hwritten := fun s hs => (hvalid s hs).countP_written hf
  -- the flattened statement consists of the flattened steps, and so do its tokens
  have hflat : st.flatten = (String.ofList ((n.stepsWith o).flatMap fun s => s.flattened.1),
      (n.stepsWith o).flatMap fun s => s.flattened.2) := by
    rw [Statement.flatten, htokens, hargs, Statement.flattenTokens_flatMap hwritten]
  have hflatTokens : tokens st.flatten.1.toList
      = (n.stepsWith o).flatMap fun s => tokens s.flattened.1 := by
    rw [hflat, String.toList_ofList]
    apply (phrase_stepsWith hv n).spaced.tokens_flatMap fun s hs => (hinlines s hs).admits
  have hcount : placeholderCount st.sql = st.args.length := by
    rw [placeholderCount, htokens, hargs, List.countP_flatMap, List.length_flatMap]
    exact congrArg List.sum (List.map_congr_left hwritten)
  have hvalues : st.flatten.2 = st.args.flatMap BoundArg.elements :=
    Statement.values_flattenTokens hcount
  have hplain : .placeholder true ∉ tokens st.flatten.1.toList := by
    rw [hflatTokens, List.mem_flatMap]
    rintro ⟨s, hs, hmem⟩
    exact (hvalid s hs).placeholder_not_mem_flattened hf hc hmem
  have hflatCount : placeholderCount st.flatten.1 = st.flatten.2.length := by
    rw [placeholderCount, hflatTokens, hflat]
    exact countP_flattened hinlines
  refine ⟨hcount, st.replaces_flatten, hvalues, ?_, isArray_eq_false hplain 0, hflatCount, ?_⟩
  · rw [hvalues, st.length_elements]
  · exact Statement.flatten_values hplain hflatCount

/-- A list of three values is spread out, an empty one becomes a query without rows, and what
looks like a placeholder between apostrophes stays. -/
theorem Node.flatten_compileWith_lists :
  Statement.flatten ⟨"('?[]' IN (?[]) AND tag IN (?[]))",
      [.array [.integer 1, .integer 2, .integer 3], .array []], true⟩
      = ("('?[]' IN (?, ?, ?) AND tag IN (SELECT NULL WHERE 0))",
          [.integer 1, .integer 2, .integer 3])
    ∧ Statement.flatten ⟨"('?[]' IN (?, ?, ?) AND tag IN (SELECT NULL WHERE 0))",
        [.value (.integer 1), .value (.integer 2), .value (.integer 3)], true⟩
      = ("('?[]' IN (?, ?, ?) AND tag IN (SELECT NULL WHERE 0))",
          [.integer 1, .integer 2, .integer 3])
  := by
  have hcompile : (Node.criterion (.combination .and
        [.member (.node (.computed (.raw "'?[]'")))
            (.list [.integer 1, .integer 2, .integer 3]) false,
          .member (.node (.computed (.raw "tag"))) (.list []) false])).compileWith
        Options.standard.validated
      = .ok ⟨"('?[]' IN (?[]) AND tag IN (?[]))",
          [.array [.integer 1, .integer 2, .integer 3], .array []], true⟩ := rfl
  have hleaves (p : Piece) (hp : p ∈ (Node.criterion (.combination .and
        [.member (.node (.computed (.raw "'?[]'")))
            (.list [.integer 1, .integer 2, .integer 3]) false,
          .member (.node (.computed (.raw "tag"))) (.list []) false])).leaves) :
      p ∈ [Piece.fragment "'?[]'", .list [.integer 1, .integer 2, .integer 3], .fragment "tag",
        .list []] := hp
  have hflatten := Node.flatten_compileWith (by decide) rfl
    (fun s hs => by
      have hs' := hleaves _ hs
      simp at hs'
      rcases hs' with rfl | rfl <;> decide)
    (fun s args hs => by simpa using hleaves _ hs) hcompile
  have hfirst : Statement.flatten ⟨"('?[]' IN (?[]) AND tag IN (?[]))",
        [.array [.integer 1, .integer 2, .integer 3], .array []], true⟩
      = ("('?[]' IN (?, ?, ?) AND tag IN (SELECT NULL WHERE 0))",
          [.integer 1, .integer 2, .integer 3]) := rfl
  use hfirst
  have hagain := hflatten.2.2.2.2.2.2 true
  rw [hfirst] at hagain
  exact hagain

end TypedSql.Sql
