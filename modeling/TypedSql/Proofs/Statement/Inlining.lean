import TypedSql.Proofs.Statement.Alignment

/-!
# Bound values and literals

A node can be compiled with bound values or with literals.  The two texts are related by
`Statement.flatten`, which spreads the arrays of a statement out, and by `inlineArguments`,
which puts literals in the place of placeholders: together they lead from the one text to
the other.

The proof goes step by step.  Flattening the statement flattens what each step writes, and
so does putting the literals in, because the tokens of the flattened text are again cut at
the steps.
-/

namespace TypedSql.Sql

/-! ### Flattening -/

namespace Statement

theorem flattenTokens_nil (ts : List Token) :
  flattenTokens ts [] = (ts.flatMap Token.text, [])
  := by
  induction ts with
  | nil => rfl
  | cons t ts ih => cases t <;> simp [flattenTokens, ih]

/-- As many arguments as there are placeholders are flattened by themselves. -/
theorem flattenTokens_append {ts : List Token} {as : List BoundArg}
    (h : ts.countP Token.isPlaceholder = as.length) (us : List Token) (bs : List BoundArg) :
  flattenTokens (ts ++ us) (as ++ bs)
    = ((flattenTokens ts as).1 ++ (flattenTokens us bs).1,
        (flattenTokens ts as).2 ++ (flattenTokens us bs).2)
  := by
  induction ts generalizing as with
  | nil =>
      obtain rfl : as = [] := List.length_eq_zero_iff.mp h.symm
      simp [flattenTokens]
  | cons t ts ih =>
      cases t with
      | placeholder array =>
          cases as with
          | nil => simp [List.countP_cons, Token.isPlaceholder] at h
          | cons a as =>
              have h' : ts.countP Token.isPlaceholder = as.length := by
                simpa [List.countP_cons, Token.isPlaceholder] using h
              cases a <;> simp [flattenTokens, ih h']
      | _ =>
          have h' : ts.countP Token.isPlaceholder = as.length := by
            simpa [List.countP_cons, Token.isPlaceholder] using h
          simp [flattenTokens, ih h']

/-- Single values leave plain placeholders as they are. -/
theorem flattenTokens_values {ts : List Token} {vs : List Value}
    (hplain : .placeholder true ∉ ts) (h : ts.countP Token.isPlaceholder = vs.length) :
  flattenTokens ts (vs.map .value) = (ts.flatMap Token.text, vs)
  := by
  induction ts generalizing vs with
  | nil =>
      obtain rfl : vs = [] := List.length_eq_zero_iff.mp h.symm
      rfl
  | cons t ts ih =>
      obtain ⟨ht, hts⟩ := List.ne_and_not_mem_of_not_mem_cons hplain
      cases t with
      | placeholder array =>
          obtain rfl : array = false := by cases array <;> simp at ht ⊢
          cases vs with
          | nil => simp [List.countP_cons, Token.isPlaceholder] at h
          | cons v vs =>
              have h' : ts.countP Token.isPlaceholder = vs.length := by
                simpa [List.countP_cons, Token.isPlaceholder] using h
              simp [flattenTokens, ih hts h', Token.text]
      | _ =>
          have h' : ts.countP Token.isPlaceholder = vs.length := by
            simpa [List.countP_cons, Token.isPlaceholder] using h
          simp [flattenTokens, ih hts h']

theorem spread_cons (v w : Value) (vs : List Value) :
  spread (v :: w :: vs) = '?' :: ',' :: ' ' :: spread (w :: vs)
  := by
  simp [spread, List.intercalate, scalarMark]

/-- The placeholders of two elements or more. -/
theorem tokens_spread_cons (v w : Value) (vs : List Value) :
  tokens (spread (v :: w :: vs))
    = .placeholder false :: .code ',' :: .code ' ' :: tokens (spread (w :: vs))
  := by
  rw [spread_cons]
  simp [tokens, Mode.scan, Mode.step, Mode.start, Mode.restart]

theorem countP_spread (vs : List Value) :
  (tokens (spread vs)).countP Token.isPlaceholder = vs.length
  := by
  induction vs with
  | nil => decide
  | cons v vs ih =>
      cases vs with
      | nil => rfl
      | cons w vs =>
          rw [tokens_spread_cons]
          simpa [List.countP_cons, Token.isPlaceholder] using ih

theorem harmless_spread (vs : List Value) :
  Harmless (tokens (spread vs))
  := by
  induction vs with
  | nil => exact show Harmless (tokens emptyList.toList) by decide
  | cons v vs ih =>
      cases vs with
      | nil => exact show Harmless (tokens "?".toList) by decide
      | cons w vs =>
          rw [tokens_spread_cons]
          exact ih

end Statement

/-- The literals of a collection are substituted for the placeholders of its elements. -/
theorem substitute_spread {flags : Flags} (hv : flags.validates = true) {v : Value}
    {vs : List Value} (h : (Emission.literalList flags (v :: vs)).failure = none)
    (validated : Bool) :
  substitute validated (tokens (Statement.spread (v :: vs))) (v :: vs)
    = .ok (Emission.literalList flags (v :: vs)).text.toList
  := by
  induction vs generalizing v with
  | nil =>
      obtain ⟨l, hl, ht⟩ := Emission.exists_of_ofExcept h
      rw [hv] at hl
      change substitute validated [.placeholder false] [v] = _
      apply substitute_placeholder.mpr
      use l, [], literal_of_validated hl validated, rfl
      rw [Emission.literalList, ht]
      simp
  | cons w vs ih =>
      obtain ⟨hvs, l, hl⟩ := Emission.exists_of_literalList h
      rw [Statement.tokens_spread_cons, Emission.literalList_cons hl]
      rw [hv] at hl
      apply substitute_placeholder.mpr
      have hrest : substitute validated
          (.code ',' :: .code ' ' :: tokens (Statement.spread (w :: vs))) (w :: vs)
            = .ok ([','] ++ ([' '] ++ (Emission.literalList flags (w :: vs)).text.toList)) :=
        (substitute_cons rfl).mpr ⟨_, (substitute_cons rfl).mpr ⟨_, ih hvs, rfl⟩, rfl⟩
      exact ⟨l, _, literal_of_validated hl validated, hrest, by simp⟩

/-! ### Steps -/

namespace Step

/-- What a step writes with bound values when its arrays are spread out, and the values that
belong to it. -/
def flattened (s : Step) : List Char × List Value :=
  Statement.flattenTokens (tokens (s.written .bound)) (Emission.ofStep .bound s).args

/-- How what a step writes with bound values leads to what it writes with literals. -/
structure Inlines (s : Step) : Prop where
  admits : s.Admits s.flattened.1
  count : (tokens s.flattened.1).countP Token.isPlaceholder = s.flattened.2.length
  substitute : (Emission.ofStep .literals s).failure = none → ∀ validated,
    Sql.substitute validated (tokens s.flattened.1) s.flattened.2 = .ok (s.written .literals)

/-- A step without placeholders writes the same in both ways. -/
theorem inlines_of_countP_eq_zero {s : Step}
    (hcount : (tokens (s.written .bound)).countP Token.isPlaceholder = 0)
    (hargs : (Emission.ofStep .bound s).args = []) (hadmits : s.Admits (s.written .bound))
    (hsame : s.written .literals = s.written .bound) :
  s.Inlines
  := by
  have hflat : s.flattened = (s.written .bound, []) := by
    rw [flattened, hargs, Statement.flattenTokens_nil, text_tokens]
  constructor
  · rw [hflat]
    exact hadmits
  · rw [hflat]
    exact hcount
  · intro _ validated
    rw [hflat, hsame]
    simp only [substitute_nil, text_tokens]

theorem inlines_scalar {flags : Flags} (hv : flags.validates = true) {v : Value}
    (hn : v.isNull = false) :
  Inlines ⟨flags, .scalar v⟩
  := by
  have hflat : flattened ⟨flags, .scalar v⟩ = ("?".toList, [v]) := by
    rw [flattened, written, Emission.ofStep_bound hn, tokens_scalarMark]
    rfl
  constructor
  · rw [hflat]
    exact show Harmless (tokens "?".toList) by decide
  · rw [hflat, tokens_scalarMark]
    rfl
  · intro h validated
    rw [Emission.ofStep_literals hn] at h
    obtain ⟨l, hl, ht⟩ := Emission.exists_of_ofExcept h
    rw [hv] at hl
    rw [hflat, tokens_scalarMark, written, Emission.ofStep_literals hn, ht]
    apply substitute_placeholder.mpr
    refine ⟨l, [], literal_of_validated hl validated, rfl, ?_⟩
    simp

theorem inlines_list {flags : Flags} (hv : flags.validates = true) (vs : List Value) :
  Inlines ⟨flags, .list vs⟩
  := by
  have hflat : flattened ⟨flags, .list vs⟩ = (Statement.spread vs, vs) := by
    change Statement.flattenTokens (tokens "?[]".toList) [.array vs] = _
    rw [tokens_arrayMark]
    simp [Statement.flattenTokens]
  constructor
  · rw [hflat]
    apply Statement.harmless_spread vs
  · rw [hflat]
    apply Statement.countP_spread vs
  · intro h validated
    rw [hflat]
    cases vs with
    | nil =>
        simp only [substitute_nil, text_tokens]
        rfl
    | cons v vs => exact substitute_spread hv h validated

theorem inlines_condition {flags : Flags} (hv : flags.validates = true) {t : String}
    {args : List Value} (hplain : .placeholder true ∉ tokens t.toList)
    (h : (Emission.ofStep .bound ⟨flags, .condition t args⟩).failure = none) :
  Inlines ⟨flags, .condition t args⟩
  := by
  have hok := Emission.checkFragment_of_condition hv h
  rw [Emission.ofStep_condition hok] at h
  obtain ⟨hcount, heq⟩ := Emission.condition_bound h
  have hbound := (Emission.ofStep_condition hok .bound args).trans heq
  have hflat : flattened ⟨flags, .condition t args⟩ = (t.toList, args) := by
    rw [flattened, written, hbound, Statement.flattenTokens_values hplain hcount, text_tokens]
  constructor
  · rw [hflat]
    apply (checkFragment_eq_ok_iff t).mp hok
  · rw [hflat]
    exact hcount
  · intro h validated
    rw [Emission.ofStep_condition hok] at h
    obtain ⟨l, hl, ht⟩ := Emission.exists_of_ofExcept h
    rw [hv, inlineArguments_eq_ok_iff] at hl
    rw [hflat, written, Emission.ofStep_condition hok, Emission.condition, ht]
    apply substitute_of_validated hl.2 validated

end Step

/-- Where all placeholders are plain, no token is the placeholder of an array. -/
theorem placeholder_not_mem {s : String} (h : ∀ p ∈ placeholders s, p.isArray = false) :
  .placeholder true ∉ tokens s.toList
  := by
  intro hmem
  obtain ⟨p, hp, harray⟩ := exists_of_placeholder_mem hmem 0
  rw [h p hp] at harray
  cases harray

/-- A step that is written under validation leads from bound values to literals, where its
raw fragments have no placeholder and its raw conditions only plain ones. -/
theorem Step.Valid.inlines {n : Node} {s : Step} (hs : s.Valid n .bound)
    (hf : ∀ t, .fragment t ∈ n.leaves → placeholderCount t = 0)
    (hc : ∀ t args, .condition t args ∈ n.leaves → ∀ p ∈ placeholders t, p.isArray = false) :
  s.Inlines
  := by
  have hadmits : s.Admits (s.written .bound) := hs.admits_written (by simp)
  have hcount := hs.countP_written hf
  have hargs := hs.args_eq_slots 0
  have hv := hs.validates
  have h := hs.succeeds
  obtain ⟨flags, piece⟩ := s
  cases piece with
  | refusal e => cases h
  | list vs => exact inlines_list (hv rfl) vs
  | condition t args =>
      apply inlines_condition (hv rfl) (placeholder_not_mem (hc t args (hs.leaf rfl))) h
  | scalar v =>
      cases hn : v.isNull with
      | false => exact inlines_scalar (hv rfl) hn
      | true =>
          rw [Emission.ofStep_null hn] at hcount
          apply inlines_of_countP_eq_zero hcount _ hadmits
          · rw [written, written, Emission.ofStep_null hn, Emission.ofStep_null hn]
          · rw [Emission.ofStep_null hn]
            rfl
  | _ =>
      rw [hargs] at hcount
      apply inlines_of_countP_eq_zero hcount hargs hadmits rfl

/-! ### Statements -/

/-- The steps of a statement, flattened together, are flattened each by itself. -/
theorem Statement.flattenTokens_flatMap {ss : List Step}
    (h : ∀ s ∈ ss, (tokens (s.written .bound)).countP Token.isPlaceholder
      = (Emission.ofStep .bound s).args.length) :
  flattenTokens (ss.flatMap fun s => tokens (s.written .bound))
      (ss.flatMap fun s => (Emission.ofStep .bound s).args)
    = (ss.flatMap fun s => s.flattened.1, ss.flatMap fun s => s.flattened.2)
  := by
  induction ss with
  | nil => rfl
  | cons s ss ih =>
      obtain ⟨hs, hss⟩ := List.forall_mem_cons.mp h
      simp only [List.flatMap_cons]
      rw [flattenTokens_append hs, ih hss]
      rfl

/-- The literals of the values of steps, substituted together, are substituted step by
step. -/
theorem substitute_flatMap {ss : List Step} (h : ∀ s ∈ ss, s.Inlines)
    (hl : ∀ s ∈ ss, (Emission.ofStep .literals s).failure = none) (validated : Bool) :
  substitute validated (ss.flatMap fun s => tokens s.flattened.1)
      (ss.flatMap fun s => s.flattened.2)
    = .ok (ss.flatMap (Step.written .literals))
  := by
  induction ss with
  | nil => rfl
  | cons s ss ih =>
      obtain ⟨hs, hss⟩ := List.forall_mem_cons.mp h
      obtain ⟨hls, hlss⟩ := List.forall_mem_cons.mp hl
      simp only [List.flatMap_cons]
      apply substitute_append hs.count (hs.substitute hls validated) (ih hss hlss)

theorem countP_flattened {ss : List Step} (h : ∀ s ∈ ss, s.Inlines) :
  (ss.flatMap fun s => tokens s.flattened.1).countP Token.isPlaceholder
    = (ss.flatMap fun s => s.flattened.2).length
  := by
  induction ss with
  | nil => rfl
  | cons s ss ih =>
      obtain ⟨hs, hss⟩ := List.forall_mem_cons.mp h
      simp only [List.flatMap_cons, List.countP_append, List.length_append, hs.count, ih hss]

/-- The values that a piece brings along. -/
def Piece.values : Piece → List Value
  | scalar v => [v]
  | list vs => vs
  | condition _ args => args
  | text _ | identifier _ | fragment _ | refusal _ => []

/-- A piece that brings values along comes from the caller. -/
theorem Piece.isSupplied_of_mem_values {p : Piece} {v : Value} (h : v ∈ p.values) :
  p.isSupplied = true
  := by
  cases p <;> first | rfl | cases h

namespace Emission

variable {flags : Flags} {f : Failure}

theorem error_of_ofExcept {r : Except CompileError String}
    (h : (ofExcept flags r).failure = some f) :
  r = .error f.error
  := by
  cases r with
  | ok s => cases h
  | error e =>
      obtain rfl : (⟨e, flags⟩ : Failure) = f := Option.some.inj h
      rfl

theorem failure_of_append {e e' : Emission} (h : (e.append e').failure = some f) :
  e.failure = some f ∨ e'.failure = some f
  := by
  cases hf : e.failure with
  | none =>
      rw [append_of_failure_eq_none hf] at h
      apply Or.inr h
  | some g =>
      left
      simp only [append, hf] at h
      exact h

/-- A list of literals fails only at one of them. -/
theorem exists_of_literalList_failure {vs : List Value}
    (h : (literalList flags vs).failure = some f) :
  ∃ v ∈ vs, literal flags.validates v = .error f.error
  := by
  induction vs with
  | nil => cases h
  | cons v vs ih =>
      cases vs with
      | nil => exact ⟨v, List.mem_cons_self, error_of_ofExcept h⟩
      | cons w vs =>
          rcases failure_of_append h with h | h
          · exact ⟨v, List.mem_cons_self, error_of_ofExcept h⟩
          · rcases failure_of_append h with h | h
            · cases h
            · obtain ⟨u, hu, hlu⟩ := ih h
              exact ⟨u, List.mem_cons_of_mem v hu, hlu⟩

end Emission

/-- A step that is written with bound values fails with literals only at a value that has
none. -/
theorem Step.Valid.exists_of_failure {n : Node} {s : Step} (hs : s.Valid n .bound)
    {f : Failure} (h : (Emission.ofStep .literals s).failure = some f) :
  ∃ v ∈ s.piece.values, literal s.flags.validates v = .error f.error
  := by
  have hv := hs.validates
  have hbound := hs.succeeds
  obtain ⟨flags, piece⟩ := s
  cases piece with
  | scalar v =>
      cases hn : v.isNull with
      | true =>
          rw [Emission.ofStep_null hn] at h
          cases h
      | false =>
          rw [Emission.ofStep_literals hn] at h
          exact ⟨v, List.mem_singleton_self v, Emission.error_of_ofExcept h⟩
  | list vs =>
      cases vs with
      | nil => cases h
      | cons v vs => exact Emission.exists_of_literalList_failure h
  | condition t args =>
      have hok := Emission.checkFragment_of_condition (hv rfl) hbound
      rw [Emission.ofStep_condition hok] at hbound h
      obtain ⟨hcount, -⟩ := Emission.condition_bound hbound
      apply exists_of_inlineArguments_eq_error hcount (Emission.error_of_ofExcept h)
  | _ =>
      cases hbound.symm.trans h

/-- Literals in the place of the bound values of a statement give what is compiled with
literals, and compiling with literals fails only where a text contains the character NUL. -/
theorem Node.inlineArguments_flatten_compileWith {n : Node} {o : Options} {st : Statement}
    (hv : o.flags.validates = true) (hb : o.withArguments = true)
    (hf : ∀ s, .fragment s ∈ n.leaves → placeholderCount s = 0)
    (hc : ∀ s args, .condition s args ∈ n.leaves → ∀ p ∈ placeholders s, p.isArray = false)
    (h : n.compileWith o = .ok st) :
  (∀ st', n.compileWith o.inlined = .ok st' → ∀ validated,
      inlineArguments validated st.flatten.1 st.flatten.2 = .ok st'.sql)
    ∧ ∀ e, n.compileWith o.inlined = .error e →
        e = .nulInText ∧ ∃ p ∈ n.leaves, ∃ t, .text t ∈ p.values ∧ '\x00' ∈ t.toList
  := by
  have hcompiled := compiled h
  have hvalid := valid_of_mem hv hcompiled
  have htokens := tokens_compileWith hv (by simp [hb]) hcompiled
  have hargs := hcompiled.args hb
  rw [Options.binding_eq_bound hb] at hvalid htokens hargs
  constructor
  · intro st' hi validated
    have hinlined := compiled hi
    have hinlines : ∀ s ∈ n.stepsWith o, s.Inlines := fun s hs => (hvalid s hs).inlines hf hc
    have hflat : st.flatten = (String.ofList ((n.stepsWith o).flatMap fun s => s.flattened.1),
        (n.stepsWith o).flatMap fun s => s.flattened.2) := by
      have hcount := fun s hs => (hvalid s hs).countP_written hf
      rw [Statement.flatten, htokens, hargs, Statement.flattenTokens_flatMap hcount]
    have hflatTokens := (phrase_stepsWith hv n).spaced.tokens_flatMap
      fun s hs => (hinlines s hs).admits
    rw [hflat, inlineArguments_eq_ok_iff, placeholderCount, String.toList_ofList, hflatTokens,
      hinlined.sql]
    use countP_flattened hinlines
    apply substitute_flatMap hinlines hinlined.succeeds validated
  · intro e hi
    obtain ⟨s, hs, f, hfail, rfl⟩ := exists_failure_of_compileWith hi
    obtain ⟨v, hmem, hl⟩ := (hvalid s hs).exists_of_failure hfail
    obtain ⟨herror, t, rfl, hnul⟩ := exists_of_literal_eq_error hl
    use herror, s.piece
    exact ⟨(hvalid s hs).leaf (Piece.isSupplied_of_mem_values hmem), t, hmem, hnul⟩

/-- A list and a raw condition lead to the literals that are compiled directly. -/
theorem Node.inlineArguments_flatten_compileWith_list :
  inlineArguments true "(tag IN (?, ?) AND (name <> ?))" [.integer 1, .null, .text "it's"]
    = .ok "(tag IN (1, NULL) AND (name <> 'it''s'))"
  := by
  have hbound : (Node.criterion (.combination .and
        [.member (.node (.computed (.raw "tag"))) (.list [.integer 1, .null]) false,
          .raw "name <> ?" [.text "it's"]])).compileWith Options.standard.validated
      = .ok ⟨"(tag IN (?[]) AND (name <> ?))",
          [.array [.integer 1, .null], .value (.text "it's")], true⟩ := rfl
  have hliterals : (Node.criterion (.combination .and
        [.member (.node (.computed (.raw "tag"))) (.list [.integer 1, .null]) false,
          .raw "name <> ?" [.text "it's"]])).compileWith Options.standard.validated.inlined
      = .ok ⟨"(tag IN (1, NULL) AND (name <> 'it''s'))", [], true⟩ := rfl
  refine (Node.inlineArguments_flatten_compileWith (by decide) rfl ?_ ?_ hbound).1 _ hliterals
    true
  · intro s hs
    change _ ∈ [Piece.fragment "tag", .list [.integer 1, .null],
      .condition "name <> ?" [.text "it's"]] at hs
    simp at hs
    rw [hs]
    decide
  · intro s args hs
    change _ ∈ [Piece.fragment "tag", .list [.integer 1, .null],
      .condition "name <> ?" [.text "it's"]] at hs
    simp at hs
    rw [hs.1]
    decide

end TypedSql.Sql
