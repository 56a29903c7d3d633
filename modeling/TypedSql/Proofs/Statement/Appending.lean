import TypedSql.Proofs.Statement.Inlining

/-!
# Appending to a builder

What a single piece of the caller adds to a builder, whatever the builder has accumulated before.

When values are bound, a piece adds as many placeholders as arguments, apart from raw SQL without
arguments, whose placeholders have nothing bound to them (`Builder.placeholderCount_appendPiece`).

A raw condition can be appended with bound values, flattened and given its literals afterwards, or
be appended with literals at once.  Both lead to the same text where all of its placeholders are
plain, and to different texts where one of them is for an array
(`Builder.inlineArguments_flatten_condition`).
-/

namespace TypedSql.Sql

/-! ### What a piece adds -/

namespace Builder

variable {b : Builder} {p : Piece}

/-- What appending a piece to a builder writes. -/
def appended (b : Builder) (p : Piece) : Emission :=
  Emission.ofStep b.binding ⟨b.flags, p⟩

theorem appendPiece_eq (b : Builder) (p : Piece) :
  b.appendPiece p = (b.add (b.appended p), (b.appended p).failure.map Failure.error)
  := by
  have hsteps : Emission.ofSteps b.binding ((b.context false).piece p) = b.appended p :=
    Emission.append_empty _
  rw [appendPiece, append, hsteps]

theorem failure_appended (h : (b.appendPiece p).2 = none) :
  (b.appended p).failure = none
  := by
  rw [appendPiece_eq] at h
  exact Option.map_eq_none_iff.mp h

/-- A piece that does not fail is added at the end, and the flags stay. -/
theorem appendPiece_of_failure_eq_none (h : (b.appended p).failure = none) :
  b.appendPiece p
    = ({ b with
          text := b.text ++ (b.appended p).text
          args := b.args.map (· ++ (b.appended p).args) }, none)
  := by
  rw [appendPiece_eq, add, h]
  rfl

theorem binding_eq_bound {old : List BoundArg} (h : b.args = some old) :
  b.binding = .bound
  := by
  rw [binding, h]
  rfl

end Builder

/-! ### Placeholders and arguments -/

/-- The number of placeholders of a piece for which nothing is bound, which are those of raw SQL
without arguments. -/
def Piece.unbound : Piece → Nat
  | fragment s => placeholderCount s
  | text _ | identifier _ | scalar _ | list _ | condition _ _ | refusal _ => 0

/-- What is written for a piece of the caller under validation has a placeholder for each argument
that is bound, and beside these the ones for which nothing is bound. -/
theorem Emission.placeholderCount_ofStep {flags : Flags} {p : Piece}
    (hv : flags.validates = true) (hp : p.isSupplied = true)
    (h : (ofStep .bound ⟨flags, p⟩).failure = none) :
  placeholderCount (ofStep .bound ⟨flags, p⟩).text
    = (ofStep .bound ⟨flags, p⟩).args.length + p.unbound
  := by
  cases p with
  | text t => cases hp
  | refusal e => cases hp
  | identifier name =>
      obtain ⟨hok, ht⟩ := check_of_checked hv h
      rw [ofStep, ht, args_checked, placeholderCount,
        tokens_of_isInert (isInert_of_isPlain (isPlain_of_checkIdentifier hok))]
      apply countP_map_code
  | fragment t =>
      obtain ⟨-, ht⟩ := check_of_checked hv h
      rw [ofStep, ht, args_checked, List.length_nil, Nat.zero_add]
      rfl
  | scalar v =>
      cases hn : v.isNull with
      | true =>
          rw [ofStep_null hn, ofText, placeholderCount, tokens_null]
          apply countP_map_code
      | false =>
          rw [ofStep_bound hn, placeholderCount, tokens_scalarMark]
          rfl
  | list vs =>
      change placeholderCount "?[]" = _
      rw [placeholderCount, tokens_arrayMark]
      rfl
  | condition t args =>
      have hok := checkFragment_of_condition hv h
      rw [ofStep_condition hok] at h ⊢
      obtain ⟨hcount, heq⟩ := condition_bound h
      rw [heq, List.length_map, hcount]
      rfl

/-- When values are bound under validation, a piece of the caller that is appended adds a
placeholder for each argument that it binds.  Raw SQL without arguments, which binds none, adds its
placeholders all the same. -/
theorem Builder.placeholderCount_appendPiece {b : Builder} {old : List BoundArg} {p : Piece}
    (hb : b.args = some old) (hv : b.flags.validates = true) (hp : p.isSupplied = true)
    (h : (b.appendPiece p).2 = none) :
  ∃ text pushed,
    (b.appendPiece p).1 = { b with text := b.text ++ text, args := some (old ++ pushed) }
      ∧ placeholderCount text = pushed.length + p.unbound
  := by
  have hnone := failure_appended h
  refine ⟨(b.appended p).text, (b.appended p).args, ?_, ?_⟩
  · rw [appendPiece_of_failure_eq_none hnone, hb]
    rfl
  · unfold appended at hnone ⊢
    rw [binding_eq_bound hb] at hnone ⊢
    apply Emission.placeholderCount_ofStep hv hp hnone

/-- A question mark in quotes is no placeholder, and a null is bound like any other value. -/
theorem Builder.placeholderCount_appendPiece_condition :
  ∃ text pushed,
    ((Builder.mk .latest "SELECT ?, " (some [.value (.integer 1)]) .validation).appendPiece
        (.condition "tag = '?' OR size > ?" [.null])).1
      = ⟨.latest, "SELECT ?, " ++ text, some ([.value (.integer 1)] ++ pushed), .validation⟩
    ∧ placeholderCount text = pushed.length
  := by
  apply Builder.placeholderCount_appendPiece rfl (by decide) rfl rfl

/-- The placeholder of raw SQL without arguments is added, and nothing is bound to it. -/
theorem Builder.not_placeholderCount_appendPiece :
  (Builder.mk .latest "" (some []) .validation).appendPiece (.fragment "age > ?")
      = (⟨.latest, "age > ?", some [], .validation⟩, none)
    ∧ placeholderCount "age > ?" ≠ ([] : List BoundArg).length
  := by
  constructor
  · rfl
  · decide

/-! ### Bound values and literals -/

theorem placeholder_mem_of_mem {ts : List Token} {n : Nat} {p : Placeholder}
    (h : p ∈ placeholdersFrom n ts) :
  .placeholder p.isArray ∈ ts
  := by
  induction ts generalizing n with
  | nil => cases h
  | cons t ts ih =>
      cases t with
      | placeholder array =>
          rcases List.mem_cons.mp h with rfl | h
          · apply List.mem_cons_self
          · exact List.mem_cons_of_mem _ (ih h)
      | _ => exact List.mem_cons_of_mem _ (ih h)

/-- Single values leave the question mark of each placeholder. -/
theorem Statement.length_flattenTokens_values {ts : List Token} {vs : List Value}
    (h : ts.countP Token.isPlaceholder = vs.length) :
  (flattenTokens ts (vs.map .value)).1.length + 2 * ts.count (.placeholder true)
      = (ts.flatMap Token.text).length
    ∧ (flattenTokens ts (vs.map .value)).2 = vs
  := by
  refine matched_induction ?nil ?placeholder ?other ts vs h
  case nil => exact ⟨rfl, rfl⟩
  case placeholder =>
    rintro array ts v vs - ⟨hlength, hvalues⟩
    cases array <;>
      simp [flattenTokens, hvalues, ← hlength, Token.text, scalarMark, arrayMark] <;>
      omega
  case other =>
    rintro t ts vs ht - ⟨hlength, hvalues⟩
    cases t with
    | placeholder array => cases ht
    | _ =>
        simp [flattenTokens, hvalues, ← hlength]
        omega

/-- The number of characters of the literals of values. -/
def literalsLength (validated : Bool) : List Value → Nat
  | [] => 0
  | v :: vs =>
    match literal validated v with
    | .ok l => l.toList.length + literalsLength validated vs
    | .error _ => literalsLength validated vs

/-- Each literal takes the place of one character, the question mark of its placeholder. -/
theorem length_substitute {validated : Bool} {ts : List Token} {vs : List Value}
    (hcount : ts.countP Token.isPlaceholder = vs.length) ⦃r : List Char⦄
    (h : substitute validated ts vs = .ok r) :
  r.length + vs.length
    = (ts.flatMap Token.text).length + literalsLength validated vs
  := by
  revert r
  refine matched_induction ?nil ?placeholder ?other ts vs hcount
  case nil =>
    intro r h
    obtain rfl : r = [] := by simpa [substitute, eq_comm] using h
    rfl
  case placeholder =>
    intro array ts v vs _ ih r h
    obtain ⟨l, r', hl, hr', rfl⟩ := substitute_placeholder.mp h
    have hlength : literalsLength validated (v :: vs)
        = l.toList.length + literalsLength validated vs := by
      simp only [literalsLength, hl]
    have htext : (Token.text (.placeholder array)).length
        = (if array then ['[', ']'] else []).length + 1 := by
      cases array <;> rfl
    have hrest := ih hr'
    simp only [List.flatMap_cons, List.length_append, List.length_cons, hlength, htext]
    omega
  case other =>
    intro t ts vs ht _ ih r h
    obtain ⟨r', hr', rfl⟩ := (substitute_cons ht).mp h
    have hrest := ih hr'
    simp only [List.flatMap_cons, List.length_append]
    omega

namespace Builder

variable {b b' : Builder} {old : List BoundArg} {s : String} {args : List Value}

/-- A raw condition is added to bound values as it stands, with a value for each placeholder. -/
theorem appendPiece_condition_bound (hb : b.args = some old) (hs : checkFragment s = .ok ())
    (hcount : placeholderCount s = args.length) :
  b.appendPiece (.condition s args)
    = ({ b with text := b.text ++ s, args := some (old ++ args.map .value) }, none)
  := by
  have hwrites : b.appended (.condition s args) = ⟨s, args.map .value, none⟩ := by
    rw [appended, binding_eq_bound hb, Emission.ofStep_condition hs, Emission.condition,
      if_pos hcount]
  rw [appendPiece_of_failure_eq_none] <;> rw [hwrites]
  rw [hb]
  rfl

/-- Among literals a raw condition becomes the text with its values in place. -/
theorem appendPiece_condition_literals (hb : b.args = none) (hs : checkFragment s = .ok ())
    {t : String} :
  b.appendPiece (.condition s args) = ({ b with text := b.text ++ t }, none)
    ↔ inlineArguments b.flags.validates s args = .ok t
  := by
  have hwrites : b.appended (.condition s args)
      = .ofExcept b.flags (inlineArguments b.flags.validates s args) := by
    rw [appended, binding, hb, Emission.ofStep_condition hs]
    rfl
  rw [appendPiece_eq, hwrites]
  cases inlineArguments b.flags.validates s args with
  | error e => simp [Emission.ofExcept, Emission.fail]
  | ok u =>
      simp [Emission.ofExcept, Emission.ofText, add, hb]

/-- What a raw condition adds to bound values, with its arrays spread out and the literals of its
values in place, is what it adds among literals, if all of its placeholders are plain.  If one is
for an array then it is not, since the spread placeholder has lost the brackets which stay behind
the literal. -/
theorem inlineArguments_flatten_condition (hb : b.args = some old) (hb' : b'.args = none)
    (hs : checkFragment s = .ok ()) (hcount : placeholderCount s = args.length) :
  ∃ st : Statement,
    b.appendPiece (.condition s args)
        = ({ b with text := b.text ++ st.sql, args := some (old ++ st.args) }, none)
      ∧ ((∀ p ∈ placeholders s, p.isArray = false) → ∀ t,
          inlineArguments b'.flags.validates st.flatten.1 st.flatten.2 = .ok t
            ↔ b'.appendPiece (.condition s args) = ({ b' with text := b'.text ++ t }, none))
      ∧ ((∃ p ∈ placeholders s, p.isArray = true) → ∀ t,
          b'.appendPiece (.condition s args) = ({ b' with text := b'.text ++ t }, none) →
            inlineArguments b'.flags.validates st.flatten.1 st.flatten.2 ≠ .ok t)
  := by
  use ⟨s, args.map .value, b.flags.validates⟩
  obtain ⟨hlength, hvalues⟩ := Statement.length_flattenTokens_values hcount
  refine ⟨appendPiece_condition_bound hb hs hcount, ?_, ?_⟩
  · intro hplain t
    have hflat : (Statement.mk s (args.map .value) b.flags.validates).flatten = (s, args) := by
      rw [Statement.flatten, Statement.flattenTokens_values (placeholder_not_mem hplain) hcount,
        text_tokens, String.ofList_toList]
    rw [hflat, appendPiece_condition_literals hb' hs]
  · rintro ⟨p, hp, harray⟩ t happend hflat
    have hinline := (appendPiece_condition_literals hb' hs).mp happend
    obtain ⟨-, hr⟩ := inlineArguments_eq_ok_iff.mp hinline
    obtain ⟨hcount', hr'⟩ := inlineArguments_eq_ok_iff.mp hflat
    have hlost : 0 < (tokens s.toList).count (.placeholder true) := by
      rw [← harray]
      apply List.count_pos_iff.mpr (placeholder_mem_of_mem hp)
    have hone := length_substitute hcount hr
    have htwo := length_substitute hcount' hr'
    rw [text_tokens] at hlength hone htwo
    simp only [Statement.flatten, String.toList_ofList, hvalues] at htwo
    omega

/-- A question mark in quotes and a null do not come between the two ways. -/
theorem inlineArguments_flatten_condition_quotes :
  ∃ st : Statement,
    (Builder.mk .latest "SELECT ?, " (some [.value (.integer 1)]) .validation).appendPiece
          (.condition "tag = '?' OR size - ? > ?" [.null, .integer 3])
        = (⟨.latest, "SELECT ?, " ++ st.sql, some ([.value (.integer 1)] ++ st.args),
            .validation⟩, none)
      ∧ inlineArguments true st.flatten.1 st.flatten.2 = .ok "tag = '?' OR size - NULL > 3"
  := by
  obtain ⟨st, happend, hplain, -⟩ := @inlineArguments_flatten_condition
    ⟨.latest, "SELECT ?, ", some [.value (.integer 1)], .validation⟩
    ⟨.latest, "SELECT 1, ", none, .validation⟩ _
    "tag = '?' OR size - ? > ?" [.null, .integer 3] rfl rfl rfl rfl
  use st, happend
  apply (hplain (by decide) _).mpr rfl

/-- The brackets of a placeholder for an array are kept only among literals. -/
theorem not_inlineArguments_flatten_condition :
  checkFragment "size IN (?[])" = .ok ()
    ∧ placeholderCount "size IN (?[])" = [Value.integer 1].length
    ∧ (Builder.mk .latest "" (some []) .none).appendPiece (.condition "size IN (?[])" [.integer 1])
        = (⟨.latest, "size IN (?[])", some [.value (.integer 1)], .none⟩, none)
    ∧ inlineArguments false
          (Statement.mk "size IN (?[])" [.value (.integer 1)] false).flatten.1
          (Statement.mk "size IN (?[])" [.value (.integer 1)] false).flatten.2
        = .ok "size IN (1)"
    ∧ (Builder.mk .latest "" none .none).appendPiece (.condition "size IN (?[])" [.integer 1])
        = (⟨.latest, "size IN (1[])", none, .none⟩, none)
  :=
  ⟨rfl, rfl, rfl, rfl, rfl⟩

end Builder

end TypedSql.Sql
