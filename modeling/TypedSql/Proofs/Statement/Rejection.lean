import TypedSql.Proofs.Statement.Request
import TypedSql.Proofs.Tree.Parallel

/-!
# Validation only refuses

Validation checks what is written and changes nothing of it.  A node that is compiled with
validation in force throughout has the same steps as without, each with validation added to its
flags: a query that asks for validation asks for something that is there already.  Under
validation a step writes what it writes without it, or else it is refused.

So a compilation that succeeds under validation gives the same text and arguments without it,
and one that succeeds only without it fails under validation at a piece that does not pass its
check (`Node.build_union_validation`).
-/

namespace TypedSql.Sql

/-! ### Steps under validation -/

/-- The same step with validation in force. -/
def Step.validating (s : Step) : Step :=
  ⟨s.flags.union .validation, s.piece⟩

/-- Validation in force around a query is in force inside of it, whether or not the query asks
for it. -/
theorem Context.validating_inside (ctx : Context) (validated : Bool) :
  ctx.validating.inside validated = (ctx.inside validated).validating
  := by
  have hinside := Flags.union_validation_remove_topLevel ctx.flags
  cases validated with
  | false => simp only [Context.inside, Context.validating, hinside, Bool.false_eq_true, if_false]
  | true => simp only [Context.inside, Context.validating, hinside, if_true]

theorem piecewise_validating :
  Piecewise (fun ctx ctx' => ctx' = ctx.validating)
    fun ss ss' => ss' = ss.map Step.validating
  := by
  constructor
  · rfl
  · rintro ss _ ts _ rfl rfl
    rw [List.map_append]
  · rintro ctx _ rfl p
    rfl

theorem parallel_validating :
  Parallel (fun ctx ctx' => ctx' = ctx.validating) (fun _ => True)
    fun ss ss' => ss' = ss.map Step.validating
  := by
  constructor
  · apply piecewise_validating
  · rintro ctx _ rfl
    symm
    apply Flags.contains_topLevel_union_validation
  · rintro ctx _ rfl validated
    apply ctx.validating_inside
  · rintro ctx _ rfl ss ss' - hs
    apply piecewise_validating.checking rfl rfl hs
  · rintro ctx _ rfl o - ss ss' hs
    apply piecewise_validating.orderTerm rfl (.inr rfl) hs
  · rintro ctx _ rfl i - f g hs
    apply piecewise_validating.insertedRows rfl (.inr rfl) hs

/-- With validation in force a node has the same steps, all with validation in force. -/
theorem Node.steps_validating (n : Node) (ctx : Context) :
  n.steps ctx.validating = (n.steps ctx).map Step.validating
  := by
  apply parallel_validating.steps_node rfl
  intro r _
  trivial

/-! ### Refusals -/

/-- The errors by which a check refuses what it is given. -/
def CompileError.IsRefusal (e : CompileError) : Prop :=
  e.code = .unsafeFragment ∨ e.code = .invalidIdentifier ∨ e.code = .invalidLiteral

theorem isRefusal_of_checkFragment {s : String} {e : CompileError}
    (h : checkFragment s = .error e) :
  e.IsRefusal
  := by
  unfold checkFragment at h
  split at h
  · cases h
    exact .inl rfl
  · cases h

theorem isRefusal_of_checkIdentifier {s : String} {e : CompileError}
    (h : checkIdentifier s = .error e) :
  e.IsRefusal
  := by
  unfold checkIdentifier at h
  split at h
  · cases h
  · cases h
    exact .inr (.inl rfl)

theorem isRefusal_of_literal {validated : Bool} {v : Value} {e : CompileError}
    (h : literal validated v = .error e) :
  e.IsRefusal
  := by
  obtain ⟨rfl, -⟩ := exists_of_literal_eq_error h
  exact .inr (.inr rfl)

/-- The emission `f` is checked in `e`: either nothing is changed, or something is refused. -/
structure Emission.Checks (e f : Emission) : Prop where
  eq_of_succeeds (h : e.failure = none) : e = f
  isRefusal_of_fails (h : f.failure = none) {x : Failure} (hx : e.failure = some x) :
    x.error.IsRefusal

namespace Emission

theorem checks_refl (e : Emission) :
  e.Checks e
  := by
  constructor
  · intro _
    rfl
  · intro h x hx
    cases h.symm.trans hx

theorem Checks.append {e e' f f' : Emission} (h : e.Checks f) (h' : e'.Checks f') :
  (e.append e').Checks (f.append f')
  := by
  constructor
  · intro hnone
    obtain ⟨he, he'⟩ := append_failure_eq_none_iff.mp hnone
    rw [h.eq_of_succeeds he, h'.eq_of_succeeds he']
  · intro hnone x hx
    obtain ⟨hf, hf'⟩ := append_failure_eq_none_iff.mp hnone
    cases he : e.failure with
    | some y =>
        simp only [Emission.append, he, Option.some.injEq] at hx
        subst hx
        apply h.isRefusal_of_fails hf he
    | none =>
        rw [append_of_failure_eq_none he] at hx
        apply h'.isRefusal_of_fails hf' hx

variable {flags flags' : Flags}

theorem checks_checked {check : Except CompileError Unit} {s : String}
    (hv : flags'.validates = true) (h : ∀ e, check = .error e → e.IsRefusal) :
  (checked flags' check s).Checks (checked flags check s)
  := by
  unfold checked
  rw [if_pos hv]
  cases check with
  | ok u =>
      dsimp only
      rw [ite_self]
      apply checks_refl
  | error e =>
      constructor
      · intro hnone
        cases hnone
      · rintro _ x ⟨⟩
        apply h e rfl

theorem checks_ofExcept {r r' : Except CompileError String}
    (hok : ∀ s, r = .ok s → r' = .ok s)
    (herror : ∀ e s, r = .error e → r' = .ok s → e.IsRefusal) :
  (ofExcept flags' r).Checks (ofExcept flags r')
  := by
  cases r with
  | ok s =>
      rw [hok s rfl]
      apply checks_refl
  | error e =>
      constructor
      · intro hnone
        cases hnone
      · rintro hnone x ⟨⟩
        obtain ⟨s, hs, -⟩ := exists_of_ofExcept hnone
        apply herror e s rfl hs

variable (hv : flags'.validates = true)

include hv

theorem checks_literal (v : Value) :
  (ofExcept flags' (literal flags'.validates v)).Checks
    (ofExcept flags (literal flags.validates v))
  := by
  rw [hv]
  apply checks_ofExcept
  · intro s hs
    apply literal_of_validated hs
  · intro e _ he _
    apply isRefusal_of_literal he

theorem checks_literalList (vs : List Value) :
  (literalList flags' vs).Checks (literalList flags vs)
  := by
  induction vs with
  | nil => apply checks_refl
  | cons v vs ih =>
      cases vs with
      | nil => apply checks_literal hv
      | cons w vs =>
          apply (checks_literal hv v).append
          apply (checks_refl (ofText ", ")).append ih

theorem checks_scalar (binding : Binding) (v : Value) :
  (scalar binding flags' v).Checks (scalar binding flags v)
  := by
  unfold scalar
  split
  · apply checks_refl
  · cases binding with
    | bound => apply checks_refl
    | literals => apply checks_literal hv

theorem checks_list (binding : Binding) (vs : List Value) :
  (list binding flags' vs).Checks (list binding flags vs)
  := by
  cases binding with
  | bound => apply checks_refl
  | literals =>
      simp only [list]
      split
      · apply checks_refl
      · apply checks_literalList hv

/-- The number of values is compared in the same way with and without validation. -/
theorem checks_condition (binding : Binding) (s : String) (args : List Value) :
  (condition binding flags' s args).Checks (condition binding flags s args)
  := by
  cases binding with
  | bound =>
      by_cases hcount : placeholderCount s = args.length
      · simp only [condition, if_pos hcount]
        apply checks_refl
      · simp only [condition, if_neg hcount]
        constructor
        · intro hnone
          cases hnone
        · intro hnone
          cases hnone
  | literals =>
      simp only [condition, hv]
      apply checks_ofExcept
      · intro t ht
        obtain ⟨hcount, hs⟩ := inlineArguments_eq_ok_iff.mp ht
        apply inlineArguments_eq_ok_iff.mpr
        use hcount, substitute_of_validated hs _
      · intro e t he ht
        obtain ⟨hcount, -⟩ := inlineArguments_eq_ok_iff.mp ht
        obtain ⟨v, -, hl⟩ := exists_of_inlineArguments_eq_error hcount he
        apply isRefusal_of_literal hl

omit hv

/-- A step under validation writes what it writes without it, or it is refused. -/
theorem checks_ofStep (binding : Binding) (s : Step) :
  (ofStep binding s.validating).Checks (ofStep binding s)
  := by
  have hv := Flags.validates_union_validation s.flags
  obtain ⟨flags, piece⟩ := s
  cases piece with
  | text t => apply checks_refl
  | identifier name =>
      apply checks_checked hv
      intro e he
      apply isRefusal_of_checkIdentifier he
  | fragment t =>
      apply checks_checked hv
      intro e he
      apply isRefusal_of_checkFragment he
  | scalar v => apply checks_scalar hv
  | list vs => apply checks_list hv
  | condition t args =>
      apply Checks.append _ (checks_condition hv binding t args)
      apply checks_checked hv
      intro e he
      apply isRefusal_of_checkFragment he
  | refusal e =>
      constructor
      · intro hnone
        cases hnone
      · intro hnone
        cases hnone

theorem checks_ofSteps (binding : Binding) (ss : List Step) :
  (ofSteps binding (ss.map Step.validating)).Checks (ofSteps binding ss)
  := by
  induction ss with
  | nil => apply checks_refl
  | cons s ss ih => apply (checks_ofStep binding s).append ih

end Emission

/-! ### Compilations -/

/-- A compilation that succeeds under validation gives, without it, the same builder but for its
flags; and when a compilation succeeds only without validation, what fails under validation is
the check of a fragment, of a name or of a literal. -/
theorem Node.build_union_validation (n : Node) (version : Version) (binding : Binding)
    (forValidation : Bool) (flags : Flags) :
  (∀ b, n.build version binding forValidation (flags.union .validation) = .ok b →
      n.build version binding forValidation flags = .ok { b with flags := flags })
    ∧ ∀ b e, n.build version binding forValidation flags = .ok b →
      n.build version binding forValidation (flags.union .validation) = .error e →
        e.code = .unsafeFragment ∨ e.code = .invalidIdentifier ∨ e.code = .invalidLiteral
  := by
  have hchecks := Emission.checks_ofSteps binding (n.steps ⟨version, flags, forValidation⟩)
  rw [← n.steps_validating] at hchecks
  constructor
  · intro b hb
    obtain ⟨hnone, rfl⟩ := build_eq_ok_iff.mp hb
    apply build_eq_ok_iff.mpr
    rw [Builder.filled, Builder.filled, ← hchecks.eq_of_succeeds hnone]
    use hnone
    rfl
  · intro b e hb he
    obtain ⟨hnone, -⟩ := build_eq_ok_iff.mp hb
    obtain ⟨x, hx, rfl⟩ := build_eq_error_iff.mp he
    apply hchecks.isRefusal_of_fails hnone hx

/-- Around a query that asks for validation, with validation in force or not, the same text and
arguments are written; a compound without validation, in which the request of a plain member is
lost, is refused where validation is in force. -/
theorem Node.build_union_validation_adults :
  (Node.criterion (.existence .adults true)).build .latest .bound false .none
      = .ok ⟨.latest, "NOT EXISTS (SELECT * FROM people UNION SELECT * FROM grown " ++
          "WHERE (age > ?))", some [.value (.integer 17)], .none⟩
    ∧ (CompileError.unsafeFragment "1); DROP TABLE people; (" .unbalancedParentheses).IsRefusal
  := by
  have hchecked : (Node.criterion (.existence .adults true)).build .latest .bound false
        (Flags.none.union .validation)
      = .ok ⟨.latest, "NOT EXISTS (SELECT * FROM people UNION SELECT * FROM grown " ++
          "WHERE (age > ?))", some [.value (.integer 17)], Flags.none.union .validation⟩ := rfl
  have hunchecked : (Node.query .droppingCompound).build .latest .literals true .topLevel
      = .ok ⟨.latest, "SELECT * FROM people UNION SELECT * FROM people " ++
          "WHERE ((1); DROP TABLE people; ())", none, .topLevel⟩ := rfl
  have hrefused : (Node.query .droppingCompound).build .latest .literals true
        (Flags.topLevel.union .validation)
      = .error (.unsafeFragment "1); DROP TABLE people; (" .unbalancedParentheses) := rfl
  constructor
  · apply (Node.build_union_validation _ _ _ _ _).1 _ hchecked
  · apply (Node.build_union_validation _ _ _ _ _).2 _ _ hunchecked hrefused

end TypedSql.Sql
