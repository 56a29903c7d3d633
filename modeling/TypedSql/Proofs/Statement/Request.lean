import TypedSql.Proofs.Tree.Flags
import TypedSql.Proofs.Tree.Part
import TypedSql.Proofs.Tree.Written

/-!
# Requested validation

A query can ask for what is rendered in it to be checked, wherever it stands in a tree and
whether or not the tree around it is checked.  As a statement, that is, outermost, nested in
an operand, a condition or a source, or as a member of a compound that is wrapped for its own
compounds or limits, it has what it asked for: `Node.passes_of_renders`.

As a plain member of a compound it contributes its select core alone, to which its request
does not belong: such a member is checked exactly when the compound is.
-/

namespace TypedSql.Sql

/-- Whether a piece that comes from the caller as SQL passes its check. -/
def Piece.Passes : Piece → Prop
  | identifier name => checkIdentifier name = .ok ()
  | fragment s | condition s _ => checkFragment s = .ok ()
  | text _ | scalar _ | list _ | refusal _ => True

/-- What is written under validation passes its check. -/
theorem Emission.passes_of_ofStep {binding : Binding} {s : Step}
    (hv : s.piece.isSupplied = true → s.flags.validates = true)
    (h : (ofStep binding s).failure = none) :
  s.piece.Passes
  := by
  obtain ⟨flags, piece⟩ := s
  cases piece with
  | identifier name => exact (check_of_checked (hv rfl) h).1
  | fragment t => exact (check_of_checked (hv rfl) h).1
  | condition t args => exact checkFragment_of_condition (hv rfl) h
  | _ => trivial

/-! ### What a request adds -/

/-- The same context with validation in force. -/
def Context.validating (ctx : Context) : Context :=
  { ctx with flags := ctx.flags.union .validation }

namespace Query

variable {ctx : Context} {q : Query}

/-- A query that asks for validation is, as a statement, what it is where validation is in
force. -/
theorem steps_statement_validating (hv : q.validated = true) :
  q.steps .statement ctx.validating = q.steps .statement ctx
  := by
  have hinside : ctx.validating.inside true = ctx.inside true := by
    simp only [Context.inside, Context.validating, if_true,
      Flags.remove_topLevel_union_validation]
  have htop : ctx.validating.flags.contains .topLevel = ctx.flags.contains .topLevel :=
    Flags.contains_topLevel_union_validation ctx.flags
  rw [steps_statement, steps_statement, hv, hinside, htop]

/-- The request of a plain member of a compound changes nothing. -/
theorem steps_member_requestValidation (h : q.isPlain = true) :
  q.requestValidation.steps .member ctx = q.steps .member ctx
  := by
  have hplain : q.requestValidation.isPlain = true := h
  rw [steps_member, steps_member, if_pos h, if_pos hplain]
  rfl

/-- Where validation is in force, so it is at every piece that a query takes from the
caller. -/
theorem validates_of_mem_steps {role : Role} (hv : ctx.flags.validates = true) :
  ∀ s ∈ q.steps role ctx, s.piece.isSupplied = true → s.flags.validates = true
  := by
  have hphrase : Phrase (fun _ => True) false (q.steps role ctx) :=
    phrase_steps q role hv fun _ _ => trivial
  intro s hs hp
  exact (hphrase.supplied s hs hp).1

/-- A query that asks for validation and is not a plain member has validation in force at
every piece that it takes from the caller. -/
theorem validates_of_validated {role : Role} (hv : q.validated = true)
    (hr : role = .member → q.isPlain = true → ctx.flags.validates = true) :
  ∀ s ∈ q.steps role ctx, s.piece.isSupplied = true → s.flags.validates = true
  := by
  have hstatement : ∀ s ∈ q.steps .statement ctx, s.piece.isSupplied = true →
      s.flags.validates = true := by
    rw [← steps_statement_validating hv]
    exact validates_of_mem_steps (Flags.validates_union_validation ctx.flags)
  cases role with
  | statement => exact hstatement
  | member =>
      cases hplain : q.isPlain with
      | true => exact validates_of_mem_steps (hr rfl hplain)
      | false =>
          -- around the statement stand texts of the compiler only
          intro s hs hp
          rw [steps_member, hplain, Context.enclosed] at hs
          simp only [Bool.false_eq_true, if_false, List.mem_append] at hs
          obtain hs | (hs | hs) | hs := hs
          · obtain rfl := List.mem_singleton.mp hs
            cases hp
          · obtain rfl := List.mem_singleton.mp hs
            cases hp
          · exact hstatement s hs hp
          · obtain rfl := List.mem_singleton.mp hs
            cases hp

end Query

/-! ### Compilations -/

namespace Node

variable {n : Node} {version : Version} {binding : Binding} {forValidation : Bool}
  {flags : Flags} {b : Builder}

/-- A compilation that succeeds writes every step of its node. -/
theorem succeeds_of_build (h : n.build version binding forValidation flags = .ok b) :
  ∀ s ∈ n.steps ⟨version, flags, forValidation⟩, (Emission.ofStep binding s).failure = none
  := by
  apply Emission.ofSteps_failure_eq_none_iff.mp
  apply (build_eq_ok_iff.mp h).1

/-- In a tree that is compiled, every query that asked for validation is checked, unless it is
a plain member of a compound that is not: all raw conditions, raw expressions and names that
are rendered in it pass their checks. -/
theorem passes_of_renders {ctx : Context} {role : Role} {q : Query}
    (h : n.build version binding forValidation flags = .ok b)
    (hq : Part.Renders (⟨version, flags, forValidation⟩, .node n) (ctx, .query role q))
    (hv : q.validated = true)
    (hr : role = .member → q.isPlain = true → ctx.flags.validates = true) :
  q.steps role ctx <:+: n.steps ⟨version, flags, forValidation⟩
    ∧ ∀ s ∈ q.steps role ctx, s.piece.Passes
  := by
  have hrendered := Part.infix_of_renders hq
  use hrendered
  intro s hs
  have hwritten := succeeds_of_build h s (hrendered.subset hs)
  apply Emission.passes_of_ofStep (Query.validates_of_validated hv hr s hs) hwritten

end Node

/-- The adults among people, who are looked for in a plain member of a compound that asks for
validation. -/
def Query.adults : Query :=
  ((selectAll.selectFrom (.table { model := "Person", name := "people" })).compound .union
    ((selectAll.selectFrom (.table { model := "Person", name := "grown" })).filter
      (.raw "age > ?" [.integer 17]))).requestValidation

/-- The condition in the plain member of a checked compound has been checked, although the
statement around the compound is not. -/
theorem Node.passes_of_renders_adults :
  (Node.criterion (.existence .adults true)).build .latest .bound false .none
      = .ok ⟨.latest, "NOT EXISTS (SELECT * FROM people UNION SELECT * FROM grown " ++
          "WHERE (age > ?))", some [.value (.integer 17)], .none⟩
    ∧ Query.adults.steps .statement ⟨.latest, .none, false⟩
      <:+: (Node.criterion (.existence .adults true)).steps ⟨.latest, .none, false⟩
    ∧ checkFragment "age > ?" = .ok ()
  := by
  have hbuild : (Node.criterion (.existence .adults true)).build .latest .bound false .none
      = .ok ⟨.latest, "NOT EXISTS (SELECT * FROM people UNION SELECT * FROM grown " ++
          "WHERE (age > ?))", some [.value (.integer 17)], .none⟩ := rfl
  have hrenders : Part.Renders
      (⟨.latest, .none, false⟩, .node (.criterion (.existence .adults true)))
      (⟨.latest, .none, false⟩, .query .statement .adults) :=
    .tail (.single List.mem_cons_self) List.mem_cons_self
  obtain ⟨hrendered, hpasses⟩ := Node.passes_of_renders hbuild hrenders rfl (by simp)
  use hbuild, hrendered
  exact hpasses ⟨.validation, .condition "age > ?" [.integer 17]⟩ (by decide)

/-- A query with a condition that would end the statement, which asks for validation. -/
def Query.droppingMember : Query :=
  ((selectAll.selectFrom (.table { model := "T", name := "people" })).filter
    (.raw "1); DROP TABLE people; (" [])).requestValidation

/-- A compound that does not ask for validation, with a plain member that does. -/
def Query.droppingCompound : Query :=
  (selectAll.selectFrom (.table { model := "T", name := "people" })).compound .union
    droppingMember

/-- The request of a plain member is lost where the compound does not make it too: a condition
that does not pass its check is written. -/
theorem Node.not_passes_of_plain_member :
  (Node.query .droppingCompound).build .latest .bound false .topLevel
      = .ok ⟨.latest, "SELECT * FROM people UNION SELECT * FROM people " ++
          "WHERE (1); DROP TABLE people; ()", some [], .topLevel⟩
    ∧ Part.Renders (⟨.latest, .topLevel, false⟩, .node (.query .droppingCompound))
        (⟨.latest, .none, false⟩, .query .member .droppingMember)
    ∧ Query.droppingMember.validated = true
    ∧ ∃ s ∈ Query.droppingMember.steps .member ⟨.latest, .none, false⟩, ¬ s.piece.Passes
  := by
  have hunsafe : ¬ checkFragment "1); DROP TABLE people; (" = .ok () := by decide
  refine ⟨rfl, .tail (.single List.mem_cons_self) ?_, rfl,
    ⟨.none, .condition "1); DROP TABLE people; (" []⟩, by decide, hunsafe⟩
  -- the member is rendered after the select list and the source of the compound
  exact List.mem_of_getElem? (i := 2) rfl

end TypedSql.Sql
