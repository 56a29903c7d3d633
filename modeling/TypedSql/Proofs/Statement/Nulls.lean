import TypedSql.Proofs.Statement.Ordering
import TypedSql.Proofs.Tree.Origin
import TypedSql.Sql.Statement

/-!
# Nulls in statements

A null that stands as an operand is written as `NULL`, and nothing is bound for it.  The values of
a raw condition, whose text is written as it is, are bound as they are, so that a null among them
is bound.  The main statement, `Node.bound_null_compile`, says that there is no other way for a
null to be bound to a placeholder of its own, and that every operand which is null is written as
`NULL` in its place.
-/

namespace TypedSql.Sql

/-- The arguments that a step pushes. -/
def Step.pushed (s : Step) : List BoundArg :=
  (Emission.ofStep .bound s).args

namespace Emission

variable {flags : Flags}

/-- A raw condition that is written has its values bound, in order. -/
theorem args_condition {t : String} {args : List Value}
    (h : (ofStep .bound ⟨flags, .condition t args⟩).failure = none) :
  (ofStep .bound ⟨flags, .condition t args⟩).args = args.map .value
  := by
  obtain ⟨hcheck, hcondition⟩ := append_failure_eq_none_iff.mp h
  obtain ⟨-, heq⟩ := condition_bound hcondition
  rw [ofStep, append_of_failure_eq_none hcheck, args_checked, heq, List.nil_append]

end Emission

/-- The only steps that bind a null to a placeholder of its own are those of raw conditions with a
null among their values. -/
theorem Step.null_mem_pushed_iff {s : Step} (h : (Emission.ofStep .bound s).failure = none) :
  BoundArg.value .null ∈ s.pushed ↔ ∃ t args, s.piece = .condition t args ∧ Value.null ∈ args
  := by
  obtain ⟨flags, piece⟩ := s
  cases piece with
  | condition t args => simp [pushed, Emission.args_condition h]
  | scalar v =>
      cases hv : v.isNull with
      | true => simp [pushed, Emission.ofStep_null hv, Emission.ofText]
      | false =>
          have hne : Value.null ≠ v := by
            rintro rfl
            cases hv
          simp [pushed, Emission.ofStep_bound hv, hne]
  | list vs => simp [pushed, Emission.ofStep, Emission.list]
  | identifier name => simp [pushed, Emission.ofStep, Emission.args_checked]
  | fragment t => simp [pushed, Emission.ofStep, Emission.args_checked]
  | text t => simp [pushed, Emission.ofStep, Emission.ofText]
  | refusal e => simp [pushed, Emission.ofStep, Emission.fail]

namespace Node

variable {n : Node} {version : Version} {st : Statement}

/-- The context in which a node is rendered where nothing else is said. -/
def rootContext (n : Node) (version : Version) : Context :=
  ⟨version, n.defaultFlags, false⟩

/-- What is known of a statement that a node is compiled to: every step is written, and the
statement is what the steps write and push, one after the other. -/
theorem written_of_compile (h : n.compile version = .ok st) :
  (∀ s ∈ n.steps (n.rootContext version), (Emission.ofStep .bound s).failure = none)
    ∧ st.sql.toList = (n.steps (n.rootContext version)).flatMap (Step.written .bound)
    ∧ st.args = (n.steps (n.rootContext version)).flatMap Step.pushed
  := by
  cases hbuild : n.build version .bound false n.defaultFlags with
  | error e =>
      rw [compile, hbuild] at h
      cases h
  | ok b =>
      rw [compile, hbuild] at h
      obtain rfl := Except.ok.inj h
      obtain ⟨hnone, rfl⟩ := build_eq_ok_iff.mp hbuild
      have hs := Emission.ofSteps_failure_eq_none_iff.mp hnone
      exact ⟨hs, Emission.text_ofSteps hs, Emission.args_ofSteps hs⟩

/-- In a statement with bound values, a null is bound to a placeholder of its own only by a raw
condition that is rendered with a null among its values, and it always is by such a one; and every
operand that is rendered and is null is written as `NULL` in its place, where nothing is bound. -/
theorem bound_null_compile (h : n.compile version = .ok st) :
  (BoundArg.value .null ∈ st.args
      ↔ ∃ ctx t args, Part.Renders (n.rootContext version, .node n) (ctx, .criterion (.raw t args))
          ∧ Value.null ∈ args)
    ∧ ∀ ctx, Part.Renders (n.rootContext version, .node n) (ctx, .operand (.value .null)) →
        ∃ before after : List Step,
          n.steps (n.rootContext version) = before ++ ctx.piece (.scalar .null) ++ after
            ∧ st.sql.toList = before.flatMap (Step.written .bound) ++ "NULL".toList ++
                after.flatMap (Step.written .bound)
            ∧ st.args = before.flatMap Step.pushed ++ after.flatMap Step.pushed
  := by
  obtain ⟨hsucceeds, hsql, hargs⟩ := written_of_compile h
  constructor
  · rw [hargs, List.mem_flatMap]
    constructor
    · rintro ⟨⟨flags, piece⟩, hs, hnull⟩
      obtain ⟨t, args, rfl, hmem⟩ := (Step.null_mem_pushed_iff (hsucceeds _ hs)).mp hnull
      obtain ⟨ctx, -, hrenders⟩ :=
        (Part.condition_mem_steps_iff (n.rootContext version, .node n)).mp hs
      exact ⟨ctx, t, args, hrenders, hmem⟩
    · rintro ⟨ctx, t, args, hrenders, hmem⟩
      have hs : ⟨ctx.flags, .condition t args⟩ ∈ n.steps (n.rootContext version) :=
        (Part.condition_mem_steps_iff (n.rootContext version, .node n)).mpr ⟨ctx, rfl, hrenders⟩
      exact ⟨_, hs, (Step.null_mem_pushed_iff (hsucceeds _ hs)).mpr ⟨t, args, rfl, hmem⟩⟩
  · intro ctx hrenders
    obtain ⟨before, after, hsteps⟩ := Part.infix_of_renders hrenders
    have hwritten : (ctx.piece (.scalar .null)).flatMap (Step.written .bound) = "NULL".toList :=
      List.append_nil _
    have hpushed : (ctx.piece (.scalar .null)).flatMap Step.pushed = [] := rfl
    change before ++ ctx.piece (.scalar .null) ++ after = n.steps (n.rootContext version) at hsteps
    refine ⟨before, after, hsteps.symm, ?_, ?_⟩
    · rw [hsql, ← hsteps, List.flatMap_append, List.flatMap_append, hwritten]
    · rw [hargs, ← hsteps, List.flatMap_append, List.flatMap_append, hpushed, List.append_nil]

end Node

/-- The nicknames of the children among people are forgotten. -/
def Update.forgotten : Update :=
  ((of { model := "Person", name := "people" }).set
    { kind := .text, table := none, expression := "nickname" } (.value .null)).filter
      (.raw "age < ?" [.integer 12])

/-- The null that is assigned is written where it is assigned and is not bound, and the only value
of the raw condition is no null. -/
theorem Node.bound_null_compile_forgotten :
  (¬ ∃ ctx t args, Part.Renders
        ((Node.update .forgotten).rootContext .latest, .node (.update .forgotten))
        (ctx, .criterion (.raw t args))
      ∧ Value.null ∈ args)
    ∧ ∃ before after : List Step,
        before.flatMap (Step.written .bound) ++ "NULL".toList ++ after.flatMap (Step.written .bound)
            = "UPDATE people SET nickname = NULL WHERE (age < ?)".toList
          ∧ before.flatMap Step.pushed ++ after.flatMap Step.pushed = [.value (.integer 12)]
  := by
  have hcompile : (Node.update .forgotten).compile .latest
      = .ok ⟨"UPDATE people SET nickname = NULL WHERE (age < ?)", [.value (.integer 12)], false⟩ :=
    rfl
  have hassigned : Part.Renders
      ((Node.update .forgotten).rootContext .latest, .node (.update .forgotten))
      ((Node.update .forgotten).rootContext .latest, .operand (.value .null)) :=
    .tail (.single List.mem_cons_self) List.mem_cons_self
  obtain ⟨hbound, hplaces⟩ := Node.bound_null_compile hcompile
  obtain ⟨before, after, -, hsql, hargs⟩ := hplaces _ hassigned
  exact ⟨fun hraw => absurd (hbound.mpr hraw) (by decide), before, after, hsql.symm, hargs.symm⟩

/-- A null among the values of a raw condition is bound. -/
theorem Node.null_bound_of_condition :
  ∃ st, (Node.criterion (.raw "nickname IS ?" [.null])).compile .latest = .ok st
    ∧ st.sql = "(nickname IS ?)" ∧ st.args = [.value .null]
  := ⟨⟨"(nickname IS ?)", [.value .null], false⟩, rfl, rfl, rfl⟩

end TypedSql.Sql
