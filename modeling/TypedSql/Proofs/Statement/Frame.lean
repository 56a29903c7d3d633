import TypedSql.Proofs.Tree.Writes
import TypedSql.Sql.Statement

/-!
# What compiling a node leaves alone

A node is written at the end of what a builder has accumulated.  What is written, and whether
and how that fails, is fixed by the node, the version, the way values are written, the flags
and the purpose; of what was there before it depends on nothing, and it changes nothing of it.
Flags that are switched while the node is written are what they were once it is.
-/

namespace TypedSql.Sql

namespace Node

/-- Writing a node in place adds to the builder what the steps of the node write. -/
theorem write_eq_result (n : Node) (forValidation : Bool) (b : Builder) :
  n.write forValidation b
    = b.result (Emission.ofSteps b.binding (n.steps (b.context forValidation)))
  :=
  n.writes (b.context forValidation) b.binding b rfl rfl rfl

/-- A node is appended as it is written in place. -/
theorem appendNode_eq_runOn (n : Node) (forValidation : Bool) (b : Builder) :
  b.appendNode forValidation n = Writing.runOn (n.write forValidation) b
  := by
  rw [Writing.runOn, write_eq_result, Builder.result, Builder.appendNode, Builder.append]
  cases (Emission.ofSteps b.binding (n.steps (b.context forValidation))).failure <;> rfl

/-- Under the same version, binding and flags, a node adds the same text and arguments to every
builder, and fails with the same error or on none; where it does not fail, the flags are as
before. -/
theorem write_frame (n : Node) (forValidation : Bool) (version : Version) (binding : Binding)
    (flags : Flags) :
  ∃ (text : String) (args : List BoundArg) (error : Option CompileError) (left : Flags),
    (error = none → left = flags) ∧
    ∀ b : Builder, b.version = version → b.binding = binding → b.flags = flags →
      b.appendNode forValidation n = Writing.runOn (n.write forValidation) b ∧
      Writing.runOn (n.write forValidation) b
        = (⟨version, b.text ++ text, b.args.map (· ++ args), left⟩, error)
  := by
  let e := Emission.ofSteps binding (n.steps ⟨version, flags, forValidation⟩)
  use e.text, e.args, e.failure.map Failure.error, (e.failure.map Failure.flags).getD flags
  constructor
  · intro h
    rw [Option.map_eq_none_iff] at h
    rw [h]
    rfl
  · rintro b rfl rfl rfl
    use appendNode_eq_runOn n forValidation b
    rw [← appendNode_eq_runOn]
    change (b.add e, e.failure.map Failure.error) = _
    rw [Builder.add]
    cases e.failure <;> rfl

end Node

/-- The people who are not too young, looked for under validation. -/
def Query.oldEnough : Query :=
  ((selectAll.selectFrom (.table { model := "Person", name := "people" })).filter
    (.raw "age > ?" [.integer 17])).requestValidation

/-- What a query adds to an empty builder, it adds to one that has accumulated something. -/
theorem Node.write_frame_oldEnough :
  ∃ text args,
    Writing.runOn ((Node.query .oldEnough).write false) ⟨.latest, "", some [], .topLevel⟩
      = (⟨.latest, text, some args, .topLevel⟩, none)
    ∧ Writing.runOn ((Node.query .oldEnough).write false)
        ⟨.latest, "EXPLAIN ", some [.value .null], .topLevel⟩
      = (⟨.latest, "EXPLAIN " ++ text, some (.value .null :: args), .topLevel⟩, none)
  := by
  obtain ⟨text, args, error, left, hleft, h⟩ :=
    Node.write_frame (.query .oldEnough) false .latest .bound .topLevel
  have hempty := (h ⟨.latest, "", some [], .topLevel⟩ rfl rfl rfl).2
  have hbegun := (h ⟨.latest, "EXPLAIN ", some [.value .null], .topLevel⟩ rfl rfl rfl).2
  have herror : (Writing.runOn ((Node.query .oldEnough).write false)
      ⟨.latest, "", some [], .topLevel⟩).2 = none := rfl
  rw [hempty] at herror
  obtain rfl : error = none := herror
  obtain rfl := hleft rfl
  refine ⟨text, args, ?_, hbegun⟩
  rw [hempty, String.empty_append]
  rfl

end TypedSql.Sql
