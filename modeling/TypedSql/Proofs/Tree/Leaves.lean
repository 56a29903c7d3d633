import TypedSql.Proofs.Tree.Phrase

/-!
# Leaves

The leaves of a tree are the pieces of SQL that it holds, in order, whether they are written
or not: its names, its raw fragments and conditions, its values and lists of values.

The main statement, `Node.phrase_steps`, says that under validation the steps of a node form
a phrase in which every piece of the caller is one of the leaves.
-/

namespace TypedSql.Sql

/-- The names of a table. -/
def Table.leaves (t : Table) : List Piece :=
  .identifier t.name :: t.alias?.toList.map .identifier

mutual

/-- The leaves of an operand. -/
def Operand.leaves : Operand → List Piece
  | .node n => n.leaves
  | .list vs => [.list vs]
  | .value v => [.scalar v]

/-- The leaves of an operand, when there is one. -/
def Operand.leavesOption : Option Operand → List Piece
  | none => []
  | some x => x.leaves

/-- The leaves of operands. -/
def Operand.leavesEach : List Operand → List Piece
  | [] => []
  | x :: xs => x.leaves ++ Operand.leavesEach xs

/-- The leaves of rows of operands. -/
def Operand.leavesRows : List (List Operand) → List Piece
  | [] => []
  | r :: rs => Operand.leavesEach r ++ Operand.leavesRows rs

/-- The leaves of assignments. -/
def Operand.leavesAssigned : List (String × Operand) → List Piece
  | [] => []
  | (name, x) :: r => .identifier name :: (x.leaves ++ Operand.leavesAssigned r)

/-- The leaves of a node. -/
def Node.leaves : Node → List Piece
  | .column c => [.identifier c.qualifiedExpression]
  | .table t => t.leaves
  | .criterion c => c.leaves
  | .computed e => e.leaves
  | .query q => q.leaves
  | .insert i => i.leaves
  | .update u => u.leaves
  | .delete d => d.leaves

/-- The leaves of a condition. -/
def Criterion.leaves : Criterion → List Piece
  | .compare left _ right => left.leaves ++ right.leaves
  | .nullCheck operand _ => operand.leaves
  | .member operand values _ => operand.leaves ++ values.leaves
  | .between operand low high _ => operand.leaves ++ (low.leaves ++ high.leaves)
  | .like operand pattern escape _ =>
    operand.leaves ++ (pattern.leaves ++
      escape.toList.map fun c => .scalar (.text (String.singleton c)))
  | .existence query _ => query.leaves
  | .combination _ members => Criterion.leavesEach members
  | .negation c => c.leaves
  | .raw s args => [.condition s args]

/-- The leaves of a condition, when there is one. -/
def Criterion.leavesOption : Option Criterion → List Piece
  | none => []
  | some c => c.leaves

/-- The leaves of conditions. -/
def Criterion.leavesEach : List Criterion → List Piece
  | [] => []
  | c :: cs => c.leaves ++ Criterion.leavesEach cs

/-- The leaves of a computed expression. -/
def Computed.leaves : Computed → List Piece
  | .call name args _ => .identifier name :: Operand.leavesEach args
  | .countAll => []
  | .arithmetic _ left right => left.leaves ++ right.leaves
  | .raw s => [.fragment s]

/-- The leaves of an entry of a select list. -/
def SelectItem.leaves : SelectItem → List Piece
  | .column c => .identifier c.qualifiedExpression :: c.alias?.toList.map .identifier
  | .computed expression name => expression.leaves ++ [.identifier name]
  | .all => []
  | .allOf t => [.identifier t.qualifiedName]

/-- The leaves of a select list. -/
def SelectItem.leavesEach : List SelectItem → List Piece
  | [] => []
  | f :: fs => f.leaves ++ SelectItem.leavesEach fs

/-- The leaves of a source. -/
def Source.leaves : Source → List Piece
  | .table t => t.leaves
  | .subquery query name => query.leaves ++ [.identifier name]

/-- The leaves of a source, when there is one. -/
def Source.leavesOption : Option Source → List Piece
  | none => []
  | some s => s.leaves

/-- The leaves of a join. -/
def Join.leaves : Join → List Piece
  | ⟨_, source, on, shared⟩ =>
    source.leaves ++ (Criterion.leavesOption on ++
      shared.map .identifier)

/-- The leaves of joins. -/
def Join.leavesAll : List Join → List Piece
  | [] => []
  | j :: js => j.leaves ++ Join.leavesAll js

/-- The leaves of a term of an ordering. -/
def Order.leaves : Order → List Piece
  | ⟨operand, _, _⟩ => operand.leaves

/-- The leaves of an ordering. -/
def Order.leavesEach : List Order → List Piece
  | [] => []
  | o :: os => o.leaves ++ Order.leavesEach os

/-- The leaves of a query, its ordering included. -/
def Query.leaves : Query → List Piece
  | ⟨fields, _, source, joins, filters, groups, having, orders, limit, offset, compounds, _⟩ =>
    SelectItem.leavesEach fields ++
    (Source.leavesOption source ++
    (Join.leavesAll joins ++
    (Criterion.leavesEach filters ++
    (Operand.leavesEach groups ++
    (Criterion.leavesEach having ++
    (Order.leavesEach orders ++
    (Operand.leavesOption limit ++
    (Operand.leavesOption offset ++
    Query.leavesCompounds compounds))))))))

/-- The leaves of a query, when there is one. -/
def Query.leavesOption : Option Query → List Piece
  | none => []
  | some q => q.leaves

/-- The leaves of the members of a compound. -/
def Query.leavesCompounds : List (Compounding × Query) → List Piece
  | [] => []
  | (_, q) :: r => q.leaves ++ Query.leavesCompounds r

/-- The leaves of an insertion. -/
def Insert.leaves : Insert → List Piece
  | ⟨table, columns, rows, select, _, _⟩ =>
    .identifier table.name ::
      (columns.map .identifier ++
      (Operand.leavesRows rows ++
      Query.leavesOption select))

/-- The leaves of an update. -/
def Update.leaves : Update → List Piece
  | ⟨table, assignments, filters, _⟩ =>
    .identifier table.name ::
      (Operand.leavesAssigned assignments ++ Criterion.leavesEach filters)

/-- The leaves of a deletion. -/
def Delete.leaves : Delete → List Piece
  | ⟨table, filters⟩ => .identifier table.name :: Criterion.leavesEach filters

end

/-! ### Flags -/

theorem Flags.contains_union_right {f g h : Flags} (hg : g.contains h = true) :
  (f.union g).contains h = true
  := by
  simp only [contains, union, beq_iff_eq] at hg ⊢
  apply UInt8.toBitVec_inj.mp
  have hbits := UInt8.toBitVec_inj.mpr hg
  rw [UInt8.toBitVec_and] at hbits
  rw [UInt8.toBitVec_and, UInt8.toBitVec_or, BitVec.and_or_distrib_right, hbits]
  ext i hi
  simp

theorem Flags.validates_remove_topLevel (f : Flags) :
  (f.remove .topLevel).validates = f.validates
  := by
  have hmask : ~~~ topLevel.bits &&& validation.bits = validation.bits := by decide
  simp only [validates, contains, remove, UInt8.and_assoc, hmask]

/-- Inside of a query validation is in force when it is around the query. -/
theorem Context.validates_inside {ctx : Context} (h : ctx.flags.validates = true)
    (validated : Bool) :
  (ctx.inside validated).flags.validates = true
  := by
  have hremove := (Flags.validates_remove_topLevel ctx.flags).trans h
  unfold inside
  dsimp only
  split
  · apply Flags.contains_union_right (by decide)
  · exact hremove

/-! ### Connectives -/

theorem isConnective_comparison (op : Comparison) :
  isConnective (" " ++ op.symbol ++ " ") = true
  := by
  cases op <;> decide

theorem isConnective_arithmetic (op : Arithmetic) :
  isConnective (" " ++ op.symbol ++ " ") = true
  := by
  cases op <;> decide

theorem isConnective_connective (op : Connective) :
  isConnective (" " ++ op.symbol ++ " ") = true
  := by
  cases op <;> decide

theorem isConnective_compounding (op : Compounding) :
  isConnective (" " ++ op.keyword ++ " ") = true
  := by
  cases op <;> decide

theorem isConnective_join (kind : JoinKind) :
  isConnective (" " ++ kind.keyword ++ " ") = true
  := by
  cases kind <;> decide

/-! ### The steps of trees -/

variable {Q : Piece → Prop}

theorem Table.phrase_steps {ctx : Context} (hv : ctx.flags.validates = true) (t : Table)
    (h : ∀ p ∈ t.leaves, Q p) :
  Phrase Q false (t.steps ctx)
  := by
  obtain ⟨model, name, alias?⟩ := t
  simp only [leaves, List.forall_mem_cons] at h
  rw [steps]
  cases alias? with
  | none => exact (Phrase.piece rfl hv h.1).append .nil
  | some a =>
      apply (Phrase.piece rfl hv h.1).append
      apply Phrase.lead (by decide)
      apply Phrase.piece rfl hv (h.2 _ (by simp))

mutual

theorem Operand.phrase_steps :
    ∀ (x : Operand) {ctx : Context}, ctx.flags.validates = true → (∀ p ∈ x.leaves, Q p) →
      Phrase Q false (x.steps ctx)
  | .node n, ctx, hv, h => by
      have hn := Node.phrase_steps n hv h
      rw [Operand.steps]
      split
      · exact hn.enclosed
      · exact hn
  | .list vs, ctx, hv, h => by
      rw [Operand.leaves, List.forall_mem_singleton] at h
      apply Phrase.piece rfl hv h
  | .value v, ctx, hv, h => by
      rw [Operand.leaves, List.forall_mem_singleton] at h
      apply Phrase.piece rfl hv h

theorem Operand.phrase_stepsOption :
    ∀ (x : Option Operand) {ctx : Context}, ctx.flags.validates = true →
      (∀ p ∈ Operand.leavesOption x, Q p) →
      ∀ ss ∈ Operand.stepsOption ctx x, Phrase Q false ss
  | none, _, _, _ => by simp [Operand.stepsOption]
  | some x, ctx, hv, h => by
      rintro _ ⟨⟩
      apply Operand.phrase_steps x hv h

theorem Operand.phrase_stepsEach :
    ∀ (xs : List Operand) {ctx : Context}, ctx.flags.validates = true →
      (∀ p ∈ Operand.leavesEach xs, Q p) →
      ∀ ss ∈ Operand.stepsEach ctx xs, Phrase Q false ss
  | [], _, _, _ => by simp [Operand.stepsEach]
  | x :: xs, ctx, hv, h => by
      rw [Operand.leavesEach, List.forall_mem_append] at h
      rw [Operand.stepsEach, List.forall_mem_cons]
      exact ⟨Operand.phrase_steps x hv h.1, Operand.phrase_stepsEach xs hv h.2⟩

theorem Operand.phrase_stepsRows :
    ∀ (rs : List (List Operand)) {ctx : Context}, ctx.flags.validates = true →
      (∀ p ∈ Operand.leavesRows rs, Q p) →
      ∀ ss ∈ Operand.stepsRows ctx rs, Phrase Q false ss
  | [], _, _, _ => by simp [Operand.stepsRows]
  | r :: rs, ctx, hv, h => by
      rw [Operand.leavesRows, List.forall_mem_append] at h
      rw [Operand.stepsRows, List.forall_mem_cons]
      exact ⟨.separated (by decide) (Operand.phrase_stepsEach r hv h.1),
        Operand.phrase_stepsRows rs hv h.2⟩

theorem Operand.phrase_stepsAssigned :
    ∀ (xs : List (String × Operand)) {ctx : Context}, ctx.flags.validates = true →
      (∀ p ∈ Operand.leavesAssigned xs, Q p) →
      ∀ ss ∈ Operand.stepsAssigned ctx xs, Phrase Q false ss
  | [], _, _, _ => by simp [Operand.stepsAssigned]
  | (name, x) :: xs, ctx, hv, h => by
      rw [Operand.leavesAssigned, List.forall_mem_cons, List.forall_mem_append] at h
      rw [Operand.stepsAssigned, List.forall_mem_cons, List.append_assoc]
      constructor
      · apply (Phrase.piece rfl hv h.1).append
        exact .lead (by decide) (Operand.phrase_steps x hv h.2.1)
      · apply Operand.phrase_stepsAssigned xs hv h.2.2

/-- Under validation the steps of a node are a phrase whose pieces satisfy what the leaves
of the node do. -/
theorem Node.phrase_steps :
    ∀ (n : Node) {ctx : Context}, ctx.flags.validates = true → (∀ p ∈ n.leaves, Q p) →
      Phrase Q false (n.steps ctx)
  | .column c, ctx, hv, h => by
      rw [Node.leaves, List.forall_mem_singleton] at h
      apply Phrase.piece rfl hv h
  | .table t, ctx, hv, h => t.phrase_steps hv h
  | .criterion c, ctx, hv, h => Criterion.phrase_steps c hv h
  | .computed e, ctx, hv, h => Computed.phrase_steps e hv h
  | .query q, ctx, hv, h => Query.phrase_steps q .statement hv h
  | .insert i, ctx, hv, h => Insert.phrase_steps i hv h
  | .update u, ctx, hv, h => Update.phrase_steps u hv h
  | .delete d, ctx, hv, h => Delete.phrase_steps d hv h

theorem Criterion.phrase_steps :
    ∀ (c : Criterion) {ctx : Context}, ctx.flags.validates = true → (∀ p ∈ c.leaves, Q p) →
      Phrase Q false (c.steps ctx)
  | .compare left op right, ctx, hv, h => by
      rw [Criterion.leaves, List.forall_mem_append] at h
      rw [Criterion.steps, List.append_assoc]
      apply (Operand.phrase_steps left hv h.1).append
      exact .lead (isConnective_comparison op) (Operand.phrase_steps right hv h.2)
  | .nullCheck operand negated, ctx, hv, h => by
      rw [Criterion.steps]
      apply (Operand.phrase_steps operand hv h).append
      exact .text (by cases negated <;> decide)
  | .member operand values negated, ctx, hv, h => by
      rw [Criterion.leaves, List.forall_mem_append] at h
      rw [Criterion.steps, List.append_assoc]
      apply (Operand.phrase_steps operand hv h.1).append
      apply Phrase.lead (by cases negated <;> decide)
      have hvalues := Operand.phrase_steps values hv h.2
      split
      · exact hvalues
      · exact hvalues.enclosed
  | .between operand low high negated, ctx, hv, h => by
      simp only [Criterion.leaves, List.forall_mem_append] at h
      simp only [Criterion.steps, List.append_assoc]
      apply (Operand.phrase_steps operand hv h.1).append
      apply Phrase.lead (by cases negated <;> decide)
      apply (Operand.phrase_steps low hv h.2.1).append
      exact .lead (by decide) (Operand.phrase_steps high hv h.2.2)
  | .like operand pattern escape negated, ctx, hv, h => by
      simp only [Criterion.leaves, List.forall_mem_append] at h
      simp only [Criterion.steps, List.append_assoc]
      apply (Operand.phrase_steps operand hv h.1).append
      apply Phrase.lead (by cases negated <;> decide)
      apply (Operand.phrase_steps pattern hv h.2.1).append
      cases escape with
      | none => exact .nil
      | some c => exact .lead (by decide) (.piece rfl hv (h.2.2 _ (by simp)))
  | .existence query negated, ctx, hv, h => by
      rw [Criterion.steps]
      apply Phrase.lead (by cases negated <;> decide)
      apply (Query.phrase_steps query .statement hv h).enclosed
  | .combination op members, ctx, hv, h => by
      rw [Criterion.steps]
      split
      · exact .text (by cases op <;> decide)
      · apply Phrase.enclosedForValidation
        apply Phrase.enclosed
        exact .separated (isConnective_connective op) (Criterion.phrase_stepsEach members hv h)
  | .negation c, ctx, hv, h => by
      rw [Criterion.steps]
      exact .lead (by decide) (Criterion.phrase_steps c hv h).enclosed
  | .raw s args, ctx, hv, h => by
      rw [Criterion.leaves, List.forall_mem_singleton] at h
      apply (Phrase.piece rfl hv h).enclosed

theorem Criterion.phrase_stepsOption :
    ∀ (c : Option Criterion) {ctx : Context}, ctx.flags.validates = true →
      (∀ p ∈ Criterion.leavesOption c, Q p) →
      ∀ ss ∈ Criterion.stepsOption ctx c, Phrase Q false ss
  | none, _, _, _ => by simp [Criterion.stepsOption]
  | some c, ctx, hv, h => by
      rintro _ ⟨⟩
      apply Criterion.phrase_steps c hv h

theorem Criterion.phrase_stepsEach :
    ∀ (cs : List Criterion) {ctx : Context}, ctx.flags.validates = true →
      (∀ p ∈ Criterion.leavesEach cs, Q p) →
      ∀ ss ∈ Criterion.stepsEach ctx cs, Phrase Q false ss
  | [], _, _, _ => by simp [Criterion.stepsEach]
  | c :: cs, ctx, hv, h => by
      rw [Criterion.leavesEach, List.forall_mem_append] at h
      rw [Criterion.stepsEach, List.forall_mem_cons]
      exact ⟨Criterion.phrase_steps c hv h.1, Criterion.phrase_stepsEach cs hv h.2⟩

theorem Computed.phrase_steps :
    ∀ (e : Computed) {ctx : Context}, ctx.flags.validates = true → (∀ p ∈ e.leaves, Q p) →
      Phrase Q false (e.steps ctx)
  | .call name args distinct, ctx, hv, h => by
      rw [Computed.leaves, List.forall_mem_cons] at h
      simp only [Computed.steps, List.append_assoc]
      apply (Phrase.piece rfl hv h.1).append
      apply Phrase.bracketed (by cases distinct <;> decide)
      exact .separated (by decide) (Operand.phrase_stepsEach args hv h.2)
  | .countAll, ctx, hv, h => .text (by decide)
  | .arithmetic op left right, ctx, hv, h => by
      rw [Computed.leaves, List.forall_mem_append] at h
      rw [Computed.steps, List.append_assoc]
      apply Phrase.enclosed
      apply (Operand.phrase_steps left hv h.1).append
      exact .lead (isConnective_arithmetic op) (Operand.phrase_steps right hv h.2)
  | .raw s, ctx, hv, h => by
      rw [Computed.leaves, List.forall_mem_singleton] at h
      exact .piece rfl hv h

theorem SelectItem.phrase_steps :
    ∀ (f : SelectItem) {ctx : Context}, ctx.flags.validates = true → (∀ p ∈ f.leaves, Q p) →
      Phrase Q false (f.steps ctx)
  | .column ⟨kind, table, expression, alias?⟩, ctx, hv, h => by
      simp only [SelectItem.leaves, List.forall_mem_cons] at h
      rw [SelectItem.steps]
      apply (Phrase.piece rfl hv h.1).append
      cases alias? with
      | none => exact .nil
      | some a => exact .lead (by decide) (.piece rfl hv (h.2 _ (by simp)))
  | .computed expression name, ctx, hv, h => by
      simp only [SelectItem.leaves, List.forall_mem_append, List.forall_mem_singleton] at h
      rw [SelectItem.steps, List.append_assoc]
      apply (Operand.phrase_steps expression hv h.1).append
      exact .lead (by decide) (.piece rfl hv h.2)
  | .all, ctx, hv, h => by
      have hstar : Phrase Q false (ctx.text "*" ++ []) :=
        .text_append (by decide) (by simp) (by decide) .nil
      exact hstar
  | .allOf t, ctx, hv, h => by
      rw [SelectItem.leaves, List.forall_mem_singleton] at h
      rw [SelectItem.steps]
      apply (Phrase.piece rfl hv h).append (.text (by decide))

theorem SelectItem.phrase_stepsEach :
    ∀ (fs : List SelectItem) {ctx : Context}, ctx.flags.validates = true →
      (∀ p ∈ SelectItem.leavesEach fs, Q p) →
      ∀ ss ∈ SelectItem.stepsEach ctx fs, Phrase Q false ss
  | [], _, _, _ => by simp [SelectItem.stepsEach]
  | f :: fs, ctx, hv, h => by
      rw [SelectItem.leavesEach, List.forall_mem_append] at h
      rw [SelectItem.stepsEach, List.forall_mem_cons]
      exact ⟨SelectItem.phrase_steps f hv h.1, SelectItem.phrase_stepsEach fs hv h.2⟩

theorem Source.phrase_steps :
    ∀ (s : Source) {ctx : Context}, ctx.flags.validates = true → (∀ p ∈ s.leaves, Q p) →
      Phrase Q false (s.steps ctx)
  | .table t, ctx, hv, h => t.phrase_steps hv h
  | .subquery query name, ctx, hv, h => by
      simp only [Source.leaves, List.forall_mem_append, List.forall_mem_singleton] at h
      rw [Source.steps, List.append_assoc]
      apply (Query.phrase_steps query .statement hv h.1).enclosed.append
      exact .lead (by decide) (.piece rfl hv h.2)

theorem Source.phrase_stepsOption :
    ∀ (s : Option Source) {ctx : Context}, ctx.flags.validates = true →
      (∀ p ∈ Source.leavesOption s, Q p) →
      ∀ ss ∈ Source.stepsOption ctx s, Phrase Q false ss
  | none, _, _, _ => by simp [Source.stepsOption]
  | some s, ctx, hv, h => by
      rintro _ ⟨⟩
      apply Source.phrase_steps s hv h

theorem Join.phrase_steps :
    ∀ (j : Join) {ctx : Context}, ctx.flags.validates = true → (∀ p ∈ j.leaves, Q p) →
      ∀ {behind : Bool}, Phrase Q behind (j.steps ctx)
  | ⟨kind, source, on, shared⟩, ctx, hv, h, _ => by
      simp only [Join.leaves, List.forall_mem_append, List.forall_mem_map] at h
      rw [Join.steps, List.append_assoc]
      apply Phrase.lead (isConnective_join kind)
      apply (Source.phrase_steps source hv h.1).append
      apply Phrase.constraint hv (Criterion.phrase_stepsOption on hv h.2.1) h.2.2

theorem Join.phrase_stepsAll :
    ∀ (js : List Join) {ctx : Context}, ctx.flags.validates = true →
      (∀ p ∈ Join.leavesAll js, Q p) →
      ∀ {behind : Bool}, Phrase Q behind (Join.stepsAll ctx js)
  | [], _, _, _, _ => .nil
  | j :: js, ctx, hv, h, _ => by
      rw [Join.leavesAll, List.forall_mem_append] at h
      rw [Join.stepsAll]
      apply (Join.phrase_steps j hv h.1).append (Join.phrase_stepsAll js hv h.2)

theorem Order.phrase_steps :
    ∀ (o : Order) {ctx : Context}, ctx.flags.validates = true → (∀ p ∈ o.leaves, Q p) →
      Phrase Q false (o.steps ctx)
  | ⟨operand, direction, nulls⟩, _, hv, h =>
      .orderTerm (Operand.phrase_steps operand hv h) direction nulls

theorem Order.phrase_stepsEach :
    ∀ (os : List Order) {ctx : Context}, ctx.flags.validates = true →
      (∀ p ∈ Order.leavesEach os, Q p) →
      ∀ ss ∈ Order.stepsEach ctx os, Phrase Q false ss
  | [], _, _, _ => by simp [Order.stepsEach]
  | o :: os, ctx, hv, h => by
      rw [Order.leavesEach, List.forall_mem_append] at h
      rw [Order.stepsEach, List.forall_mem_cons]
      exact ⟨Order.phrase_steps o hv h.1, Order.phrase_stepsEach os hv h.2⟩

theorem Query.phrase_steps :
    ∀ (q : Query) (role : Role) {ctx : Context}, ctx.flags.validates = true →
      (∀ p ∈ q.leaves, Q p) → Phrase Q false (q.steps role ctx)
  | ⟨fields, distinct, source, joins, filters, groups, having, orders, limit, offset,
      compounds, validated⟩, role, ctx, hv, h => by
      simp only [Query.leaves, List.forall_mem_append] at h
      obtain ⟨hfields, hsource, hjoins, hfilters, hgroups, hhaving, horders, hlimit, hoffset,
        hcompounds⟩ := h
      have hinner := Context.validates_inside hv validated
      have hcore {c : Context} (hc : c.flags.validates = true) {behind : Bool} :
          Phrase Q behind (c.selection distinct (SelectItem.stepsEach c fields)
            (Source.stepsOption c source) (Join.stepsAll c joins)
            (Criterion.stepsEach c filters) (Operand.stepsEach c groups)
            (Criterion.stepsEach c having)) := by
        apply Phrase.selection
        · apply SelectItem.phrase_stepsEach fields hc hfields
        · apply Source.phrase_stepsOption source hc hsource
        · apply Join.phrase_stepsAll joins hc hjoins
        · apply Criterion.phrase_stepsEach filters hc hfilters
        · apply Operand.phrase_stepsEach groups hc hgroups
        · apply Criterion.phrase_stepsEach having hc hhaving
      simp only [Query.steps, List.append_assoc]
      apply Phrase.inRole (hcore hv)
      apply (hcore hinner).append
      apply Phrase.append (Query.phrase_stepsCompounds compounds hinner hcompounds)
      apply Phrase.append
      · split
        · exact .ordering (Order.phrase_stepsEach orders hinner horders)
        · exact .nil
      · apply Phrase.limits
        · apply Operand.phrase_stepsOption limit hinner hlimit
        · apply Operand.phrase_stepsOption offset hinner hoffset

theorem Query.phrase_stepsOption :
    ∀ (q : Option Query) {ctx : Context}, ctx.flags.validates = true →
      (∀ p ∈ Query.leavesOption q, Q p) →
      ∀ ss ∈ Query.stepsOption ctx q, Phrase Q false ss
  | none, _, _, _ => by simp [Query.stepsOption]
  | some q, ctx, hv, h => by
      rintro _ ⟨⟩
      apply Query.phrase_steps q .statement hv h

theorem Query.phrase_stepsCompounds :
    ∀ (qs : List (Compounding × Query)) {ctx : Context}, ctx.flags.validates = true →
      (∀ p ∈ Query.leavesCompounds qs, Q p) →
      ∀ {behind : Bool}, Phrase Q behind (Query.stepsCompounds ctx qs)
  | [], _, _, _, _ => .nil
  | (op, q) :: qs, ctx, hv, h, _ => by
      rw [Query.leavesCompounds, List.forall_mem_append] at h
      rw [Query.stepsCompounds, List.append_assoc]
      apply Phrase.lead (isConnective_compounding op)
      apply (Query.phrase_steps q .member hv h.1).append
        (Query.phrase_stepsCompounds qs hv h.2)

theorem Insert.phrase_steps :
    ∀ (i : Sql.Insert) {ctx : Context}, ctx.flags.validates = true → (∀ p ∈ i.leaves, Q p) →
      Phrase Q false (i.steps ctx)
  | ⟨table, columns, rows, select, useDefaults, conflict⟩, ctx, hv, h => by
      simp only [Insert.leaves, List.forall_mem_cons, List.forall_mem_append,
        List.forall_mem_map] at h
      obtain ⟨htable, hcolumns, hrows, hselect⟩ := h
      simp only [Insert.steps, List.append_assoc]
      apply Phrase.lead (by cases conflict <;> decide)
      apply (Phrase.piece rfl hv htable).append
      split
      · exact .text (by decide)
      · split
        · exact .refusal _
        · apply Phrase.lead (by decide)
          apply (Phrase.identifiers hv hcolumns).enclosed.append
          apply Phrase.lead (by decide)
          apply Phrase.inserted
          · apply Operand.phrase_stepsRows rows hv hrows
          · apply Query.phrase_stepsOption select hv hselect

theorem Update.phrase_steps :
    ∀ (u : Update) {ctx : Context}, ctx.flags.validates = true → (∀ p ∈ u.leaves, Q p) →
      Phrase Q false (u.steps ctx)
  | ⟨table, assignments, filters, conflict⟩, ctx, hv, h => by
      simp only [Update.leaves, List.forall_mem_cons, List.forall_mem_append] at h
      obtain ⟨htable, hassigned, hfilters⟩ := h
      simp only [Update.steps, List.append_assoc]
      split
      · exact .refusal _
      · apply Phrase.lead (by cases conflict <;> decide)
        apply (Phrase.piece rfl hv htable).append
        apply Phrase.lead (by decide)
        apply Phrase.append
        · exact .separated (by decide) (Operand.phrase_stepsAssigned assignments hv hassigned)
        · exact .filters (Criterion.phrase_stepsEach filters hv hfilters)

theorem Delete.phrase_steps :
    ∀ (d : Delete) {ctx : Context}, ctx.flags.validates = true → (∀ p ∈ d.leaves, Q p) →
      Phrase Q false (d.steps ctx)
  | ⟨table, filters⟩, ctx, hv, h => by
      simp only [Delete.leaves, List.forall_mem_cons] at h
      rw [Delete.steps, List.append_assoc]
      apply Phrase.lead (by decide)
      apply (Phrase.piece rfl hv h.1).append
      exact .filters (Criterion.phrase_stepsEach filters hv h.2)

end

end TypedSql.Sql
