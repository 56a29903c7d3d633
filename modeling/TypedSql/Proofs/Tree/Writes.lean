import Mathlib.Data.List.Forall2
import TypedSql.Proofs.Tree.Flags
import TypedSql.Sql.Writing

/-!
# Writing in place and steps

Writing a part of a tree in place adds to the builder what the steps of the part write.  The
relation `Writes` says so for one part; there is a rule for each way of putting parts
together, and the main statement, `Node.writes`, goes through the tree by these rules.

The rule for the inside of a query is the one in which the flags of the builder change: what
is written inside is written under other flags, and as long as it does not fail the flags are
put back.
-/

namespace TypedSql.Sql

namespace Builder

/-- The outcome of adding an emission to a builder. -/
def result (b : Builder) (e : Emission) : EStateM.Result CompileError Builder Unit :=
  match e.failure with
  | none => .ok () (b.add e)
  | some f => .error f.error (b.add e)

theorem add_empty (b : Builder) :
  b.add .empty = b
  := by
  simp [add, Emission.empty]

theorem add_append (b : Builder) {e : Emission} (f : Emission) (h : e.failure = none) :
  b.add (e.append f) = (b.add e).add f
  := by
  simp [add, Emission.append, h, String.append_assoc, Function.comp_def]

theorem binding_add (b : Builder) (e : Emission) :
  (b.add e).binding = b.binding
  := by
  simp [binding, add]

theorem flags_add (b : Builder) {e : Emission} (h : e.failure = none) :
  (b.add e).flags = b.flags
  := by
  simp [add, h]

end Builder

/-- Where a context and a binding are those of the builder, a writing adds an emission to it. -/
def Adds (binding : Binding) (ctx : Context) (w : Writing) (e : Emission) : Prop :=
  ∀ b : Builder, b.version = ctx.version → b.flags = ctx.flags → b.binding = binding →
    w b = b.result e

/-- A writing adds to the builder what steps write. -/
def Writes (ctx : Context) (w : Writing) (ss : List Step) : Prop :=
  ∀ binding, Adds binding ctx w (Emission.ofSteps binding ss)

namespace Adds

variable {binding : Binding} {ctx : Context} {w v : Writing} {e f : Emission}

theorem empty :
  Adds binding ctx (pure ()) .empty
  := by
  intro b _ _ _
  rw [Builder.result, b.add_empty]
  rfl

/-- Nothing follows a failure. -/
theorem append (hw : Adds binding ctx w e) (hv : Adds binding ctx v f) :
  Adds binding ctx (do w; v) (e.append f)
  := by
  intro b hversion hflags hbinding
  simp only [bind, EStateM.bind, hw b hversion hflags hbinding]
  cases h : e.failure with
  | none =>
      have hrest := hv (b.add e) hversion ((b.flags_add h).trans hflags)
        ((b.binding_add e).trans hbinding)
      simp only [Builder.result, h] at hrest ⊢
      rw [hrest, b.add_append f h]
      simp only [Emission.append, h]
  | some failure => simp only [Builder.result, Emission.append, h]

theorem text (s : String) :
  Adds binding ctx (Writing.text s) (.ofText s)
  := by
  intro b _ _ _
  simp only [Builder.result, Builder.add, Emission.ofText, List.append_nil, Option.map_id']
  rfl

theorem refuse (e : CompileError) :
  Adds binding ctx (Writing.refuse e) (.fail ctx.flags e)
  := by
  rintro b - hflags -
  simp only [Builder.result, Builder.add, Emission.fail, List.append_nil, Option.map_id',
    String.append_empty, ← hflags]
  rfl

theorem textOf (s : Except CompileError String) :
  Adds binding ctx (Writing.textOf s) (.ofExcept ctx.flags s)
  := by
  cases s with
  | ok s => exact text s
  | error e => exact refuse e

/-- What reads the builder finds the flags of the context and the binding in it. -/
theorem reading {k : Builder → Writing}
    (h : ∀ b : Builder, b.flags = ctx.flags → b.binding = binding → Adds binding ctx (k b) e) :
  Adds binding ctx (do k (← get)) e
  := by
  intro b hversion hflags hbinding
  exact h b hflags hbinding b hversion hflags hbinding

theorem check (c : Except CompileError Unit) :
  Adds binding ctx (Writing.check c) (.checked ctx.flags c "")
  := by
  apply reading
  intro b hflags _
  rw [hflags, Emission.checked.eq_def]
  split
  · cases c with
    | ok => exact empty
    | error e => exact refuse e
  · exact empty

/-- A text behind its check. -/
theorem checked (c : Except CompileError Unit) (s : String) :
  Adds binding ctx (do Writing.check c; Writing.text s) (.checked ctx.flags c s)
  := by
  have hchecked : Emission.checked ctx.flags c s
      = (Emission.checked ctx.flags c "").append (.ofText s) := by
    cases c with
    | ok => simp [Emission.checked, Emission.append, Emission.ofText]
    | error e =>
        cases h : ctx.flags.validates <;>
          simp [Emission.checked, Emission.append, Emission.ofText, Emission.fail, h]
  rw [hchecked]
  exact (check c).append (text s)

theorem argument (a : BoundArg) :
  Adds binding ctx (Writing.argument a) ⟨"", [a], none⟩
  := by
  intro b _ _ _
  simp only [Builder.result, Builder.add, String.append_empty]
  rfl

theorem bindEach (vs : List Value) :
  Adds binding ctx (Writing.bindEach vs) ⟨"", vs.map .value, none⟩
  := by
  induction vs with
  | nil => exact empty
  | cons v vs ih => exact (argument (.value v)).append ih

theorem inline (v : Value) :
  Adds binding ctx (Writing.inline v) (.ofExcept ctx.flags (literal ctx.flags.validates v))
  := by
  apply reading
  intro b hflags _
  rw [hflags]
  exact textOf _

theorem inlineList (vs : List Value) :
  Adds binding ctx (Writing.inlineList vs) (.literalList ctx.flags vs)
  := by
  match vs with
  | [] => exact empty
  | [v] => exact inline v
  | v :: w :: vs => exact (inline v).append ((text ", ").append (inlineList (w :: vs)))

/-- Values are bound where the builder has arguments. -/
theorem binding_cases {b : Builder} (h : b.binding = binding) :
  (binding = .bound ∧ ∃ args, b.args = some args) ∨ (binding = .literals ∧ b.args = none)
  := by
  subst h
  cases hargs : b.args with
  | none => exact .inr ⟨by simp [Builder.binding, hargs], rfl⟩
  | some args => exact .inl ⟨by simp [Builder.binding, hargs], args, rfl⟩

theorem scalar (v : Value) :
  Adds binding ctx (Writing.scalar v) (.scalar binding ctx.flags v)
  := by
  rw [Writing.scalar, Emission.scalar.eq_def]
  split
  · exact text "NULL"
  · apply reading
    intro b _ hbinding
    obtain ⟨rfl, args, hargs⟩ | ⟨rfl, hargs⟩ := binding_cases hbinding
    · rw [hargs]
      exact (text "?").append (argument (.value v))
    · rw [hargs]
      exact inline v

theorem list (vs : List Value) :
  Adds binding ctx (Writing.list vs) (.list binding ctx.flags vs)
  := by
  apply reading
  intro b _ hbinding
  obtain ⟨rfl, args, hargs⟩ | ⟨rfl, hargs⟩ := binding_cases hbinding
  · rw [hargs]
    exact (text "?[]").append (argument (.array vs))
  · rw [hargs, Emission.list]
    cases vs with
    | nil => exact text emptyList
    | cons v vs => exact inlineList (v :: vs)

theorem condition (s : String) (args : List Value) :
  Adds binding ctx (Writing.condition s args)
    ((Emission.checked ctx.flags (checkFragment s) "").append
      (.condition binding ctx.flags s args))
  := by
  apply (check (checkFragment s)).append
  apply reading
  intro b hflags hbinding
  obtain ⟨rfl, before, hargs⟩ | ⟨rfl, hargs⟩ := binding_cases hbinding
  · rw [hargs, Emission.condition]
    by_cases h : placeholderCount s = args.length
    · simp only [h, if_true]
      have hboth : (⟨s, args.map .value, none⟩ : Emission)
          = (Emission.ofText s).append ⟨"", args.map .value, none⟩ := by
        simp [Emission.append, Emission.ofText]
      rw [hboth]
      exact (text s).append (bindEach args)
    · simp only [h, if_false]
      exact refuse _
  · rw [hargs, hflags]
    exact textOf _

/-! ### Flags that are switched -/

/-- What is written between two switches is written under the flags that the first brings
about, and the second puts the flags back, unless there was a failure. -/
theorem switched (enter : Builder → Builder) {leave : Writing} (flags : Flags)
    (henter : ∀ b : Builder, b.flags = ctx.flags → enter b = { b with flags := flags })
    (hleave : ∀ b : Builder, b.flags = flags → leave b = .ok () { b with flags := ctx.flags })
    (h : Adds binding { ctx with flags := flags } w e) :
  Adds binding ctx (do modify enter; w; leave) e
  := by
  intro b hversion hflags hbinding
  have hw := h { b with flags := flags } hversion rfl hbinding
  have hrun : (do modify enter; w; leave : Writing) b = (do w; leave : Writing) (enter b) := rfl
  rw [hrun, henter b hflags]
  simp only [bind, EStateM.bind, hw]
  cases hfailure : e.failure with
  | none =>
      simp only [Builder.result, hfailure]
      rw [hleave _ (by rw [Builder.flags_add _ hfailure])]
      simp [Builder.add, hfailure, hflags]
  | some failure => simp [Builder.result, Builder.add, hfailure]

/-- Validation is in force inside, and afterwards what it was. -/
theorem requesting {validated : Bool}
    (h : Adds binding
      { ctx with flags := if validated then ctx.flags.union .validation else ctx.flags } w e) :
  Adds binding ctx (Writing.requesting validated w) e
  := by
  apply reading
  intro b hflags _
  rw [hflags]
  cases validated with
  | false => exact h
  | true =>
      cases hv : ctx.flags.validates with
      | true =>
          simp only [if_true, Flags.union_validation_of_validates hv] at h
          exact h
      | false =>
          apply switched (fun b => b.setFlags .validation) (ctx.flags.union .validation)
          · intro b hb
            rw [Builder.setFlags, hb]
          · intro b hb
            change EStateM.Result.ok () (b.clearFlags .validation) = _
            rw [Builder.clearFlags, hb, Flags.remove_validation_union hv]
          · exact h

/-- Inside of a query its parts are not outermost, and its request is in force; the flags are
afterwards what they were. -/
theorem inside {validated : Bool} {w : Bool → Writing}
    (h : Adds binding (ctx.inside validated) (w (ctx.flags.contains .topLevel)) e) :
  Adds binding ctx (Writing.inside validated w) e
  := by
  apply reading
  intro b hflags _
  rw [hflags]
  apply switched (fun b => b.clearFlags .topLevel) (ctx.flags.remove .topLevel)
  · intro b hb
    rw [Builder.clearFlags, hb]
  · intro b hb
    cases ht : ctx.flags.contains .topLevel with
    | false =>
        rw [Flags.remove_topLevel_of_not_contains ht] at hb
        rw [← hb]
        rfl
    | true =>
        change EStateM.Result.ok () (b.setFlags .topLevel) = _
        rw [Builder.setFlags, hb, Flags.union_topLevel_remove ht]
  · apply requesting
    exact h

end Adds

namespace Writes

variable {ctx : Context} {w v : Writing} {ss ts : List Step} {ws vs us : List Writing}
  {sss tss uss : List (List Step)}

theorem nil :
  Writes ctx (pure ()) []
  := by
  intro binding
  exact .empty

theorem append (hw : Writes ctx w ss) (hv : Writes ctx v ts) :
  Writes ctx (do w; v) (ss ++ ts)
  := by
  intro binding
  rw [Emission.ofSteps_append]
  exact (hw binding).append (hv binding)

theorem ite {c : Prop} [Decidable c] (hw : Writes ctx w ss) (hv : Writes ctx v ts) :
  Writes ctx (if c then w else v) (if c then ss else ts)
  := by
  split
  · exact hw
  · exact hv

/-- A single piece is written as its step. -/
theorem piece {p : Piece}
    (h : ∀ binding, Adds binding ctx w (.ofStep binding ⟨ctx.flags, p⟩)) :
  Writes ctx w (ctx.piece p)
  := by
  intro binding
  rw [Context.piece, Emission.ofSteps, Emission.ofSteps, Emission.append_empty]
  exact h binding

theorem text (s : String) :
  Writes ctx (.text s) (ctx.text s)
  :=
  piece fun _ => .text s

theorem identifier (name : String) :
  Writes ctx (.identifier name) (ctx.identifier name)
  :=
  piece fun _ => .checked (checkIdentifier name) name

theorem fragment (s : String) :
  Writes ctx (.fragment s) (ctx.piece (.fragment s))
  :=
  piece fun _ => .checked (checkFragment s) s

theorem scalar (v : Value) :
  Writes ctx (.scalar v) (ctx.piece (.scalar v))
  :=
  piece fun _ => .scalar v

theorem list (vs : List Value) :
  Writes ctx (.list vs) (ctx.piece (.list vs))
  :=
  piece fun _ => .list vs

theorem condition (s : String) (args : List Value) :
  Writes ctx (.condition s args) (ctx.piece (.condition s args))
  :=
  piece fun _ => .condition s args

theorem refuse (e : CompileError) :
  Writes ctx (.refuse e) (ctx.piece (.refusal e))
  :=
  piece fun _ => .refuse e

theorem enclosed (h : Writes ctx w ss) :
  Writes ctx (.enclosed w) (ctx.enclosed ss)
  := by
  rw [Context.enclosed, List.append_assoc]
  exact (text "(").append (h.append (text ")"))

theorem enclosedForValidation (h : Writes ctx w ss) :
  Writes ctx (.enclosedForValidation ctx.forValidation w) (ctx.enclosedForValidation ss)
  :=
  ite h.enclosed h

theorem separated {separator : String} (h : List.Forall₂ (Writes ctx) ws sss) :
  Writes ctx (.separated separator ws) (ctx.separated separator sss)
  := by
  induction h with
  | nil => exact nil
  | cons hw h ih =>
      cases h with
      | nil => exact hw
      | cons =>
          rw [Context.separated, List.append_assoc]
          exact hw.append ((text separator).append ih)

/-- Each of a list is written as one of another. -/
theorem each {α : Type} {f : α → Writing} {g : α → List Step} (h : ∀ x, Writes ctx (f x) (g x))
    (xs : List α) :
  List.Forall₂ (Writes ctx) (xs.map f) (xs.map g)
  := by
  rw [List.forall₂_map_left_iff, List.forall₂_map_right_iff, List.forall₂_same]
  exact fun x _ => h x

theorem identifiers (names : List String) :
  Writes ctx (.identifiers names) (ctx.identifiers names)
  :=
  separated (each identifier names)

theorem inside {validated : Bool} {w : Bool → Writing}
    (h : Writes (ctx.inside validated) (w (ctx.flags.contains .topLevel)) ss) :
  Writes ctx (.inside validated w) ss
  := by
  intro binding
  exact .inside (h binding)

theorem atVersion {feature : Version} {w : Bool → Writing}
    (h : Writes ctx (w (ctx.version.atLeast feature)) ss) :
  Writes ctx (.atVersion feature w) ss
  := by
  intro binding b hversion hflags hbinding
  have hw := h binding b hversion hflags hbinding
  rw [← hversion] at hw
  exact hw

theorem isEmpty_eq (h : List.Forall₂ (Writes ctx) ws sss) :
  ws.isEmpty = sss.isEmpty
  := by
  cases h <;> rfl

/-! ### Parts of statements -/

theorem table (t : Table) :
  Writes ctx (.table t) (t.steps ctx)
  := by
  apply (identifier t.name).append
  cases t.alias? with
  | none => exact nil
  | some name => exact (text " AS ").append (identifier name)

/-- Nothing where there is nothing to list, or else a text and the list. -/
theorem listed {keyword : String} (h : List.Forall₂ (Writes ctx) ws sss) (hv : Writes ctx v ts) :
  Writes ctx (if ws.isEmpty then pure () else do Writing.text keyword; v)
    (if sss.isEmpty then [] else ctx.text keyword ++ ts)
  := by
  rw [isEmpty_eq h]
  exact ite nil ((text keyword).append hv)

theorem clause {keyword : String} (h : List.Forall₂ (Writes ctx) ws sss) :
  Writes ctx (.clause ctx.forValidation keyword ws) (ctx.clause keyword sss)
  :=
  listed h (separated h).enclosedForValidation

theorem filters (h : List.Forall₂ (Writes ctx) ws sss) :
  Writes ctx (.filters ws) (ctx.filters sss)
  :=
  listed h (separated h)

theorem ordering {matters : Bool} (h : List.Forall₂ (Writes ctx) ws sss) :
  Writes ctx (.ordering matters ws) (if matters then ctx.ordering sss else [])
  :=
  ite (listed h (separated h)) nil

theorem insertedRows (h : List.Forall₂ (Writes ctx) ws sss) :
  Writes ctx (.insertedRows ws) (ctx.insertedRows sss)
  := by
  have henclosed : List.Forall₂ (Writes ctx) (ws.map Writing.enclosed)
      (sss.map ctx.enclosed) := by
    rw [List.forall₂_map_left_iff, List.forall₂_map_right_iff]
    exact h.imp fun _ _ => enclosed
  apply atVersion
  rw [h.length_eq]
  exact ite ((text "SELECT ").append (separated h))
    ((text "VALUES ").append (separated henclosed))

theorem inserted {columns : Nat} {widths : List Nat} {query : Option Writing}
    {steps : Option (List Step)} (h : List.Forall₂ (Writes ctx) ws sss)
    (hq : Option.Rel (Writes ctx) query steps) :
  Writes ctx (.inserted columns widths ws query) (ctx.inserted columns widths sss steps)
  := by
  cases hq with
  | some hq => exact hq
  | none =>
      rw [Writing.inserted, Context.inserted, isEmpty_eq h]
      apply ite (refuse _)
      cases widths.find? fun width => width != columns with
      | some width => exact refuse _
      | none => exact insertedRows h

theorem orderTerm {direction : Direction} {nulls : Option NullsPlace} (h : Writes ctx w ss) :
  Writes ctx (.orderTerm w direction nulls) (ctx.orderTerm ss direction nulls)
  := by
  have hterm : Writes ctx (do w; Writing.text (" " ++ direction.keyword))
      (ss ++ ctx.text (" " ++ direction.keyword)) := h.append (text _)
  -- without a place for nulls of its own, the engine is given the operand twice
  have hplaced (s : String) :
      Writes ctx
        (do Writing.text "("; w; Writing.text s; w; Writing.text (" " ++ direction.keyword))
        (ctx.text "(" ++ ss ++ ctx.text s ++ (ss ++ ctx.text (" " ++ direction.keyword))) := by
    rw [List.append_assoc, List.append_assoc]
    exact (text "(").append (h.append ((text s).append hterm))
  rw [Writing.orderTerm]
  apply atVersion
  rw [Context.orderTerm.eq_def]
  cases nulls with
  | none => exact hterm
  | some place =>
      cases ctx.version.atLeast .nullsOrdering with
      | true =>
          cases place with
          | first => exact hterm.append (text " NULLS FIRST")
          | last => exact hterm.append (text " NULLS LAST")
      | false =>
          cases place with
          | first => exact hplaced " IS NULL) DESC, "
          | last => exact hplaced " IS NULL) ASC, "

theorem limits {limit offset : Option Writing} {lss oss : Option (List Step)}
    (hl : Option.Rel (Writes ctx) limit lss) (ho : Option.Rel (Writes ctx) offset oss) :
  Writes ctx (.limits limit offset) (ctx.limits lss oss)
  := by
  cases hl with
  | none =>
      cases ho with
      | none => exact nil
      | some ho =>
          rw [Context.limits, List.append_assoc]
          exact (text " LIMIT -1").append ((text " OFFSET ").append ho)
  | some hl =>
      cases ho with
      | none => exact (text " LIMIT ").append hl
      | some ho =>
          simp only [Context.limits, List.append_assoc]
          exact (text " LIMIT ").append (hl.append ((text " OFFSET ").append ho))

theorem constraint {on : Option Writing} {oss : Option (List Step)} {shared : List String}
    (h : Option.Rel (Writes ctx) on oss) :
  Writes ctx (.constraint on shared) (ctx.constraint oss shared)
  := by
  cases h with
  | some h => exact (text " ON ").append h
  | none => exact ite nil ((text " USING ").append (identifiers shared).enclosed)

theorem fields (h : List.Forall₂ (Writes ctx) ws sss) :
  Writes ctx (.fields ws) (if sss.isEmpty then ctx.text "*" else ctx.separated ", " sss)
  := by
  rw [Writing.fields, isEmpty_eq h]
  exact ite (text "*") (separated h)

theorem grouping (h : List.Forall₂ (Writes ctx) ws sss) :
  Writes ctx (.grouping ws)
    (if sss.isEmpty then [] else ctx.text " GROUP BY " ++ ctx.separated ", " sss)
  :=
  listed h (separated h)

theorem selection (distinct : Bool) {source : Option Writing} {steps : Option (List Step)}
    {filters groups having : List Writing} {fss gss hss : List (List Step)}
    (hfields : List.Forall₂ (Writes ctx) ws sss)
    (hsource : Option.Rel (Writes ctx) source steps) (hjoins : Writes ctx w ss)
    (hfilters : List.Forall₂ (Writes ctx) filters fss)
    (hgroups : List.Forall₂ (Writes ctx) groups gss)
    (hhaving : List.Forall₂ (Writes ctx) having hss) :
  Writes ctx (.selection ctx.forValidation distinct ws source w filters groups having)
    (ctx.selection distinct sss steps ss fss gss hss)
  := by
  simp only [Context.selection, List.append_assoc]
  refine (text _).append ((Writes.fields hfields).append (append ?_ (hjoins.append
    ((clause hfilters).append ((grouping hgroups).append (clause hhaving))))))
  cases hsource with
  | none => exact nil
  | some h => exact (text " FROM ").append h

theorem inRole {role : Role} {bare : Bool} (hcore : Writes ctx w ss) (hwhole : Writes ctx v ts) :
  Writes ctx (.inRole role bare w v) (ctx.inRole role bare ss ts)
  := by
  cases role with
  | statement => exact hwhole
  | member => exact ite hcore ((text "SELECT * FROM ").append hwhole.enclosed)

end Writes

/-! ### Trees -/

mutual

theorem Operand.writes : ∀ (x : Operand) (ctx : Context),
  Writes ctx (x.write ctx.forValidation) (x.steps ctx)
  | .node n, ctx => .ite (n.writes ctx).enclosed (n.writes ctx)
  | .list vs, _ => .list vs
  | .value v, _ => .scalar v

theorem Operand.writesOption : ∀ (x : Option Operand) (ctx : Context),
  Option.Rel (Writes ctx) (Operand.writeOption ctx.forValidation x) (Operand.stepsOption ctx x)
  | none, _ => .none
  | some x, ctx => .some (x.writes ctx)

theorem Operand.writesEach : ∀ (xs : List Operand) (ctx : Context),
  List.Forall₂ (Writes ctx) (Operand.writeEach ctx.forValidation xs) (Operand.stepsEach ctx xs)
  | [], _ => .nil
  | x :: xs, ctx => .cons (x.writes ctx) (Operand.writesEach xs ctx)

theorem Operand.writesRows : ∀ (rs : List (List Operand)) (ctx : Context),
  List.Forall₂ (Writes ctx) (Operand.writeRows ctx.forValidation rs) (Operand.stepsRows ctx rs)
  | [], _ => .nil
  | r :: rs, ctx => .cons (.separated (Operand.writesEach r ctx)) (Operand.writesRows rs ctx)

theorem Operand.writesAssigned : ∀ (rs : List (String × Operand)) (ctx : Context),
  List.Forall₂ (Writes ctx) (Operand.writeAssigned ctx.forValidation rs)
    (Operand.stepsAssigned ctx rs)
  | [], _ => .nil
  | (name, x) :: rs, ctx => by
      rw [Operand.stepsAssigned, List.append_assoc]
      exact .cons ((Writes.identifier name).append ((Writes.text " = ").append (x.writes ctx)))
        (Operand.writesAssigned rs ctx)

/-- A node writes its steps. -/
theorem Node.writes : ∀ (n : Node) (ctx : Context),
  Writes ctx (n.write ctx.forValidation) (n.steps ctx)
  | .column c, _ => .identifier c.qualifiedExpression
  | .table t, _ => .table t
  | .criterion c, ctx => c.writes ctx
  | .computed e, ctx => e.writes ctx
  | .query q, ctx => q.writes .statement ctx
  | .insert i, ctx => i.writes ctx
  | .update u, ctx => u.writes ctx
  | .delete d, ctx => d.writes ctx

theorem Criterion.writes : ∀ (c : Criterion) (ctx : Context),
  Writes ctx (c.write ctx.forValidation) (c.steps ctx)
  | .compare left op right, ctx => by
      rw [Criterion.steps, List.append_assoc]
      exact (left.writes ctx).append ((Writes.text _).append (right.writes ctx))
  | .nullCheck operand negated, ctx => (operand.writes ctx).append (Writes.text _)
  | .member operand values negated, ctx => by
      rw [Criterion.steps, List.append_assoc]
      exact (operand.writes ctx).append ((Writes.text _).append
        (.ite (values.writes ctx) (values.writes ctx).enclosed))
  | .between operand low high negated, ctx => by
      simp only [Criterion.steps, List.append_assoc]
      exact (operand.writes ctx).append ((Writes.text _).append ((low.writes ctx).append
        ((Writes.text _).append (high.writes ctx))))
  | .like operand pattern escape negated, ctx => by
      simp only [Criterion.steps, List.append_assoc]
      apply (operand.writes ctx).append
      apply (Writes.text _).append
      apply (pattern.writes ctx).append
      cases escape with
      | none => exact .nil
      | some c => exact (Writes.text " ESCAPE ").append (Writes.scalar _)
  | .existence query negated, ctx => (Writes.text _).append (query.writes .statement ctx).enclosed
  | .combination op members, ctx =>
      .ite (.text _)
        (Writes.separated (Criterion.writesEach members ctx)).enclosed.enclosedForValidation
  | .negation c, ctx => (Writes.text "NOT ").append (c.writes ctx).enclosed
  | .raw s args, _ => (Writes.condition s args).enclosed

theorem Criterion.writesOption : ∀ (c : Option Criterion) (ctx : Context),
  Option.Rel (Writes ctx) (Criterion.writeOption ctx.forValidation c)
    (Criterion.stepsOption ctx c)
  | none, _ => .none
  | some c, ctx => .some (c.writes ctx)

theorem Criterion.writesEach : ∀ (cs : List Criterion) (ctx : Context),
  List.Forall₂ (Writes ctx) (Criterion.writeEach ctx.forValidation cs)
    (Criterion.stepsEach ctx cs)
  | [], _ => .nil
  | c :: cs, ctx => .cons (c.writes ctx) (Criterion.writesEach cs ctx)

theorem Computed.writes : ∀ (e : Computed) (ctx : Context),
  Writes ctx (e.write ctx.forValidation) (e.steps ctx)
  | .call name args distinct, ctx => by
      simp only [Computed.steps, List.append_assoc]
      exact (Writes.identifier name).append ((Writes.text _).append
        ((Writes.separated (Operand.writesEach args ctx)).append (Writes.text ")")))
  | .countAll, _ => .text "COUNT(*)"
  | .arithmetic op left right, ctx => by
      simp only [Computed.steps, List.append_assoc]
      exact Writes.enclosed ((left.writes ctx).append ((Writes.text _).append (right.writes ctx)))
  | .raw s, _ => .fragment s

theorem SelectItem.writes : ∀ (f : SelectItem) (ctx : Context),
  Writes ctx (f.write ctx.forValidation) (f.steps ctx)
  | .column c, _ => by
      apply (Writes.identifier c.qualifiedExpression).append
      cases c.alias? with
      | none => exact .nil
      | some name => exact (Writes.text " AS ").append (Writes.identifier name)
  | .computed expression name, ctx => by
      rw [SelectItem.steps, List.append_assoc]
      exact (expression.writes ctx).append ((Writes.text " AS ").append (Writes.identifier name))
  | .all, _ => .text "*"
  | .allOf t, _ => (Writes.identifier t.qualifiedName).append (Writes.text ".*")

theorem SelectItem.writesEach : ∀ (fs : List SelectItem) (ctx : Context),
  List.Forall₂ (Writes ctx) (SelectItem.writeEach ctx.forValidation fs)
    (SelectItem.stepsEach ctx fs)
  | [], _ => .nil
  | f :: fs, ctx => .cons (f.writes ctx) (SelectItem.writesEach fs ctx)

theorem Source.writes : ∀ (s : Source) (ctx : Context),
  Writes ctx (s.write ctx.forValidation) (s.steps ctx)
  | .table t, _ => .table t
  | .subquery query name, ctx => by
      rw [Source.steps, List.append_assoc]
      exact (query.writes .statement ctx).enclosed.append
        ((Writes.text " AS ").append (Writes.identifier name))

theorem Source.writesOption : ∀ (s : Option Source) (ctx : Context),
  Option.Rel (Writes ctx) (Source.writeOption ctx.forValidation s) (Source.stepsOption ctx s)
  | none, _ => .none
  | some s, ctx => .some (s.writes ctx)

theorem Join.writes : ∀ (j : Join) (ctx : Context),
  Writes ctx (j.write ctx.forValidation) (j.steps ctx)
  | ⟨kind, source, on, shared⟩, ctx => by
      rw [Join.steps, List.append_assoc]
      exact (Writes.text _).append ((source.writes ctx).append
        (.constraint (Criterion.writesOption on ctx)))

theorem Join.writesAll : ∀ (js : List Join) (ctx : Context),
  Writes ctx (Join.writeAll ctx.forValidation js) (Join.stepsAll ctx js)
  | [], _ => .nil
  | j :: js, ctx => (j.writes ctx).append (Join.writesAll js ctx)

theorem Order.writes : ∀ (o : Order) (ctx : Context),
  Writes ctx (o.write ctx.forValidation) (o.steps ctx)
  | ⟨operand, _, _⟩, ctx => .orderTerm (operand.writes ctx)

theorem Order.writesEach : ∀ (os : List Order) (ctx : Context),
  List.Forall₂ (Writes ctx) (Order.writeEach ctx.forValidation os) (Order.stepsEach ctx os)
  | [], _ => .nil
  | o :: os, ctx => .cons (o.writes ctx) (Order.writesEach os ctx)

/-- The core of a query is written under the flags around the query when it stands alone, and
under those of the inside in a statement. -/
theorem Query.writes : ∀ (q : Query) (role : Role) (ctx : Context),
  Writes ctx (q.write role ctx.forValidation) (q.steps role ctx)
  | ⟨fields, distinct, source, joins, filters, groups, having, orders, limit, offset,
      compounds, validated⟩, role, ctx => by
      rw [Query.write, Query.steps]
      have hcore (ctx : Context) := Writes.selection distinct
        (SelectItem.writesEach fields ctx) (Source.writesOption source ctx)
        (Join.writesAll joins ctx) (Criterion.writesEach filters ctx)
        (Operand.writesEach groups ctx) (Criterion.writesEach having ctx)
      apply Writes.inRole (hcore ctx)
      apply Writes.inside
      simp only [List.append_assoc]
      have hinner := hcore (ctx.inside validated)
      exact hinner.append ((Query.writesCompounds compounds _).append
        ((Writes.ordering (Order.writesEach orders _)).append
          (.limits (Operand.writesOption limit _) (Operand.writesOption offset _))))

theorem Query.writesOption : ∀ (q : Option Query) (ctx : Context),
  Option.Rel (Writes ctx) (Query.writeOption ctx.forValidation q) (Query.stepsOption ctx q)
  | none, _ => .none
  | some q, ctx => .some (q.writes .statement ctx)

theorem Query.writesCompounds : ∀ (cs : List (Compounding × Query)) (ctx : Context),
  Writes ctx (Query.writeCompounds ctx.forValidation cs) (Query.stepsCompounds ctx cs)
  | [], _ => .nil
  | (op, q) :: cs, ctx => by
      rw [Query.stepsCompounds, List.append_assoc]
      exact (Writes.text _).append ((q.writes .member ctx).append
        (Query.writesCompounds cs ctx))

theorem Insert.writes : ∀ (i : Insert) (ctx : Context),
  Writes ctx (i.write ctx.forValidation) (i.steps ctx)
  | ⟨table, columns, rows, select, useDefaults, conflict⟩, ctx => by
      simp only [Insert.steps, List.append_assoc]
      apply (Writes.text _).append
      apply (Writes.identifier table.name).append
      apply Writes.ite (.text _)
      apply Writes.ite (.refuse _)
      exact (Writes.text " ").append ((Writes.identifiers columns).enclosed.append
        ((Writes.text " ").append
          (.inserted (Operand.writesRows rows ctx) (Query.writesOption select ctx))))

theorem Update.writes : ∀ (u : Update) (ctx : Context),
  Writes ctx (u.write ctx.forValidation) (u.steps ctx)
  | ⟨table, assignments, filters, conflict⟩, ctx => by
      simp only [Update.steps, List.append_assoc]
      apply Writes.ite (.refuse _)
      exact (Writes.text _).append ((Writes.identifier table.name).append
        ((Writes.text " SET ").append
          ((Writes.separated (Operand.writesAssigned assignments ctx)).append
            (.filters (Criterion.writesEach filters ctx)))))

theorem Delete.writes : ∀ (d : Delete) (ctx : Context),
  Writes ctx (d.write ctx.forValidation) (d.steps ctx)
  | ⟨table, filters⟩, ctx => by
      rw [Delete.steps, List.append_assoc]
      exact (Writes.text _).append ((Writes.identifier table.name).append
        (.filters (Criterion.writesEach filters ctx)))

end

end TypedSql.Sql
