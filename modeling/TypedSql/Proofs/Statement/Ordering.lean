import TypedSql.Proofs.Tree.Part
import TypedSql.Proofs.Tree.Trimming
import TypedSql.Proofs.Tree.Written

/-!
# Orderings

The ordering of a query is written where the query is outermost or has a limit or an offset,
and nowhere else.  Trees that differ only in orderings of nested queries without limits, and so
are the same when they are trimmed, are compiled to the same result; while at a root, and
wherever a query with limits is rendered, every term of the ordering stands in the text, one
after the other after the keyword: `Node.compile_trimNested`.
-/

namespace TypedSql.Sql

/-! ### Written orderings -/

/-- The steps of the ordering of a query in a context. -/
def Query.orderingSteps (ctx : Context) (q : Query) : List Step :=
  (ctx.inside q.validated).ordering (q.orders.map (Order.steps (ctx.inside q.validated)))

/-- The ordering of a query stands among its steps where it is outermost or limited. -/
theorem Query.infix_orderingSteps {ctx : Context} {role : Role} {q : Query}
    (h : role = .statement ∧ ctx.flags.contains .topLevel = true ∨ q.isLimited = true) :
  q.orderingSteps ctx <:+: q.steps role ctx
  := by
  have hstatement (hw : (ctx.flags.contains .topLevel || q.isLimited) = true) :
      q.orderingSteps ctx <:+: q.steps .statement ctx := by
    rw [steps_statement, if_pos hw]
    apply List.infix_append_of_infix_left
    exact List.infix_append_right
  cases role with
  | statement =>
      apply hstatement
      obtain ⟨-, htop⟩ | hlimited := h
      · rw [htop, Bool.true_or]
      · rw [hlimited, Bool.or_true]
  | member =>
      obtain ⟨⟨⟩, -⟩ | hlimited := h
      have hplain : ¬ q.isPlain = true := by simp [isPlain, hlimited]
      rw [steps_member, if_neg hplain]
      apply List.infix_append_of_infix_right
      apply List.IsInfix.trans _ Context.infix_enclosed
      apply hstatement
      rw [hlimited, Bool.or_true]

section

variable {binding : Binding}

theorem Query.written_orderingSteps {ctx : Context} {q : Query} (h : q.orders ≠ []) :
  (q.orderingSteps ctx).flatMap (Step.written binding)
    = " ORDER BY ".toList ++ ", ".toList.intercalate
        (q.orders.map fun o => (o.steps (ctx.inside q.validated)).flatMap (Step.written binding))
  := by
  have hterms : ¬ (q.orders.map (Order.steps (ctx.inside q.validated))).isEmpty = true := by
    simpa using h
  rw [orderingSteps, Context.ordering, if_neg hterms, List.flatMap_append,
    Context.written_text, Context.written_separated, List.map_map]
  rfl

/-- What stands among the steps of a node is written into the text it is compiled to. -/
theorem Node.written_infix_of_build {n : Node} {version : Version} {forValidation : Bool}
    {flags : Flags} {b : Builder} {ss : List Step}
    (h : n.build version binding forValidation flags = .ok b)
    (hs : ss <:+: n.steps ⟨version, flags, forValidation⟩) :
  ss.flatMap (Step.written binding) <:+: b.text.toList
  := by
  obtain ⟨us, ts, hus⟩ := hs
  rw [text_build h, ← hus, List.flatMap_append, List.flatMap_append]
  exact List.infix_append _ _ _

end

/-! ### Compilations -/

/-- Where nothing else is said, a node is compiled as the trimmed node is. -/
theorem Node.build_trimNested (n : Node) (version : Version) (binding : Binding)
    (forValidation : Bool) :
  n.trimNested.build version binding forValidation n.trimNested.defaultFlags
    = n.build version binding forValidation n.defaultFlags
  := by
  have hnone : Flags.none.contains .topLevel = false := by decide
  have hsteps : n.trimNested.steps ⟨version, n.defaultFlags, forValidation⟩
      = n.steps ⟨version, n.defaultFlags, forValidation⟩ := by
    apply n.steps_trimNested
    cases n with
    | query q => exact .inr ⟨q, rfl⟩
    | _ => exact .inl hnone
  rw [defaultFlags_trimNested, build_eq_fill, build_eq_fill, hsteps]

theorem Query.contains_topLevel_defaultFlags (q : Query) :
  q.defaultFlags.contains .topLevel = true
  := by
  unfold defaultFlags
  split <;> rfl

/-- Where nothing else is said, the orderings of nested queries without limits have no influence
on what a node is compiled to; while the ordering of a query at the root, and of every query
with a limit or an offset that is rendered, stands among the steps of the node, and is written
when the node is compiled. -/
theorem Node.compile_trimNested (n : Node) (version : Version) :
  (∀ m : Node, m.trimNested = n.trimNested →
      m.rawSql version = n.rawSql version ∧ m.compile version = n.compile version)
    ∧ ∀ ctx role q,
        Part.Renders (⟨version, n.defaultFlags, false⟩, .node n) (ctx, .query role q) →
        n = .query q ∧ role = .statement ∧ ctx = ⟨version, n.defaultFlags, false⟩
          ∨ q.isLimited = true →
        q.orderingSteps ctx <:+: n.steps ⟨version, n.defaultFlags, false⟩
          ∧ ∀ binding b, n.build version binding false n.defaultFlags = .ok b → q.orders ≠ [] →
            " ORDER BY ".toList ++ ", ".toList.intercalate (q.orders.map fun o =>
              (o.steps (ctx.inside q.validated)).flatMap (Step.written binding))
              <:+: b.text.toList
  := by
  constructor
  · intro m hm
    have hbuild (binding : Binding) : m.build version binding false m.defaultFlags
        = n.build version binding false n.defaultFlags := by
      rw [← build_trimNested m, ← build_trimNested n, hm]
    unfold rawSql compile
    rw [hbuild, hbuild]
    use rfl
  · intro ctx role q hq hw
    have hordering : q.orderingSteps ctx <:+: n.steps ⟨version, n.defaultFlags, false⟩ := by
      apply List.IsInfix.trans _ (Part.infix_of_renders hq)
      apply Query.infix_orderingSteps
      apply hw.imp_left
      rintro ⟨rfl, rfl, rfl⟩
      use rfl, q.contains_topLevel_defaultFlags
    use hordering
    intro binding b hb ho
    rw [← Query.written_orderingSteps ho]
    apply written_infix_of_build hb hordering

/-- Of a member of a compound that has no limits, any ordering can take the place of its own. -/
theorem Node.trimNested_compound (q : Query) (op : Compounding) {r : Query}
    (h : r.isLimited = false) (os : List Order) :
  (Node.query (q.compound op { r with orders := os })).trimNested
    = (Node.query (q.compound op r)).trimNested
  := by
  have hcompounds (cs : List (Compounding × Query)) :
      Query.trimCompounds (cs ++ [(op, { r with orders := os })])
        = Query.trimCompounds (cs ++ [(op, r)]) := by
    rw [Query.trimCompounds_eq_map, Query.trimCompounds_eq_map, List.map_append, List.map_append,
      List.map_singleton, List.map_singleton, Query.trim_orders h os]
  cases q
  simp only [trimNested, Query.compound, Query.trim, hcompounds]

/-- The pets, in a given order. -/
def Query.pets (os : List Order) : Query :=
  { selectAll with
    source := some (.table { model := "Pet", name := "pets" })
    orders := os }

/-- The ordering of names in a direction. -/
def Order.byName (direction : Direction) : Order :=
  .of (.node (.computed (.raw "name"))) direction

/-- The first of the pets. -/
def Query.firstPet : Query :=
  (pets [.byName .ascending]).limitTo (.value (.integer 1))

/-- The pets and a query of pets, in descending order. -/
def Query.petsWith (q : Query) : Query :=
  (pets [.byName .descending]).compound .union q

/-- In whatever order pets are added to others, the statement is the same, and the order of all is
written; of the first pet, that is added to the others, the order is written too. -/
theorem Node.compile_trimNested_pets :
  (Node.query (.petsWith (.pets [.byName .ascending]))).compile .latest
      = (Node.query (.petsWith (.pets []))).compile .latest
    ∧ (∃ b, (Node.query (.petsWith (.pets []))).build .latest .literals false .topLevel = .ok b
      ∧ b.text = "SELECT * FROM pets UNION SELECT * FROM pets ORDER BY name DESC"
      ∧ " ORDER BY name DESC".toList <:+: b.text.toList)
    ∧ ∀ b, (Node.query (.petsWith .firstPet)).build .latest .literals false .topLevel = .ok b →
      " ORDER BY name ASC".toList <:+: b.text.toList
  := by
  have hbuild : (Node.query (.petsWith (.pets []))).build .latest .literals false .topLevel
      = .ok ⟨.latest, "SELECT * FROM pets UNION SELECT * FROM pets ORDER BY name DESC", none,
          .topLevel⟩ := rfl
  have hroot (q : Query) : Part.Renders (⟨.latest, .topLevel, false⟩, .node (.query (.petsWith q)))
      (⟨.latest, .topLevel, false⟩, .query .statement (.petsWith q)) :=
    .single List.mem_cons_self
  have hfirst : Part.Renders (⟨.latest, .topLevel, false⟩, .node (.query (.petsWith .firstPet)))
      (⟨.latest, .none, false⟩, .query .member .firstPet) := by
    apply (hroot _).tail
    -- the member is rendered after the select list and the source
    exact List.mem_of_getElem? (i := 2) rfl
  have hpets := Node.compile_trimNested (.query (.petsWith (.pets []))) .latest
  refine ⟨?_, ⟨_, hbuild, rfl, ?_⟩, ?_⟩
  · apply (hpets.1 _ (Node.trimNested_compound _ .union rfl _)).2
  · apply (hpets.2 _ _ _ (hroot _) (.inl ⟨rfl, rfl, rfl⟩)).2 _ _ hbuild
    apply List.cons_ne_nil
  · intro b hb
    have hpet := Node.compile_trimNested (.query (.petsWith .firstPet)) .latest
    apply (hpet.2 _ _ _ hfirst (.inr rfl)).2 _ _ hb
    apply List.cons_ne_nil

end TypedSql.Sql
