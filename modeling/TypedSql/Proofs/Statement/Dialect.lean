import TypedSql.Proofs.Tree.Parallel
import TypedSql.Proofs.Tree.Written

/-!
# Versions and framing

The version of an engine decides how a term of an ordering places nulls and how several rows
are inserted, and nothing else.  Either way the same operands are written in the same order, if
not equally often, with different texts of the compiler around them.  So whether and how a
compilation fails does not depend on the version; its arguments depend on it only where nulls
are placed, and its text only there and where several rows are inserted: `Node.build_version`.
-/

namespace TypedSql.Sql

/-- Whether a part is a term of an ordering that places nulls. -/
def Part.placesNulls : Part → Bool
  | order o => o.nulls.isSome
  | _ => false

/-- Whether a part is an insertion of several rows. -/
def Part.insertsMany : Part → Bool
  | insert i => decide (1 < i.rows.length)
  | _ => false

/-- The same context at another version. -/
def Context.atVersion (w : Version) (ctx : Context) : Context :=
  { ctx with version := w }

/-- Two contexts that differ in their versions only. -/
def Context.Differ (v w : Version) (ctx ctx' : Context) : Prop :=
  ctx.version = v ∧ ctx' = ctx.atVersion w

/-! ### The same steps -/

section

variable {v w : Version}

theorem piecewise_eq :
  Piecewise (Context.Differ v w) Eq
  := by
  constructor
  · rfl
  · rintro ss _ ts _ rfl rfl
    rfl
  · rintro ctx _ ⟨-, rfl⟩ p
    rfl

/-- Two versions that understand the same write the same, and any two do where nulls are not
placed and several rows are not inserted. -/
theorem parallel_eq :
  Parallel (Context.Differ v w)
    (fun p =>
      (p.2.placesNulls = false ∨ v.atLeast .nullsOrdering = w.atLeast .nullsOrdering)
        ∧ (p.2.insertsMany = false ∨ v.atLeast .multiRowInsert = w.atLeast .multiRowInsert))
    Eq
  := by
  constructor
  · apply piecewise_eq
  · rintro ctx _ ⟨-, rfl⟩
    rfl
  · rintro ctx _ ⟨hv, rfl⟩ validated
    exact ⟨hv, rfl⟩
  · rintro ctx _ ⟨hv, rfl⟩ ss ss' - hs
    apply piecewise_eq.checking ⟨hv, rfl⟩ rfl hs
  · rintro ctx _ ⟨rfl, rfl⟩ o ⟨ho, -⟩ ss ss' hs
    apply piecewise_eq.orderTerm ⟨rfl, rfl⟩ _ hs
    apply ho.imp_left
    intro hn
    apply Option.isNone_iff_eq_none.mp
    simpa [Part.placesNulls] using hn
  · rintro ctx _ ⟨rfl, rfl⟩ i ⟨-, hi⟩ f g hs
    apply piecewise_eq.insertedRows ⟨rfl, rfl⟩ _ hs
    apply hi.imp_left
    intro hn
    simpa [Part.insertsMany] using hn

/-! ### The same effect -/

namespace Emission

/-- What follows a failure has no arguments. -/
theorem args_append (e f : Emission) :
  (e.append f).args = if e.failure.isSome then e.args else e.args ++ f.args
  := by
  cases h : e.failure <;> simp [append, h]

/-- Wherever nulls are placed, a term fails as its operand does. -/
theorem failure_orderTerm (binding : Binding) (ctx : Context) (ss : List Step)
    (direction : Direction) (nulls : Option NullsPlace) :
  (ofSteps binding (ctx.orderTerm ss direction nulls)).failure = (ofSteps binding ss).failure
  := by
  unfold Context.orderTerm
  dsimp only
  split <;> simp only [failure_ofSteps_append, failure_ofSteps_text, Option.or_none,
    Option.none_or, Option.or_self]

end Emission

/-- Two lists of steps are written to the same effect: they fail alike, and where `K` holds
they have the same arguments. -/
structure SameEffect (K : Prop) (binding : Binding) (ss ts : List Step) : Prop where
  failure_eq : (Emission.ofSteps binding ss).failure = (Emission.ofSteps binding ts).failure
  args_eq (hK : K) : (Emission.ofSteps binding ss).args = (Emission.ofSteps binding ts).args

namespace SameEffect

variable {K : Prop} {binding : Binding} {ss ss' ts ts' us : List Step}

theorem refl (ss : List Step) :
  SameEffect K binding ss ss
  := by
  constructor
  · rfl
  · intro _
    rfl

theorem symm (h : SameEffect K binding ss ts) :
  SameEffect K binding ts ss
  := by
  constructor
  · apply h.failure_eq.symm
  · intro hK
    apply (h.args_eq hK).symm

theorem trans (h : SameEffect K binding ss ts) (h' : SameEffect K binding ts us) :
  SameEffect K binding ss us
  := by
  constructor
  · apply h.failure_eq.trans h'.failure_eq
  · intro hK
    apply (h.args_eq hK).trans (h'.args_eq hK)

theorem append (h : SameEffect K binding ss ss') (h' : SameEffect K binding ts ts') :
  SameEffect K binding (ss ++ ts) (ss' ++ ts')
  := by
  constructor <;> rw [Emission.ofSteps_append, Emission.ofSteps_append]
  · rw [Emission.failure_append, Emission.failure_append, h.failure_eq, h'.failure_eq]
  · intro hK
    rw [Emission.args_append, Emission.args_append, h.failure_eq, h.args_eq hK, h'.args_eq hK]

/-- A text of the compiler has no effect. -/
theorem text (ctx : Context) (s : String) :
  SameEffect K binding (ctx.text s) []
  := by
  constructor
  · rfl
  · intro _
    rfl

theorem enclosed (ctx : Context) (ss : List Step) :
  SameEffect K binding (ctx.enclosed ss) ss
  := by
  have h : SameEffect K binding (ctx.enclosed ss) ([] ++ ss ++ []) :=
    ((text ctx "(").append (refl ss)).append (text ctx ")")
  rw [List.nil_append, List.append_nil] at h
  apply h

theorem separated (ctx : Context) (separator : String) (sss : List (List Step)) :
  SameEffect K binding (ctx.separated separator sss) sss.flatten
  := by
  induction sss with
  | nil => apply refl
  | cons ss r ih =>
      cases r with
      | nil =>
          rw [List.flatten_singleton]
          apply refl
      | cons ts r =>
          have h : SameEffect K binding (ctx.separated separator (ss :: ts :: r))
              (ss ++ [] ++ (ts :: r).flatten) :=
            ((refl ss).append (text ctx separator)).append ih
          rw [List.append_nil] at h
          apply h

theorem flatten {α : Type} {xs : List α} {f g : α → List Step}
    (h : ∀ x ∈ xs, SameEffect K binding (f x) (g x)) :
  SameEffect K binding (xs.map f).flatten (xs.map g).flatten
  := by
  induction xs with
  | nil => apply refl
  | cons x xs ih =>
      obtain ⟨hx, hxs⟩ := List.forall_mem_cons.mp h
      apply hx.append (ih hxs)

/-- However rows are inserted, their operands are written one after the other. -/
theorem insertedRows (ctx : Context) (rows : List (List Step)) :
  SameEffect K binding (ctx.insertedRows rows) rows.flatten
  := by
  unfold Context.insertedRows
  split
  · apply (text ctx _).append (separated ctx _ _)
  · have hrows : SameEffect K binding (rows.map ctx.enclosed).flatten (rows.map id).flatten := by
      apply flatten
      intro ss _
      apply enclosed
    rw [List.map_id] at hrows
    apply (text ctx _).append ((separated ctx _ _).trans hrows)

end SameEffect

variable {K : Prop} {binding : Binding}

theorem piecewise_sameEffect :
  Piecewise (Context.Differ v w) (SameEffect K binding)
  := by
  constructor
  · apply SameEffect.refl
  · intro ss ss' ts ts' hs ht
    apply hs.append ht
  · rintro ctx _ ⟨-, rfl⟩ p
    apply SameEffect.refl

/-- Any two versions write to the same effect, as far as the arguments are concerned where
nulls are not placed. -/
theorem parallel_sameEffect :
  Parallel (Context.Differ v w) (fun p => K → p.2.placesNulls = false) (SameEffect K binding)
  := by
  constructor
  · apply piecewise_sameEffect
  · rintro ctx _ ⟨-, rfl⟩
    rfl
  · rintro ctx _ ⟨hv, rfl⟩ validated
    exact ⟨hv, rfl⟩
  · rintro ctx _ ⟨hv, rfl⟩ ss ss' - hs
    apply piecewise_sameEffect.checking ⟨hv, rfl⟩ rfl hs
  · intro ctx ctx' hc o ho ss ss' hs
    constructor
    · rw [Emission.failure_orderTerm, Emission.failure_orderTerm, hs.failure_eq]
    · intro hK
      have hnone : o.nulls = none := by
        simpa [Part.placesNulls] using ho hK
      apply (piecewise_sameEffect.orderTerm hc (.inl hnone) hs).args_eq hK
  · intro ctx ctx' _ i _ f g hs
    apply (SameEffect.insertedRows ctx _).trans
    apply (SameEffect.flatten hs).trans (SameEffect.insertedRows ctx' _).symm

end

/-! ### Compilations -/

/-- Two versions build the same but for the version itself when they are on the same side of
every version that changes what is written. -/
theorem Node.build_of_alike {n : Node} {v w : Version} {flags : Flags} {forValidation : Bool}
    (binding : Binding)
    (h : ∀ r, Part.Renders (⟨v, flags, forValidation⟩, .node n) r →
      (r.2.placesNulls = false ∨ v.atLeast .nullsOrdering = w.atLeast .nullsOrdering)
        ∧ (r.2.insertsMany = false ∨
          v.atLeast .multiRowInsert = w.atLeast .multiRowInsert)) :
  n.build w binding forValidation flags
    = (n.build v binding forValidation flags).map fun b => { b with version := w }
  := by
  have hsteps : n.steps ⟨v, flags, forValidation⟩ = n.steps ⟨w, flags, forValidation⟩ :=
    parallel_eq.steps_node ⟨rfl, rfl⟩ h
  rw [build_eq_fill, build_eq_fill, hsteps, Builder.fill_eq, Builder.fill_eq]
  split <;> rfl

/-- Whether and how a compilation fails does not depend on the version.  Its result is the same
for versions on the same side of the two that change what is written; and when no nulls are
placed, its arguments are the same for any two, and its text, unless several rows are inserted
and the versions insert them differently. -/
theorem Node.build_version (n : Node) (v w : Version) (binding : Binding) (forValidation : Bool)
    (flags : Flags) :
  (∀ e, n.build v binding forValidation flags = .error e
      ↔ n.build w binding forValidation flags = .error e)
    ∧ (v.atLeast .multiRowInsert = w.atLeast .multiRowInsert →
        v.atLeast .nullsOrdering = w.atLeast .nullsOrdering →
        n.build w binding forValidation flags
          = (n.build v binding forValidation flags).map fun b => { b with version := w })
    ∧ ((∀ r, Part.Renders (⟨v, flags, forValidation⟩, .node n) r → r.2.placesNulls = false) →
        ∀ b b', n.build v binding forValidation flags = .ok b →
          n.build w binding forValidation flags = .ok b' →
          b.args = b'.args
            ∧ ((∀ r, Part.Renders (⟨v, flags, forValidation⟩, .node n) r →
                  r.2.insertsMany = false)
                ∨ v.atLeast .multiRowInsert = w.atLeast .multiRowInsert →
                b.text = b'.text))
  := by
  refine ⟨?_, ?_, ?_⟩
  · intro e
    have hsame : SameEffect False binding (n.steps ⟨v, flags, forValidation⟩)
        (n.steps ⟨w, flags, forValidation⟩) :=
      parallel_sameEffect.steps_node ⟨rfl, rfl⟩ fun _ _ => False.elim
    rw [build_eq_error_iff, build_eq_error_iff, hsame.failure_eq]
  · intro hi hn
    apply build_of_alike
    intro r _
    use .inr hn, .inr hi
  · intro hplaces b b' hb hb'
    have hsame : SameEffect True binding (n.steps ⟨v, flags, forValidation⟩)
        (n.steps ⟨w, flags, forValidation⟩) :=
      parallel_sameEffect.steps_node ⟨rfl, rfl⟩ fun r hr _ => hplaces r hr
    constructor
    · obtain ⟨-, rfl⟩ := build_eq_ok_iff.mp hb
      obtain ⟨-, rfl⟩ := build_eq_ok_iff.mp hb'
      cases binding with
      | literals => rfl
      | bound => simp only [Builder.filled, Builder.new, Option.map_some, hsame.args_eq trivial]
    · intro hi
      have hbuild := build_of_alike (w := w) binding fun r hr => by
        use .inl (hplaces r hr)
        apply hi.imp_left
        intro hone
        apply hone r hr
      rw [hb, hb'] at hbuild
      cases hbuild
      rfl

/-- An insertion of two people. -/
def Insert.couple : Sql.Insert :=
  { into { model := "Person", name := "people" } with
    columns := ["name"]
    rows := [[.value (.text "Ada")], [.value (.text "Kurt")]] }

/-- An insertion of one name into two columns. -/
def Insert.narrow : Sql.Insert :=
  { couple with columns := ["name", "age"] }

/-- All people, those of unknown age first. -/
def Query.byAge : Query :=
  (selectAll.selectFrom (.table { model := "Person", name := "people" })).orderBy
    ((Order.of (.node (.computed (.raw "age"))) .ascending).withNulls .first)

/-- What the latest engine makes of a row that is too narrow, of an ordering that places nulls,
and of two rows, is known from what older ones make of it. -/
theorem Node.build_version_couple :
  (Node.insert .narrow).build .latest .bound false .none
      = .error (.countMismatch .insertRow 2 1)
    ∧ (Node.query .byAge).build .latest .bound false .topLevel
      = .ok ⟨.latest, "SELECT * FROM people ORDER BY age ASC NULLS FIRST", some [], .topLevel⟩
    ∧ ∀ b, (Node.insert .couple).build .latest .bound false .none = .ok b →
      b.args = some [.value (.text "Ada"), .value (.text "Kurt")]
        ∧ b.text = "INSERT INTO people (name) VALUES (?), (?)"
  := by
  have hnarrow : (Node.insert .narrow).build ⟨3, 7, 10, 0⟩ .bound false .none
      = .error (.countMismatch .insertRow 2 1) := rfl
  have hordered : (Node.query .byAge).build ⟨3, 30, 0, 0⟩ .bound false .topLevel
      = .ok ⟨⟨3, 30, 0, 0⟩, "SELECT * FROM people ORDER BY age ASC NULLS FIRST", some [],
          .topLevel⟩ := rfl
  have hselected : (Node.insert .couple).build ⟨3, 7, 10, 0⟩ .bound false .none
      = .ok ⟨⟨3, 7, 10, 0⟩, "INSERT INTO people (name) SELECT ? UNION ALL SELECT ?",
          some [.value (.text "Ada"), .value (.text "Kurt")], .none⟩ := rfl
  have hlisted : (Node.insert .couple).build ⟨3, 8, 0, 0⟩ .bound false .none
      = .ok ⟨⟨3, 8, 0, 0⟩, "INSERT INTO people (name) VALUES (?), (?)",
          some [.value (.text "Ada"), .value (.text "Kurt")], .none⟩ := rfl
  have hplaces (v : Version) : ∀ r,
      Part.Renders (⟨v, .none, false⟩, .node (.insert .couple)) r → r.2.placesNulls = false := by
    apply Part.forall_renders (P := fun r => r.2.placesNulls = false) rfl
    intro p hp
    obtain rfl := List.mem_singleton.mp hp
    apply Part.forall_renders (P := fun r => r.2.placesNulls = false) rfl
    intro p hp
    -- the operands of the rows are values, in which nothing is rendered
    obtain ⟨x, hx, rfl⟩ := List.mem_map.mp hp
    obtain rfl | hx := List.mem_cons.mp hx
    · exact Part.forall_renders (P := fun r => r.2.placesNulls = false) rfl fun _ h => nomatch h
    · obtain rfl := List.mem_singleton.mp hx
      exact Part.forall_renders (P := fun r => r.2.placesNulls = false) rfl fun _ h => nomatch h
  refine ⟨?_, ?_, ?_⟩
  · apply ((Node.build_version _ _ _ _ _ _).1 _).mp hnarrow
  · have hbuild := (Node.build_version (.query .byAge) ⟨3, 30, 0, 0⟩ .latest .bound false
      .topLevel).2.1 rfl rfl
    rw [hordered] at hbuild
    apply hbuild
  · intro b hb
    constructor
    · apply (((Node.build_version _ _ _ _ _ _).2.2 (hplaces _) _ _ hselected hb).1).symm
    · apply (((Node.build_version _ _ _ _ _ _).2.2 (hplaces _) _ _ hlisted hb).2 (.inr rfl)).symm

end TypedSql.Sql
