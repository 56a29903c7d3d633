import TypedSql.Proofs.Tree.Induction

/-!
# Parallel renderings

A tree that is rendered in two contexts gives two lists of steps.  They are compared by a
relation between lists of steps, and to know that it holds between the two renderings of every
tree it is enough to know a few things about it: that it can be put together piece by piece
(`Piecewise`), and that it is respected where a rendering asks something of its context, which
happens in queries, in conditions that are only to be checked, in terms of orderings and in rows
of insertions (`Parallel`).

The main statement is `Parallel.steps`.  The relation may make demands on the parts that are
rendered, which are then hypotheses about the tree.
-/

namespace TypedSql.Sql

/-- A relation between lists of steps that is put together from pieces, each rendered in two
contexts related by `C`. -/
structure Piecewise (C : Context → Context → Prop) (R : List Step → List Step → Prop) : Prop where
  nil : R [] []
  append {ss ss' ts ts' : List Step} (hs : R ss ss') (ht : R ts ts') : R (ss ++ ts) (ss' ++ ts')
  piece {ctx ctx' : Context} (hc : C ctx ctx') (p : Piece) : R (ctx.piece p) (ctx'.piece p)

/-- The steps of some conditions that satisfy `A`, with a connective between them, in parentheses
or not. -/
def Context.OfConditions (ctx : Context) (A : Context × Part → Prop) (ss : List Step) : Prop :=
  ∃ (op : Connective) (cs : List Criterion), cs ≠ [] ∧ (∀ c ∈ cs, A (ctx, .criterion c))
    ∧ (ss = ctx.separated (" " ++ op.symbol ++ " ") (cs.map (Criterion.steps ctx))
      ∨ ss = ctx.enclosed (ctx.separated (" " ++ op.symbol ++ " ") (cs.map (Criterion.steps ctx))))

/-- What makes a relation `R` between lists of steps hold between the renderings of a tree in
two contexts related by `C`, when `A` holds of all that is rendered in the tree, in its
context. -/
structure Parallel (C : Context → Context → Prop) (A : Context × Part → Prop)
    (R : List Step → List Step → Prop) : Prop extends Piecewise C R where
  /-- Queries are outermost in both contexts or in neither. -/
  outermost {ctx ctx' : Context} (hc : C ctx ctx') :
    ctx.flags.contains .topLevel = ctx'.flags.contains .topLevel
  inside {ctx ctx' : Context} (hc : C ctx ctx') (validated : Bool) :
    C (ctx.inside validated) (ctx'.inside validated)
  checking {ctx ctx' : Context} (hc : C ctx ctx') {ss ss' : List Step}
    (hconditions : ctx.OfConditions A ss) (hs : R ss ss') :
    R (ctx.enclosedForValidation ss) (ctx'.enclosedForValidation ss')
  orderTerm {ctx ctx' : Context} (hc : C ctx ctx') {o : Order} (ho : A (ctx, .order o))
    {ss ss' : List Step} (hs : R ss ss') :
    R (ctx.orderTerm ss o.direction o.nulls) (ctx'.orderTerm ss' o.direction o.nulls)
  insertedRows {ctx ctx' : Context} (hc : C ctx ctx') {i : Insert} (hi : A (ctx, .insert i))
    {f g : List Operand → List Step} (hs : ∀ r ∈ i.rows, R (f r) (g r)) :
    R (ctx.insertedRows (i.rows.map f)) (ctx'.insertedRows (i.rows.map g))

variable {C : Context → Context → Prop} {A : Context × Part → Prop}
  {R : List Step → List Step → Prop} {ctx ctx' : Context} {ss ss' : List Step}

/-! ### Combinations of steps -/

namespace Piecewise

variable (h : Piecewise C R)

include h

theorem flatMap {α : Type} {xs : List α} {f g : α → List Step} (hs : ∀ x ∈ xs, R (f x) (g x)) :
  R (xs.flatMap f) (xs.flatMap g)
  := by
  induction xs with
  | nil => apply h.nil
  | cons x xs ih =>
      obtain ⟨hx, hxs⟩ := List.forall_mem_cons.mp hs
      rw [List.flatMap_cons, List.flatMap_cons]
      apply h.append hx (ih hxs)

variable (hc : C ctx ctx')

include hc

theorem text (s : String) :
  R (ctx.text s) (ctx'.text s)
  := by
  apply h.piece hc

theorem identifier (name : String) :
  R (ctx.identifier name) (ctx'.identifier name)
  := by
  apply h.piece hc

theorem enclosed (hs : R ss ss') :
  R (ctx.enclosed ss) (ctx'.enclosed ss')
  := by
  apply h.append (h.append (h.text hc _) hs) (h.text hc _)

theorem separated {α : Type} (separator : String) {xs : List α} {f g : α → List Step}
    (hs : ∀ x ∈ xs, R (f x) (g x)) :
  R (ctx.separated separator (xs.map f)) (ctx'.separated separator (xs.map g))
  := by
  induction xs with
  | nil => apply h.nil
  | cons x xs ih =>
      obtain ⟨hx, hxs⟩ := List.forall_mem_cons.mp hs
      cases xs with
      | nil => apply hx
      | cons y ys => apply h.append (h.append hx (h.text hc _)) (ih hxs)

theorem identifiers (names : List String) :
  R (ctx.identifiers names) (ctx'.identifiers names)
  := by
  apply h.separated hc
  intro name _
  apply h.identifier hc

/-- A keyword with a list after it, which is left out when the list is empty. -/
theorem listed {α : Type} (keyword separator : String) {xs : List α} {f g : α → List Step}
    (hs : ∀ x ∈ xs, R (f x) (g x)) :
  R (if (xs.map f).isEmpty then []
      else ctx.text keyword ++ ctx.separated separator (xs.map f))
    (if (xs.map g).isEmpty then []
      else ctx'.text keyword ++ ctx'.separated separator (xs.map g))
  := by
  cases xs with
  | nil => apply h.nil
  | cons x xs => apply h.append (h.text hc _) (h.separated hc _ hs)

theorem limits {limit offset : Option Operand} {f g : Operand → List Step}
    (hl : ∀ x ∈ limit, R (f x) (g x)) (ho : ∀ x ∈ offset, R (f x) (g x)) :
  R (ctx.limits (limit.map f) (offset.map f)) (ctx'.limits (limit.map g) (offset.map g))
  := by
  cases limit with
  | none =>
      cases offset with
      | none => apply h.nil
      | some o => apply h.append (h.append (h.text hc _) (h.text hc _)) (ho o rfl)
  | some l =>
      cases offset with
      | none => apply h.append (h.text hc _) (hl l rfl)
      | some o =>
          apply h.append (h.append _ (h.text hc _)) (ho o rfl)
          apply h.append (h.text hc _) (hl l rfl)

theorem constraint {on : Option Criterion} {f g : Criterion → List Step} (shared : List String)
    (hs : ∀ c ∈ on, R (f c) (g c)) :
  R (ctx.constraint (on.map f) shared) (ctx'.constraint (on.map g) shared)
  := by
  cases on with
  | some c => apply h.append (h.text hc _) (hs c rfl)
  | none =>
      cases shared with
      | nil => apply h.nil
      | cons name names =>
          apply h.append (h.text hc _) (h.enclosed hc (h.identifiers hc _))

theorem table (t : Table) :
  R (t.steps ctx) (t.steps ctx')
  := by
  unfold Table.steps
  apply h.append (h.identifier hc _)
  cases t.alias? with
  | none => apply h.nil
  | some name => apply h.append (h.text hc _) (h.identifier hc _)

/-! ### What depends on the context -/

theorem checking (hf : ctx.forValidation = ctx'.forValidation) (hs : R ss ss') :
  R (ctx.enclosedForValidation ss) (ctx'.enclosedForValidation ss')
  := by
  unfold Context.enclosedForValidation
  rw [hf]
  split
  · apply h.enclosed hc hs
  · apply hs

/-- Without an explicit place for nulls, a term of an ordering does not depend on the
version. -/
theorem orderTerm {direction : Direction} {nulls : Option NullsPlace}
    (hv : nulls = none ∨
      ctx.version.atLeast .nullsOrdering = ctx'.version.atLeast .nullsOrdering)
    (hs : R ss ss') :
  R (ctx.orderTerm ss direction nulls) (ctx'.orderTerm ss' direction nulls)
  := by
  have hterm (d : String) : R (ss ++ ctx.text d) (ss' ++ ctx'.text d) :=
    h.append hs (h.text hc d)
  have hleading (d e : String) :
      R (ctx.text "(" ++ ss ++ ctx.text d ++ (ss ++ ctx.text e))
        (ctx'.text "(" ++ ss' ++ ctx'.text d ++ (ss' ++ ctx'.text e)) := by
    apply h.append _ (hterm e)
    apply h.append (h.append (h.text hc _) hs) (h.text hc _)
  unfold Context.orderTerm
  dsimp only
  cases nulls with
  | none => apply hterm
  | some place =>
      obtain hn | hv := hv
      · cases hn
      · rw [hv]
        cases place <;> cases ctx'.version.atLeast .nullsOrdering
        · apply hleading
        · apply h.append (hterm _) (h.text hc _)
        · apply hleading
        · apply h.append (hterm _) (h.text hc _)

/-- A single row is inserted in the same way by every version. -/
theorem insertedRows {α : Type} {xs : List α} {f g : α → List Step}
    (hv : xs.length ≤ 1 ∨
      ctx.version.atLeast .multiRowInsert = ctx'.version.atLeast .multiRowInsert)
    (hs : ∀ x ∈ xs, R (f x) (g x)) :
  R (ctx.insertedRows (xs.map f)) (ctx'.insertedRows (xs.map g))
  := by
  have hvalues : R (ctx.text "VALUES " ++ ctx.separated ", " ((xs.map f).map ctx.enclosed))
      (ctx'.text "VALUES " ++ ctx'.separated ", " ((xs.map g).map ctx'.enclosed)) := by
    rw [List.map_map, List.map_map]
    apply h.append (h.text hc _)
    apply h.separated hc
    intro x hx
    apply h.enclosed hc (hs x hx)
  unfold Context.insertedRows
  rw [List.length_map, List.length_map]
  obtain hone | hv := hv
  · rw [if_neg (by omega), if_neg (by omega)]
    apply hvalues
  · rw [hv]
    split
    · apply h.append (h.text hc _) (h.separated hc _ hs)
    · apply hvalues

end Piecewise

namespace Parallel

section

variable (h : Parallel C A R) (hc : C ctx ctx')

include h hc

theorem clause (keyword : String) {cs : List Criterion} (ha : ∀ c ∈ cs, A (ctx, .criterion c))
    (hs : ∀ c ∈ cs, R (c.steps ctx) (c.steps ctx')) :
  R (ctx.clause keyword (cs.map (Criterion.steps ctx)))
    (ctx'.clause keyword (cs.map (Criterion.steps ctx')))
  := by
  cases cs with
  | nil => apply h.nil
  | cons c cs =>
      apply h.append (h.text hc _)
      apply h.checking hc _ (h.separated hc _ hs)
      exact ⟨.and, c :: cs, List.cons_ne_nil c cs, ha, .inl rfl⟩

/-! ### Constructs

Each construct is rendered in parallel when its parts are. -/

theorem operand {x : Operand} (hp : ∀ p ∈ x.parts, R (p.steps ctx) (p.steps ctx')) :
  R (x.steps ctx) (x.steps ctx')
  := by
  cases x with
  | node n =>
      have hn := hp _ List.mem_cons_self
      rw [Operand.steps, Operand.steps]
      split
      · apply h.enclosed hc hn
      · apply hn
  | list vs => apply h.piece hc
  | value v => apply h.piece hc

theorem node {n : Node} (hp : ∀ p ∈ n.parts, R (p.steps ctx) (p.steps ctx')) :
  R (n.steps ctx) (n.steps ctx')
  := by
  cases n with
  | column c => apply h.identifier hc
  | table t => apply h.table hc
  | _ => apply hp _ List.mem_cons_self

theorem criterion {c : Criterion} (ha : ∀ p ∈ c.parts, A (ctx, p))
    (hp : ∀ p ∈ c.parts, R (p.steps ctx) (p.steps ctx')) :
  R (c.steps ctx) (c.steps ctx')
  := by
  cases c with
  | compare left op right =>
      simp only [Criterion.parts, List.forall_mem_cons] at hp
      obtain ⟨hl, hr, -⟩ := hp
      apply h.append (h.append hl (h.text hc _)) hr
  | nullCheck operand negated =>
      simp only [Criterion.parts, List.forall_mem_cons] at hp
      obtain ⟨ho, -⟩ := hp
      apply h.append ho (h.text hc _)
  | member operand values negated =>
      simp only [Criterion.parts, List.forall_mem_cons] at hp
      obtain ⟨ho, hv, -⟩ := hp
      rw [Criterion.steps, Criterion.steps]
      apply h.append (h.append ho (h.text hc _))
      split
      · apply hv
      · apply h.enclosed hc hv
  | between operand low high negated =>
      simp only [Criterion.parts, List.forall_mem_cons] at hp
      obtain ⟨ho, hl, hh, -⟩ := hp
      apply h.append (h.append (h.append (h.append ho (h.text hc _)) hl) (h.text hc _)) hh
  | like operand pattern escape negated =>
      simp only [Criterion.parts, List.forall_mem_cons] at hp
      obtain ⟨ho, hl, -⟩ := hp
      apply h.append (h.append (h.append ho (h.text hc _)) hl)
      cases escape with
      | none => apply h.nil
      | some c => apply h.append (h.text hc _) (h.piece hc _)
  | existence query negated =>
      simp only [Criterion.parts, List.forall_mem_cons] at hp
      obtain ⟨hq, -⟩ := hp
      apply h.append (h.text hc _) (h.enclosed hc hq)
  | combination op members =>
      have hm : ∀ c ∈ members, R (c.steps ctx) (c.steps ctx') := by
        intro c hm
        apply hp _ (List.mem_map_of_mem hm)
      have hall : ∀ c ∈ members, A (ctx, .criterion c) := by
        intro c hm
        apply ha _ (List.mem_map_of_mem hm)
      rw [Criterion.steps, Criterion.steps, Criterion.stepsEach_eq_map,
        Criterion.stepsEach_eq_map]
      split
      · apply h.text hc
      · rename_i hne
        apply h.checking hc _ (h.enclosed hc (h.separated hc _ hm))
        exact ⟨op, members, by simpa using hne, hall, .inr rfl⟩
  | negation c =>
      simp only [Criterion.parts, List.forall_mem_cons] at hp
      obtain ⟨hn, -⟩ := hp
      apply h.append (h.text hc _) (h.enclosed hc hn)
  | raw s args => apply h.enclosed hc (h.piece hc _)

theorem computed {e : Computed} (hp : ∀ p ∈ e.parts, R (p.steps ctx) (p.steps ctx')) :
  R (e.steps ctx) (e.steps ctx')
  := by
  cases e with
  | call name args distinct =>
      have ha : ∀ x ∈ args, R (x.steps ctx) (x.steps ctx') := by
        intro x hx
        apply hp _ (List.mem_map_of_mem hx)
      rw [Computed.steps, Computed.steps, Operand.stepsEach_eq_map, Operand.stepsEach_eq_map]
      apply h.append _ (h.text hc _)
      apply h.append (h.append (h.identifier hc _) (h.text hc _)) (h.separated hc _ ha)
  | countAll => apply h.text hc
  | arithmetic op left right =>
      simp only [Computed.parts, List.forall_mem_cons] at hp
      obtain ⟨hl, hr, -⟩ := hp
      apply h.enclosed hc (h.append (h.append hl (h.text hc _)) hr)
  | raw s => apply h.piece hc

theorem item {f : SelectItem} (hp : ∀ p ∈ f.parts, R (p.steps ctx) (p.steps ctx')) :
  R (f.steps ctx) (f.steps ctx')
  := by
  cases f with
  | column c =>
      apply h.append (h.identifier hc _)
      cases c.alias? with
      | none => apply h.nil
      | some name => apply h.append (h.text hc _) (h.identifier hc _)
  | computed expression name =>
      have he := hp _ List.mem_cons_self
      apply h.append (h.append he (h.text hc _)) (h.identifier hc _)
  | all => apply h.text hc
  | allOf t => apply h.append (h.identifier hc _) (h.text hc _)

theorem source {s : Source} (hp : ∀ p ∈ s.parts, R (p.steps ctx) (p.steps ctx')) :
  R (s.steps ctx) (s.steps ctx')
  := by
  cases s with
  | table t => apply h.table hc
  | subquery query name =>
      have hq := hp _ List.mem_cons_self
      apply h.append (h.append (h.enclosed hc hq) (h.text hc _)) (h.identifier hc _)

theorem join {j : Join} (hp : ∀ p ∈ j.parts, R (p.steps ctx) (p.steps ctx')) :
  R (j.steps ctx) (j.steps ctx')
  := by
  obtain ⟨kind, source, on, shared⟩ := j
  obtain ⟨hs, ho⟩ := List.forall_mem_cons.mp hp
  rw [Join.steps, Join.steps, Criterion.stepsOption_eq_map, Criterion.stepsOption_eq_map]
  apply h.append (h.append (h.text hc _) hs)
  apply h.constraint hc
  intro c hon
  apply ho _ (List.mem_map_of_mem (Option.mem_toList.mpr hon))

theorem order {o : Order} (ha : A (ctx, .order o))
    (ho : R (o.operand.steps ctx) (o.operand.steps ctx')) :
  R (o.steps ctx) (o.steps ctx')
  := by
  obtain ⟨operand, direction, nulls⟩ := o
  apply h.orderTerm hc ha ho

theorem core {q : Query} (ha : ∀ p ∈ q.coreParts, A (ctx, p))
    (hp : ∀ p ∈ q.coreParts, R (p.steps ctx) (p.steps ctx')) :
  R (q.coreSteps ctx) (q.coreSteps ctx')
  := by
  simp only [Query.coreParts, List.forall_mem_append, List.forall_mem_map] at ha hp
  obtain ⟨⟨⟨⟨⟨hfields, hsource⟩, hjoins⟩, hfilters⟩, hgroups⟩, hhaving⟩ := hp
  obtain ⟨⟨⟨-, hfilters'⟩, -⟩, hhaving'⟩ := ha
  rw [Query.coreSteps_eq, Query.coreSteps_eq]
  unfold Context.selection
  apply h.append _ (h.clause hc _ hhaving' hhaving)
  apply h.append _ (h.listed hc _ _ hgroups)
  apply h.append _ (h.clause hc _ hfilters' hfilters)
  apply h.append _ (h.flatMap hjoins)
  apply h.append
  · apply h.append (h.text hc _)
    cases hf : q.fields with
    | nil => apply h.text hc
    | cons f fs =>
        rw [← hf, if_neg (by simp [hf]), if_neg (by simp [hf])]
        apply h.separated hc _ hfields
  · cases hs : q.source with
    | none => apply h.nil
    | some s =>
        apply h.append (h.text hc _)
        apply hsource
        rw [hs]
        exact List.mem_cons_self

theorem statement {q : Query}
    (ha : ∀ p ∈ q.coreParts, A (ctx.inside q.validated, p))
    (hp : ∀ p ∈ q.parts (ctx.flags.contains .topLevel || q.isLimited),
      R (p.steps (ctx.inside q.validated)) (p.steps (ctx'.inside q.validated))) :
  R (q.steps .statement ctx) (q.steps .statement ctx')
  := by
  have hin := h.inside hc q.validated
  simp only [Query.parts, List.forall_mem_append, List.forall_mem_map, Option.mem_toList] at hp
  obtain ⟨⟨⟨⟨hcore, hcompounds⟩, horders⟩, hlimit⟩, hoffset⟩ := hp
  rw [Query.steps_statement, Query.steps_statement, ← h.outermost hc]
  apply h.append _ (h.limits hin hlimit hoffset)
  apply h.append
  · apply h.append (h.core hin ha hcore)
    apply h.flatMap
    intro e he
    apply h.append (h.text hin _) (hcompounds e he)
  · split
    · rename_i ho
      rw [if_pos ho, List.forall_mem_map] at horders
      apply h.listed hin _ _ horders
    · apply h.nil

theorem member {q : Query} (hcore : q.isPlain = true → R (q.coreSteps ctx) (q.coreSteps ctx'))
    (hwhole : q.isPlain = false → R (q.steps .statement ctx) (q.steps .statement ctx')) :
  R (q.steps .member ctx) (q.steps .member ctx')
  := by
  rw [Query.steps_member, Query.steps_member]
  cases hplain : q.isPlain with
  | true => apply hcore hplain
  | false => apply h.append (h.text hc _) (h.enclosed hc (hwhole hplain))

theorem insert {i : Sql.Insert} (ha : A (ctx, .insert i))
    (hp : ∀ p ∈ i.parts, R (p.steps ctx) (p.steps ctx')) :
  R (i.steps ctx) (i.steps ctx')
  := by
  obtain ⟨table, columns, rows, select, useDefaults, conflict⟩ := i
  rw [Insert.steps, Insert.steps]
  apply h.append (h.append (h.text hc _) (h.identifier hc _))
  rw [Insert.parts] at hp
  cases useDefaults with
  | true => apply h.text hc
  | false =>
      cases columns with
      | nil => apply h.piece hc
      | cons name names =>
          apply h.append
          · apply h.append (h.append (h.text hc _) _) (h.text hc _)
            apply h.enclosed hc (h.identifiers hc _)
          · cases select with
            | some q => apply hp _ List.mem_cons_self
            | none =>
                rw [Operand.stepsRows_eq_map, Operand.stepsRows_eq_map]
                simp only [Query.stepsOption, Context.inserted, List.isEmpty_map]
                split
                · apply h.piece hc
                · split
                  · apply h.piece hc
                  · rename_i hw
                    have hall : rows.all (·.length == (name :: names).length) = true := by
                      simpa [List.find?_eq_none] using hw
                    apply h.insertedRows hc ha
                    intro r hr
                    apply h.separated hc
                    intro x hx
                    apply hp (.operand x)
                    simp only [Bool.false_or, List.isEmpty_cons, Bool.false_eq_true, if_false,
                      hall, if_true]
                    apply List.mem_map_of_mem (List.mem_flatten.mpr ⟨r, hr, hx⟩)

theorem conditions {cs : List Criterion} (hs : ∀ c ∈ cs, R (c.steps ctx) (c.steps ctx')) :
  R (ctx.filters (Criterion.stepsEach ctx cs)) (ctx'.filters (Criterion.stepsEach ctx' cs))
  := by
  rw [Criterion.stepsEach_eq_map, Criterion.stepsEach_eq_map]
  apply h.listed hc _ _ hs

theorem update {u : Update} (hp : ∀ p ∈ u.parts, R (p.steps ctx) (p.steps ctx')) :
  R (u.steps ctx) (u.steps ctx')
  := by
  obtain ⟨table, assignments, filters, conflict⟩ := u
  rw [Update.parts] at hp
  rw [Update.steps, Update.steps]
  split
  · apply h.piece hc
  · rename_i ha
    rw [if_neg ha] at hp
    simp only [List.forall_mem_append, List.forall_mem_map] at hp
    apply h.append _ (h.conditions hc hp.2)
    apply h.append
    · apply h.append (h.append (h.text hc _) (h.identifier hc _)) (h.text hc _)
    · rw [Operand.stepsAssigned_eq_map, Operand.stepsAssigned_eq_map]
      apply h.separated hc
      intro e he
      apply h.append (h.append (h.identifier hc _) (h.text hc _)) (hp.1 e he)

theorem delete {d : Delete} (hp : ∀ p ∈ d.parts, R (p.steps ctx) (p.steps ctx')) :
  R (d.steps ctx) (d.steps ctx')
  := by
  obtain ⟨table, filters⟩ := d
  apply h.append (h.append (h.text hc _) (h.identifier hc _))
  apply h.conditions hc
  intro c hc
  apply hp _ (List.mem_map_of_mem hc)

end

/-! ### Trees -/

/-- The renderings of a part in two contexts are in parallel. -/
theorem steps (h : Parallel C A R) {p : Context × Part} (hc : C p.1 ctx')
    (ha : ∀ r, Part.Renders p r → A r) :
  R (p.2.steps p.1) (p.2.steps ctx')
  := by
  induction p using Part.induction generalizing ctx' with
  | step p ih =>
      obtain ⟨ctx, p⟩ := p
      have hp : A (ctx, p) := ha _ .refl
      have hall {d : Context} {l : List Part} (hl : ∀ r ∈ l, (d, r) ∈ p.parts ctx) :
          ∀ r ∈ l, A (d, r) := by
        intro r hr
        apply ha _ (.single (hl r hr))
      have hparts {d : Context} {l : List Part} (hl : ∀ r ∈ l, (d, r) ∈ p.parts ctx)
          {d' : Context} (hd : C d d') : ∀ r ∈ l, R (r.steps d) (r.steps d') := by
        intro r hr
        apply ih (d, r) (hl r hr) hd
        intro s hs
        apply ha s (.head (hl r hr) hs)
      have hown {l : List Part} (hl : p.parts ctx = l.map (ctx, ·)) :
          ∀ r ∈ l, R (r.steps ctx) (r.steps ctx') := by
        apply hparts _ hc
        intro r hr
        rw [hl]
        apply List.mem_map_of_mem hr
      cases p with
      | operand x => apply h.operand hc (hown rfl)
      | node n => apply h.node hc (hown rfl)
      | criterion c =>
          apply h.criterion hc _ (hown rfl)
          apply hall
          intro r hr
          apply List.mem_map_of_mem hr
      | computed e => apply h.computed hc (hown rfl)
      | item f => apply h.item hc (hown rfl)
      | source s => apply h.source hc (hown rfl)
      | join j => apply h.join hc (hown rfl)
      | order o => apply h.order hc hp (hown (l := [.operand o.operand]) rfl _ List.mem_cons_self)
      | query role q =>
          cases role with
          | statement =>
              apply h.statement hc
              · apply hall
                intro r hr
                apply List.mem_map_of_mem (q.coreParts_subset_parts _ hr)
              · apply hparts _ (h.inside hc q.validated)
                intro r hr
                apply List.mem_map_of_mem hr
          | member =>
              apply h.member hc
              · intro hplain
                have hcore : (Part.query .member q).parts ctx = q.coreParts.map (ctx, ·) := by
                  rw [Part.parts, if_pos hplain]
                apply h.core hc _ (hown hcore)
                apply hall
                intro r hr
                rw [hcore]
                apply List.mem_map_of_mem hr
              · intro hplain
                apply hown (l := [.query .statement q]) _ _ List.mem_cons_self
                rw [Part.parts, if_neg (by simp [hplain])]
                rfl
      | insert i => apply h.insert hc hp (hown rfl)
      | update u => apply h.update hc (hown rfl)
      | delete d => apply h.delete hc (hown rfl)

/-- The renderings of a node in two contexts are in parallel. -/
theorem steps_node (h : Parallel C A R) (hc : C ctx ctx') {n : Node}
    (ha : ∀ r, Part.Renders (ctx, .node n) r → A r) :
  R (n.steps ctx) (n.steps ctx')
  := by
  apply h.steps (p := (ctx, .node n)) hc ha

end Parallel

end TypedSql.Sql
