import Mathlib.Data.List.Forall2
import TypedSql.Proofs.Statement.Dialect

/-!
# Insertions

An insertion of default values is always written.  Any other has to name its columns, and then
inserts the result of its query, if it has one, or else its rows.  Of these there has to be one at
least, every row has to hold as many operands as there are columns, and every operand has to
compile, in this order: `Node.build_insert` says when an insertion is written, with which error
it is refused, and that of the rows every operand is written once, row by row, whichever form the
version of the engine gives to them.
-/

namespace TypedSql.Sql

section

variable (version : Version) (binding : Binding) (forValidation : Bool) (flags : Flags)

/-! ### Operands -/

namespace Operand

/-- Compiles an operand into a new builder. -/
def build (x : Operand) : Except CompileError Builder :=
  match ((Builder.new version binding).setFlags flags).appendOperand forValidation x with
  | (b, none) => .ok b
  | (_, some e) => .error e

/-- What an operand is compiled to, unless it fails. -/
def built (x : Operand) : Builder :=
  Builder.filled version binding flags (x.steps ⟨version, flags, forValidation⟩)

variable {version binding forValidation flags}

theorem build_eq_fill {x : Operand} :
  x.build version binding forValidation flags
    = Builder.fill version binding flags (x.steps ⟨version, flags, forValidation⟩)
  := by
  rw [build, Builder.appendOperand, Builder.context_new]
  rfl

theorem exists_build_iff {x : Operand} :
  (∃ b, x.build version binding forValidation flags = .ok b)
    ↔ (Emission.ofSteps binding (x.steps ⟨version, flags, forValidation⟩)).failure = none
  := by
  rw [build_eq_fill, Builder.exists_fill_iff]

theorem build_eq_built {x : Operand}
    (h : ∃ b, x.build version binding forValidation flags = .ok b) :
  x.build version binding forValidation flags = .ok (x.built version binding forValidation flags)
  := by
  rw [build_eq_fill]
  exact Builder.fill_eq_ok_iff.mpr ⟨exists_build_iff.mp h, rfl⟩

/-- Of operands that are compiled one after the other the first that fails gives the error. -/
theorem exists_findSome?_iff {xs : List Operand} {e : CompileError} :
  (∃ f, xs.findSome? (fun x =>
      (Emission.ofSteps binding (x.steps ⟨version, flags, forValidation⟩)).failure) = some f
      ∧ f.error = e)
    ↔ ∃ before x after, xs = before ++ x :: after
      ∧ (∀ y ∈ before, ∃ b, y.build version binding forValidation flags = .ok b)
      ∧ x.build version binding forValidation flags = .error e
  := by
  simp only [build_eq_fill, Builder.exists_fill_iff, Builder.fill_eq_error_iff,
    List.findSome?_eq_some_iff]
  constructor
  · rintro ⟨f, ⟨before, x, after, hxs, hx, hbefore⟩, he⟩
    exact ⟨before, x, after, hxs, hbefore, f, hx, he⟩
  · rintro ⟨before, x, after, hxs, hbefore, f, hx, he⟩
    exact ⟨f, ⟨before, x, after, hxs, hx, hbefore⟩, he⟩

end Operand

/-! ### Complete insertions -/

namespace Insert

/-- Whether an insertion has rows to insert: there is a row, every row is as wide as there are
columns, and every operand compiles. -/
structure HasRows (i : Sql.Insert) : Prop where
  nonempty : i.rows ≠ []
  rectangular : ∀ r ∈ i.rows, r.length = i.columns.length
  compile : ∀ r ∈ i.rows, ∀ x ∈ r, ∃ b, x.build version binding forValidation flags = .ok b

/-- Whether an insertion is complete: it inserts default values, or has columns and, for these,
either a query, which compiles, or rows. -/
def IsComplete (i : Sql.Insert) : Prop :=
  i.useDefaults = true
    ∨ i.columns ≠ []
      ∧ ((∃ q, i.select = some q
            ∧ ∃ b, (Node.query q).build version binding forValidation flags = .ok b)
          ∨ i.select = none ∧ i.HasRows version binding forValidation flags)

/-- The errors of rows: there is none, the first row that is not as wide as there are columns, or
the error of the first operand that does not compile. -/
inductive RefusesRows (i : Sql.Insert) : CompileError → Prop where
  | empty (hrows : i.rows = []) : RefusesRows i (.incomplete .insertRows)
  | width {before after : List (List Operand)} {r : List Operand}
      (hrows : i.rows = before ++ r :: after)
      (hbefore : ∀ s ∈ before, s.length = i.columns.length)
      (hwidth : r.length ≠ i.columns.length) :
      RefusesRows i (.countMismatch .insertRow i.columns.length r.length)
  | operand {before after : List Operand} {x : Operand} {e : CompileError}
      (hwidth : ∀ r ∈ i.rows, r.length = i.columns.length)
      (hrows : i.rows.flatten = before ++ x :: after)
      (hbefore : ∀ y ∈ before, ∃ b, y.build version binding forValidation flags = .ok b)
      (herror : x.build version binding forValidation flags = .error e) :
      RefusesRows i e

/-- The errors of an insertion: it has no columns, its query does not compile, or, when there is no
query, its rows are refused. -/
inductive Refuses (i : Sql.Insert) : CompileError → Prop where
  | columns (hdefaults : i.useDefaults = false) (hcolumns : i.columns = []) :
      Refuses i (.incomplete .insertColumns)
  | query {q : Query} {e : CompileError} (hdefaults : i.useDefaults = false)
      (hcolumns : i.columns ≠ []) (hselect : i.select = some q)
      (herror : (Node.query q).build version binding forValidation flags = .error e) :
      Refuses i e
  | rows {e : CompileError} (hdefaults : i.useDefaults = false) (hcolumns : i.columns ≠ [])
      (hselect : i.select = none)
      (hrows : i.RefusesRows version binding forValidation flags e) :
      Refuses i e

end Insert

end

/-- The text of rows, each given by the texts of its operands: lists of values, or, for engines
that insert only one row at once, a compound of selects. -/
def rowsText (version : Version) (rows : List (List String)) : String :=
  if 1 < rows.length ∧ version.atLeast .multiRowInsert = false then
    "SELECT " ++ " UNION ALL SELECT ".intercalate (rows.map ", ".intercalate)
  else
    "VALUES " ++ ", ".intercalate (rows.map fun r => "(" ++ ", ".intercalate r ++ ")")

section

variable {binding : Binding} {ctx : Context}

/-! ### Names that are not checked -/

theorem Emission.ofStep_identifier {flags : Flags} (hv : flags.validates = false)
    (name : String) :
  ofStep binding ⟨flags, .identifier name⟩ = ofText name
  := by
  simp [ofStep, checked, hv]

theorem SameEffect.identifier {K : Prop} (hv : ctx.flags.validates = false) (name : String) :
  SameEffect K binding (ctx.identifier name) []
  := by
  have hname : Emission.ofSteps binding (ctx.identifier name) = Emission.ofText name := by
    rw [Context.identifier, Context.piece, Emission.ofSteps, Emission.ofSteps,
      Emission.ofStep_identifier hv, Emission.append_empty]
  constructor
  · rw [hname]
    rfl
  · intro _
    rw [hname]
    rfl

theorem SameEffect.identifiers {K : Prop} (hv : ctx.flags.validates = false)
    (names : List String) :
  SameEffect K binding (ctx.identifiers names) []
  := by
  have hnames : SameEffect K binding (names.map ctx.identifier).flatten
      (names.map fun _ => []).flatten := by
    apply flatten
    intro name _
    apply identifier hv
  have hnil : (names.map fun _ => ([] : List Step)).flatten = [] := by simp
  rw [hnil] at hnames
  apply (separated ctx ", " _).trans hnames

theorem Context.written_identifier (hv : ctx.flags.validates = false) (name : String) :
  (ctx.identifier name).flatMap (Step.written binding) = name.toList
  := by
  rw [identifier, piece, List.flatMap_singleton, Step.written, Emission.ofStep_identifier hv]
  rfl

theorem Context.written_identifiers (hv : ctx.flags.validates = false) (names : List String) :
  (ctx.identifiers names).flatMap (Step.written binding) = (", ".intercalate names).toList
  := by
  have hnames : (List.flatMap (Step.written binding) ∘ ctx.identifier) = String.toList := by
    funext name
    apply written_identifier hv
  rw [identifiers, written_separated, List.map_map, hnames, String.toList_intercalate]

/-- Rows are written in the form that the version gives them, with what their operands write. -/
theorem Context.written_insertedRows (ctx : Context) (rows : List (List (List Step))) :
  (ctx.insertedRows (rows.map (ctx.separated ", "))).flatMap (Step.written binding)
    = (rowsText ctx.version
        (rows.map (List.map fun ss => String.ofList (ss.flatMap (Step.written binding))))).toList
  := by
  have hrow (r : List (List Step)) :
      (ctx.separated ", " r).flatMap (Step.written binding)
        = (", ".intercalate
            (r.map fun ss => String.ofList (ss.flatMap (Step.written binding)))).toList := by
    rw [written_separated, String.toList_intercalate, List.map_map]
    simp only [Function.comp_def, String.toList_ofList]
  unfold insertedRows rowsText
  rw [List.length_map, List.length_map]
  split
  · rw [List.flatMap_append, written_text, written_separated, String.toList_append,
      String.toList_intercalate, List.map_map, List.map_map, List.map_map]
    simp only [Function.comp_def, hrow]
  · rw [List.flatMap_append, written_text, written_separated, String.toList_append,
      String.toList_intercalate, List.map_map, List.map_map, List.map_map, List.map_map]
    simp only [Function.comp_def, written_enclosed, hrow, String.toList_append]

/-! ### How insertions fail -/

/-- The rows of an insertion have the effect of their operands, one after the other. -/
theorem SameEffect.operandRows {K : Prop} (ctx : Context) (rows : List (List Operand)) :
  SameEffect K binding
    (ctx.insertedRows (rows.map fun r => ctx.separated ", " (r.map (Operand.steps ctx))))
    (rows.flatten.flatMap (Operand.steps ctx))
  := by
  have hrows : SameEffect K binding
      (rows.map fun r => ctx.separated ", " (r.map (Operand.steps ctx))).flatten
      (rows.map fun r => (r.map (Operand.steps ctx)).flatten).flatten := by
    apply flatten
    intro r _
    apply separated
  have hflatten : (rows.map fun r => (r.map (Operand.steps ctx)).flatten).flatten
      = rows.flatten.flatMap (Operand.steps ctx) := by
    rw [List.flatMap_def, List.map_flatten, List.flatten_flatten, List.map_map]
    rfl
  rw [hflatten] at hrows
  apply (insertedRows ctx _).trans hrows

namespace Insert

variable {i : Sql.Insert}

/-- The steps of what is inserted. -/
def sourceSteps (ctx : Context) (i : Sql.Insert) : List Step :=
  ctx.inserted i.columns.length (i.rows.map List.length)
    (i.rows.map fun r => ctx.separated ", " (r.map (Operand.steps ctx)))
    (i.select.map (Query.steps .statement ctx))

theorem steps_of_columns (ctx : Context) (hdefaults : i.useDefaults = false)
    (hcolumns : i.columns ≠ []) :
  i.steps ctx
    = ctx.text ("INSERT" ++ i.conflict.clause ++ " INTO ") ++ ctx.identifier i.table.name ++
        (ctx.text " " ++ ctx.enclosed (ctx.identifiers i.columns) ++ ctx.text " " ++
          i.sourceSteps ctx)
  := by
  obtain ⟨table, columns, rows, select, useDefaults, conflict⟩ := i
  have hselect : Query.stepsOption ctx select = select.map (Query.steps .statement ctx) := by
    cases select <;> rfl
  have hnames : ¬ columns.isEmpty = true := by simpa using hcolumns
  cases hdefaults
  rw [steps, if_neg Bool.false_ne_true, if_neg hnames, Operand.stepsRows_eq_map, hselect]
  rfl

/-- An insertion has no effect but that of what is inserted. -/
theorem sameEffect_steps {K : Prop} (hv : ctx.flags.validates = false) (i : Sql.Insert) :
  SameEffect K binding (i.steps ctx)
    (if i.useDefaults then []
      else if i.columns = [] then ctx.piece (.refusal (.incomplete .insertColumns))
      else i.sourceSteps ctx)
  := by
  have hhead : SameEffect K binding
      (ctx.text ("INSERT" ++ i.conflict.clause ++ " INTO ") ++ ctx.identifier i.table.name) [] :=
    (SameEffect.text ctx _).append (.identifier hv _)
  cases hdefaults : i.useDefaults with
  | true =>
      obtain ⟨table, columns, rows, select, useDefaults, conflict⟩ := i
      cases hdefaults
      rw [steps]
      apply hhead.append (SameEffect.text ctx " DEFAULT VALUES")
  | false =>
      by_cases hcolumns : i.columns = []
      · obtain ⟨table, columns, rows, select, useDefaults, conflict⟩ := i
        cases hdefaults
        cases hcolumns
        rw [steps]
        apply hhead.append (.refl _)
      · have hnames : SameEffect K binding
            (ctx.text " " ++ ctx.enclosed (ctx.identifiers i.columns) ++ ctx.text " ") [] :=
          ((SameEffect.text ctx " ").append ((SameEffect.enclosed ctx _).trans
            (.identifiers hv _))).append (.text ctx " ")
        rw [if_neg Bool.false_ne_true, if_neg hcolumns, steps_of_columns ctx hdefaults hcolumns]
        apply hhead.append (hnames.append (.refl _))

theorem failure_steps (hv : ctx.flags.validates = false) (i : Sql.Insert) :
  (Emission.ofSteps binding (i.steps ctx)).failure
    = if i.useDefaults then none
      else if i.columns = [] then some ⟨.incomplete .insertColumns, ctx.flags⟩
      else (Emission.ofSteps binding (i.sourceSteps ctx)).failure
  := by
  have heffect : SameEffect True binding (i.steps ctx) _ := sameEffect_steps hv i
  rw [heffect.failure_eq]
  split
  · rfl
  · split <;> rfl

/-- The first row that is not as wide as there are columns. -/
def misfit? (i : Sql.Insert) : Option (List Operand) :=
  i.rows.find? fun r => r.length != i.columns.length

theorem find?_widths (i : Sql.Insert) :
  (i.rows.map List.length).find? (fun width => width != i.columns.length)
    = i.misfit?.map List.length
  := List.find?_map

theorem misfit?_eq_none_iff :
  i.misfit? = none ↔ ∀ r ∈ i.rows, r.length = i.columns.length
  := by
  simp [misfit?]

theorem misfit?_eq_some_iff {r : List Operand} :
  i.misfit? = some r
    ↔ ∃ before after, i.rows = before ++ r :: after
      ∧ (∀ s ∈ before, s.length = i.columns.length) ∧ r.length ≠ i.columns.length
  := by
  rw [misfit?, List.find?_eq_some_iff_append]
  constructor
  · rintro ⟨hwidth, before, after, hrows, hbefore⟩
    exact ⟨before, after, hrows, by simpa using hbefore, by simpa using hwidth⟩
  · rintro ⟨before, after, hrows, hbefore, hwidth⟩
    exact ⟨by simpa using hwidth, before, after, hrows, by simpa using hbefore⟩

/-- Without a query, it is first looked whether there are rows, then how wide they are, and then
the operands are compiled one after the other. -/
theorem failure_rows (ctx : Context) (hselect : i.select = none) :
  (Emission.ofSteps binding (i.sourceSteps ctx)).failure
    = if i.rows = [] then some ⟨.incomplete .insertRows, ctx.flags⟩
      else match i.misfit? with
        | some r => some ⟨.countMismatch .insertRow i.columns.length r.length, ctx.flags⟩
        | none => i.rows.flatten.findSome? fun x =>
            (Emission.ofSteps binding (x.steps ctx)).failure
  := by
  have hrows : SameEffect True binding (ctx.insertedRows _) _ := .operandRows ctx i.rows
  rw [sourceSteps, hselect, Option.map_none, Context.inserted, List.isEmpty_map, find?_widths]
  simp only [List.isEmpty_iff]
  split
  · rfl
  · cases i.misfit? with
    | some r => rfl
    | none =>
        rw [← Emission.failure_ofSteps_flatMap, ← hrows.failure_eq]
        rfl

section

variable {version : Version} {forValidation : Bool} {flags : Flags}

/-- The errors of rows are those with which the steps of what is inserted fail. -/
theorem refusesRows_iff (hselect : i.select = none) {e : CompileError} :
  i.RefusesRows version binding forValidation flags e
    ↔ ∃ f, (Emission.ofSteps binding (i.sourceSteps ⟨version, flags, forValidation⟩)).failure
        = some f ∧ f.error = e
  := by
  rw [failure_rows _ hselect]
  constructor
  · intro h
    cases h with
    | empty hrows => simp [hrows]
    | width hrows hbefore hwidth =>
        have hne : i.rows ≠ [] := by simp [hrows]
        rw [if_neg hne, misfit?_eq_some_iff.mpr ⟨_, _, hrows, hbefore, hwidth⟩]
        exact ⟨_, rfl, rfl⟩
    | operand hwidth hrows hbefore herror =>
        have hne : i.rows ≠ [] := by
          rintro hnil
          simp [hnil] at hrows
        rw [if_neg hne, misfit?_eq_none_iff.mpr hwidth]
        exact Operand.exists_findSome?_iff.mpr ⟨_, _, _, hrows, hbefore, herror⟩
  · intro h
    split at h
    · obtain ⟨_, ⟨⟩, rfl⟩ := h
      apply RefusesRows.empty
      assumption
    · cases hmisfit : i.misfit? with
      | some r =>
          rw [hmisfit] at h
          obtain ⟨_, ⟨⟩, rfl⟩ := h
          obtain ⟨before, after, hrows, hbefore, hwidth⟩ := misfit?_eq_some_iff.mp hmisfit
          apply RefusesRows.width hrows hbefore hwidth
      | none =>
          rw [hmisfit] at h
          obtain ⟨before, x, after, hrows, hbefore, hx⟩ := Operand.exists_findSome?_iff.mp h
          apply RefusesRows.operand (misfit?_eq_none_iff.mp hmisfit) hrows hbefore hx

theorem hasRows_iff (hselect : i.select = none) :
  i.HasRows version binding forValidation flags
    ↔ (Emission.ofSteps binding (i.sourceSteps ⟨version, flags, forValidation⟩)).failure = none
  := by
  rw [failure_rows _ hselect]
  constructor
  · rintro ⟨hne, hwidth, hcompile⟩
    rw [if_neg hne, misfit?_eq_none_iff.mpr hwidth]
    apply List.findSome?_eq_none_iff.mpr
    intro x hx
    obtain ⟨r, hr, hx⟩ := List.mem_flatten.mp hx
    apply Operand.exists_build_iff.mp (hcompile r hr x hx)
  · intro h
    split at h
    · cases h
    · cases hmisfit : i.misfit? with
      | some r => simp [hmisfit] at h
      | none =>
          rw [hmisfit] at h
          constructor
          · assumption
          · apply misfit?_eq_none_iff.mp hmisfit
          · intro r hr x hx
            apply Operand.exists_build_iff.mpr
            apply List.findSome?_eq_none_iff.mp h
            apply List.mem_flatten_of_mem hr hx

theorem sourceSteps_of_query (ctx : Context) {q : Query} (hselect : i.select = some q) :
  i.sourceSteps ctx = (Node.query q).steps ctx
  := by
  rw [sourceSteps, hselect]
  rfl

/-- An insertion is complete when its steps can be written. -/
theorem isComplete_iff (hv : flags.validates = false) (i : Sql.Insert) :
  i.IsComplete version binding forValidation flags
    ↔ (Emission.ofSteps binding (i.steps ⟨version, flags, forValidation⟩)).failure = none
  := by
  rw [failure_steps hv, IsComplete]
  cases hdefaults : i.useDefaults with
  | true => simp
  | false =>
      by_cases hcolumns : i.columns = []
      · simp [hcolumns]
      · rw [if_neg Bool.false_ne_true, if_neg hcolumns]
        cases hselect : i.select with
        | some q => simp [hcolumns, sourceSteps_of_query _ hselect, Node.exists_build_iff]
        | none => simp [hcolumns, hasRows_iff hselect]

/-- The errors of an insertion are those with which its steps fail. -/
theorem refuses_iff (hv : flags.validates = false) (i : Sql.Insert) (e : CompileError) :
  i.Refuses version binding forValidation flags e
    ↔ ∃ f, (Emission.ofSteps binding (i.steps ⟨version, flags, forValidation⟩)).failure = some f
      ∧ f.error = e
  := by
  rw [failure_steps hv]
  constructor
  · intro h
    cases h with
    | columns hdefaults hcolumns =>
        rw [hdefaults, if_neg Bool.false_ne_true, if_pos hcolumns]
        exact ⟨_, rfl, rfl⟩
    | query hdefaults hcolumns hselect herror =>
        rw [hdefaults, if_neg Bool.false_ne_true, if_neg hcolumns, sourceSteps_of_query _ hselect]
        apply Node.build_eq_error_iff.mp herror
    | rows hdefaults hcolumns hselect hrows =>
        rw [hdefaults, if_neg Bool.false_ne_true, if_neg hcolumns]
        apply (refusesRows_iff hselect).mp hrows
  · intro h
    cases hdefaults : i.useDefaults with
    | true =>
        obtain ⟨f, hf, -⟩ := h
        rw [hdefaults, if_pos rfl] at hf
        cases hf
    | false =>
        rw [hdefaults, if_neg Bool.false_ne_true] at h
        by_cases hcolumns : i.columns = []
        · rw [if_pos hcolumns] at h
          obtain ⟨_, ⟨⟩, rfl⟩ := h
          apply Refuses.columns hdefaults hcolumns
        · rw [if_neg hcolumns] at h
          cases hselect : i.select with
          | some q =>
              rw [sourceSteps_of_query _ hselect] at h
              apply Refuses.query hdefaults hcolumns hselect (Node.build_eq_error_iff.mpr h)
          | none =>
              apply Refuses.rows hdefaults hcolumns hselect ((refusesRows_iff hselect).mpr h)

end

/-! ### What is inserted -/

section

variable {version : Version} {forValidation : Bool} {flags : Flags}

theorem HasRows.failure_eq_none (h : i.HasRows version binding forValidation flags) :
  ∀ r ∈ i.rows, ∀ x ∈ r,
    (Emission.ofSteps binding (x.steps ⟨version, flags, forValidation⟩)).failure = none
  := by
  intro r hr x hx
  apply Operand.exists_build_iff.mp (h.compile r hr x hx)

theorem HasRows.sourceSteps_eq (h : i.HasRows version binding forValidation flags)
    (hselect : i.select = none) (ctx : Context) :
  i.sourceSteps ctx
    = ctx.insertedRows (i.rows.map fun r => ctx.separated ", " (r.map (Operand.steps ctx)))
  := by
  have hrows : ¬ (i.rows.map fun r =>
      ctx.separated ", " (r.map (Operand.steps ctx))).isEmpty = true := by
    simpa using h.nonempty
  rw [sourceSteps, hselect, Option.map_none, Context.inserted, if_neg hrows, find?_widths,
    misfit?_eq_none_iff.mpr h.rectangular, Option.map_none]

/-- What is inserted is written as the rows of what the operands are compiled to. -/
theorem HasRows.written_sourceSteps (h : i.HasRows version binding forValidation flags)
    (hselect : i.select = none) :
  (i.sourceSteps ⟨version, flags, forValidation⟩).flatMap (Step.written binding)
    = (rowsText version (i.rows.map
        (List.map fun x => (x.built version binding forValidation flags).text))).toList
  := by
  rw [h.sourceSteps_eq hselect]
  generalize hctx : (⟨version, flags, forValidation⟩ : Context) = ctx
  have hwritten (r : List Operand) (hr : r ∈ i.rows) (x : Operand) (hx : x ∈ r) :
      String.ofList ((x.steps ctx).flatMap (Step.written binding))
        = (x.built version binding forValidation flags).text := by
    have hsteps := Emission.ofSteps_failure_eq_none_iff.mp (h.failure_eq_none r hr x hx)
    rw [← String.toList_inj, String.toList_ofList, Operand.built, Builder.filled,
      Emission.text_ofSteps hsteps, hctx]
    rfl
  calc (ctx.insertedRows (i.rows.map fun r =>
          ctx.separated ", " (r.map (Operand.steps ctx)))).flatMap (Step.written binding)
      = (ctx.insertedRows ((i.rows.map (List.map (Operand.steps ctx))).map
          (ctx.separated ", "))).flatMap (Step.written binding) := by
        rw [List.map_map]
        rfl
    _ = (rowsText version (i.rows.map (List.map fun x =>
          String.ofList ((x.steps ctx).flatMap (Step.written binding))))).toList := by
        rw [Context.written_insertedRows, List.map_map, ← hctx]
        simp only [Function.comp_def, List.map_map]
    _ = _ := by
        congr 2
        apply List.map_congr_left
        intro r hr
        apply List.map_congr_left (hwritten r hr)

/-- What is bound in an insertion of rows is what is bound in its operands. -/
theorem HasRows.args_steps (h : i.HasRows version binding forValidation flags)
    (hv : flags.validates = false) (hdefaults : i.useDefaults = false)
    (hcolumns : i.columns ≠ []) (hselect : i.select = none) :
  (Emission.ofSteps binding (i.steps ⟨version, flags, forValidation⟩)).args
    = i.rows.flatten.flatMap fun x =>
      (Emission.ofSteps binding (x.steps ⟨version, flags, forValidation⟩)).args
  := by
  have heffect : SameEffect True binding (i.steps ⟨version, flags, forValidation⟩) _ :=
    sameEffect_steps hv i
  rw [hdefaults, if_neg Bool.false_ne_true, if_neg hcolumns] at heffect
  rw [heffect.args_eq trivial, h.sourceSteps_eq hselect,
    (SameEffect.operandRows (K := True) _ i.rows).args_eq trivial]
  apply Emission.args_ofSteps_flatMap
  intro x hx
  obtain ⟨r, hr, hx⟩ := List.mem_flatten.mp hx
  apply h.failure_eq_none r hr x hx

theorem HasRows.written_steps (h : i.HasRows version binding forValidation flags)
    (hv : flags.validates = false) (hdefaults : i.useDefaults = false)
    (hcolumns : i.columns ≠ []) (hselect : i.select = none) :
  (i.steps ⟨version, flags, forValidation⟩).flatMap (Step.written binding)
    = ("INSERT" ++ i.conflict.clause ++ " INTO " ++ i.table.name ++ " ("
        ++ ", ".intercalate i.columns ++ ") "
        ++ rowsText version (i.rows.map
            (List.map fun x => (x.built version binding forValidation flags).text))).toList
  := by
  have hv' : (⟨version, flags, forValidation⟩ : Context).flags.validates = false := hv
  rw [steps_of_columns _ hdefaults hcolumns]
  simp only [List.flatMap_append, Context.written_text, Context.written_identifier hv',
    Context.written_enclosed, Context.written_identifiers hv', h.written_sourceSteps hselect,
    String.toList_append, List.append_assoc]
  rfl

/-- An insertion of rows is compiled to its rows, with what the operands are compiled to. -/
theorem HasRows.build_eq (h : i.HasRows version binding forValidation flags)
    (hv : flags.validates = false) (hdefaults : i.useDefaults = false)
    (hcolumns : i.columns ≠ []) (hselect : i.select = none) :
  (Node.insert i).build version binding forValidation flags
    = .ok ⟨version,
        "INSERT" ++ i.conflict.clause ++ " INTO " ++ i.table.name ++ " ("
          ++ ", ".intercalate i.columns ++ ") "
          ++ rowsText version (i.rows.map
              (List.map fun x => (x.built version binding forValidation flags).text)),
        (Builder.new version binding).args.map (· ++ i.rows.flatten.flatMap fun x =>
          (Emission.ofSteps binding (x.steps ⟨version, flags, forValidation⟩)).args),
        flags⟩
  := by
  have hnone : (Emission.ofSteps binding (i.steps ⟨version, flags, forValidation⟩)).failure
      = none := (isComplete_iff hv i).mp (.inr ⟨hcolumns, .inr ⟨hselect, h⟩⟩)
  have htext := Emission.text_ofSteps (Emission.ofSteps_failure_eq_none_iff.mp hnone)
  change _ = (i.steps ⟨version, flags, forValidation⟩).flatMap (Step.written binding) at htext
  rw [h.written_steps hv hdefaults hcolumns hselect, String.toList_inj] at htext
  rw [Node.build_eq_ok_iff, Node.steps, Builder.filled, htext,
    h.args_steps hv hdefaults hcolumns hselect]
  use hnone

theorem HasRows.forall₂_built (h : i.HasRows version binding forValidation flags) :
  List.Forall₂ (List.Forall₂ fun x c => x.build version binding forValidation flags = .ok c)
    i.rows (i.rows.map (List.map (Operand.built version binding forValidation flags)))
  := by
  rw [List.forall₂_map_right_iff, List.forall₂_same]
  intro r hr
  rw [List.forall₂_map_right_iff, List.forall₂_same]
  intro x hx
  apply Operand.build_eq_built (h.compile r hr x hx)

end

end Insert

end

/-- Where nothing is checked, an insertion is written when it is complete, and otherwise is refused
with the error of what is missing first.  Of rows that are inserted every operand is written once,
row by row, and so is what is bound in it, whichever form the version gives to the rows. -/
theorem Node.build_insert {flags : Flags} (hv : flags.validates = false) (version : Version)
    (binding : Binding) (forValidation : Bool) (i : Sql.Insert) :
  ((∃ b, (Node.insert i).build version binding forValidation flags = .ok b)
      ↔ i.IsComplete version binding forValidation flags)
    ∧ (∀ e, (Node.insert i).build version binding forValidation flags = .error e
        ↔ i.Refuses version binding forValidation flags e)
    ∧ ∀ b, (Node.insert i).build version binding forValidation flags = .ok b →
        i.useDefaults = false → i.select = none →
        ∃ rows : List (List Builder),
          List.Forall₂ (List.Forall₂ fun x c =>
              x.build version binding forValidation flags = .ok c) i.rows rows
            ∧ b.text = "INSERT" ++ i.conflict.clause ++ " INTO " ++ i.table.name ++ " ("
                ++ ", ".intercalate i.columns ++ ") "
                ++ rowsText version (rows.map (List.map Builder.text))
            ∧ b.args.getD [] = rows.flatten.flatMap fun c => c.args.getD []
  := by
  refine ⟨?_, ?_, ?_⟩
  · rw [exists_build_iff, Insert.isComplete_iff hv, Node.steps]
  · intro e
    rw [build_eq_error_iff, Insert.refuses_iff hv, Node.steps]
  · intro b hb hdefaults hselect
    have hcomplete := (Insert.isComplete_iff hv i).mpr (build_eq_ok_iff.mp hb).1
    rw [Insert.IsComplete, hdefaults, hselect] at hcomplete
    obtain ⟨⟨⟩⟩ | ⟨hcolumns, ⟨q, ⟨⟩, -⟩ | ⟨-, hrows⟩⟩ := hcomplete
    rw [hrows.build_eq hv hdefaults hcolumns hselect] at hb
    cases hb
    refine ⟨_, hrows.forall₂_built, ?_, ?_⟩
    · rw [List.map_map]
      simp only [Function.comp_def, List.map_map]
    · rw [← List.map_flatten, List.flatMap_map]
      cases binding with
      | bound => rfl
      | literals => exact (List.flatMap_eq_nil_iff.mpr fun _ _ => rfl).symm

/-- An insertion of Ada, and of the people selected by a condition that lacks its value. -/
def Insert.overruled : Sql.Insert :=
  { into { model := "Person", name := "people" } with
    columns := ["name"]
    rows := [[.value (.text "Ada")]]
    select := some ((Query.selectAll.selectFrom
      (.table { model := "Person", name := "people" })).filter (.raw "age > ?" [])) }

theorem Insert.hasRows_overruled :
  overruled.HasRows .latest .bound false .none
  := by
  constructor
  · apply List.cons_ne_nil
  · intro r hr
    obtain rfl := List.mem_singleton.mp hr
    rfl
  · intro r hr x hx
    obtain rfl := List.mem_singleton.mp hr
    obtain rfl := List.mem_singleton.mp hx
    exact ⟨_, rfl⟩

/-- The rows of an insertion do not stand in for its query: where this does not compile, the
insertion is refused, although it has rows that could be inserted. -/
theorem Node.not_build_insert :
  ¬ ((∃ b, (Node.insert .overruled).build .latest .bound false .none = .ok b)
      ↔ Insert.overruled.useDefaults = true
        ∨ Insert.overruled.columns ≠ []
          ∧ ((∃ q, Insert.overruled.select = some q
                ∧ ∃ b, (Node.query q).build .latest .bound false .none = .ok b)
              ∨ Insert.overruled.HasRows .latest .bound false .none))
  := by
  have hrefused : (Node.insert .overruled).build .latest .bound false .none
      = .error (.countMismatch .fragmentArguments 1 0) := rfl
  intro h
  obtain ⟨b, hb⟩ := h.mpr (.inr ⟨List.cons_ne_nil _ _, .inr Insert.hasRows_overruled⟩)
  rw [hrefused] at hb
  cases hb

/-- Two people are inserted by selects where lists of values are not understood, a row that is too
narrow is refused, and so is a query that lacks a value. -/
theorem Node.build_insert_couple :
  (∃ b, (Node.insert .couple).build ⟨3, 7, 10, 0⟩ .literals false .none = .ok b
      ∧ b.text = "INSERT INTO people (name) SELECT 'Ada' UNION ALL SELECT 'Kurt'")
    ∧ (Node.insert .narrow).build .latest .bound false .none
      = .error (.countMismatch .insertRow 2 1)
    ∧ (Node.insert .overruled).build .latest .bound false .none
      = .error (.countMismatch .fragmentArguments 1 0)
  := by
  have hv : Flags.none.validates = false := rfl
  refine ⟨?_, ?_, ?_⟩
  · obtain ⟨hcomplete, -, hrows⟩ :=
      Node.build_insert hv ⟨3, 7, 10, 0⟩ .literals false .couple
    have hcouple : Insert.couple.HasRows ⟨3, 7, 10, 0⟩ .literals false .none := by
      constructor
      · apply List.cons_ne_nil
      · simp [Insert.couple]
      · intro r hr x hx
        obtain rfl | hr := List.mem_cons.mp hr
        · obtain rfl := List.mem_singleton.mp hx
          exact ⟨_, rfl⟩
        · obtain rfl := List.mem_singleton.mp hr
          obtain rfl := List.mem_singleton.mp hx
          exact ⟨_, rfl⟩
    obtain ⟨b, hb⟩ := hcomplete.mpr (.inr ⟨List.cons_ne_nil _ _, .inr ⟨rfl, hcouple⟩⟩)
    obtain ⟨rows, hforall, htext, -⟩ := hrows b hb rfl rfl
    use b, hb
    rw [htext]
    obtain _ | ⟨hada, _ | ⟨hkurt, ⟨⟩⟩⟩ := hforall
    obtain _ | ⟨hada, ⟨⟩⟩ := hada
    obtain _ | ⟨hkurt, ⟨⟩⟩ := hkurt
    cases hada
    cases hkurt
    rfl
  · apply ((Node.build_insert hv .latest .bound false .narrow).2.1 _).mpr
    apply Insert.Refuses.rows rfl (List.cons_ne_nil _ _) rfl
    have hrows : Insert.narrow.rows
        = [] ++ [.value (.text "Ada")] :: [[.value (.text "Kurt")]] := rfl
    exact Insert.RefusesRows.width hrows (by simp) (by decide)
  · apply ((Node.build_insert hv .latest .bound false .overruled).2.1 _).mpr
    apply Insert.Refuses.query rfl (List.cons_ne_nil _ _) rfl rfl

end TypedSql.Sql
