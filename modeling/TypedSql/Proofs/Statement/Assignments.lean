import Mathlib.Data.List.Induction
import TypedSql.Proofs.Statement.Insertion
import TypedSql.Proofs.Value.Store

/-!
# Assignments

An update assigns each of its columns once.  Whatever has been set, in whatever order and however
often, the columns stand in the order in which they were first set, and each has the operand that
it was set to last (`Update.made_assignments`).  Setting one column is a step that preserves this,
and the entries of a store might as well have been set one by one.

What is rendered of an update are these assignments, each once and in this order, behind the name
of the table and before the conditions.
-/

namespace TypedSql

/-! ### The latest pairs -/

namespace Assoc

variable {κ α : Type} [BEq κ] [LawfulBEq κ]

/-- Pairs that are the latest of those that have been put, from the first on: no key occurs twice,
the keys are in the order in which they were first put, and under each key is what was put last. -/
structure Latest (puts xs : List (κ × α)) : Prop where
  nodup : (xs.map Prod.fst).Nodup
  ordered : (xs.map Prod.fst).Pairwise fun k l =>
    (puts.map Prod.fst).idxOf k < (puts.map Prod.fst).idxOf l
  latest (k : κ) : get? k xs = get? k puts.reverse

variable {puts xs : List (κ × α)}

omit [LawfulBEq κ] in
theorem latest_nil :
  Latest ([] : List (κ × α)) []
  := by
  constructor
  · exact .nil
  · exact .nil
  · intro k
    rfl

/-- The keys are those that have been put. -/
theorem Latest.mem_keys_iff (h : Latest puts xs) {k : κ} :
  k ∈ xs.map Prod.fst ↔ k ∈ puts.map Prod.fst
  := by
  have hnone : k ∉ xs.map Prod.fst ↔ k ∉ puts.reverse.map Prod.fst := by
    rw [← get?_eq_none_iff, h.latest, get?_eq_none_iff]
  rw [List.map_reverse, List.mem_reverse] at hnone
  exact not_iff_not.mp hnone

/-- Another pair that is put is the latest under its key. -/
theorem Latest.put (h : Latest puts xs) (k : κ) (v : α) :
  Latest (puts ++ [(k, v)]) (put k v xs)
  := by
  have hindex (l : κ) (hl : l ∈ xs.map Prod.fst) :
      ((puts ++ [(k, v)]).map Prod.fst).idxOf l = (puts.map Prod.fst).idxOf l := by
    rw [List.map_append, List.idxOf_append_of_mem (h.mem_keys_iff.mp hl)]
  have hordered : (xs.map Prod.fst).Pairwise fun l m =>
      ((puts ++ [(k, v)]).map Prod.fst).idxOf l < ((puts ++ [(k, v)]).map Prod.fst).idxOf m := by
    apply h.ordered.imp_of_mem
    intro l m hl hm hlt
    rwa [hindex l hl, hindex m hm]
  constructor
  · exact nodup_keys_put k v h.nodup
  · rw [keys_put]
    split
    · exact hordered
    · rename_i hk
      -- a new key comes last, behind all that has been put
      rw [List.pairwise_append]
      refine ⟨hordered, List.pairwise_singleton _ _, fun l hl m hm => ?_⟩
      obtain rfl := List.mem_singleton.mp hm
      have hnew : m ∉ puts.map Prod.fst := fun hmem => hk (h.mem_keys_iff.mpr hmem)
      rw [hindex l hl, List.map_append, List.idxOf_append_of_notMem hnew]
      exact Nat.lt_of_lt_of_le (List.idxOf_lt_length_of_mem (h.mem_keys_iff.mp hl))
        (Nat.le_add_right _ _)
  · intro l
    rw [List.reverse_append, List.reverse_singleton, List.singleton_append, get?]
    by_cases hl : k = l
    · subst hl
      simp [get?_put_self]
    · simp [hl, get?_put_of_ne (Ne.symm hl), h.latest]

/-- What is put one by one is the latest under its keys. -/
theorem Latest.overlay (h : Latest puts xs) (ys : List (κ × α)) :
  Latest (puts ++ ys) (overlay xs ys)
  := by
  induction ys generalizing puts xs with
  | nil =>
      rw [List.append_nil]
      exact h
  | cons e ys ih =>
      have hrest := ih (h.put e.1 e.2)
      rw [List.append_assoc] at hrest
      exact hrest

/-- Pairs of which no two have one key are the latest of themselves. -/
theorem latest_self (h : (xs.map Prod.fst).Nodup) :
  Latest xs xs
  := by
  have hself : Latest ([] ++ xs) (overlay [] xs) := latest_nil.overlay xs
  rw [overlay_eq_append (by simpa using h)] at hself
  exact hself

end Assoc

namespace Sql

/-! ### Updates and what has been set -/

/-- The updates of a table that are made clause by clause, together with what has been set in them,
from the first on. -/
inductive Update.Made (t : Table) : List (String × Operand) → Update → Prop where
  | of : Made t [] (of t)
  | ofStore (s : Store) : Made t (s.entries.map fun e => (e.1, .value e.2)) (ofStore t s)
  | set {puts : List (String × Operand)} {u : Update} (h : Made t puts u) (c : Column)
    (x : Operand) : Made t (puts ++ [(c.expression, x)]) (u.set c x)
  | filter {puts : List (String × Operand)} {u : Update} (h : Made t puts u) (c : Criterion) :
    Made t puts (u.filter c)
  | onConflict {puts : List (String × Operand)} {u : Update} (h : Made t puts u) (c : Conflict) :
    Made t puts (u.onConflict c)

namespace Update

theorem nodup_keys_values (s : Store) :
  ((s.entries.map fun e => (e.1, Operand.value e.2)).map Prod.fst).Nodup
  := by
  rw [List.map_map]
  exact s.nodup

/-- However an update is made, its assignments are the latest of those that have been set. -/
theorem Made.latest {t : Table} {puts : List (String × Operand)} {u : Update}
    (h : Made t puts u) :
  Assoc.Latest puts u.assignments
  := by
  induction h with
  | of => exact Assoc.latest_nil
  | ofStore s => exact Assoc.latest_self (nodup_keys_values s)
  | set _ c x ih => exact ih.put c.expression x
  | filter _ _ ih => exact ih
  | onConflict _ _ ih => exact ih

theorem Made.table {t : Table} {puts : List (String × Operand)} {u : Update}
    (h : Made t puts u) :
  u.table = t
  := by
  induction h with
  | of => rfl
  | ofStore s => rfl
  | set _ _ _ ih => exact ih
  | filter _ _ ih => exact ih
  | onConflict _ _ ih => exact ih

/-- Setting entries one by one is overlaying the assignments with them. -/
theorem foldl_set {f : String → Column} (hf : ∀ k, (f k).expression = k)
    (es : List (String × Value)) (u : Update) :
  es.foldl (fun u e => u.set (f e.1) (.value e.2)) u
    = { u with
        assignments := Assoc.overlay u.assignments (es.map fun e => (e.1, .value e.2)) }
  := by
  induction es generalizing u with
  | nil =>
      obtain ⟨table, assignments, filters, conflict⟩ := u
      rfl
  | cons e es ih =>
      rw [List.foldl_cons, ih, set, hf]
      rfl

/-- An update by a store is one in which its entries are set one by one. -/
theorem ofStore_eq_foldl {f : String → Column} (hf : ∀ k, (f k).expression = k) (t : Table)
    (s : Store) :
  ofStore t s = s.entries.foldl (fun u e => u.set (f e.1) (.value e.2)) (of t)
  := by
  have hentries : Assoc.overlay [] (s.entries.map fun e => (e.1, Operand.value e.2))
      = s.entries.map fun e => (e.1, .value e.2) :=
    Assoc.overlay_eq_append (nodup_keys_values s)
  rw [foldl_set hf, of, hentries]
  rfl

end Update

/-! ### Names -/

/-- Whether a name can be written: where names are checked it has to be a plain one. -/
def Flags.Permits (flags : Flags) (name : String) : Prop :=
  flags.validates = true → checkIdentifier name = .ok ()

section

variable {binding : Binding} {ctx : Context} {name : String}

theorem Emission.ofStep_of_permits {flags : Flags} (h : flags.Permits name) :
  ofStep binding ⟨flags, .identifier name⟩ = ofText name
  := by
  simp only [ofStep, checked]
  split
  · rename_i hv
    rw [h hv]
  · rfl

theorem Emission.failure_identifier_iff :
  (ofSteps binding (ctx.identifier name)).failure = none ↔ ctx.flags.Permits name
  := by
  rw [ofSteps_failure_eq_none_iff, Context.identifier, Context.piece, List.forall_mem_singleton]
  constructor
  · intro h hv
    simp only [ofStep, checked, hv, if_true] at h
    cases hcheck : checkIdentifier name with
    | ok u => rfl
    | error e => simp [hcheck, fail] at h
  · intro h
    rw [ofStep_of_permits h]
    rfl

theorem Context.written_of_permits (h : ctx.flags.Permits name) :
  (ctx.identifier name).flatMap (Step.written binding) = name.toList
  := by
  rw [identifier, piece, List.flatMap_singleton, Step.written, Emission.ofStep_of_permits h]
  rfl

/-- Behind a name that can be written, everything is bound as it is alone. -/
theorem Emission.args_identifier_append (h : ctx.flags.Permits name) (ss : List Step) :
  (ofSteps binding (ctx.identifier name ++ ss)).args = (ofSteps binding ss).args
  := by
  rw [ofSteps_append, append_of_failure_eq_none (failure_identifier_iff.mpr h),
    Context.identifier, Context.piece, ofSteps, ofSteps, append_empty, ofStep_of_permits h]
  rfl

/-- What is written of steps that do not fail is their text. -/
theorem Emission.flatMap_written {ss : List Step} (h : (ofSteps binding ss).failure = none) :
  ss.flatMap (Step.written binding) = (ofSteps binding ss).text.toList
  :=
  (text_ofSteps (ofSteps_failure_eq_none_iff.mp h)).symm

end

/-! ### What is rendered -/

section

variable (version : Version) (binding : Binding) (forValidation : Bool) (flags : Flags)

/-- What a node is compiled to, unless it fails. -/
def Node.built (n : Node) : Builder :=
  Builder.filled version binding flags (n.steps ⟨version, flags, forValidation⟩)

/-- Whether an update can be written: it assigns something, its names can be written, and its
operands and conditions compile. -/
structure Update.Writable (u : Update) : Prop where
  nonempty : u.assignments ≠ []
  table : flags.Permits u.table.name
  columns : ∀ e ∈ u.assignments, flags.Permits e.1
  operands : ∀ e ∈ u.assignments, ∃ b, e.2.build version binding forValidation flags = .ok b
  filters : ∀ c ∈ u.filters,
    ∃ b, (Node.criterion c).build version binding forValidation flags = .ok b

end

/-- The text of conditions that all have to hold. -/
def filtersText (conditions : List String) : String :=
  if conditions = [] then "" else " WHERE " ++ " AND ".intercalate conditions

namespace Update

section

variable {binding : Binding} {ctx : Context} {u : Update}

theorem steps_eq (ctx : Context) (h : u.assignments ≠ []) :
  u.steps ctx
    = ctx.text ("UPDATE" ++ u.conflict.clause ++ " ") ++ ctx.identifier u.table.name
      ++ ctx.text " SET "
      ++ ctx.separated ", " (u.assignments.map fun e =>
        ctx.identifier e.1 ++ ctx.text " = " ++ e.2.steps ctx)
      ++ ctx.filters (u.filters.map (Criterion.steps ctx))
  := by
  obtain ⟨table, assignments, filters, conflict⟩ := u
  have hne : ¬ assignments.isEmpty = true := by simpa using h
  rw [steps, if_neg hne, Operand.stepsAssigned_eq_map, Criterion.stepsEach_eq_map]

theorem sameEffect_filters {K : Prop} (ctx : Context) (cs : List (List Step)) :
  SameEffect K binding (ctx.filters cs) cs.flatten
  := by
  unfold Context.filters
  split
  · rename_i hnil
    rw [List.isEmpty_iff.mp hnil]
    apply SameEffect.refl
  · apply (SameEffect.text ctx _).append (SameEffect.separated ctx _ _)

/-- An update is written to the effect of its names, operands and conditions. -/
theorem sameEffect_steps {K : Prop} (ctx : Context) (h : u.assignments ≠ []) :
  SameEffect K binding (u.steps ctx)
    (ctx.identifier u.table.name
      ++ (u.assignments.flatMap fun e => ctx.identifier e.1 ++ e.2.steps ctx)
      ++ u.filters.flatMap (Criterion.steps ctx))
  := by
  rw [steps_eq ctx h, List.flatMap_def, List.flatMap_def]
  apply SameEffect.append _ (sameEffect_filters ctx _)
  have hname : SameEffect K binding
      (ctx.text ("UPDATE" ++ u.conflict.clause ++ " ") ++ ctx.identifier u.table.name
        ++ ctx.text " SET ")
      ([] ++ ctx.identifier u.table.name ++ []) :=
    ((SameEffect.text ctx _).append (SameEffect.refl _)).append (SameEffect.text ctx _)
  have hequals (e : String × Operand) : SameEffect K binding
      (ctx.identifier e.1 ++ ctx.text " = " ++ e.2.steps ctx)
      (ctx.identifier e.1 ++ [] ++ e.2.steps ctx) :=
    ((SameEffect.refl _).append (SameEffect.text ctx " = ")).append (SameEffect.refl _)
  have hassigned : SameEffect K binding
      (ctx.separated ", " (u.assignments.map fun e =>
        ctx.identifier e.1 ++ ctx.text " = " ++ e.2.steps ctx))
      (u.assignments.map fun e => ctx.identifier e.1 ++ [] ++ e.2.steps ctx).flatten :=
    (SameEffect.separated ctx ", " _).trans (SameEffect.flatten fun e _ => hequals e)
  simp only [List.append_nil] at hassigned
  rw [List.append_nil, List.nil_append] at hname
  exact hname.append hassigned

/-- An update can be written exactly when its steps can. -/
theorem writable_iff {version : Version} {forValidation : Bool} {flags : Flags} :
  u.Writable version binding forValidation flags
    ↔ (Emission.ofSteps binding (u.steps ⟨version, flags, forValidation⟩)).failure = none
  := by
  by_cases hne : u.assignments = []
  · obtain ⟨table, assignments, filters, conflict⟩ := u
    obtain rfl : assignments = [] := hne
    constructor
    · intro h
      exact absurd rfl h.nonempty
    · intro h
      cases h
  · rw [(sameEffect_steps (K := False) _ hne).failure_eq, Emission.failure_ofSteps_append,
      Emission.failure_ofSteps_append, Emission.failure_ofSteps_flatMap,
      Emission.failure_ofSteps_flatMap, Option.or_eq_none_iff, Option.or_eq_none_iff,
      List.findSome?_eq_none_iff, List.findSome?_eq_none_iff, Emission.failure_identifier_iff]
    simp only [Emission.failure_ofSteps_append, Option.or_eq_none_iff,
      Emission.failure_identifier_iff]
    constructor
    · rintro ⟨-, htable, hcolumns, hoperands, hfilters⟩
      exact ⟨⟨htable, fun e he => ⟨hcolumns e he, Operand.exists_build_iff.mp (hoperands e he)⟩⟩,
        fun c hc => Node.exists_build_iff.mp (hfilters c hc)⟩
    · rintro ⟨⟨htable, hassigned⟩, hfilters⟩
      exact ⟨hne, htable, fun e he => (hassigned e he).1,
        fun e he => Operand.exists_build_iff.mpr (hassigned e he).2,
        fun c hc => Node.exists_build_iff.mpr (hfilters c hc)⟩

end

section

variable {version : Version} {binding : Binding} {forValidation : Bool} {flags : Flags}
  {u : Update}

theorem written_filters {ctx : Context} {cs : List Criterion}
    (h : ∀ c ∈ cs, (Emission.ofSteps binding (c.steps ctx)).failure = none) :
  (ctx.filters (cs.map (Criterion.steps ctx))).flatMap (Step.written binding)
    = (filtersText (cs.map fun c => (Emission.ofSteps binding (c.steps ctx)).text)).toList
  := by
  have hwritten : ∀ c ∈ cs, (c.steps ctx).flatMap (Step.written binding)
      = (Emission.ofSteps binding (c.steps ctx)).text.toList :=
    fun c hc => Emission.flatMap_written (h c hc)
  unfold Context.filters filtersText
  by_cases hnil : cs = []
  · simp [hnil]
  · simp only [List.isEmpty_iff, List.map_eq_nil_iff, hnil, if_false]
    rw [List.flatMap_append, Context.written_text, Context.written_separated, String.toList_append,
      String.toList_intercalate, List.map_map, List.map_map]
    congr 2
    exact List.map_congr_left hwritten

/-- An update that can be written is written as its assignments and conditions, with what these are
compiled to. -/
theorem Writable.written_steps (h : u.Writable version binding forValidation flags) :
  (u.steps ⟨version, flags, forValidation⟩).flatMap (Step.written binding)
    = ("UPDATE" ++ u.conflict.clause ++ " " ++ u.table.name ++ " SET "
        ++ ", ".intercalate (u.assignments.map fun e =>
          e.1 ++ " = " ++ (e.2.built version binding forValidation flags).text)
        ++ filtersText (u.filters.map fun c =>
          ((Node.criterion c).built version binding forValidation flags).text)).toList
  := by
  have htable : (⟨version, flags, forValidation⟩ : Context).flags.Permits u.table.name := h.table
  have hfilters : ∀ c ∈ u.filters,
      (Emission.ofSteps binding (c.steps ⟨version, flags, forValidation⟩)).failure = none :=
    fun c hc => Node.exists_build_iff.mp (h.filters c hc)
  have hassigned : ∀ e ∈ u.assignments,
      (Context.identifier ⟨version, flags, forValidation⟩ e.1
          ++ Context.text ⟨version, flags, forValidation⟩ " = "
          ++ e.2.steps ⟨version, flags, forValidation⟩).flatMap (Step.written binding)
        = (e.1 ++ " = " ++ (e.2.built version binding forValidation flags).text).toList := by
    intro e he
    have hcolumn : (⟨version, flags, forValidation⟩ : Context).flags.Permits e.1 := h.columns e he
    rw [List.flatMap_append, List.flatMap_append, Context.written_of_permits hcolumn,
      Context.written_text,
      Emission.flatMap_written (Operand.exists_build_iff.mp (h.operands e he)),
      String.toList_append, String.toList_append]
    rfl
  rw [steps_eq _ h.nonempty]
  simp only [List.flatMap_append, Context.written_text, Context.written_of_permits htable,
    Context.written_separated, written_filters hfilters, String.toList_append,
    String.toList_intercalate, List.map_map]
  congr 3
  exact List.map_congr_left hassigned

/-- What is bound in an update is what is bound in its operands and in its conditions. -/
theorem Writable.args_steps (h : u.Writable version binding forValidation flags) :
  (Emission.ofSteps binding (u.steps ⟨version, flags, forValidation⟩)).args
    = (u.assignments.flatMap fun e =>
        (Emission.ofSteps binding (e.2.steps ⟨version, flags, forValidation⟩)).args)
      ++ u.filters.flatMap fun c =>
        (Emission.ofSteps binding (c.steps ⟨version, flags, forValidation⟩)).args
  := by
  generalize hctx : (⟨version, flags, forValidation⟩ : Context) = ctx
  have hpermits (name : String) (hname : flags.Permits name) : ctx.flags.Permits name := by
    rw [← hctx]
    exact hname
  have hassigned : ∀ e ∈ u.assignments,
      (Emission.ofSteps binding (ctx.identifier e.1 ++ e.2.steps ctx)).failure = none := by
    intro e he
    rw [Emission.failure_ofSteps_append, Option.or_eq_none_iff]
    use Emission.failure_identifier_iff.mpr (hpermits _ (h.columns e he))
    rw [← hctx]
    exact Operand.exists_build_iff.mp (h.operands e he)
  have hassignments : (Emission.ofSteps binding (u.assignments.flatMap fun e =>
      ctx.identifier e.1 ++ e.2.steps ctx)).failure = none := by
    rw [Emission.failure_ofSteps_flatMap, List.findSome?_eq_none_iff]
    exact hassigned
  have hfilters : ∀ c ∈ u.filters, (Emission.ofSteps binding (c.steps ctx)).failure = none := by
    rw [← hctx]
    exact fun c hc => Node.exists_build_iff.mp (h.filters c hc)
  have hoperands : (u.assignments.flatMap fun e =>
        (Emission.ofSteps binding (ctx.identifier e.1 ++ e.2.steps ctx)).args)
      = u.assignments.flatMap fun e => (Emission.ofSteps binding (e.2.steps ctx)).args :=
    List.flatMap_congr fun e he =>
      Emission.args_identifier_append (hpermits _ (h.columns e he)) _
  rw [(sameEffect_steps (K := True) ctx h.nonempty).args_eq trivial, List.append_assoc,
    Emission.args_identifier_append (hpermits _ h.table), Emission.ofSteps_append,
    Emission.append_of_failure_eq_none hassignments, Emission.args_ofSteps_flatMap hassigned,
    Emission.args_ofSteps_flatMap hfilters, hoperands]

/-- An update that can be written is compiled to its assignments and conditions. -/
theorem Writable.build_eq (h : u.Writable version binding forValidation flags) :
  (Node.update u).build version binding forValidation flags
    = .ok ⟨version,
        "UPDATE" ++ u.conflict.clause ++ " " ++ u.table.name ++ " SET "
          ++ ", ".intercalate (u.assignments.map fun e =>
            e.1 ++ " = " ++ (e.2.built version binding forValidation flags).text)
          ++ filtersText (u.filters.map fun c =>
            ((Node.criterion c).built version binding forValidation flags).text),
        (Builder.new version binding).args.map (· ++ ((u.assignments.flatMap fun e =>
            (Emission.ofSteps binding (e.2.steps ⟨version, flags, forValidation⟩)).args)
          ++ u.filters.flatMap fun c =>
            (Emission.ofSteps binding (c.steps ⟨version, flags, forValidation⟩)).args)),
        flags⟩
  := by
  have hnone := writable_iff.mp h
  have htext := Emission.flatMap_written hnone
  rw [h.written_steps, String.toList_inj] at htext
  rw [Node.build_eq_ok_iff, Node.steps, Builder.filled, ← htext, h.args_steps]
  exact ⟨hnone, rfl⟩

end

end Update

/-- However an update of a table is made, each column is assigned once, at the place where it was
first set and to what it was last set to.  The update is written when it assigns something, its
names are fit to be written, and its operands and conditions compile; what it sets is then just
these assignments, in this order.  The entries of a store might as well have been set one by one,
through any handles on the columns. -/
theorem Update.made_assignments {t : Table} {puts : List (String × Operand)} {u : Update}
    (h : Made t puts u) :
  Assoc.Latest puts u.assignments
    ∧ (∀ (version : Version) (binding : Binding) (forValidation : Bool) (flags : Flags),
      ((∃ b, (Node.update u).build version binding forValidation flags = .ok b)
          ↔ u.Writable version binding forValidation flags)
        ∧ ∀ b, (Node.update u).build version binding forValidation flags = .ok b →
          ∃ (assigned : List (String × Builder)) (conditions : List Builder),
            List.Forall₂ (fun e a => a.1 = e.1
                ∧ e.2.build version binding forValidation flags = .ok a.2) u.assignments assigned
              ∧ List.Forall₂ (fun c d =>
                (Node.criterion c).build version binding forValidation flags = .ok d)
                u.filters conditions
              ∧ b.text = "UPDATE" ++ u.conflict.clause ++ " " ++ t.name ++ " SET "
                ++ ", ".intercalate (assigned.map fun a => a.1 ++ " = " ++ a.2.text)
                ++ filtersText (conditions.map Builder.text)
              ∧ b.args.getD [] = (assigned.map Prod.snd ++ conditions).flatMap fun d =>
                d.args.getD [])
    ∧ ∀ (s : Store) (f : String → Column), (∀ k, (f k).expression = k) →
      ofStore t s = s.entries.foldl (fun u e => u.set (f e.1) (.value e.2)) (of t)
  := by
  refine ⟨h.latest, fun version binding forValidation flags => ⟨?_, fun b hb => ?_⟩,
    fun s f hf => ofStore_eq_foldl hf t s⟩
  · rw [writable_iff, Node.exists_build_iff, Node.steps]
  · have hwritable : u.Writable version binding forValidation flags :=
      writable_iff.mpr (Node.build_eq_ok_iff.mp hb).1
    rw [hwritable.build_eq] at hb
    cases hb
    refine ⟨u.assignments.map fun e => (e.1, e.2.built version binding forValidation flags),
      u.filters.map fun c => (Node.criterion c).built version binding forValidation flags,
      ?_, ?_, ?_, ?_⟩
    · rw [List.forall₂_map_right_iff, List.forall₂_same]
      intro e he
      exact ⟨rfl, Operand.build_eq_built (hwritable.operands e he)⟩
    · rw [List.forall₂_map_right_iff, List.forall₂_same]
      intro c hc
      exact Node.build_eq_ok_iff.mpr ⟨Node.exists_build_iff.mp (hwritable.filters c hc), rfl⟩
    · rw [List.map_map, List.map_map, h.table]
      rfl
    · rw [List.map_map, List.flatMap_append, List.flatMap_map, List.flatMap_map]
      cases binding with
      | bound => rfl
      | literals => simp [Builder.new, Builder.filled, Operand.built, Node.built]

/-- The table of people. -/
def Table.ofPeople : Table :=
  { model := "Person", name := "people" }

/-- An update of one person, whose name is set twice, the second time through a handle on an alias
of the table. -/
def Update.twice : Update :=
  ((((of .ofPeople).set (Table.ofPeople.column .text "name") (.value (.text "Ada"))).set
    (Table.ofPeople.column .integer "age") (.value (.integer 37))).set
    ((Table.ofPeople.withAlias "p").column .text "name") (.value (.text "Ada L."))).filter
    (.raw "_id = ?" [.long 1])

/-- The name is assigned once, before the age, and with its last value. -/
theorem Update.made_assignments_twice :
  twice.assignments = [("name", .value (.text "Ada L.")), ("age", .value (.integer 37))]
    ∧ Assoc.Latest [("name", .value (.text "Ada")), ("age", .value (.integer 37)),
        ("name", .value (.text "Ada L."))] twice.assignments
    ∧ ∃ b, (Node.update twice).build .latest .bound false .none = .ok b
      ∧ b.text = "UPDATE people SET name = ?, age = ? WHERE (_id = ?)"
      ∧ b.args.getD [] = [.value (.text "Ada L."), .value (.integer 37), .value (.long 1)]
  := by
  have hmade : Made .ofPeople [("name", .value (.text "Ada")), ("age", .value (.integer 37)),
      ("name", .value (.text "Ada L."))] twice :=
    (((Made.of.set (Table.ofPeople.column .text "name") _).set
      (Table.ofPeople.column .integer "age") _).set
      ((Table.ofPeople.withAlias "p").column .text "name") _).filter _
  obtain ⟨hlatest, hrendered, -⟩ := made_assignments hmade
  obtain ⟨assigned, conditions, hassigned, hconditions, htext, hargs⟩ :=
    (hrendered .latest .bound false .none).2 _ rfl
  refine ⟨rfl, hlatest, _, rfl, ?_⟩
  rw [htext, hargs]
  obtain _ | ⟨hname, _ | ⟨hage, ⟨⟩⟩⟩ := hassigned
  obtain _ | ⟨hcondition, ⟨⟩⟩ := hconditions
  rename_i name age condition
  obtain ⟨_, _⟩ := name
  obtain ⟨_, _⟩ := age
  obtain ⟨rfl, ⟨⟩⟩ := hname
  obtain ⟨rfl, ⟨⟩⟩ := hage
  cases hcondition
  exact ⟨rfl, rfl⟩

end Sql

end TypedSql
