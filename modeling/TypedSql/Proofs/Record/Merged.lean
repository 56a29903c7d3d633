import TypedSql.Proofs.Record.Layer
import TypedSql.Proofs.Value.Store

/-!
# Merged values

The values of a row can be asked for column by column, each from the topmost layer that has one,
or all at once, as the store that the layers make when they are laid over each other.  Both follow
one order of precedence (`Model.tryGet_agrees_merged`).  `Model.origins` keeps track of where the
merged values come from: a column is dirty when its merged value is one that was set.

Saving a row moves what was set into the layer below it.  Overlaying is associative, so that the
merged values stay the same, in the same order, and so does the value of every column
(`Model.observed_markSaved`).  Only a question that looks at both layers can tell the difference
(`Model.containsNonNullValue_markSaved`).
-/

namespace TypedSql.Record

open Sql (Column)

/-- The layers that merged values come from. -/
inductive Origin where
  | default
  | database
  | pending
deriving DecidableEq

/-- The entries of a layer, labelled with it. -/
def Origin.label (o : Origin) (s : Store) : List (String × Origin × Value) :=
  s.entries.map (Prod.map id fun v => (o, v))

namespace Model

variable {spec : Spec} {m : Model} {c : Column}

/-- The merged values, each with the layer that it comes from: the layers are laid over each other
as for the merged values, with all their entries labelled. -/
def origins (spec : Spec) (m : Model) : List (String × Origin × Value) :=
  Assoc.overlay
    (Assoc.overlay (Origin.default.label spec.defaults)
      (Origin.database.label (m.database.getD .empty)))
    (Origin.pending.label (m.pending.getD .empty))

/-! ### Precedence -/

theorem get?_merged (spec : Spec) (m : Model) (k : String) :
  (m.merged spec).get? k
    = ((getLayer? m.pending k).or (getLayer? m.database k)).or (spec.default? k)
  := by
  rw [merged, Store.get?_overlay, Store.get?_overlay, get?_getD_empty, get?_getD_empty,
    Option.or_assoc]
  rfl

theorem lookup_native (m : Model) (h : c.belongsTo spec.owner = true) :
  m.lookup spec c = (m.merged spec).get? c.expression
  := by
  simp only [lookup, get?_merged, Column.storageKey, h, if_true]

theorem tryGet_eq_none_iff :
  m.tryGet spec c = .ok none ↔ m.lookup spec c = none
  := by
  unfold tryGet
  cases m.lookup spec c with
  | none => simp
  | some v =>
      dsimp only
      cases c.cast v <;> simp [Except.map]

theorem tryGet_of_lookup {v : Value} (h : m.lookup spec c = some v) :
  m.tryGet spec c = (c.cast v).map some
  := by
  rw [tryGet, h]

/-- Without their labels, the labelled values are the merged values. -/
theorem map_origins (spec : Spec) (m : Model) :
  (m.origins spec).map (Prod.map id Prod.snd) = (m.merged spec).entries
  := by
  have hlabel (o : Origin) (s : Store) : (o.label s).map (Prod.map id Prod.snd) = s.entries := by
    rw [Origin.label, List.map_map]
    exact List.map_id s.entries
  rw [origins, Assoc.map_overlay, Assoc.map_overlay, hlabel, hlabel, hlabel]
  rfl

theorem get?_label (o : Origin) (s : Store) (k : String) :
  Assoc.get? k (o.label s) = (s.get? k).map fun v => (o, v)
  := Assoc.get?_map _ k s.entries

theorem nodup_keys_label (o : Origin) (s : Store) :
  ((o.label s).map Prod.fst).Nodup
  := by
  simpa [Origin.label, Function.comp_def] using s.nodup

theorem get?_origins (spec : Spec) (m : Model) (k : String) :
  Assoc.get? k (m.origins spec)
    = ((getLayer? m.pending k).map fun v => (Origin.pending, v)).or
        (((getLayer? m.database k).map fun v => (Origin.database, v)).or
          ((spec.default? k).map fun v => (Origin.default, v)))
  := by
  rw [origins, Assoc.get?_overlay k (nodup_keys_label _ _),
    Assoc.get?_overlay k (nodup_keys_label _ _), get?_label, get?_label, get?_label,
    get?_getD_empty, get?_getD_empty]
  rfl

/-- A merged value comes from what was set exactly when something was set. -/
theorem get?_origins_eq_pending_iff {k : String} {v : Value} :
  Assoc.get? k (m.origins spec) = some (.pending, v) ↔ getLayer? m.pending k = some v
  := by
  rw [get?_origins]
  cases getLayer? m.pending k with
  | some w => simp
  | none => cases getLayer? m.database k <;> simp

/-! ### Layers of the row itself -/

/-- What was set counts before what was read. -/
theorem instanceValues_native (m : Model) (h : c.belongsTo spec.owner = true) :
  m.instanceValues spec c
    = (getLayer? m.pending c.expression).toList ++ (getLayer? m.database c.expression).toList
  := by
  simp only [instanceValues, Column.storageKey, h, if_true]

theorem instanceValues_foreign (m : Model) (h : c.belongsTo spec.owner = false) :
  m.instanceValues spec c = (getLayer? m.foreign c.selectName).toList
  := by
  simp only [instanceValues, Column.storageKey, h, Bool.false_eq_true, if_false]

theorem isSome_getLayer?_iff {layer : Option Store} {k : String} :
  (getLayer? layer k).isSome = true ↔ ∃ s, layer = some s ∧ s.contains k = true
  := by
  cases layer <;> simp [getLayer?, Store.contains]

theorem containsValue_native (h : c.belongsTo spec.owner = true) :
  m.containsValue spec c = true
    ↔ (getLayer? m.pending c.expression).isSome = true
      ∨ (getLayer? m.database c.expression).isSome = true
  := by
  rw [containsValue, instanceValues_native m h]
  cases getLayer? m.pending c.expression <;> cases getLayer? m.database c.expression <;> simp

/-- Every key is the expression of some column of the row's own table. -/
theorem exists_native (spec : Spec) (k : String) :
  ∃ c : Column, c.belongsTo spec.owner = true ∧ c.expression = k
  :=
  ⟨{ kind := .text, table := some spec.owner, expression := k }, by simp [Column.belongsTo], rfl⟩

theorem isModified_iff :
  m.isModified = true ↔ ∃ k, (getLayer? m.pending k).isSome = true
  := by
  rw [isModified]
  cases m.pending with
  | none => simp [getLayer?]
  | some s =>
      obtain ⟨entries, hnodup⟩ := s
      cases entries with
      | nil => simp [getLayer?, Store.isEmpty, Store.get?, Assoc.get?]
      | cons e r =>
          have hfirst : (getLayer? (some ⟨e :: r, hnodup⟩) e.1).isSome = true := by
            simp [getLayer?, Store.get?, Assoc.get?]
          exact ⟨fun _ => ⟨e.1, hfirst⟩, fun _ => rfl⟩

/-- What is asked of a column of the row's own table is what the merged values say.  The value of
the column is the merged value, if there is one, cast to the kind of the column; a value was set or
read when one of the two layers has the key; and the column is dirty when its merged value is one
that was set, so that the row is modified when some column is dirty. -/
theorem tryGet_agrees_merged (spec : Spec) (m : Model) (h : c.belongsTo spec.owner = true) :
  (m.tryGet spec c = .ok none ↔ (m.merged spec).contains c.expression = false)
    ∧ (∀ v, (m.merged spec).get? c.expression = some v →
        m.tryGet spec c = (c.cast v).map some)
    ∧ (m.containsValue spec c = true
        ↔ (∃ s, m.pending = some s ∧ s.contains c.expression = true)
          ∨ ∃ s, m.database = some s ∧ s.contains c.expression = true)
    ∧ (m.isModified = true
        ↔ ∃ d : Column, d.belongsTo spec.owner = true ∧ m.isDirty spec d = true)
    ∧ (m.origins spec).map (Prod.map id Prod.snd) = (m.merged spec).entries
    ∧ (m.isDirty spec c = true
        ↔ ∃ v, Assoc.get? c.expression (m.origins spec) = some (.pending, v)
          ∧ ∃ s, m.pending = some s ∧ s.get? c.expression = some v)
  := by
  refine ⟨?_, ?_, ?_, ?_, map_origins spec m, ?_⟩
  · rw [tryGet_eq_none_iff, lookup_native m h, Store.contains, Option.isSome_eq_false_iff,
      Option.isNone_iff_eq_none]
  · intro v hv
    apply tryGet_of_lookup
    rw [lookup_native m h, hv]
  · rw [containsValue_native h, isSome_getLayer?_iff, isSome_getLayer?_iff]
  · rw [isModified_iff]
    constructor
    · rintro ⟨k, hk⟩
      obtain ⟨d, hd, rfl⟩ := exists_native spec k
      exact ⟨d, hd, by rw [isDirty, hd, hk, Bool.and_self]⟩
    · rintro ⟨d, hd, hdirty⟩
      rw [isDirty, hd, Bool.true_and] at hdirty
      exact ⟨d.expression, hdirty⟩
  · rw [isDirty, h, Bool.true_and, Option.isSome_iff_exists]
    simp only [get?_origins_eq_pending_iff]
    constructor
    · rintro ⟨v, hv⟩
      obtain ⟨s, hs, hget⟩ := Option.bind_eq_some_iff.mp hv
      exact ⟨v, hv, s, hs, hget⟩
    · rintro ⟨v, hv, -⟩
      exact ⟨v, hv⟩

/-- Children, who are of school age where nothing else is known. -/
def pupils : Spec :=
  ⟨"Pupil", { model := "Pupil", name := "pupils" }, [],
    (Store.empty.put "age" (.integer 6)).put "seat" (.text "window")⟩

/-- The handle on a column of children. -/
def pupil (kind : Kind) (expression : String) : Column :=
  pupils.table.column kind expression

/-- A child whose nickname was read, and is set to null. -/
def ada : Model where
  pending := some (Store.empty.put "nickname" .null)
  database := some ((Store.empty.put "nickname" (.text "Addie")).put "age" (.integer 7))

/-- A null that is set counts, a default that does not cast is refused as it is there, and a column
that no layer has is missing in the merged values too. -/
theorem tryGet_agrees_merged_ada :
  ada.tryGet pupils (pupil .text "nickname") = .ok (some .null)
    ∧ ada.tryGet pupils (pupil .boolean "seat")
        = .error ⟨.text "window", .boolean, .wrongKind⟩
    ∧ ada.tryGet pupils (pupil .text "mood") = .ok none
    ∧ ada.containsValue pupils (pupil .boolean "seat") = false
    ∧ ada.isDirty pupils (pupil .text "nickname") = true
    ∧ ada.isDirty pupils (pupil .integer "age") = false
    ∧ ada.isModified = true
  := by
  have hnative (kind : Kind) (k : String) :
      (pupil kind k).belongsTo pupils.owner = true := rfl
  obtain ⟨-, hnickname, -, hmodified, -, hdirty⟩ :=
    tryGet_agrees_merged pupils ada (hnative .text "nickname")
  obtain ⟨-, hseat, hcontains, -⟩ := tryGet_agrees_merged pupils ada (hnative .boolean "seat")
  obtain ⟨hmood, -⟩ := tryGet_agrees_merged pupils ada (hnative .text "mood")
  obtain ⟨-, -, -, -, -, hclean⟩ := tryGet_agrees_merged pupils ada (hnative .integer "age")
  have hset : ada.isDirty pupils (pupil .text "nickname") = true :=
    hdirty.mpr ⟨.null, rfl, _, rfl, rfl⟩
  refine ⟨hnickname .null rfl, hseat (.text "window") rfl, hmood.mpr rfl, ?_, hset, ?_,
    hmodified.mpr ⟨_, hnative .text "nickname", hset⟩⟩
  · rw [Bool.eq_false_iff, Ne, hcontains]
    rintro (⟨s, hs, hk⟩ | ⟨s, hs, hk⟩)
    all_goals
      cases hs
      cases hk
  · rw [Bool.eq_false_iff, Ne, hclean]
    rintro ⟨v, horigin, -⟩
    cases horigin

/-! ### Saving -/

/-- What is saved is what was in the database with what was set over it. -/
theorem database_markSaved (m : Model) :
  m.markSaved.database.getD .empty = (m.database.getD .empty).overlay (m.pending.getD .empty)
  := by
  obtain ⟨pending, database, foreign, transitory⟩ := m
  cases pending with
  | none => rfl
  | some s =>
      cases database with
      | none => exact s.empty_overlay.symm
      | some d => rfl

theorem database_markSaved_eq_none_iff :
  m.markSaved.database = none ↔ m.database = none ∧ m.pending = none
  := by
  obtain ⟨pending, database, foreign, transitory⟩ := m
  cases pending <;> simp [markSaved]

theorem foreign_markSaved (m : Model) :
  m.markSaved.foreign = m.foreign
  := by
  rw [markSaved]
  split <;> rfl

theorem transitory_markSaved (m : Model) :
  m.markSaved.transitory = m.transitory
  := by
  rw [markSaved]
  split <;> rfl

/-- A row in which nothing is pending has nothing to save. -/
theorem markSaved_of_pending_eq_none (h : m.pending = none) :
  m.markSaved = m
  := by
  rw [markSaved, h]

theorem merged_markSaved (spec : Spec) (m : Model) :
  m.markSaved.merged spec = m.merged spec
  := by
  calc m.markSaved.merged spec
      = spec.defaults.overlay (m.markSaved.database.getD .empty) := by
        rw [merged, pending_markSaved, Option.getD_none, Store.overlay_empty]
    _ = spec.defaults.overlay ((m.database.getD .empty).overlay (m.pending.getD .empty)) := by
        rw [database_markSaved]
    _ = m.merged spec := (Store.overlay_assoc _ _ _).symm

theorem lookup_markSaved (spec : Spec) (m : Model) (c : Column) :
  m.markSaved.lookup spec c = m.lookup spec c
  := by
  cases h : c.belongsTo spec.owner with
  | true => rw [lookup_native _ h, lookup_native _ h, merged_markSaved]
  | false => simp only [lookup, h, Bool.false_eq_true, if_false, foreign_markSaved]

/-- After a save, the topmost of the values that were set or read is the only one. -/
theorem instanceValues_markSaved (spec : Spec) (m : Model) (c : Column) :
  m.markSaved.instanceValues spec c = (m.instanceValues spec c).take 1
  := by
  cases h : c.belongsTo spec.owner with
  | true =>
      rw [instanceValues_native _ h, instanceValues_native _ h, pending_markSaved,
        getLayer?_database_markSaved]
      cases getLayer? m.pending c.expression with
      | none => cases getLayer? m.database c.expression <;> rfl
      | some v => rfl
  | false =>
      rw [instanceValues_foreign _ h, instanceValues_foreign _ h, foreign_markSaved]
      cases getLayer? m.foreign c.selectName <;> rfl

theorem containsValue_markSaved (spec : Spec) (m : Model) (c : Column) :
  m.markSaved.containsValue spec c = m.containsValue spec c
  := by
  rw [containsValue, containsValue, instanceValues_markSaved]
  cases m.instanceValues spec c <;> rfl

/-- After a save, a null that was set over a value hides it from the question for values that are
not null, which finds it before. -/
theorem containsNonNullValue_markSaved (spec : Spec) (m : Model) (c : Column) :
  m.markSaved.containsNonNullValue spec c
    = (m.instanceValues spec c).head?.any fun v => !v.isNull
  := by
  rw [containsNonNullValue, instanceValues_markSaved]
  cases m.instanceValues spec c <;> simp

/-- After a save nothing is modified, and what was set lies in the database over what was there
before.  The values of columns, the merged values in their order, the columns of other tables and
the transitory data are as before, and there is nothing more to save. -/
theorem observed_markSaved (spec : Spec) (m : Model) :
  m.markSaved.isModified = false
    ∧ (∀ c, m.markSaved.isDirty spec c = false)
    ∧ (∀ c, m.markSaved.tryGet spec c = m.tryGet spec c)
    ∧ (∀ c, m.markSaved.containsValue spec c = m.containsValue spec c)
    ∧ m.markSaved.merged spec = m.merged spec
    ∧ m.markSaved.foreign = m.foreign
    ∧ m.markSaved.transitory = m.transitory
    ∧ m.markSaved.database.getD .empty
        = (m.database.getD .empty).overlay (m.pending.getD .empty)
    ∧ (m.markSaved.database = none ↔ m.database = none ∧ m.pending = none)
    ∧ m.markSaved.markSaved = m.markSaved
  := by
  have hpending := m.pending_markSaved
  refine ⟨?_, ?_, ?_, containsValue_markSaved spec m, merged_markSaved spec m,
    foreign_markSaved m, transitory_markSaved m, database_markSaved m,
    database_markSaved_eq_none_iff, markSaved_of_pending_eq_none hpending⟩
  · rw [isModified, hpending]
  · intro c
    rw [isDirty, hpending]
    exact Bool.and_false _
  · intro c
    rw [tryGet, tryGet, lookup_markSaved]

end Model

end TypedSql.Record
