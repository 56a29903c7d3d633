import Mathlib.Data.List.Basic
import TypedSql.Proofs.Record.Casting

/-!
# Sets and saves

In a session, columns of a model are set and the model is saved, in any order and any number of
times.  A save writes what is pending over the row of the database.  A value that agrees with
what the database has is not recorded when nothing is pending for its column; the main
statement, `Session.run_keeps_updates`, says that no update is lost by that: what is pending
over the row is always what was set last.

Values agree as numbers do, so that a value that is not a number never agrees with itself and
is always recorded, while one zero can stand for the other.
-/

namespace TypedSql

/-- Whether values agree, or are both doubles that are not numbers. -/
def Value.Same (v w : Value) : Prop :=
  v.agrees w = true ∨ ∃ x y, v = .double x ∧ w = .double y ∧ x.isNaN = true ∧ y.isNaN = true

theorem Value.same_refl (v : Value) :
  v.Same v
  := by
  cases v with
  | double x =>
      cases h : x.isNaN with
      | true => exact .inr ⟨x, x, rfl, rfl, h, h⟩
      | false => exact .inl (by simp [agrees, Binary64.equal, h])
  | _ => exact .inl (by simp [agrees])

namespace Record

open Sql (Column)

/-- A row of the database, and the model of it. -/
structure Session where
  row : Store
  model : Model

/-- A step of a session. -/
inductive Session.Step where
  | set (s : Setting)
  | save

/-- The columns that are set in a step. -/
def Session.Step.columns : Step → List Column
  | set s => s.columns
  | save => []

namespace Session

/-- The row with what is pending over it. -/
def visible (s : Session) : Store :=
  s.row.overlay (s.model.pending.getD .empty)

/-- A session after a step.  A set that fails changes nothing. -/
def after (spec : Spec) (s : Session) : Step → Session
  | .set x =>
    match x.apply spec s.model with
    | .ok m => { s with model := m }
    | .error _ => s
  | .save => ⟨s.visible, s.model.markSaved⟩

/-- A session after steps. -/
def run (spec : Spec) (s : Session) (steps : List Step) : Session :=
  steps.foldl (after spec) s

/-- The value that a setting has for a column of the model's own table, which is found under the
expression of the column.  In another model it is what is pending there, or else in the database,
or else a default, unless the table is none of that model's. -/
def offered (x : Setting) (c : Column) : Option Value :=
  match x with
  | .value _ v => some v
  | .store s _ => s.get? c.expression
  | .map values _ => values c.expression
  | .model spec m _ =>
    if c.table = some spec.owner then
      (getLayer? m.pending c.expression).or <|
        (getLayer? m.database c.expression).or <| spec.defaults.get? c.expression
    else getLayer? m.foreign c.selectName

/-- The values that columns were last set to, when some of them are set once more. -/
def record (latest : String → Option Value) (vs : List (Column × Value)) :
    String → Option Value :=
  vs.foldl (fun l e => Function.update l e.1.expression (some e.2)) latest

/-- The values that columns were last set to, after a step.  A set is one of all values that are
found for its columns, each cast to its kind, and of none when one of them does not cast. -/
def latestAfter (latest : String → Option Value) : Step → String → Option Value
  | .set x =>
    match (found (offered x) x.columns).mapM castEntry with
    | .ok vs => record latest vs
    | .error _ => latest
  | .save => latest

/-- The values that columns were last set to in steps, of those that did not fail. -/
def lastSet (steps : List Step) : String → Option Value :=
  steps.foldl latestAfter fun _ => none

/-- What a key has when it started with `start` and was last set to `latest`, if at all. -/
def Keeps (start latest now : Option Value) : Prop :=
  match latest with
  | none => now = start
  | some w => ∃ v, now = some v ∧ v.Same w

/-- A session in which the model knows the row of the database, and in which the row with what
is pending over it has for every key what was set last. -/
structure Tracks (start latest : String → Option Value) (s : Session) : Prop where
  row (k : String) : s.row.get? k = getLayer? s.model.database k
  visible (k : String) : Keeps (start k) (latest k) (s.visible.get? k)

variable {spec : Spec} {s : Session} {start latest : String → Option Value}

theorem get?_visible (s : Session) (k : String) :
  s.visible.get? k = (getLayer? s.model.pending k).or (s.row.get? k)
  := by
  rw [visible, Store.get?_overlay, get?_getD_empty]

/-! ### Setting a column -/

/-- What is not recorded, the database has, and nothing is pending over it. -/
theorem database_of_not_records {m : Model} {key : String} {v : Value}
    (h : m.records key v = false) :
  getLayer? m.pending key = none ∧ ∃ w, getLayer? m.database key = some w ∧ w.agrees v = true
  := by
  rw [Model.records, Bool.or_eq_false_iff] at h
  obtain ⟨hpending, hdatabase⟩ := h
  constructor
  · simpa using hpending
  · cases hd : getLayer? m.database key with
    | none => simp [hd] at hdatabase
    | some w => exact ⟨w, rfl, by simpa [hd] using hdatabase⟩

/-- A session after a value is recorded that is cast already. -/
def commit (spec : Spec) (s : Session) (c : Column) (v : Value) : Session :=
  { s with model := s.model.commit spec c v }

theorem database_commit (m : Model) {c : Column} (h : c.belongsTo spec.owner = true)
    (v : Value) :
  (m.commit spec c v).database = m.database
  := by
  rw [m.commit_native h]
  split <;> rfl

/-- Where the column is set, its value is seen from then on, be it recorded or not. -/
theorem visible_commit_self (hrow : ∀ k, s.row.get? k = getLayer? s.model.database k)
    {c : Column} (hc : c.belongsTo spec.owner = true) (v : Value) :
  ∃ w, (s.commit spec c v).visible.get? c.expression = some w ∧ w.Same v
  := by
  rw [get?_visible, commit, Model.commit_native _ hc]
  cases hr : s.model.records c.expression v with
  | true =>
      refine ⟨v, ?_, v.same_refl⟩
      simp only [if_true, getLayer?_putLayer, Option.some_or]
  | false =>
      obtain ⟨hpending, w, hw, hagrees⟩ := database_of_not_records hr
      refine ⟨w, ?_, .inl hagrees⟩
      simp only [Bool.false_eq_true, if_false, hpending, hrow, hw, Option.none_or]

theorem visible_commit_of_ne {c : Column} (hc : c.belongsTo spec.owner = true) (v : Value)
    {k : String} (hk : k ≠ c.expression) :
  (s.commit spec c v).visible.get? k = s.visible.get? k
  := by
  rw [get?_visible, get?_visible, commit, Model.commit_native _ hc]
  cases s.model.records c.expression v with
  | true => simp only [if_true, getLayer?_putLayer, if_neg hk]
  | false => rfl

theorem Tracks.commit (h : Tracks start latest s) {c : Column}
    (hc : c.belongsTo spec.owner = true) (v : Value) :
  Tracks start (Function.update latest c.expression (some v)) (s.commit spec c v)
  where
  row k := by
    rw [Session.commit, database_commit _ hc]
    exact h.row k
  visible k := by
    by_cases hk : k = c.expression
    · subst hk
      rw [Function.update_self]
      exact visible_commit_self h.row hc v
    · rw [Function.update_of_ne hk, visible_commit_of_ne hc v hk]
      exact h.visible k

theorem Tracks.commitAll {vs : List (Column × Value)} (h : Tracks start latest s)
    (hvs : ∀ e ∈ vs, e.1.belongsTo spec.owner = true) :
  Tracks start (record latest vs) { s with model := s.model.commitAll spec vs }
  := by
  induction vs generalizing s latest with
  | nil => exact h
  | cons e vs ih =>
      have hnative := hvs e List.mem_cons_self
      exact ih (h.commit hnative e.2) fun d hd => hvs d (List.mem_cons_of_mem e hd)

/-! ### Steps and runs -/

/-- What a setting has for a column of the model's own table is what is looked up for it. -/
theorem find_eq_offered (x : Setting) {c : Column} (hc : c.belongsTo spec.owner = true) :
  x.find spec c = offered x c
  := by
  have hkey : c.storageKey spec.owner = c.expression := by
    rw [Column.storageKey, if_pos hc]
  cases x with
  | value d v => rfl
  | store t cs => exact congrArg t.get? hkey
  | map values cs => exact congrArg values hkey
  | model spec' m cs =>
      change m.lookup spec' c = _
      rw [Model.lookup, offered, Column.storageKey, Column.belongsTo]
      by_cases hown : c.table = some spec'.owner
      · simp [hown, Spec.default?, Option.or_assoc]
      · simp [hown]

/-- A setting of columns of the model's own table casts what it has for them. -/
theorem casts_eq_offered {x : Setting} (hx : ∀ c ∈ x.columns, c.belongsTo spec.owner = true) :
  x.casts spec = (found (offered x) x.columns).mapM castEntry
  := by
  have hfound : found (x.find spec) x.columns = found (offered x) x.columns := by
    apply List.filterMap_congr
    intro c hc
    rw [find_eq_offered x (hx c hc)]
  rw [x.casts_eq, Model.castEach_eq_mapM, hfound]

theorem Tracks.set {x : Setting} (h : Tracks start latest s)
    (hx : ∀ c ∈ x.columns, c.belongsTo spec.owner = true) :
  Tracks start (latestAfter latest (.set x)) (s.after spec (.set x))
  := by
  simp only [after, latestAfter, x.apply_eq, ← casts_eq_offered hx]
  cases hcasts : x.casts spec with
  | error e => exact h
  | ok vs =>
      apply h.commitAll
      intro e he
      apply hx e.1 (Setting.cast_of_mem_casts hcasts e he).1

/-- A save moves what is pending into the row, so that nothing of it changes in the whole. -/
theorem Tracks.save (h : Tracks start latest s) :
  Tracks start latest (s.after spec .save)
  where
  row k := by
    rw [after, Model.getLayer?_database_markSaved, ← h.row]
    exact s.get?_visible k
  visible k := by
    have hsaved : (s.after spec .save).visible.get? k = s.visible.get? k := by
      rw [get?_visible, after, Model.pending_markSaved]
      rfl
    rw [hsaved]
    exact h.visible k

theorem Tracks.after {step : Step} (h : Tracks start latest s)
    (hstep : ∀ c ∈ step.columns, c.belongsTo spec.owner = true) :
  Tracks start (latestAfter latest step) (s.after spec step)
  := by
  cases step with
  | set x => exact h.set hstep
  | save => exact h.save

theorem Tracks.run {steps : List Step} (h : Tracks start latest s)
    (hsteps : ∀ step ∈ steps, ∀ c ∈ step.columns, c.belongsTo spec.owner = true) :
  Tracks start (steps.foldl latestAfter latest) (s.run spec steps)
  := by
  induction steps generalizing s latest with
  | nil => exact h
  | cons step steps ih =>
      apply ih (h.after (hsteps step List.mem_cons_self))
      intro step' hmem
      exact hsteps step' (List.mem_cons_of_mem step hmem)

/-- When nothing is pending, what is seen is the row. -/
theorem tracks_of_not_isModified (hrow : ∀ k, s.row.get? k = getLayer? s.model.database k)
    (hmodified : s.model.isModified = false) :
  Tracks (fun k => s.row.get? k) (fun _ => none) s
  where
  row := hrow
  visible k := by
    have hpending : getLayer? s.model.pending k = none := by
      rw [Model.isModified] at hmodified
      cases hp : s.model.pending with
      | none => rfl
      | some t =>
          rw [hp, Bool.not_eq_false', Store.isEmpty, List.isEmpty_iff] at hmodified
          simp [getLayer?, Store.get?, hmodified, Assoc.get?]
    change s.visible.get? k = s.row.get? k
    rw [get?_visible, hpending, Option.none_or]

/-- From a row that the model knows and a model on which nothing is set, at every point of
every session in which columns of the model's own table are set: the row with what is pending
over it has, for every key, a value that is the same as the one last set without failing, or
the one it started with where there is none; and the model knows the row. -/
theorem run_keeps_updates (spec : Spec) (row : Store) (m : Model) (steps : List Step)
    (hrow : ∀ k, row.get? k = getLayer? m.database k) (hmodified : m.isModified = false)
    (hnative : ∀ step ∈ steps, ∀ c ∈ step.columns, c.belongsTo spec.owner = true) :
  let s := run spec ⟨row, m⟩ steps
  (∀ k, Keeps (row.get? k) (lastSet steps k) (s.visible.get? k))
    ∧ ∀ k, s.row.get? k = getLayer? s.model.database k
  := by
  intro s
  have h : Tracks (fun k => row.get? k) (lastSet steps) s :=
    (tracks_of_not_isModified (s := ⟨row, m⟩) hrow hmodified).run hnative
  exact ⟨h.visible, h.row⟩

/-- The age of people. -/
def age : Column :=
  { kind := .integer, table := some ⟨"Person", "people"⟩, expression := "age" }

/-- People, with their age. -/
def people : Spec :=
  ⟨"Person", { model := "Person", name := "people" }, [age], .empty⟩

/-- The row of somebody who is five years old. -/
def five : Store :=
  Store.empty.put "age" (.integer 5)

/-- A birthday that is entered, saved, and entered again in several ways, one of which fails
and two of which are wrong, until it is the eighth. -/
def birthday : List Step :=
  [.set (.value age (.text "6")), .save, .set (.value age (.integer 6)),
    .set (.map (fun _ => some (.integer 7)) [age]),
    .set (.store (Store.empty.put "age" (.blob [])) [age]), .save,
    .set (.model people { pending := some five } [age]),
    .set (.store (Store.empty.put "age" (.text "8")) [age])]

theorem run_keeps_updates_birthday :
  ∃ v, (run people ⟨five, { database := some five }⟩ birthday).visible.get? "age" = some v
    ∧ v.Same (.integer 8)
  := by
  have hnative : ∀ step ∈ birthday, ∀ c ∈ step.columns, c.belongsTo people.owner = true := by
    decide
  have hkeeps := (run_keeps_updates people five { database := some five } birthday
    (fun _ => rfl) rfl hnative).1 "age"
  have hlast : lastSet birthday "age" = some (.integer 8) := by decide
  rwa [hlast] at hkeeps

end Session

end Record

end TypedSql
