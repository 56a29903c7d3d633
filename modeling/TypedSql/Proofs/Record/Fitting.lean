import TypedSql.Proofs.Record.Layer

/-!
# Values of declared kinds

A value fits a kind when it is null or of that kind.  A cast gives a value that fits, and leaves
a value that fits as it is.  A column declares its kind for the place where its values are
stored: its expression in a model of its own table, and its name in results in any other.

Every operation on a model keeps the values of its layers fitting the kinds declared for their
places, as long as the columns it is about are among those that declare kinds.
-/

namespace TypedSql

/-- Whether a value is null or of a kind. -/
def Value.Fits (k : Kind) (v : Value) : Prop :=
  v = .null ∨ v.kind? = some k

namespace Value

variable {k : Kind} {v w : Value}

theorem fits_null :
  Value.null.Fits k
  :=
  .inl rfl

/-- A conversion to a type of which all members are of a kind gives a value of that kind. -/
theorem fits_of_map {α : Type} {f : α → Value} (hf : ∀ a, (f a).kind? = some k)
    (x : Except CoercionError (Option α)) (h : x.map (fun r => ofOption (r.map f)) = .ok w) :
  w.Fits k
  := by
  cases x with
  | error e => cases h
  | ok r =>
      cases h
      cases r with
      | none => exact fits_null
      | some a => exact .inr (hf a)

/-- What is cast to a kind fits the kind. -/
theorem fits_of_cast (h : v.cast k = .ok w) :
  w.Fits k
  := by
  cases k with
  | integer => exact fits_of_map (fun _ => rfl) v.toInteger h
  | long => exact fits_of_map (fun _ => rfl) v.toLong h
  | double => exact fits_of_map (fun _ => rfl) v.toDouble h
  | text => exact fits_of_map (fun _ => rfl) v.toText h
  | boolean => exact fits_of_map (fun _ => rfl) v.toBoolean h
  | blob => exact fits_of_map (fun _ => rfl) v.toBlob h

/-- What fits a kind is left as it is by a cast to the kind. -/
theorem Fits.cast_eq (h : v.Fits k) :
  v.cast k = .ok v
  := by
  obtain rfl | h := h
  · cases k <;> rfl
  · cases v <;> cases h <;> rfl

end Value

namespace Record

open Sql (Column TableId)

/-- Putting a value is casting it and putting what comes of it; null passes every cast. -/
theorem save_eq (mode : KeyMode) (c : Column) (v : Value) (s : Store) :
  save mode c v s = (c.cast v).map fun w => s.put (mode.key c) w
  := by
  rw [save]
  split
  · rename_i h
    obtain rfl : v = .null := by cases v <;> first | rfl | cases h
    rw [Column.cast, Value.fits_null.cast_eq]
    rfl
  · rfl

/-! ### Places -/

/-- Where the values of a column are stored. -/
inductive Place where
  | native (expression : String)
  | foreign (name : String)

/-- Where a model of the table `owner` stores the values of a column. -/
def place (owner : TableId) (c : Column) : Place :=
  if c.belongsTo owner then .native c.expression else .foreign c.selectName

/-- Values under keys that fit the kinds which are declared for the keys. -/
def Fitting (declares : String → Kind → Prop) (values : String → Option Value) : Prop :=
  ∀ key v, values key = some v → ∃ kind, declares key kind ∧ v.Fits kind

namespace Fitting

variable {declares : String → Kind → Prop} {values others : String → Option Value}

theorem nothing :
  Fitting declares fun _ => none
  := by
  intro key v h
  cases h

theorem or (h : Fitting declares values) (h' : Fitting declares others) :
  Fitting declares fun key => (values key).or (others key)
  := by
  intro key v hv
  obtain hv | ⟨-, hv⟩ := Option.or_eq_some_iff.mp hv
  · exact h key v hv
  · exact h' key v hv

/-- One value more, or a changed one. -/
theorem update {changed : String → Option Value} {key : String} {v : Value} {kind : Kind}
    (h : Fitting declares values) (hkey : declares key kind) (hv : v.Fits kind)
    (hchanged : ∀ k, changed k = if k = key then some v else values k) :
  Fitting declares changed
  := by
  intro k w hw
  rw [hchanged] at hw
  by_cases hk : k = key
  · rw [if_pos hk] at hw
    obtain rfl := Option.some.inj hw
    exact ⟨kind, hk ▸ hkey, hv⟩
  · rw [if_neg hk] at hw
    exact h k w hw

/-- One value less. -/
theorem erase {changed : String → Option Value} {key : String} (h : Fitting declares values)
    (hchanged : ∀ k, changed k = if k = key then none else values k) :
  Fitting declares changed
  := by
  intro k w hw
  rw [hchanged] at hw
  by_cases hk : k = key
  · rw [if_pos hk] at hw
    cases hw
  · rw [if_neg hk] at hw
    exact h k w hw

theorem save {mode : KeyMode} {c : Column} {v : Value} {s t : Store}
    (h : Fitting declares s.get?) (hsave : Record.save mode c v s = .ok t)
    (hc : declares (mode.key c) c.kind) :
  Fitting declares t.get?
  := by
  rw [save_eq] at hsave
  obtain ⟨w, hw, rfl⟩ := exists_of_map_eq_ok hsave
  exact h.update hc (Value.fits_of_cast hw) (s.get?_put _ w)

theorem overlay {s t : Store} (hs : Fitting declares s.get?) (ht : Fitting declares t.get?) :
  Fitting declares (s.overlay t).get?
  := by
  intro key v hv
  rw [Store.get?_overlay] at hv
  exact ht.or hs key v hv

end Fitting

/-! ### Models -/

/-- A model whose values fit the kinds that are declared for their places. -/
structure Model.Fits (declares : Place → Kind → Prop) (m : Model) : Prop where
  pending : Fitting (fun key => declares (.native key)) (getLayer? m.pending)
  database : Fitting (fun key => declares (.native key)) (getLayer? m.database)
  foreign : Fitting (fun key => declares (.foreign key)) (getLayer? m.foreign)

/-- Staged values that fit the kinds that are declared for their places. -/
structure Model.Staged.Fits (declares : Place → Kind → Prop) (s : Staged) : Prop where
  native : Fitting (fun key => declares (.native key)) s.native.get?
  foreign : Fitting (fun key => declares (.foreign key)) s.foreign.get?

/-- A row type whose defaults fit the kinds that are declared for their places. -/
def Spec.Fits (declares : Place → Kind → Prop) (spec : Spec) : Prop :=
  Fitting (fun key => declares (.native key)) spec.default?

namespace Model

variable {declares : Place → Kind → Prop} {spec : Spec} {m m' : Model} {c : Column}

theorem fits_empty :
  empty.Fits declares
  :=
  ⟨.nothing, .nothing, .nothing⟩

theorem Fits.commit (h : m.Fits declares) (hc : declares (place spec.owner c) c.kind)
    {v : Value} (hv : v.Fits c.kind) :
  (m.commit spec c v).Fits declares
  := by
  rw [place] at hc
  cases hnative : c.belongsTo spec.owner with
  | true =>
      rw [hnative, if_pos rfl] at hc
      rw [commit_native m hnative]
      split
      · exact { h with pending := h.pending.update hc hv (getLayer?_putLayer _ _ v) }
      · exact h
  | false =>
      rw [hnative, if_neg Bool.false_ne_true] at hc
      rw [commit_foreign m hnative]
      exact { h with foreign := h.foreign.update hc hv (getLayer?_putLayer _ _ v) }

theorem Fits.commitAll {vs : List (Column × Value)} (h : m.Fits declares)
    (hvs : ∀ e ∈ vs, declares (place spec.owner e.1) e.1.kind ∧ e.2.Fits e.1.kind) :
  (m.commitAll spec vs).Fits declares
  := by
  induction vs generalizing m with
  | nil => exact h
  | cons e vs ih =>
      obtain ⟨hc, hv⟩ := hvs e List.mem_cons_self
      exact ih (h.commit hc hv) fun d hd => hvs d (List.mem_cons_of_mem e hd)

theorem Fits.set {x : Setting} (h : m.Fits declares)
    (hx : ∀ c ∈ x.columns, declares (place spec.owner c) c.kind)
    (happly : x.apply spec m = .ok m') :
  m'.Fits declares
  := by
  rw [x.apply_eq] at happly
  obtain ⟨vs, hcasts, rfl⟩ := exists_of_map_eq_ok happly
  apply h.commitAll
  intro e he
  obtain ⟨hmem, v, hcast⟩ := Setting.cast_of_mem_casts hcasts e he
  exact ⟨hx e.1 hmem, Value.fits_of_cast hcast⟩

/-! ### Reading -/

theorem Staged.fits_empty :
  Staged.Fits declares {}
  :=
  ⟨.nothing, .nothing⟩

theorem Staged.Fits.stage {s t : Staged} {v : Value} (h : s.Fits declares)
    (hc : declares (place spec.owner c) c.kind) (hstage : Model.stage spec s c v = .ok t) :
  t.Fits declares
  := by
  rw [place] at hc
  rw [Model.stage] at hstage
  cases hnative : c.belongsTo spec.owner with
  | true =>
      rw [hnative, if_pos rfl] at hc hstage
      obtain ⟨u, hsave, rfl⟩ := exists_of_map_eq_ok hstage
      exact { h with native := h.native.save hsave hc }
  | false =>
      rw [hnative, if_neg Bool.false_ne_true] at hc hstage
      obtain ⟨u, hsave, rfl⟩ := exists_of_map_eq_ok hstage
      exact { h with foreign := h.foreign.save hsave hc }

theorem Staged.Fits.stageEach {find : Column → Option Value} {cs : List Column} {s t : Staged}
    (h : s.Fits declares) (hcs : ∀ c ∈ cs, declares (place spec.owner c) c.kind)
    (hstage : Model.stageEach spec find cs s = .ok t) :
  t.Fits declares
  := by
  induction cs generalizing s with
  | nil =>
      cases hstage
      exact h
  | cons c cs ih =>
      have hrest := fun d hd => hcs d (List.mem_cons_of_mem c hd)
      rw [Model.stageEach] at hstage
      cases hfind : find c with
      | none =>
          rw [hfind] at hstage
          exact ih h hrest hstage
      | some v =>
          simp only [hfind] at hstage
          obtain ⟨u, hone, hstage⟩ := exists_of_bind_eq_ok hstage
          exact ih (h.stage (hcs c List.mem_cons_self) hone) hrest hstage

theorem Staged.Fits.replaceBy {s : Staged} (h : s.Fits declares) :
  (Model.replaceBy s).Fits declares
  :=
  ⟨.nothing, h.native, h.foreign⟩

theorem Fits.mergeIn {s : Staged} (h : m.Fits declares) (hs : s.Fits declares) :
  (m.mergeIn s).Fits declares
  where
  pending := .nothing
  database := by
    apply Fitting.overlay _ hs.native
    rw [funext (get?_getD_empty m.database)]
    exact h.database
  foreign := by
    apply Fitting.overlay _ hs.foreign
    rw [funext (get?_getD_empty m.foreign)]
    exact h.foreign

theorem Fits.read {r : Reading} (h : m.Fits declares)
    (hr : ∀ c ∈ r.columns, declares (place spec.owner c) c.kind)
    (happly : r.apply spec m = .ok m') :
  m'.Fits declares
  := by
  rw [r.apply_eq] at happly
  obtain ⟨s, hstage, rfl⟩ := exists_of_map_eq_ok happly
  have hs := Staged.fits_empty.stageEach hr hstage
  cases r with
  | whole _ => exact hs.replaceBy
  | _ => exact h.mergeIn hs

/-! ### Saving and clearing -/

theorem Fits.markSaved (h : m.Fits declares) :
  m.markSaved.Fits declares
  := by
  obtain ⟨pending, database, foreign, transitory⟩ := m
  cases pending with
  | none => exact h
  | some s =>
      constructor
      · exact .nothing
      · rw [funext (getLayer?_database_markSaved _)]
        exact h.pending.or h.database
      · exact h.foreign

theorem getLayer?_map_remove (layer : Option Store) (key k : String) :
  getLayer? (layer.map fun s => s.remove key) k = if k = key then none else getLayer? layer k
  := by
  cases layer with
  | none => simp [getLayer?]
  | some s => exact s.get?_remove key k

theorem Fits.clearValue (h : m.Fits declares) (c : Column) :
  (m.clearValue spec c).Fits declares
  := by
  rw [Model.clearValue]
  split
  · exact { h with
      pending := h.pending.erase (getLayer?_map_remove _ _)
      database := h.database.erase (getLayer?_map_remove _ _) }
  · exact { h with foreign := h.foreign.erase (getLayer?_map_remove _ _) }

/-- Every operation leaves values that fit. -/
theorem Fits.apply {op : Operation} (h : m.Fits declares)
    (hop : ∀ c ∈ op.columns, declares (place spec.owner c) c.kind)
    (happly : op.apply spec m = .ok m') :
  m'.Fits declares
  := by
  cases op with
  | set x => exact h.set hop happly
  | read r => exact h.read hop happly
  | markSaved =>
      cases happly
      exact h.markSaved
  | clear =>
      cases happly
      exact fits_empty
  | clearValue c =>
      cases happly
      exact h.clearValue c

/-! ### Asking -/

/-- A value that is found for a column fits a kind that is declared for the place of the
column. -/
theorem Fits.lookup (h : m.Fits declares) (hspec : spec.Fits declares) {v : Value}
    (hv : m.lookup spec c = some v) :
  ∃ kind, declares (place spec.owner c) kind ∧ v.Fits kind
  := by
  rw [Model.lookup, Column.storageKey] at hv
  rw [place]
  cases hnative : c.belongsTo spec.owner with
  | true =>
      simp only [hnative, if_true] at hv ⊢
      exact (h.pending.or h.database).or hspec _ v hv
  | false =>
      simp only [hnative, Bool.false_eq_true, if_false] at hv ⊢
      exact h.foreign _ v hv

end Model

namespace Spec

variable {declares : Place → Kind → Prop} {spec spec' : Spec} {c : Column}

theorem Fits.overrideDefault {v : Value} (h : spec.Fits declares)
    (hc : declares (.native c.expression) c.kind)
    (hoverride : spec.overrideDefault c v = .ok spec') :
  spec'.Fits declares
  := by
  obtain ⟨s, hsave, rfl⟩ := exists_of_map_eq_ok hoverride
  exact Fitting.save h hsave hc

theorem Fits.clearDefault (h : spec.Fits declares) (c : Column) :
  (spec.clearDefault c).Fits declares
  :=
  Fitting.erase h (spec.defaults.get?_remove c.expression)

theorem fitting_saveDefaults {t : Sql.Table} {ds : List ColumnDecl} {s s' : Store}
    (h : Fitting (fun key => declares (.native key)) s.get?)
    (hds : ∀ d ∈ ds, d.default.isSome = true → declares (.native d.name) d.kind)
    (hsave : saveDefaults t ds s = .ok s') :
  Fitting (fun key => declares (.native key)) s'.get?
  := by
  induction ds generalizing s with
  | nil =>
      cases hsave
      exact h
  | cons d ds ih =>
      have hrest := fun e he => hds e (List.mem_cons_of_mem d he)
      rw [saveDefaults] at hsave
      cases hd : d.default with
      | none =>
          rw [hd] at hsave
          exact ih h hrest hsave
      | some v =>
          have hdeclared := hds d List.mem_cons_self (by rw [hd]; rfl)
          simp only [hd] at hsave
          cases hone : Record.save .native (t.column d.kind d.name) v s with
          | error e => rw [hone] at hsave; cases hsave
          | ok u =>
              rw [hone] at hsave
              exact ih (h.save hone hdeclared) hrest hsave

/-- A row type that is built has defaults that fit. -/
theorem fits_of_build {name table : String} {ds : List ColumnDecl}
    (hds : ∀ d ∈ ds, d.default.isSome = true → declares (.native d.name) d.kind)
    (hbuild : build name table ds = .ok spec) :
  spec.Fits declares
  := by
  obtain ⟨s, hsave, rfl⟩ := exists_of_map_eq_ok hbuild
  exact fitting_saveDefaults .nothing hds hsave

end Spec

end Record

end TypedSql
