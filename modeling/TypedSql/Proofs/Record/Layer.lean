import TypedSql.Record.Operation

/-!
# What operations do to layers

The values under the keys of a layer after something is put into a model, and what is known of
the values that are put there.
-/

namespace TypedSql.Record

open Sql (Column)

/-- What comes of a mapped result comes of a result. -/
theorem exists_of_map_eq_ok {ε α β : Type} {x : Except ε α} {f : α → β} {b : β}
    (h : x.map f = .ok b) :
  ∃ a, x = .ok a ∧ f a = b
  := by
  cases x with
  | error e => cases h
  | ok a => exact ⟨a, rfl, Except.ok.inj h⟩

/-- What comes of results one after the other comes of each. -/
theorem exists_of_bind_eq_ok {ε α β : Type} {x : Except ε α} {f : α → Except ε β} {b : β}
    (h : x >>= f = .ok b) :
  ∃ a, x = .ok a ∧ f a = .ok b
  := by
  cases x with
  | error e => cases h
  | ok a => exact ⟨a, rfl, h⟩

theorem getLayer?_putLayer (layer : Option Store) (key : String) (v : Value) (k : String) :
  getLayer? (putLayer layer key v) k = if k = key then some v else getLayer? layer k
  := by
  rw [putLayer, getLayer?, Option.bind_some, Store.get?_put]
  cases layer <;> rfl

theorem get?_getD_empty (layer : Option Store) (k : String) :
  (layer.getD .empty).get? k = getLayer? layer k
  := by
  cases layer <;> rfl

namespace Model

variable {spec : Spec} {find : Column → Option Value} {cs : List Column}
  {vs : List (Column × Value)}

theorem commit_native (m : Model) {c : Column} (h : c.belongsTo spec.owner = true) (v : Value) :
  m.commit spec c v
    = if m.records c.expression v then
        { m with pending := putLayer m.pending c.expression v } else m
  := by
  simp only [commit, Column.storageKey, h, if_true]

theorem commit_foreign (m : Model) {c : Column} (h : c.belongsTo spec.owner = false)
    (v : Value) :
  m.commit spec c v = { m with foreign := putLayer m.foreign c.selectName v }
  := by
  simp only [commit, Column.storageKey, h, Bool.false_eq_true, if_false]

/-- A save folds what was pending into what is in the database. -/
theorem getLayer?_database_markSaved (m : Model) (k : String) :
  getLayer? m.markSaved.database k = (getLayer? m.pending k).or (getLayer? m.database k)
  := by
  obtain ⟨pending, database, foreign, transitory⟩ := m
  cases pending with
  | none => rfl
  | some s =>
      cases database with
      | none => simp [markSaved, getLayer?]
      | some d => exact d.get?_overlay s k

theorem pending_markSaved (m : Model) :
  m.markSaved.pending = none
  := by
  obtain ⟨pending, database, foreign, transitory⟩ := m
  cases pending <;> rfl

/-- Each of the values that are recorded was found for a column that is listed, and is cast to
its kind. -/
theorem cast_of_mem_castEach (h : castEach find cs = .ok vs) :
  ∀ e ∈ vs, e.1 ∈ cs ∧ ∃ v, find e.1 = some v ∧ e.1.cast v = .ok e.2
  := by
  induction cs generalizing vs with
  | nil =>
      cases h
      simp
  | cons c cs ih =>
      rw [castEach] at h
      cases hfind : find c with
      | none =>
          rw [hfind] at h
          intro e he
          obtain ⟨hmem, hcast⟩ := ih h e he
          exact ⟨List.mem_cons_of_mem c hmem, hcast⟩
      | some v =>
          simp only [hfind] at h
          obtain ⟨w, hw, h⟩ := exists_of_bind_eq_ok h
          obtain ⟨r, hr, h⟩ := exists_of_bind_eq_ok h
          obtain rfl := Except.ok.inj h
          intro e he
          obtain rfl | he := List.mem_cons.mp he
          · exact ⟨List.mem_cons_self, v, hfind, hw⟩
          · obtain ⟨hmem, hcast⟩ := ih hr e he
            exact ⟨List.mem_cons_of_mem c hmem, hcast⟩

end Model

/-- Each of the values that a setting records is the value of a column that is listed, cast to
the kind of the column. -/
theorem Setting.cast_of_mem_casts {spec : Spec} {s : Setting} {vs : List (Column × Value)}
    (h : s.casts spec = .ok vs) :
  ∀ e ∈ vs, e.1 ∈ s.columns ∧ ∃ v, e.1.cast v = .ok e.2
  := by
  have heach {find : Column → Option Value} {cs : List Column}
      (h : Model.castEach find cs = .ok vs) :
      ∀ e ∈ vs, e.1 ∈ cs ∧ ∃ v, e.1.cast v = .ok e.2 := by
    intro e he
    obtain ⟨hmem, v, -, hcast⟩ := Model.cast_of_mem_castEach h e he
    exact ⟨hmem, v, hcast⟩
  cases s with
  | value c v =>
      obtain ⟨w, hw, rfl⟩ := exists_of_map_eq_ok h
      intro e he
      obtain rfl := List.mem_singleton.mp he
      exact ⟨List.mem_singleton.mpr rfl, v, hw⟩
  | store s cs => exact heach h
  | map values cs => exact heach h
  | model spec' m' cs => exact heach h

end TypedSql.Record
