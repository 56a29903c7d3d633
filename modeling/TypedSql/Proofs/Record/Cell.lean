import TypedSql.Proofs.Record.Casting
import TypedSql.Proofs.Record.Merged
import TypedSql.Proofs.Record.Session

/-!
# Writing at one place

Each column has a place where its values are stored.  What can be asked about a column depends only
on what the layers of the row have at its place, its cell, and on the default there
(`Model.seen_congr`).  Setting a column and clearing its value change the cell of the column and no
other, which is the main statement, `Model.set_clearValue_local`.

A value that agrees with what was read may not be recorded when it is set.  The value of the column
is then the one that was read, which is the same as the one set, or is both times not a number.
-/

namespace TypedSql

/-- Values that agree are of one kind. -/
theorem Value.kind?_of_agrees {v w : Value} (h : v.agrees w = true) :
  v.kind? = w.kind?
  := by
  cases v <;> cases w <;> first | rfl | cases h

theorem Value.kind?_eq_none_iff {v : Value} :
  v.kind? = none ↔ v = .null
  := by
  cases v <;> simp [kind?]

/-- What is the same as a value of a kind fits the kind. -/
theorem Value.Fits.of_same {k : Kind} {v w : Value} (hw : w.Fits k) (h : v.Same w) :
  v.Fits k
  := by
  have hkind : v.kind? = w.kind? := by
    obtain h | ⟨x, y, rfl, rfl, -⟩ := h
    · exact kind?_of_agrees h
    · rfl
  obtain rfl | hw := hw
  · exact .inl (kind?_eq_none_iff.mp hkind)
  · exact .inr (hkind.trans hw)

namespace Record

open Sql (Column)

/-! ### Cells -/

/-- What the layers of a row have at a place. -/
structure Cell where
  /-- What is pending there, which is nothing at the place of a column of another table. -/
  pending : Option Value
  /-- What was read there, or set for a column of another table. -/
  stored : Option Value

/-- The value of the topmost layer that has one. -/
def Cell.value? (x : Cell) : Option Value :=
  x.pending.or x.stored

/-- The default at a place.  Columns of other tables have none. -/
def Spec.defaultAt (spec : Spec) : Place → Option Value
  | .native expression => spec.default? expression
  | .foreign _ => none

/-- A value that may be missing, cast to the kind of a column. -/
def castOption (c : Column) : Option Value → Except CoercionError (Option Value)
  | some v => (c.cast v).map some
  | none => .ok none

/-- What can be asked about a column of a row. -/
structure Seen where
  value : Except CoercionError (Option Value)
  containsValue : Bool
  containsNonNullValue : Bool
  isDirty : Bool

namespace Model

variable {spec : Spec} {m m' : Model} {c : Column} {p : Place}

/-- What a row has at a place. -/
def cell (m : Model) : Place → Cell
  | .native expression => ⟨getLayer? m.pending expression, getLayer? m.database expression⟩
  | .foreign name => ⟨none, getLayer? m.foreign name⟩

/-- The answers of a row about a column. -/
def seen (spec : Spec) (m : Model) (c : Column) : Seen where
  value := m.tryGet spec c
  containsValue := m.containsValue spec c
  containsNonNullValue := m.containsNonNullValue spec c
  isDirty := m.isDirty spec c

theorem place_native (h : c.belongsTo spec.owner = true) :
  place spec.owner c = .native c.expression
  :=
  if_pos h

theorem place_foreign (h : c.belongsTo spec.owner = false) :
  place spec.owner c = .foreign c.selectName
  := by
  rw [place, h, if_neg Bool.false_ne_true]

theorem lookup_eq_cell (spec : Spec) (m : Model) (c : Column) :
  m.lookup spec c
    = (m.cell (place spec.owner c)).value?.or (spec.defaultAt (place spec.owner c))
  := by
  cases h : c.belongsTo spec.owner with
  | true =>
      rw [place_native h, lookup_native m h, get?_merged]
      rfl
  | false =>
      simp only [place_foreign h, lookup, Column.storageKey, h, Bool.false_eq_true, if_false]
      exact Option.or_none.symm

theorem tryGet_eq_cell (spec : Spec) (m : Model) (c : Column) :
  m.tryGet spec c
    = castOption c
        ((m.cell (place spec.owner c)).value?.or (spec.defaultAt (place spec.owner c)))
  := by
  rw [tryGet, lookup_eq_cell]
  rfl

theorem instanceValues_eq_cell (spec : Spec) (m : Model) (c : Column) :
  m.instanceValues spec c
    = (m.cell (place spec.owner c)).pending.toList ++ (m.cell (place spec.owner c)).stored.toList
  := by
  cases h : c.belongsTo spec.owner with
  | true => rw [place_native h, instanceValues_native m h, cell]
  | false =>
      rw [place_foreign h, instanceValues_foreign m h]
      rfl

theorem containsValue_eq_cell (spec : Spec) (m : Model) (c : Column) :
  m.containsValue spec c = (m.cell (place spec.owner c)).value?.isSome
  := by
  rw [containsValue, instanceValues_eq_cell, Cell.value?]
  obtain ⟨pending, stored⟩ := m.cell (place spec.owner c)
  cases pending <;> cases stored <;> rfl

theorem isDirty_eq_cell (spec : Spec) (m : Model) (c : Column) :
  m.isDirty spec c = (m.cell (place spec.owner c)).pending.isSome
  := by
  cases h : c.belongsTo spec.owner with
  | true => rw [place_native h, isDirty, h, Bool.true_and, cell]
  | false =>
      rw [place_foreign h, isDirty, h, Bool.false_and]
      rfl

/-- Rows that have the same at the place of a column give the same answers about it. -/
theorem seen_congr (h : m'.cell (place spec.owner c) = m.cell (place spec.owner c)) :
  m'.seen spec c = m.seen spec c
  := by
  simp only [seen, tryGet_eq_cell, containsValue_eq_cell, containsNonNullValue,
    instanceValues_eq_cell, isDirty_eq_cell, h]

/-! ### Setting -/

theorem cell_commit_of_ne (m : Model) (hp : p ≠ place spec.owner c) (v : Value) :
  (m.commit spec c v).cell p = m.cell p
  := by
  cases h : c.belongsTo spec.owner with
  | true =>
      rw [place_native h] at hp
      rw [commit_native m h]
      split
      · cases p with
        | native expression =>
            have hne : expression ≠ c.expression := fun heq => hp (by rw [heq])
            rw [cell, cell, getLayer?_putLayer, if_neg hne]
        | foreign name => rfl
      · rfl
  | false =>
      rw [place_foreign h] at hp
      rw [commit_foreign m h]
      cases p with
      | native expression => rfl
      | foreign name =>
          have hne : name ≠ c.selectName := fun heq => hp (by rw [heq])
          rw [cell, cell, getLayer?_putLayer, if_neg hne]

/-- At the place of the column there is its value after it is set, be it recorded or not. -/
theorem value?_cell_commit (spec : Spec) (m : Model) (c : Column) (v : Value) :
  ∃ w, ((m.commit spec c v).cell (place spec.owner c)).value? = some w ∧ w.Same v
  := by
  cases h : c.belongsTo spec.owner with
  | true =>
      rw [place_native h, commit_native m h]
      cases hr : m.records c.expression v with
      | true =>
          refine ⟨v, ?_, v.same_refl⟩
          rw [if_pos rfl, cell, Cell.value?, getLayer?_putLayer, if_pos rfl, Option.some_or]
      | false =>
          obtain ⟨hpending, w, hw, hagrees⟩ := Session.database_of_not_records hr
          refine ⟨w, ?_, .inl hagrees⟩
          rw [if_neg Bool.false_ne_true, cell, Cell.value?, hpending, hw, Option.none_or]
  | false =>
      refine ⟨v, ?_, v.same_refl⟩
      rw [place_foreign h, commit_foreign m h, cell, Cell.value?, getLayer?_putLayer, if_pos rfl,
        Option.none_or]

/-- A value at the place of a column that fits its kind is the value of the column. -/
theorem tryGet_of_value? {v : Value} (h : (m.cell (place spec.owner c)).value? = some v)
    (hv : v.Fits c.kind) :
  m.tryGet spec c = .ok (some v)
  := by
  have hcast : c.cast v = .ok v := hv.cast_eq
  rw [tryGet_eq_cell, h, Option.some_or, castOption, hcast]
  rfl

theorem get_of_tryGet_eq_some {v : Value} (h : m.tryGet spec c = .ok (some v)) :
  m.get spec c = .ok v
  := by
  rw [get, h]

/-! ### Clearing -/

theorem cell_clearValue_self (spec : Spec) (m : Model) (c : Column) :
  (m.clearValue spec c).cell (place spec.owner c) = ⟨none, none⟩
  := by
  cases h : c.belongsTo spec.owner with
  | true =>
      simp only [place_native h, clearValue, Column.storageKey, h, if_true, cell,
        getLayer?_map_remove]
  | false =>
      simp only [place_foreign h, clearValue, Column.storageKey, h, Bool.false_eq_true, if_false,
        cell, getLayer?_map_remove, if_true]

theorem cell_clearValue_of_ne (m : Model) (hp : p ≠ place spec.owner c) :
  (m.clearValue spec c).cell p = m.cell p
  := by
  cases h : c.belongsTo spec.owner with
  | true =>
      rw [place_native h] at hp
      cases p with
      | native expression =>
          have hne : expression ≠ c.expression := fun heq => hp (by rw [heq])
          simp only [clearValue, Column.storageKey, h, if_true, cell, getLayer?_map_remove, hne,
            if_false]
      | foreign name => simp only [clearValue, h, if_true, cell]
  | false =>
      rw [place_foreign h] at hp
      cases p with
      | native expression => simp only [clearValue, h, Bool.false_eq_true, if_false, cell]
      | foreign name =>
          have hne : name ≠ c.selectName := fun heq => hp (by rw [heq])
          simp only [clearValue, Column.storageKey, h, Bool.false_eq_true, if_false, cell,
            getLayer?_map_remove, hne]

/-- When a column can be set to a value, its value is then the same as what the value is cast to.
After the value of a column is cleared, the row itself has none, and what is left is the default,
for a column of the row's own table that has one.  Neither changes what can be asked about a column
of another place. -/
theorem set_clearValue_local (spec : Spec) (m : Model) (c : Column) :
  (∀ v m', m.set spec c v = .ok m' →
      (∃ w x, c.cast v = .ok w ∧ m'.get spec c = .ok x ∧ x.Same w)
        ∧ ∀ d, place spec.owner d ≠ place spec.owner c → m'.seen spec d = m.seen spec d)
    ∧ (m.clearValue spec c).containsValue spec c = false
    ∧ (m.clearValue spec c).tryGet spec c = castOption c (spec.defaultAt (place spec.owner c))
    ∧ ∀ d, place spec.owner d ≠ place spec.owner c →
      (m.clearValue spec c).seen spec d = m.seen spec d
  := by
  refine ⟨?_, ?_, ?_, ?_⟩
  · intro v m' hset
    obtain ⟨w, hw, rfl⟩ := exists_of_map_eq_ok hset
    constructor
    · obtain ⟨x, hx, hsame⟩ := value?_cell_commit spec m c w
      have hfits : x.Fits c.kind := (Value.fits_of_cast hw).of_same hsame
      exact ⟨w, x, hw, get_of_tryGet_eq_some (tryGet_of_value? hx hfits), hsame⟩
    · intro d hd
      exact seen_congr (cell_commit_of_ne m hd w)
  · rw [containsValue_eq_cell, cell_clearValue_self]
    rfl
  · rw [tryGet_eq_cell, cell_clearValue_self]
    rfl
  · intro d hd
    exact seen_congr (cell_clearValue_of_ne m hd)

/-- The weight of items. -/
def weight : Column :=
  { kind := .double, table := some ⟨"Item", "items"⟩, expression := "weight" }

/-- The weight of the box of an item, under the same name in results. -/
def boxWeight : Column :=
  { kind := .double, table := some ⟨"Box", "boxes"⟩, expression := "weight", alias? := "weight" }

/-- Items, with their weight. -/
def items : Spec :=
  ⟨"Item", { model := "Item", name := "items" }, [weight], .empty⟩

/-- An item of weight minus zero in a box of weight two. -/
def feather : Model where
  database := some (Store.empty.put "weight" (.double ⟨0x8000000000000000⟩))
  foreign := some (Store.empty.put "weight" (.integer 2))

/-- Zero is not recorded over minus zero, which is the same; and the weight of the box is not
touched when the weight of the item is set or cleared. -/
theorem set_clearValue_local_feather :
  feather.set items weight (.integer 0) = .ok feather
    ∧ (∃ x, feather.get items weight = .ok x ∧ x.Same (.double .zero))
    ∧ (feather.clearValue items weight).tryGet items weight = .ok none
    ∧ (feather.clearValue items weight).seen items boxWeight = feather.seen items boxWeight
  := by
  have hset : feather.set items weight (.integer 0) = .ok feather := rfl
  have hplace : place items.owner boxWeight ≠ place items.owner weight := nofun
  obtain ⟨hvalue, -, hcleared, hkept⟩ := set_clearValue_local items feather weight
  obtain ⟨⟨w, x, hw, hget, hsame⟩, -⟩ := hvalue (.integer 0) feather hset
  obtain rfl := Except.ok.inj hw
  exact ⟨hset, ⟨x, hget, hsame⟩, hcleared, hkept boxWeight hplace⟩

end Model

end Record

end TypedSql
