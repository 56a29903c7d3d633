import TypedSql.Proofs.Record.Fitting

/-!
# Members of column types

The scalars of a kind are the members of a type, `Kind.Scalar`, and the conversion of values to this
type is what a cast to the kind is made of (`Value.cast_eq_converted`).  So reading a value as a
member of the type goes as the cast does, except that null is refused.
-/

namespace TypedSql

/-- The type whose members are the scalars of a kind. -/
def Kind.Scalar : Kind → Type
  | integer => Int32
  | long => Int64
  | double => Binary64
  | text => String
  | boolean => Bool
  | blob => List UInt8

instance : (k : Kind) → ColumnType k.Scalar
  | .integer => inferInstanceAs (ColumnType Int32)
  | .long => inferInstanceAs (ColumnType Int64)
  | .double => inferInstanceAs (ColumnType Binary64)
  | .text => inferInstanceAs (ColumnType String)
  | .boolean => inferInstanceAs (ColumnType Bool)
  | .blob => inferInstanceAs (ColumnType (List UInt8))

namespace Kind

variable {k : Kind}

theorem columnType_kind (k : Kind) :
  ColumnType.kind k.Scalar = k
  := by
  cases k <;> rfl

theorem kind?_toValue (a : k.Scalar) :
  (ColumnType.toValue a).kind? = some k
  := by
  cases k <;> rfl

theorem toValue_injective {a b : k.Scalar} (h : ColumnType.toValue a = ColumnType.toValue b) :
  a = b
  := by
  cases k with
  | integer => exact Value.integer.inj h
  | long => exact Value.long.inj h
  | double => exact Value.double.inj h
  | text => exact Value.text.inj h
  | boolean => exact Value.boolean.inj h
  | blob => exact Value.blob.inj h

end Kind

namespace Value

variable {k : Kind} {v : Value} {e : CoercionError}

/-- A cast gives the value of the member that a value is converted to. -/
theorem cast_eq_converted (k : Kind) (v : Value) :
  v.cast k
    = (ColumnType.convert v : Except CoercionError (Option k.Scalar)).map fun r =>
        ofOption (r.map ColumnType.toValue)
  := by
  cases k <;> rfl

/-- Only null is converted to nothing. -/
theorem convert_eq_none_iff :
  (ColumnType.convert v : Except CoercionError (Option k.Scalar)) = .ok none ↔ v = .null
  := by
  constructor
  · intro h
    cases v with
    | null => rfl
    | text s =>
        cases k with
        -- what is read is a number, and what is not read is an error
        | integer =>
            change toInteger (text s) = _ at h
            rw [toInteger] at h
            split at h <;> cases h
        | long =>
            change toLong (text s) = _ at h
            rw [toLong] at h
            split at h <;> cases h
        | double =>
            change toDouble (text s) = _ at h
            rw [toDouble] at h
            split at h <;> cases h
        | _ => cases h
    | _ => cases k <;> cases h
  · rintro rfl
    cases k <;> rfl

/-- Null is cast to null, and every other value to that of a member. -/
theorem cast_eq_ok_iff {w : Value} :
  v.cast k = .ok w
    ↔ v = .null ∧ w = .null
      ∨ ∃ a : k.Scalar, ColumnType.convert v = .ok (some a) ∧ w = ColumnType.toValue a
  := by
  rw [← convert_eq_none_iff (k := k), cast_eq_converted]
  cases (ColumnType.convert v : Except CoercionError (Option k.Scalar)) with
  | error e => simp [Except.map]
  | ok r => cases r <;> simp [Except.map, ofOption, eq_comm]

theorem cast_eq_ok_iff_of_ne (h : v ≠ .null) {w : Value} :
  v.cast k = .ok w
    ↔ ∃ a : k.Scalar, ColumnType.convert v = .ok (some a) ∧ w = ColumnType.toValue a
  := by
  rw [cast_eq_ok_iff, or_iff_right]
  exact fun hnull => h hnull.1

theorem cast_eq_toValue_iff {a : k.Scalar} :
  v.cast k = .ok (ColumnType.toValue a) ↔ ColumnType.convert v = .ok (some a)
  := by
  rw [cast_eq_ok_iff]
  constructor
  · rintro (⟨-, hnull⟩ | ⟨b, hb, hab⟩)
    · have hkind := Kind.kind?_toValue a
      rw [hnull] at hkind
      cases hkind
    · rwa [Kind.toValue_injective hab]
  · exact fun h => .inr ⟨a, h, rfl⟩

/-- A value is read as a member of the type exactly when the cast gives the value of the member. -/
theorem extract_eq_ok_iff {a : k.Scalar} :
  v.extract k.Scalar = .ok a ↔ v.cast k = .ok (ColumnType.toValue a)
  := by
  rw [cast_eq_toValue_iff, extract]
  cases (ColumnType.convert v : Except CoercionError (Option k.Scalar)) with
  | error e => simp
  | ok r => cases r <;> simp

/-- A value is not read as a member of the type when the cast fails, or when it is null. -/
theorem extract_eq_error_iff :
  v.extract k.Scalar = .error e
    ↔ v.cast k = .error e ∨ v = .null ∧ e = ⟨.null, k, .null⟩
  := by
  by_cases hv : v = .null
  · subst hv
    rw [extract, convert_eq_none_iff.mpr rfl, fits_null.cast_eq]
    simp [Kind.columnType_kind, eq_comm]
  · have hconvert := mt (convert_eq_none_iff (k := k)).mp hv
    rw [extract, cast_eq_converted]
    cases hr : (ColumnType.convert v : Except CoercionError (Option k.Scalar)) with
    | error d => simp [Except.map, hv]
    | ok r =>
        cases r with
        | none => exact absurd hr hconvert
        | some a => simp [Except.map, hv]

theorem extractOption_of_ne (h : v ≠ .null) :
  v.extractOption k.Scalar = (v.extract k.Scalar).map some
  := by
  rw [extractOption, if_neg]
  cases v <;> first | exact absurd rfl h | nofun

end Value

end TypedSql
