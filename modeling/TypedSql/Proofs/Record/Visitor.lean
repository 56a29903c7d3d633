import TypedSql.Proofs.Record.Atomic
import TypedSql.Proofs.Value.Extraction
import TypedSql.Record.Visitor

/-!
# One way to cast

A value is cast for a column in four places: by the kind of the column, by a visitor, while it is
saved in a store, and when it is read as a member of a type.  All of them give the same, which is
the main statement, `Record.casts_agree`.
-/

namespace TypedSql.Record

open Sql (Column)

variable {c : Column} {v : Value}

/-- The visitor casts by the kind of the column. -/
theorem castVisited_eq (c : Column) (v : Value) :
  castVisited c v = c.cast v
  := by
  rw [castVisited, Column.accept, Column.cast]
  cases c.kind <;> rfl

namespace Change

variable {mode : KeyMode}

theorem putConverted_eq_atOnce {α : Type} (wrap : α → Value) (key : String)
    (r : Except CoercionError (Option α)) :
  putConverted wrap key r = atOnce fun s => (converted wrap r).map fun w => s.put key w
  := by
  funext s
  rw [putConverted, ofExcept_bind, atOnce]
  cases r with
  | error e => rfl
  | ok a => cases a <;> rfl

/-- Saving by a visitor is casting by a visitor, and putting what comes of it. -/
theorem accept_savingVisitor (mode : KeyMode) (c : Column) (v : Value) :
  c.accept (savingVisitor mode) v
    = atOnce fun s => (castVisited c v).map fun w => s.put (mode.key c) w
  := by
  rw [castVisited, Column.accept, Column.accept]
  cases c.kind <;> exact putConverted_eq_atOnce _ _ _

theorem saveVisited_eq_atOnce (mode : KeyMode) (c : Column) (v : Value) :
  saveVisited mode c v = atOnce (Record.save mode c v)
  := by
  rw [saveVisited]
  split
  · rename_i hnull
    funext s
    rw [atOnce, Record.save, if_pos hnull]
    rfl
  · rename_i hnull
    rw [accept_savingVisitor, castVisited_eq]
    funext s
    rw [atOnce, atOnce, Record.save, if_neg hnull]

end Change

/-- Casting for a column by a visitor is casting to the kind of the column.  Saving a value by a
visitor succeeds when the cast does, and has then put what the value is cast to under the key of the
column, which is its expression or its name in results; it fails with the error of the cast, and the
store is then as it was.  A value is read as a member of the type of the kind with the value that it
is cast to, and is not read when the cast fails, with the same error, or when it is null; and with
null as nothing it is read likewise.  What a value is cast to is null or of the kind, and is left as
it is by another cast. -/
theorem casts_agree (c : Column) (v : Value) :
  castVisited c v = v.cast c.kind
    ∧ (∀ s t, Change.saveVisited .native c v s = .ok () t
        ↔ ∃ w, v.cast c.kind = .ok w ∧ t = s.put c.expression w)
    ∧ (∀ s t, Change.saveVisited .foreign c v s = .ok () t
        ↔ ∃ w, v.cast c.kind = .ok w ∧ t = s.put c.selectName w)
    ∧ (∀ mode s e t, Change.saveVisited mode c v s = .error e t ↔ v.cast c.kind = .error e ∧ t = s)
    ∧ (∀ a, v.extract c.kind.Scalar = .ok a ↔ v.cast c.kind = .ok (ColumnType.toValue a))
    ∧ (∀ e, v.extract c.kind.Scalar = .error e
        ↔ v.cast c.kind = .error e ∨ v = .null ∧ e = ⟨.null, c.kind, .null⟩)
    ∧ Value.null.extractOption c.kind.Scalar = .ok none
    ∧ (v ≠ .null → v.extractOption c.kind.Scalar = (v.extract c.kind.Scalar).map some)
    ∧ ∀ w, v.cast c.kind = .ok w → (w = .null ∨ w.kind? = some c.kind) ∧ w.cast c.kind = .ok w
  := by
  have hsaved (mode : KeyMode) (s t : Store) :
      Change.saveVisited mode c v s = .ok () t
        ↔ ∃ w, v.cast c.kind = .ok w ∧ t = s.put (mode.key c) w := by
    rw [Change.saveVisited_eq_atOnce, Change.atOnce_eq_ok_iff, save_eq, Column.cast]
    cases v.cast c.kind <;> simp [Except.map, eq_comm]
  refine ⟨castVisited_eq c v, hsaved .native, hsaved .foreign, ?_, ?_, ?_, rfl,
    Value.extractOption_of_ne, ?_⟩
  · intro mode s e t
    rw [Change.saveVisited_eq_atOnce, Change.atOnce_eq_error_iff, save_eq_error_iff, and_comm]
    rfl
  · exact fun a => Value.extract_eq_ok_iff
  · exact fun e => Value.extract_eq_error_iff
  · intro w hw
    have hfits := Value.fits_of_cast hw
    exact ⟨hfits, hfits.cast_eq⟩

/-- The year in which an author was born. -/
def born : Column :=
  { kind := .long, table := some ⟨"Author", "authors"⟩, expression := "born" }

/-- A year that is written out is cast wherever it goes, and one that is not known is refused where
there is no place for null. -/
theorem casts_agree_born :
  castVisited born (.text "1815") = .ok (.long 1815)
    ∧ Change.saveVisited .foreign born (.text "1815") .empty
        = .ok () (Store.empty.put "authors.born" (.long 1815))
    ∧ (Value.text "1815").extractOption born.kind.Scalar
        = ((Value.text "1815").extract born.kind.Scalar).map some
    ∧ (Value.long 1815).cast born.kind = .ok (.long 1815)
    ∧ Value.null.extract born.kind.Scalar = .error ⟨.null, .long, .null⟩
  := by
  have hcast : (Value.text "1815").cast born.kind = .ok (.long 1815) := rfl
  obtain ⟨hvisited, -, hforeign, -, -, -, -, hoption, hagain⟩ := casts_agree born (.text "1815")
  obtain ⟨-, -, -, -, -, hrefused, -⟩ := casts_agree born .null
  refine ⟨hvisited.trans hcast, ?_, hoption nofun, (hagain _ hcast).2, ?_⟩
  · rw [hforeign]
    exact ⟨_, hcast, rfl⟩
  · rw [hrefused]
    exact .inr ⟨rfl, rfl⟩

end TypedSql.Record
