import TypedSql.Proofs.Value.Agreement
import TypedSql.Record.Model

/-!
# What agrees has one fingerprint

Values, stores, column handles and rows that are the same to the library have the same fingerprint,
so that their hashes are the same.  Agreement of stores is that of finite maps, whatever the order
of the entries, and a store agrees with itself unless it holds a value that is not a number.  Rows
agree when they are of one table and their merged values agree.
-/

namespace TypedSql

open Sql (Column TableId Table)

/-- The kind of a handle is no part of its fingerprint. -/
theorem Sql.Column.fingerprint_eq_of_beq {c d : Column} (h : (c == d) = true) :
  c.fingerprint = d.fingerprint
  := by
  obtain ⟨htable, hexpression, halias⟩ := beq_iff.mp h
  rw [fingerprint, fingerprint, htable, hexpression, halias]

namespace Record

variable {spec spec' : Spec} {m m' : Model}

namespace Model

theorem agrees_iff :
  m.agrees spec spec' m' = true
    ↔ spec.owner = spec'.owner ∧ (m.merged spec).agrees (m'.merged spec') = true
  := by
  rw [agrees, Bool.and_eq_true, beq_iff_eq]

theorem fingerprint_eq_of_agrees (h : m.agrees spec spec' m' = true) :
  m.fingerprint spec = m'.fingerprint spec'
  := by
  obtain ⟨howner, hmerged⟩ := agrees_iff.mp h
  rw [fingerprint, fingerprint, howner, Store.fingerprint_eq_of_agrees hmerged]

end Model

/-- What agrees has one fingerprint, be it a value, a store, a handle or a row.  Stores agree as
finite maps do, and rows agree when their tables are the same and their merged values agree. -/
theorem fingerprints_agree :
  (∀ v w : Value, v.agrees w = true → v.fingerprint = w.fingerprint)
    ∧ (∀ s t : Store, s.agrees t = true → s.fingerprint = t.fingerprint)
    ∧ (∀ c d : Column, (c == d) = true → c.fingerprint = d.fingerprint)
    ∧ (∀ spec m spec' m', Model.agrees spec m spec' m' = true →
        m.fingerprint spec = m'.fingerprint spec')
    ∧ (∀ s t : Store, s.agrees t = t.agrees s)
    ∧ (∀ s t u : Store, s.agrees t = true → t.agrees u = true → s.agrees u = true)
    ∧ (∀ s t : Store, s.agrees t = true
        ↔ (∀ k, k ∈ s.keys ↔ k ∈ t.keys)
          ∧ ∀ k v w, s.get? k = some v → t.get? k = some w → v.agrees w = true)
    ∧ (∀ s : Store, s.agrees s = true ↔ ∀ e ∈ s.entries, e.2.isNaN = false)
    ∧ (∀ spec m spec' m', Model.agrees spec m spec' m' = true
        ↔ spec.owner = spec'.owner ∧ (m.merged spec).agrees (m'.merged spec') = true)
  := by
  refine ⟨fun _ _ => Value.fingerprint_eq_of_agrees, fun _ _ => Store.fingerprint_eq_of_agrees,
    fun _ _ => Column.fingerprint_eq_of_beq, fun _ _ _ _ => Model.fingerprint_eq_of_agrees,
    Store.agrees_comm, fun _ _ _ => Store.agrees_trans, fun _ _ => Store.agrees_iff,
    fun _ => Store.agrees_iff_of_get?_eq fun _ => rfl, fun _ _ _ _ => Model.agrees_iff⟩

/-- Games, whose bonus is zero where nothing else is known. -/
def games : Spec :=
  ⟨"Game", { model := "Game", name := "games" }, [], Store.empty.put "bonus" (.integer 0)⟩

/-- A game that was read with no points. -/
def drawn : Model where
  database := some ((Store.empty.put "points" (.double .zero)).put "player" (.text "Ada"))

/-- A game whose points are set to the other zero. -/
def redrawn : Model where
  pending := some (Store.empty.put "points" (.double (.ofMagnitude true 0)))
  database := some (Store.empty.put "player" (.text "Ada"))

/-- The two games differ in a zero and in the order of their values, and two handles on the points
differ in their kind. -/
theorem fingerprints_agree_drawn :
  drawn.fingerprint games = redrawn.fingerprint games
    ∧ (games.table.column .double "points").fingerprint
        = (games.table.column .text "points").fingerprint
    ∧ (drawn.merged games).agrees (redrawn.merged games) = true
    ∧ drawn.merged games ≠ redrawn.merged games
  := by
  obtain ⟨-, -, hcolumns, hmodels, -, -, -, -, hiff⟩ := fingerprints_agree
  have hagrees : Model.agrees games drawn games redrawn = true := by decide
  refine ⟨hmodels _ _ _ _ hagrees, hcolumns _ _ (by decide), ((hiff _ _ _ _).mp hagrees).2, ?_⟩
  intro h
  have hkeys := congrArg Store.keys h
  revert hkeys
  decide

end Record

end TypedSql
