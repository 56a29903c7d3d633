import TypedSql.Proofs.Record.Cell
import TypedSql.Proofs.Record.Family

/-!
# Changing defaults

The default of a column is stored under the expression of the column.  Overriding it, or clearing
it, changes what the models of a family resolve for the columns of their own table with that
expression, as far as they have no value of their own, and nothing else that can be asked about
them.  The main statement is `Family.tryGet_after_default`.

The table of the column whose default is changed does not count.  A column of another table, of an
alias of the table of the row type, or of no table takes the default of the row type's own column
of the same expression along (`Family.not_tryGet_after_default`).
-/

namespace TypedSql.Record

open Sql (Column TableId)

/-! ### Row types -/

/-- A row type has the defaults of another one, except for what it has under an expression. -/
structure Spec.Redefines (spec : Spec) (expression : String) (default : Option Value)
    (spec' : Spec) : Prop where
  owner : spec'.owner = spec.owner
  default? (key : String) :
    spec'.default? key = if key = expression then default else spec.default? key

namespace Spec

variable {spec spec' : Spec} {p q : Column} {expression : String} {default : Option Value}

theorem exists_overrideDefault {v w : Value} (hcast : p.cast v = .ok w) :
  ∃ spec', spec.overrideDefault p v = .ok spec' ∧ spec.Redefines p.expression (some w) spec'
  := by
  refine ⟨{ spec with defaults := spec.defaults.put p.expression w }, ?_, rfl, ?_⟩
  · rw [overrideDefault, save_eq, hcast]
    rfl
  · exact spec.defaults.get?_put p.expression w

theorem redefines_clearDefault (spec : Spec) (p : Column) :
  spec.Redefines p.expression none (spec.clearDefault p)
  :=
  ⟨rfl, spec.defaults.get?_remove p.expression⟩

namespace Redefines

/-- Only the default at one place of the row type's own table is another one. -/
theorem defaultAt_of_ne (h : spec.Redefines expression default spec') {x : Place}
    (hx : x ≠ .native expression) :
  spec'.defaultAt x = spec.defaultAt x
  := by
  cases x with
  | native key =>
      have hkey : key ≠ expression := fun heq => hx (by rw [heq])
      rw [defaultAt, h.default?, if_neg hkey, defaultAt]
  | foreign name => rfl

theorem defaultAt_self (h : spec.Redefines expression default spec') :
  spec'.defaultAt (.native expression) = default
  := by
  rw [defaultAt, h.default?, if_pos rfl]

/-- Everything that can be asked about the columns of other places is answered as before. -/
theorem seen_of_ne (h : spec.Redefines expression default spec')
    (hq : place spec.owner q ≠ .native expression) (m : Model) :
  m.seen spec' q = m.seen spec q
  := by
  simp only [Model.seen, Model.tryGet_eq_cell, Model.containsValue_eq_cell,
    Model.containsNonNullValue, Model.instanceValues_eq_cell, Model.isDirty_eq_cell, h.owner,
    h.defaultAt_of_ne hq]

/-- The columns of the place itself have the new default, where the row has no value. -/
theorem tryGet_self (h : spec.Redefines expression default spec')
    (hq : place spec.owner q = .native expression) (m : Model) :
  m.tryGet spec' q = castOption q ((m.instanceValues spec q).head?.or default)
  := by
  have hown (x : Cell) : x.value? = (x.pending.toList ++ x.stored.toList).head? := by
    obtain ⟨pending, stored⟩ := x
    cases pending <;> cases stored <;> rfl
  rw [Model.tryGet_eq_cell, h.owner, hq, h.defaultAt_self, Model.instanceValues_eq_cell, hq, hown]

end Redefines

end Spec

/-! ### Families -/

namespace Family

variable {f : Family} {p q : Column}

/-- Whether an event overrides or clears the default of a column. -/
def Event.ChangesDefault (p : Column) : Event → Prop
  | instantiate | operate _ _ => False
  | overrideDefault c _ | clearDefault c => c = p

theorem redefines_after_overrideDefault {v w : Value} (hcast : p.cast v = .ok w) :
  f.spec.Redefines p.expression (some w) (f.after (.overrideDefault p v)).spec
  := by
  have hoverride : ∃ spec', f.spec.overrideDefault p v = .ok spec'
      ∧ f.spec.Redefines p.expression (some w) spec' := Spec.exists_overrideDefault hcast
  obtain ⟨spec, hspec, hredefines⟩ := hoverride
  rw [after, hspec]
  exact hredefines

theorem after_overrideDefault_of_error {v : Value} {e : CoercionError}
    (hcast : p.cast v = .error e) :
  f.after (.overrideDefault p v) = f
  := by
  rw [after, Spec.overrideDefault, save_eq, hcast]
  rfl

/-- After the default of a column is changed, there is some default under its expression, and
everything else is as it was. -/
theorem exists_redefines_after {e : Event} (he : e.ChangesDefault p) :
  (f.after e).models = f.models
    ∧ ∃ default, f.spec.Redefines p.expression default (f.after e).spec
  := by
  cases e with
  | instantiate | operate _ _ => cases he
  | overrideDefault c v =>
      obtain rfl : c = p := he
      cases hcast : c.cast v with
      | ok w =>
          refine ⟨?_, some w, redefines_after_overrideDefault hcast⟩
          rw [after]
          cases f.spec.overrideDefault c v <;> rfl
      | error e =>
          rw [after_overrideDefault_of_error hcast]
          refine ⟨rfl, f.spec.default? c.expression, rfl, ?_⟩
          intro key
          split
          · rename_i hkey
            rw [hkey]
          · rfl
  | clearDefault c =>
      obtain rfl : c = p := he
      exact ⟨rfl, none, f.spec.redefines_clearDefault c⟩

/-- When the default of a column is overridden or cleared, whatever its table, no model changes.
Everything that can be asked about a column of another table than that of the row type, or about a
column of it with another expression, is answered as before, by every model.  A column of the table
of the row type that has the same expression resolves to the values of the model itself, and where
there are none to the new default, if there is one. -/
theorem tryGet_after_default (f : Family) (p : Column) :
  (∀ e, Event.ChangesDefault p e →
      (f.after e).models = f.models
        ∧ ∀ (m : Model) q, (q.belongsTo f.spec.owner = true → q.expression ≠ p.expression) →
          m.seen (f.after e).spec q = m.seen f.spec q)
    ∧ ∀ (m : Model) q, q.belongsTo f.spec.owner = true → q.expression = p.expression →
      m.tryGet (f.after (.clearDefault p)).spec q
          = castOption q (m.instanceValues f.spec q).head?
        ∧ (∀ v w, p.cast v = .ok w →
          m.tryGet (f.after (.overrideDefault p v)).spec q
            = castOption q ((m.instanceValues f.spec q).head?.or (some w)))
        ∧ ∀ v e, p.cast v = .error e →
          m.tryGet (f.after (.overrideDefault p v)).spec q = m.tryGet f.spec q
  := by
  constructor
  · intro e he
    obtain ⟨hmodels, default, hredefines⟩ := exists_redefines_after he
    refine ⟨hmodels, ?_⟩
    intro m q hq
    apply hredefines.seen_of_ne
    rw [place]
    split
    · rename_i hnative
      exact fun heq => hq hnative (Place.native.inj heq)
    · intro heq
      cases heq
  · intro m q hnative hexpression
    have hplace : place f.spec.owner q = .native p.expression := by
      rw [Model.place_native hnative, hexpression]
    refine ⟨?_, ?_, ?_⟩
    · rw [after, (f.spec.redefines_clearDefault p).tryGet_self hplace m, Option.or_none]
    · intro v w hcast
      exact (redefines_after_overrideDefault hcast).tryGet_self hplace m
    · intro v e hcast
      rw [after_overrideDefault_of_error hcast]

/-- The lucky number of a pet, which is joined to people. -/
def petLucky : Column :=
  { kind := .integer, table := some ⟨"Pet", "pets"⟩, expression := "lucky" }

/-- The name of a person. -/
def personName : Column :=
  { kind := .text, table := some ⟨"Person", "people"⟩, expression := "name" }

/-- Somebody whose name is known, but not the lucky number. -/
def named : Model where
  pending := some (Store.empty.put "name" (.text "Ada"))

/-- The lucky number of pets is given the default thirteen.  The name of the person and the lucky
number of the pet are what they were, and the lucky number of the person is thirteen. -/
theorem tryGet_after_default_petLucky :
  Event.ChangesDefault petLucky (.overrideDefault petLucky (.text "13"))
    ∧ (let g := (⟨people, [named]⟩ : Family).after (.overrideDefault petLucky (.text "13"))
      g.models = [named]
        ∧ named.tryGet g.spec personName = .ok (some (.text "Ada"))
        ∧ named.tryGet g.spec petLucky = .ok none
        ∧ named.tryGet g.spec lucky = .ok (some (.integer 13)))
  := by
  have hchanges : Event.ChangesDefault petLucky (.overrideDefault petLucky (.text "13")) := rfl
  obtain ⟨hframe, hthere⟩ := tryGet_after_default ⟨people, [named]⟩ petLucky
  obtain ⟨hmodels, hseen⟩ := hframe _ hchanges
  have hname := hseen named personName (fun _ => by decide)
  have hpet := hseen named petLucky nofun
  obtain ⟨-, hoverride, -⟩ := hthere named lucky rfl rfl
  exact ⟨hchanges, hmodels, congrArg Seen.value hname, congrArg Seen.value hpet,
    hoverride (.text "13") (.integer 13) rfl⟩

/-- The lucky number of a friend, from the table of people under an alias. -/
def friendLucky : Column :=
  lucky.withTable ⟨"Person", "friends"⟩

/-- A lucky number that no table owns. -/
def looseLucky : Column :=
  { lucky with table := none }

/-- The lucky number of a person resolves to seven no more when the default of the column of another
table is cleared, or that of the column of people under an alias of their table, or when the default
of a column that no table owns is overridden. -/
theorem not_tryGet_after_default :
  lucky.belongsTo people.owner = true
    ∧ petLucky.table ≠ lucky.table ∧ friendLucky.table ≠ lucky.table ∧ looseLucky.table = none
    ∧ Model.empty.tryGet people lucky = .ok (some (.integer 7))
    ∧ Model.empty.tryGet ((⟨people, []⟩ : Family).after (.clearDefault petLucky)).spec lucky
      = .ok none
    ∧ Model.empty.tryGet ((⟨people, []⟩ : Family).after (.clearDefault friendLucky)).spec lucky
      = .ok none
    ∧ Model.empty.tryGet
        ((⟨people, []⟩ : Family).after (.overrideDefault looseLucky (.integer 13))).spec lucky
      = .ok (some (.integer 13))
  :=
  ⟨rfl, by decide, by decide, rfl, rfl, rfl, rfl, rfl⟩

end Family

end TypedSql.Record
