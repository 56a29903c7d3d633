import TypedSql.Proofs.Record.Fitting
import TypedSql.Record.Family

/-!
# Kinds of stored values

Whatever happens in a family of models, every value that is stored, be it among the defaults or
in a layer of a model, is null or of the kind of the columns in use that are stored in its
place.  The main statement, `Family.run_fits`, says so for families of row types that are built
from declarations, where columns in use which share a place are of one kind; then casts on
reading never fail and change nothing.
-/

namespace TypedSql.Record

open Sql (Column TableId)

/-- The kinds that columns in use declare for the places of their values. -/
def Declares (owner : TableId) (used : Column → Prop) (p : Place) (kind : Kind) : Prop :=
  ∃ c, used c ∧ place owner c = p ∧ c.kind = kind

/-- Columns of which those that share a place are of one kind. -/
def Coherent (owner : TableId) (used : Column → Prop) : Prop :=
  ∀ c d, used c → used d → place owner c = place owner d → c.kind = d.kind

variable {used : Column → Prop}

theorem declares_place (owner : TableId) {c : Column} (h : used c) :
  Declares owner used (place owner c) c.kind
  :=
  ⟨c, h, rfl, rfl⟩

theorem declares_native {owner : TableId} {c : Column} (h : used c)
    (hnative : c.belongsTo owner = true) :
  Declares owner used (.native c.expression) c.kind
  :=
  ⟨c, h, if_pos hnative, rfl⟩

/-! ### Asking -/

/-- A value that is found for a column in use is of the kind of the column. -/
theorem Model.fits_of_lookup {spec : Spec} {m : Model}
    (hspec : spec.Fits (Declares spec.owner used)) (hm : m.Fits (Declares spec.owner used))
    (hcoherent : Coherent spec.owner used) {c : Column} (hc : used c) {v : Value}
    (hv : m.lookup spec c = some v) :
  v.Fits c.kind
  := by
  obtain ⟨kind, ⟨d, hd, hplace, rfl⟩, hfits⟩ := hm.lookup hspec hv
  rwa [← hcoherent d c hd hc hplace]

/-- A value that is of the kind of its column is given as it is stored. -/
theorem Model.tryGet_of_fits {spec : Spec} {m : Model} {c : Column}
    (h : ∀ v, m.lookup spec c = some v → v.Fits c.kind) :
  m.tryGet spec c = .ok (m.lookup spec c)
  := by
  rw [tryGet]
  cases hv : m.lookup spec c with
  | none => rfl
  | some v =>
      have hcast : c.cast v = .ok v := (h v hv).cast_eq
      simp only [hcast]
      rfl

theorem Model.get_of_tryGet {spec : Spec} {m : Model} {c : Column}
    (h : m.tryGet spec c = .ok (m.lookup spec c)) :
  m.get spec c
    = (m.lookup spec c).elim (.error (.valueNotFound spec.name (c.storageKey spec.owner))) .ok
  := by
  rw [get, h]
  cases m.lookup spec c <;> rfl

/-! ### Events -/

namespace Family

/-- A family whose defaults and models hold values of the kinds declared for their places. -/
structure Fits (declares : Place → Kind → Prop) (f : Family) : Prop where
  spec : f.spec.Fits declares
  models (m : Model) : m ∈ f.models → m.Fits declares

variable {f : Family} {owner : TableId}

theorem operate_spec (f : Family) (i : Nat) (op : Operation) :
  (f.operate i op).spec = f.spec
  := by
  rw [operate]
  cases f.models[i]? with
  | none => rfl
  | some m => cases h : op.apply f.spec m <;> simp only [h]

/-- The table of a family stays the same. -/
theorem owner_after (f : Family) (e : Event) :
  (f.after e).spec.owner = f.spec.owner
  := by
  cases e with
  | instantiate => rfl
  | operate i op => rw [after, operate_spec]
  | overrideDefault c v =>
      rw [after]
      cases h : f.spec.overrideDefault c v with
      | error e => rfl
      | ok spec =>
          obtain ⟨s, -, rfl⟩ := exists_of_map_eq_ok h
          rfl
  | clearDefault c => rfl

theorem Fits.operate {i : Nat} {op : Operation}
    (h : f.Fits (Declares f.spec.owner used)) (hop : ∀ c ∈ op.columns, used c) :
  (f.operate i op).Fits (Declares f.spec.owner used)
  := by
  rw [Family.operate]
  cases hi : f.models[i]? with
  | none => exact h
  | some m =>
      cases happly : op.apply f.spec m with
      | error e => simp only [happly]; exact h
      | ok m' =>
          have hm := h.models m (List.mem_of_getElem? hi)
          have hm' := hm.apply (fun c hc => declares_place f.spec.owner (hop c hc)) happly
          simp only [happly]
          constructor
          · exact h.spec
          · intro n hn
            obtain hn | rfl := List.mem_or_eq_of_mem_set hn
            · exact h.models n hn
            · exact hm'

/-- No event brings in a value that does not fit. -/
theorem Fits.after {e : Event} (h : f.Fits (Declares f.spec.owner used))
    (hused : ∀ c ∈ e.columns, used c) (hnative : e.isNative f.spec.owner = true) :
  (f.after e).Fits (Declares f.spec.owner used)
  := by
  cases e with
  | instantiate =>
      constructor
      · exact h.spec
      · intro m hm
        obtain hm | hm := List.mem_append.mp hm
        · exact h.models m hm
        · obtain rfl := List.mem_singleton.mp hm
          exact Model.fits_empty
  | operate i op => exact h.operate hused
  | overrideDefault c v =>
      rw [Family.after]
      cases hspec : f.spec.overrideDefault c v with
      | error e => exact h
      | ok spec =>
          have hc := declares_native (hused c List.mem_cons_self) hnative
          exact { h with spec := h.spec.overrideDefault hc hspec }
  | clearDefault c => exact { h with spec := h.spec.clearDefault c }

theorem Fits.run {events : List Event} (h : f.Fits (Declares owner used))
    (howner : f.spec.owner = owner) (hused : ∀ e ∈ events, ∀ c ∈ e.columns, used c)
    (hnative : ∀ e ∈ events, e.isNative owner = true) :
  (f.run events).Fits (Declares owner used) ∧ (f.run events).spec.owner = owner
  := by
  induction events generalizing f with
  | nil => exact ⟨h, howner⟩
  | cons e events ih =>
      subst howner
      apply ih
      · exact h.after (hused e List.mem_cons_self) (hnative e List.mem_cons_self)
      · exact f.owner_after e
      · exact fun e' he' => hused e' (List.mem_cons_of_mem e he')
      · exact fun e' he' => hnative e' (List.mem_cons_of_mem e he')

/-- In a family of a row type that is built, after any events: where columns in use that share a
place are of one kind, all defaults and all values in the layers of the models are null or of
the kind of the columns in use that are stored in their places, and asking a model for a column
in use gives what is stored, or tells that nothing is, but no failed cast. -/
theorem run_fits {name table : String} {decls : List ColumnDecl} {spec : Spec}
    (hbuild : Spec.build name table decls = .ok spec) (events : List Event)
    (hdefaults : ∀ d ∈ decls, d.default.isSome = true → used (spec.table.column d.kind d.name))
    (hused : ∀ e ∈ events, ∀ c ∈ e.columns, used c)
    (hnative : ∀ e ∈ events, e.isNative spec.owner = true)
    (hcoherent : Coherent spec.owner used) :
  let f := run ⟨spec, []⟩ events
  f.Fits (Declares spec.owner used)
    ∧ ∀ m ∈ f.models, ∀ c, used c →
        m.tryGet f.spec c = .ok (m.lookup f.spec c)
        ∧ m.get f.spec c
          = (m.lookup f.spec c).elim
              (.error (.valueNotFound f.spec.name (c.storageKey f.spec.owner))) .ok
  := by
  intro f
  have hspec : spec.Fits (Declares spec.owner used) := by
    apply Spec.fits_of_build _ hbuild
    intro d hd hdefault
    have howned : (spec.table.column d.kind d.name).belongsTo spec.owner = true :=
      beq_self_eq_true (some spec.owner)
    exact declares_native (hdefaults d hd hdefault) howned
  have hstart : (⟨spec, []⟩ : Family).Fits (Declares spec.owner used) :=
    ⟨hspec, fun m hm => absurd hm List.not_mem_nil⟩
  obtain ⟨hfits, howner⟩ := hstart.run rfl hused hnative
  refine ⟨hfits, ?_⟩
  intro m hm c hc
  rw [← howner] at hfits hcoherent
  have htry := Model.tryGet_of_fits fun v hv =>
    Model.fits_of_lookup hfits.spec (hfits.models m hm) hcoherent hc hv
  exact ⟨htry, Model.get_of_tryGet htry⟩

/-- The lucky number of people. -/
def lucky : Column :=
  { kind := .integer, table := some ⟨"Person", "people"⟩, expression := "lucky" }

/-- The name of a pet, which is joined to people. -/
def petName : Column :=
  { kind := .text, table := some ⟨"Pet", "pets"⟩, expression := "name" }

/-- People, whose lucky number is seven where nothing else is known. -/
def people : Spec :=
  ⟨"Person", { model := "Person", name := "people" }, [lucky],
    Store.empty.put "lucky" (.integer 7)⟩

/-- Somebody's lucky number is set and read from texts, a default is overridden by a truth
value, and what was set and read is cleared. -/
def luckyEvents : List Event :=
  [.instantiate, .operate 0 (.set (.value lucky (.text "8"))), .operate 0 .markSaved,
    .operate 0 (.read (.map (fun _ => some (.text "9")) [lucky, petName])),
    .overrideDefault lucky (.boolean true), .operate 0 (.clearValue lucky)]

theorem run_fits_lucky :
  ∃ m, (run ⟨people, []⟩ luckyEvents).models = [m]
    ∧ m.tryGet (run ⟨people, []⟩ luckyEvents).spec lucky = .ok (some (.integer 1))
    ∧ m.get (run ⟨people, []⟩ luckyEvents).spec petName = .ok (.text "9")
  := by
  let used (c : Column) : Prop := c = lucky ∨ c = petName
  have hbuild : Spec.build "Person" "people" [⟨.integer, "lucky", some (.text "7")⟩]
      = .ok people := rfl
  have hdefaults : ∀ d ∈ [(⟨.integer, "lucky", some (.text "7")⟩ : ColumnDecl)],
      d.default.isSome = true → used (people.table.column d.kind d.name) := by
    intro d hd _
    obtain rfl := List.mem_singleton.mp hd
    exact .inl rfl
  have hused : ∀ e ∈ luckyEvents, ∀ c ∈ e.columns, used c := by decide
  have hnative : ∀ e ∈ luckyEvents, e.isNative people.owner = true := by decide
  have hcoherent : Coherent people.owner used := by
    rintro c d (rfl | rfl) (rfl | rfl) hplace
    · rfl
    · cases hplace
    · cases hplace
    · rfl
  obtain ⟨-, hasked⟩ := run_fits hbuild luckyEvents hdefaults hused hnative hcoherent
  refine ⟨_, rfl, ?_, ?_⟩
  · rw [(hasked _ List.mem_cons_self lucky (.inl rfl)).1]
    rfl
  · rw [(hasked _ List.mem_cons_self petName (.inr rfl)).2]
    rfl

end Family

end TypedSql.Record
