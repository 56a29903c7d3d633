import TypedSql.Proofs.Record.Casting
import TypedSql.Proofs.Record.Family
import TypedSql.Proofs.Record.Merged

/-!
# Copies of rows

A row can be copied by setting its columns in a new row, by reading it as the source of a new row,
and by reading its merged values into a new row.  In each of them what is found for a column is
recorded in some layer of the new row, over the same defaults; so all of them come to the same
merged values as the row that is copied.  The main statement, `Family.run_copies`, says so for
every row of a family whose row type has columns of distinct names.
-/

namespace TypedSql.Record

open Sql (Column TableId)

/-! ### What is found for distinct columns -/

/-- A store with the values of columns put in under their expressions. -/
def putEach (s : Store) (vs : List (Column × Value)) : Store :=
  vs.foldl (fun s e => s.put e.1.expression e.2) s

variable {find : Column → Option Value} {cs : List Column} {c : Column}

theorem get?_putEach_of_notMem {k : String} (h : k ∉ cs.map Column.expression) (s : Store) :
  (putEach s (found find cs)).get? k = s.get? k
  := by
  induction cs generalizing s with
  | nil => rfl
  | cons c cs ih =>
      rw [List.map_cons, List.mem_cons, not_or] at h
      cases hfind : find c with
      | none =>
          rw [found_cons_of_none hfind]
          exact ih h.2 s
      | some v =>
          rw [found_cons_of_some hfind, putEach, List.foldl_cons]
          apply (ih h.2 _).trans
          rw [Store.get?_put, if_neg h.1]

/-- What is found for a column counts, as no other column has its expression. -/
theorem get?_putEach_of_mem (hdistinct : (cs.map Column.expression).Nodup) (hc : c ∈ cs)
    (s : Store) :
  (putEach s (found find cs)).get? c.expression = (find c).or (s.get? c.expression)
  := by
  induction cs generalizing s with
  | nil => cases hc
  | cons d cs ih =>
      rw [List.map_cons, List.nodup_cons] at hdistinct
      obtain rfl | hc := List.mem_cons.mp hc
      · cases hfind : find c with
        | none =>
            rw [found_cons_of_none hfind]
            exact get?_putEach_of_notMem hdistinct.1 s
        | some v =>
            rw [found_cons_of_some hfind, putEach, List.foldl_cons]
            apply (get?_putEach_of_notMem hdistinct.1 _).trans
            rw [Store.get?_put, if_pos rfl, Option.some_or]
      · cases hfind : find d with
        | none =>
            rw [found_cons_of_none hfind]
            exact ih hdistinct.2 hc s
        | some v =>
            have hne : c.expression ≠ d.expression := by
              intro heq
              rw [← heq] at hdistinct
              exact hdistinct.1 (List.mem_map_of_mem hc)
            rw [found_cons_of_some hfind, putEach, List.foldl_cons]
            apply (ih hdistinct.2 hc _).trans
            rw [Store.get?_put, if_neg hne]

/-! ### What is recorded

Values of the kinds of their columns are cast to themselves, so that none of them is refused. -/

namespace Model

variable {spec : Spec} {m : Model}

theorem castEach_of_fits (h : ∀ c ∈ cs, ∀ v, find c = some v → v.Fits c.kind) :
  castEach find cs = .ok (found find cs)
  := by
  induction cs with
  | nil => rfl
  | cons c cs ih =>
      have hrest := ih fun d hd => h d (List.mem_cons_of_mem c hd)
      cases hfind : find c with
      | none => simp only [castEach, hfind, hrest, found_cons_of_none hfind]
      | some v =>
          have hcast : c.cast v = .ok v := (h c List.mem_cons_self v hfind).cast_eq
          simp only [castEach, hfind, hrest, hcast, found_cons_of_some hfind]
          rfl

theorem Staged.putEach_of_native {vs : List (Column × Value)}
    (hnative : ∀ e ∈ vs, e.1.belongsTo spec.owner = true) (s : Staged) :
  s.putEach spec vs = { s with native := Record.putEach s.native vs }
  := by
  induction vs generalizing s with
  | nil => rfl
  | cons e vs ih =>
      rw [List.forall_mem_cons] at hnative
      rw [putEach, List.foldl_cons, place, if_pos hnative.1]
      exact ih hnative.2 _

theorem stageEach_of_fits (hnative : ∀ c ∈ cs, c.belongsTo spec.owner = true)
    (h : ∀ c ∈ cs, ∀ v, find c = some v → v.Fits c.kind) (s : Staged) :
  stageEach spec find cs s = .ok { s with native := putEach s.native (found find cs) }
  := by
  have hfound : ∀ e ∈ found find cs, e.1.belongsTo spec.owner = true :=
    fun e he => hnative e.1 (mem_found_iff.mp he).1
  rw [stageEach_eq, castEach_of_fits h, Except.map, Staged.putEach_of_native hfound]

/-- Where nothing was read from the database, every value is recorded. -/
theorem commitAll_of_database_none {vs : List (Column × Value)}
    (hnative : ∀ e ∈ vs, e.1.belongsTo spec.owner = true) (h : m.database = none) :
  (m.commitAll spec vs).pending.getD .empty = putEach (m.pending.getD .empty) vs
    ∧ (m.commitAll spec vs).database = none
  := by
  induction vs generalizing m with
  | nil => exact ⟨rfl, h⟩
  | cons e vs ih =>
      have hrecords : m.records e.1.expression e.2 = true := by
        simp [records, h, getLayer?]
      have hcommit : m.commit spec e.1 e.2
          = { m with pending := putLayer m.pending e.1.expression e.2 } := by
        rw [commit_native m (hnative e List.mem_cons_self), hrecords, if_pos rfl]
      have hrest := ih (m := m.commit spec e.1 e.2)
        (fun d hd => hnative d (List.mem_cons_of_mem e hd)) (by rw [hcommit]; exact h)
      rw [hcommit] at hrest
      rw [commitAll, List.foldl_cons, hcommit]
      exact hrest

/-! ### Merged values -/

theorem findFrom_source (spec : Spec) (m : Model) (c : Column) :
  findFrom (m.source spec) c = m.lookup spec c
  := by
  cases h : m.lookup spec c <;> simp [findFrom, source, h]

theorem findIn_merged (m : Model) (h : c.belongsTo spec.owner = true) :
  findIn spec (m.merged spec) c = m.lookup spec c
  := by
  rw [findIn, Column.storageKey, if_pos h, lookup_native m h]

/-- A row in which every column has what it has in another row.  The rows are equal where no
merged value fails to be equal to itself. -/
structure Copies (spec : Spec) (m x : Model) : Prop where
  lookup (c : Column) : c ∈ spec.columns → x.lookup spec c = m.lookup spec c
  get (c : Column) : c ∈ spec.columns → x.get spec c = m.get spec c
  agrees : x.agrees spec spec m = true ↔ ∀ e ∈ (m.merged spec).entries, e.2.isNaN = false

end Model

/-- A row type whose columns are of its own table and have distinct names. -/
structure Spec.Distinct (spec : Spec) : Prop where
  native (c : Column) : c ∈ spec.columns → c.belongsTo spec.owner = true
  nodup : (spec.columns.map Column.expression).Nodup

/-- The kinds that the columns of a row type declare for the places of their values. -/
def Spec.Declares (spec : Spec) : Place → Kind → Prop :=
  Record.Declares spec.owner (· ∈ spec.columns)

namespace Model

variable {spec : Spec} {m x : Model}

/-- Rows with the same merged values. -/
theorem copies_of_get?_merged (hspec : spec.Distinct)
    (h : ∀ k, (x.merged spec).get? k = (m.merged spec).get? k) :
  Copies spec m x
  := by
  have hlookup (c : Column) (hc : c ∈ spec.columns) : x.lookup spec c = m.lookup spec c := by
    rw [lookup_native x (hspec.native c hc), lookup_native m (hspec.native c hc), h]
  constructor
  · exact hlookup
  · intro c hc
    rw [Model.get, tryGet, hlookup c hc]
    rfl
  · rw [agrees, beq_self_eq_true, Bool.true_and]
    exact Store.agrees_iff_of_get?_eq h

/-- Only columns of the row type have merged values. -/
theorem get?_merged_of_notMem (hdefaults : spec.Fits spec.Declares) (hm : m.Fits spec.Declares)
    {k : String} (h : k ∉ spec.columns.map Column.expression) :
  (m.merged spec).get? k = none
  := by
  cases hv : (m.merged spec).get? k with
  | none => rfl
  | some v =>
      rw [get?_merged] at hv
      obtain ⟨kind, ⟨c, hc, hplace, -⟩, -⟩ := (hm.pending.or hm.database).or hdefaults k v hv
      rw [place] at hplace
      split at hplace
      · obtain rfl := Place.native.inj hplace
        exact absurd (List.mem_map_of_mem hc) h
      · cases hplace

/-- A row in which what is found for the columns in another one lies over the defaults. -/
theorem copies_of_recorded (hspec : spec.Distinct) (hdefaults : spec.Fits spec.Declares)
    (hm : m.Fits spec.Declares)
    (h : ∀ k, (x.merged spec).get? k
      = ((putEach .empty (found (m.lookup spec) spec.columns)).get? k).or (spec.default? k)) :
  Copies spec m x
  := by
  apply copies_of_get?_merged hspec
  intro k
  rw [h]
  by_cases hk : k ∈ spec.columns.map Column.expression
  · obtain ⟨c, hc, rfl⟩ := List.mem_map.mp hk
    rw [get?_putEach_of_mem hspec.nodup hc, lookup_native m (hspec.native c hc),
      Store.get?_empty, Option.or_none, get?_merged, Option.or_assoc, Option.or_self]
  · have hnone := get?_merged_of_notMem hdefaults hm hk
    rw [get?_putEach_of_notMem hk, Store.get?_empty, Option.none_or, hnone]
    rw [get?_merged] at hnone
    exact (Option.or_eq_none_iff.mp hnone).2

end Model

/-- Columns of distinct names do not share a place. -/
theorem Spec.Distinct.coherent {spec : Spec} (h : spec.Distinct) :
  Coherent spec.owner (· ∈ spec.columns)
  := by
  intro c d hc hd hplace
  rw [place, place, if_pos (h.native c hc), if_pos (h.native d hd), Place.native.injEq] at hplace
  rw [List.inj_on_of_nodup_map h.nodup hc hd hplace]

/-! ### Ways of copying

What is recorded of a row are the values that are found for the columns, be they looked up in the
row, in the row as a source or in its merged values. -/

namespace Model

variable {spec : Spec} {m : Model} (hspec : spec.Distinct) (hdefaults : spec.Fits spec.Declares)
  (hm : m.Fits spec.Declares)

include hspec hdefaults hm

/-- A value that is found for a column of the row type is left as it is by casts. -/
theorem fits_of_lookup_column :
  ∀ c ∈ spec.columns, ∀ v, m.lookup spec c = some v → v.Fits c.kind
  :=
  fun _ hc _ hv => fits_of_lookup hdefaults hm hspec.coherent hc hv

theorem setFromModel_copies :
  ∃ x, empty.setFromModel spec spec m spec.columns = .ok x ∧ Copies spec m x
  := by
  have hfits := fits_of_lookup_column hspec hdefaults hm
  refine ⟨empty.commitAll spec (found (m.lookup spec) spec.columns), ?_, ?_⟩
  · rw [setFromModel, setEach, castEach_of_fits hfits]
    rfl
  · have hnative : ∀ e ∈ found (m.lookup spec) spec.columns, e.1.belongsTo spec.owner = true :=
      fun e he => hspec.native e.1 (mem_found_iff.mp he).1
    obtain ⟨hpending, hdatabase⟩ := commitAll_of_database_none hnative (m := empty) rfl
    apply copies_of_recorded hspec hdefaults hm
    intro k
    rw [get?_merged, ← get?_getD_empty, hpending, hdatabase]
    exact congrArg (·.or (spec.default? k)) Option.or_none

theorem readAllFromSource_copies :
  ∃ x, readAllFromSource spec (m.source spec) = .ok x ∧ Copies spec m x ∧ x.isModified = false
  := by
  have hfits := fits_of_lookup_column hspec hdefaults hm
  refine ⟨replaceBy { native := putEach .empty (found (m.lookup spec) spec.columns) }, ?_, ?_,
    rfl⟩
  · have hstage := stageEach_of_fits hspec.native hfits {}
    rw [readAllFromSource, funext (findFrom_source spec m), source, hstage]
    rfl
  · apply copies_of_recorded hspec hdefaults hm
    intro k
    rw [get?_merged]
    exact congrArg (·.or (spec.default? k)) Option.none_or

theorem readFromStore_copies :
  ∃ x, empty.readFromStore spec (m.merged spec) spec.columns = .ok x ∧ Copies spec m x
    ∧ x.isModified = false
  := by
  have hin : ∀ c ∈ spec.columns, findIn spec (m.merged spec) c = m.lookup spec c :=
    fun c hc => findIn_merged m (hspec.native c hc)
  have hfits : ∀ c ∈ spec.columns, ∀ v, findIn spec (m.merged spec) c = some v →
      v.Fits c.kind := by
    intro c hc
    rw [hin c hc]
    exact fits_of_lookup_column hspec hdefaults hm c hc
  have hfound : found (findIn spec (m.merged spec)) spec.columns
      = found (m.lookup spec) spec.columns :=
    List.filterMap_congr fun c hc => by rw [hin c hc]
  refine ⟨empty.mergeIn { native := putEach .empty (found (m.lookup spec) spec.columns) }, ?_, ?_,
    rfl⟩
  · rw [readFromStore, stageEach_of_fits hspec.native hfits {}, hfound]
    rfl
  · apply copies_of_recorded hspec hdefaults hm
    intro k
    rw [get?_merged, mergeIn]
    simp only [getLayer?, Option.bind_none, Option.bind_some, Option.none_or, Store.get?_overlay]
    congr 1
    exact Option.or_none

end Model

/-! ### Families -/

namespace Spec

variable {spec : Spec}

theorem distinct_of_build {name table : String} {decls : List ColumnDecl}
    (hdistinct : (decls.map ColumnDecl.name).Nodup)
    (hbuild : build name table decls = .ok spec) :
  spec.Distinct
  := by
  obtain ⟨defaults, -, rfl⟩ := exists_of_map_eq_ok hbuild
  constructor
  · intro c hc
    obtain ⟨d, -, rfl⟩ := List.mem_map.mp hc
    exact beq_self_eq_true _
  · rwa [List.map_map]

theorem fits_declares_of_build {name table : String} {decls : List ColumnDecl}
    (hbuild : build name table decls = .ok spec) :
  spec.Fits spec.Declares
  := by
  apply fits_of_build _ hbuild
  obtain ⟨defaults, -, rfl⟩ := exists_of_map_eq_ok hbuild
  intro d hd _
  exact declares_native (List.mem_map_of_mem hd) (beq_self_eq_true _)

end Spec

namespace Family

/-- What happens in a family changes nothing of the row type but the defaults. -/
theorem exists_spec_after (f : Family) (e : Event) :
  ∃ defaults, (f.after e).spec = { f.spec with defaults := defaults }
  := by
  cases e with
  | instantiate => exact ⟨_, rfl⟩
  | operate i op => exact ⟨f.spec.defaults, by rw [after, operate_spec]⟩
  | overrideDefault c v =>
      rw [after]
      cases h : f.spec.overrideDefault c v with
      | error e => exact ⟨_, rfl⟩
      | ok spec =>
          obtain ⟨s, -, rfl⟩ := exists_of_map_eq_ok h
          exact ⟨s, rfl⟩
  | clearDefault c => exact ⟨_, rfl⟩

theorem exists_spec_run (f : Family) (events : List Event) :
  ∃ defaults, (f.run events).spec = { f.spec with defaults := defaults }
  := by
  induction events generalizing f with
  | nil => exact ⟨_, rfl⟩
  | cons e events ih =>
      obtain ⟨d, hd⟩ := f.exists_spec_after e
      obtain ⟨d', hd'⟩ := ih (f.after e)
      exact ⟨d', by rw [run, List.foldl_cons, ← run, hd', hd]⟩

/-- After events that are about columns of the row type, its columns are still distinct, and all
values are of the kinds that they declare. -/
theorem run_fits_declares {spec : Spec} (hspec : spec.Distinct)
    (hdefaults : spec.Fits spec.Declares) (events : List Event)
    (hevents : ∀ e ∈ events, ∀ c ∈ e.columns, c ∈ spec.columns) :
  let f := run ⟨spec, []⟩ events
  f.spec.Distinct ∧ f.Fits f.spec.Declares
  := by
  intro f
  have hnative : ∀ e ∈ events, e.isNative spec.owner = true := by
    intro e he
    cases e with
    | instantiate | operate => rfl
    | overrideDefault c v => exact hspec.native c (hevents _ he c List.mem_cons_self)
    | clearDefault c => exact hspec.native c (hevents _ he c List.mem_cons_self)
  have hstart : (⟨spec, []⟩ : Family).Fits (Declares spec.owner (· ∈ spec.columns)) :=
    ⟨hdefaults, fun m hm => absurd hm List.not_mem_nil⟩
  obtain ⟨hfits, -⟩ := hstart.run rfl hevents hnative
  obtain ⟨defaults, hf⟩ : ∃ defaults, f.spec = { spec with defaults := defaults } :=
    exists_spec_run ⟨spec, []⟩ events
  have hdeclares : Declares spec.owner (· ∈ spec.columns) = f.spec.Declares := by
    rw [hf]
    rfl
  constructor
  · rw [hf]
    exact ⟨hspec.native, hspec.nodup⟩
  · rwa [← hdeclares]

/-- In a family of a row type that is built with columns of distinct names, after any events that
are about these columns, and whatever transitory data is attached to a row: setting the columns
of the row in a new row, reading it as the source of a new row, and reading its merged values
into a new row all succeed.  Each of the new rows has for every column what the row has, and is
equal to it unless some merged value is not a number; and the rows that are read are not
modified. -/
theorem run_copies {name table : String} {decls : List ColumnDecl} {spec : Spec}
    (hbuild : Spec.build name table decls = .ok spec)
    (hdistinct : (decls.map ColumnDecl.name).Nodup) (events : List Event)
    (hevents : ∀ e ∈ events, ∀ c ∈ e.columns, c ∈ spec.columns) :
  let f := run ⟨spec, []⟩ events
  ∀ m ∈ f.models, ∀ attached, let m := { m with transitory := attached }
    ∃ a b c : Model,
    Model.empty.setFromModel f.spec f.spec m f.spec.columns = .ok a
    ∧ Model.readAllFromSource f.spec (m.source f.spec) = .ok b
    ∧ Model.empty.readFromStore f.spec (m.merged f.spec) f.spec.columns = .ok c
    ∧ (∀ x ∈ [a, b, c], Model.Copies f.spec m x)
    ∧ b.isModified = false ∧ c.isModified = false
  := by
  intro f m hm attached
  obtain ⟨hspec, hfits⟩ := run_fits_declares (Spec.distinct_of_build hdistinct hbuild)
    (Spec.fits_declares_of_build hbuild) events hevents
  have hm' : Model.Fits f.spec.Declares { m with transitory := attached } :=
    { hfits.models m hm with }
  obtain ⟨a, ha, hcopies⟩ := Model.setFromModel_copies hspec hfits.spec hm'
  obtain ⟨b, hb, hread, hb'⟩ := Model.readAllFromSource_copies hspec hfits.spec hm'
  obtain ⟨c, hc, hstored, hc'⟩ := Model.readFromStore_copies hspec hfits.spec hm'
  refine ⟨a, b, c, ha, hb, hc, ?_, hb', hc'⟩
  simp only [List.forall_mem_cons]
  exact ⟨hcopies, hread, hstored, fun x hx => absurd hx List.not_mem_nil⟩

/-- The name of guests. -/
def guestName : Column :=
  { kind := .text, table := some ⟨"Guest", "guests"⟩, expression := "name" }

/-- The seat of guests. -/
def guestSeat : Column :=
  { kind := .integer, table := some ⟨"Guest", "guests"⟩, expression := "seat" }

/-- Guests, who take the seventh seat where nothing else is known. -/
def guests : Spec :=
  ⟨"Guest", { model := "Guest", name := "guests" }, [guestName, guestSeat],
    Store.empty.put "seat" (.integer 7)⟩

/-- A guest is read, then loses the seat, and another name becomes the default. -/
def guestEvents : List Event :=
  [.instantiate, .operate 0 (.read (.map (fun _ => some (.text "12")) [guestName])),
    .operate 0 (.set (.value guestSeat .null)), .overrideDefault guestName (.text "nobody")]

/-- The null that lies over the default is copied in each way. -/
theorem run_copies_guest :
  ∃ m a b c, (run ⟨guests, []⟩ guestEvents).models = [m]
    ∧ Model.empty.setFromModel (run ⟨guests, []⟩ guestEvents).spec
        (run ⟨guests, []⟩ guestEvents).spec m guests.columns = .ok a
    ∧ Model.readAllFromSource (run ⟨guests, []⟩ guestEvents).spec
        (m.source (run ⟨guests, []⟩ guestEvents).spec) = .ok b
    ∧ Model.empty.readFromStore (run ⟨guests, []⟩ guestEvents).spec
        (m.merged (run ⟨guests, []⟩ guestEvents).spec) guests.columns = .ok c
    ∧ ∀ x ∈ [a, b, c],
        x.agrees (run ⟨guests, []⟩ guestEvents).spec (run ⟨guests, []⟩ guestEvents).spec m = true
        ∧ x.get (run ⟨guests, []⟩ guestEvents).spec guestSeat = .ok .null
        ∧ x.get (run ⟨guests, []⟩ guestEvents).spec guestName = .ok (.text "12")
  := by
  have hbuild : Spec.build "Guest" "guests"
      [⟨.text, "name", none⟩, ⟨.integer, "seat", some (.text "7")⟩] = .ok guests := rfl
  have hevents : ∀ e ∈ guestEvents, ∀ c ∈ e.columns, c ∈ guests.columns := by
    simp [guestEvents, Event.columns, Operation.columns, Reading.columns, Setting.columns, guests]
  obtain ⟨a, b, c, ha, hb, hc, hcopies, -, -⟩ :=
    run_copies hbuild (by decide) guestEvents hevents _ List.mem_cons_self none
  refine ⟨_, a, b, c, rfl, ha, hb, hc, ?_⟩
  intro x hx
  obtain ⟨-, hget, hagrees⟩ := hcopies x hx
  refine ⟨hagrees.mpr (by decide), ?_, ?_⟩
  · rw [hget guestSeat (List.mem_cons_of_mem _ List.mem_cons_self)]
    rfl
  · rw [hget guestName List.mem_cons_self]
    rfl

end Family

end TypedSql.Record
