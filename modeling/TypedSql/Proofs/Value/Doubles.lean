import TypedSql.Proofs.Json.Rereading
import TypedSql.Proofs.Value.Snapshot

/-!
# Snapshots of doubles

A double that is not finite is not read back from its snapshot, and neither is a store that
contains it.  Every other store is: its keys are the same, in the same order, and so are its values
except that doubles may have moved by a few places (`Store.ofJsonText?_toJson_doubles`).
-/

namespace TypedSql

open Json (Writes WritesMember)

/-! ### Values -/

namespace Value

/-- A value is no double that is not finite. -/
def IsReadable : Value → Prop
  | double x => x.isFinite = true
  | _ => True

/-- What a value may become in a snapshot. -/
def Reread : Value → Value → Prop
  | double x, double y => x.Reread y
  | v, w => w = v

theorem reread_self {v : Value} (h : v.kind? ≠ some .double) :
  v.Reread v
  := by
  cases v with
  | double x => exact absurd rfl h
  | _ => rfl

theorem writes_double {x : Binary64} {content : String} {j : Json}
    (hcontent : writeDouble x = content) (hwrites : Writes content j) :
  Writes (double x).toJson
    (.object [(some "type", .string (some Kind.double.name)), (some "value", j)])
  := by
  have htext : (double x).writeContent = some content := congrArg some hcontent
  rw [toJson_of_writeContent htext]
  exact Json.writes_object (.cons ⟨rfl, Json.writes_quote _⟩ (.cons ⟨rfl, hwrites⟩ .nil))

/-- The document of a double is read when the double is finite, and only then. -/
theorem exists_reread_double (x : Binary64) :
  ∃ j, Writes (double x).toJson j ∧ ((ofJson? j).isSome = true → x.isFinite = true)
    ∧ (x.isFinite = true → ∃ y, ofJson? j = some (double y) ∧ x.Reread y)
  := by
  cases hfinite : x.isFinite with
  | false =>
      have hnull : writeDouble x = "null" := by simp [writeDouble, hfinite]
      refine ⟨_, writes_double hnull Json.writes_null, ?_, nofun⟩
      rw [ofJson?_parts]
      exact nofun
  | true =>
      obtain ⟨n, y, hwrites, hread, hreread⟩ := Binary64.exists_reread hfinite
      have htext : writeDouble x = Decimal.json.finite x := if_pos hfinite
      refine ⟨_, writes_double htext hwrites, fun _ => rfl, fun _ => ⟨y, ?_, hreread⟩⟩
      rw [ofJson?_parts]
      simp [ofContent?, Json.asNumeral, hread]

/-- The document of a value is read when the value can be, and only then. -/
theorem exists_reread (v : Value) :
  ∃ j, Writes v.toJson j ∧ ((ofJson? j).isSome = true → v.IsReadable)
    ∧ (v.IsReadable → ∃ w, ofJson? j = some w ∧ v.Reread w)
  := by
  by_cases hdouble : v.kind? = some .double
  · obtain ⟨x, rfl⟩ : ∃ x, v = double x := by
      cases v with
      | double x => exact ⟨x, rfl⟩
      | _ => cases hdouble
    obtain ⟨j, hj, hsome, hread⟩ := exists_reread_double x
    refine ⟨j, hj, hsome, fun hreadable => ?_⟩
    obtain ⟨y, hy, hreread⟩ := hread hreadable
    exact ⟨double y, hy, hreread⟩
  · obtain ⟨j, hj, hvalue⟩ := exists_document hdouble
    refine ⟨j, hj, fun _ => ?_, fun _ => ⟨v, hvalue, reread_self hdouble⟩⟩
    cases v with
    | double x => exact absurd rfl hdouble
    | _ => trivial

end Value

/-! ### Stores -/

namespace Store

/-- What an entry may become in a snapshot: its key stays. -/
def RereadEntry (e f : String × Value) : Prop :=
  f.1 = e.1 ∧ e.2.Reread f.2

theorem keys_of_reread {es fs : List (String × Value)} (h : List.Forall₂ RereadEntry es fs) :
  fs.map Prod.fst = es.map Prod.fst
  := by
  induction h with
  | nil => rfl
  | cons hentry _ ih => rw [List.map_cons, List.map_cons, hentry.1, ih]

/-- The entries of a store are written as members that are read when all values can be, and only
then. -/
theorem exists_reread (entries : List (String × Value)) :
  ∃ ms : List (String × Json),
    List.Forall₂ WritesMember (entries.map fun e => (e.1, e.2.toJson))
        (ms.map fun m => (some m.1, m.2))
      ∧ ((ms.mapM fun m => (Value.ofJson? m.2).map fun v => (m.1, v)).isSome = true
        → ∀ e ∈ entries, e.2.IsReadable)
      ∧ ((∀ e ∈ entries, e.2.IsReadable) → ∃ fs : List (String × Value),
        ms.mapM (fun m => (Value.ofJson? m.2).map fun v => (m.1, v)) = some fs
          ∧ List.Forall₂ RereadEntry entries fs)
  := by
  induction entries with
  | nil => exact ⟨[], .nil, fun _ => nofun, fun _ => ⟨[], rfl, .nil⟩⟩
  | cons e entries ih =>
      obtain ⟨ms, hwrites, hsome, hread⟩ := ih
      obtain ⟨j, hj, hsome', hread'⟩ := e.2.exists_reread
      refine ⟨(e.1, j) :: ms, .cons ⟨rfl, hj⟩ hwrites, ?_, ?_⟩
      · intro h
        obtain ⟨fs, hfs⟩ := Option.isSome_iff_exists.mp h
        rw [mapM_eq_some_iff, List.forall₂_cons_left_iff] at hfs
        obtain ⟨f, fs, hf, hfs, -⟩ := hfs
        rw [← mapM_eq_some_iff] at hfs
        obtain ⟨w, hw, -⟩ := Option.map_eq_some_iff.mp hf
        rintro d hd
        obtain rfl | hd := List.mem_cons.mp hd
        · exact hsome' (Option.isSome_iff_exists.mpr ⟨w, hw⟩)
        · exact hsome (Option.isSome_iff_exists.mpr ⟨fs, hfs⟩) d hd
      · intro hreadable
        obtain ⟨w, hw, hreread⟩ := hread' (hreadable e List.mem_cons_self)
        obtain ⟨fs, hfs, hrest⟩ := hread fun d hd => hreadable d (List.mem_cons_of_mem e hd)
        refine ⟨(e.1, w) :: fs, ?_, .cons ⟨rfl, hreread⟩ hrest⟩
        simp [List.mapM_cons, hw, hfs]

/-- A store is read back from its snapshot precisely if all its doubles are finite, and then with
the same keys in the same order: doubles may have moved by a few places, unless they are short
numbers, and the other values are the same. -/
theorem ofJsonText?_toJson_doubles (s : Store) :
  ((ofJsonText? s.toJson).isSome = true
      ↔ ∀ k x, (k, Value.double x) ∈ s.entries → x.isFinite = true)
    ∧ ∀ t, ofJsonText? s.toJson = some t → List.Forall₂ RereadEntry s.entries t.entries
  := by
  obtain ⟨ms, hwrites, hsome, hread⟩ := exists_reread s.entries
  have htext : Json.read? s.toJson = some (.object (ms.map fun m => (some m.1, m.2))) :=
    (Json.writes_object hwrites).read?
  have hobject : (Json.object (ms.map fun m => (some m.1, m.2))).asObject = some ms := by
    apply mapM_of_forall₂
    rw [List.forall₂_map_left_iff, List.forall₂_same]
    exact fun m _ => rfl
  have hstore : ofJsonText? s.toJson
      = (ms.mapM fun m => (Value.ofJson? m.2).map fun v => (m.1, v)).map ofList := by
    rw [ofJsonText?, htext, Option.bind_some, ofJson?, hobject, Option.bind_some]
  have hreadable : (∀ e ∈ s.entries, e.2.IsReadable)
      ↔ ∀ k x, (k, Value.double x) ∈ s.entries → x.isFinite = true := by
    constructor
    · exact fun h k x hmem => h _ hmem
    · rintro h ⟨k, v⟩ hmem
      cases v with
      | double x => exact h k x hmem
      | _ => trivial
  rw [hstore, Option.isSome_map, ← hreadable]
  refine ⟨⟨hsome, ?_⟩, ?_⟩
  · intro h
    obtain ⟨fs, hfs, -⟩ := hread h
    exact Option.isSome_iff_exists.mpr ⟨fs, hfs⟩
  · intro t ht
    obtain ⟨gs, hgs, rfl⟩ := Option.map_eq_some_iff.mp ht
    obtain ⟨fs, hfs, hreread⟩ := hread (hsome (Option.isSome_iff_exists.mpr ⟨gs, hgs⟩))
    obtain rfl : gs = fs := Option.some.inj (hgs.symm.trans hfs)
    have hentries : (ofList gs).entries = gs :=
      Assoc.overlay_eq_append ((keys_of_reread hreread).symm ▸ s.nodup)
    rwa [hentries]

/-- A snapshot of infinity is refused, and one of the integer `8000000000000020` is read as
`8000000000000019`. -/
theorem ofJsonText?_toJson_not_lossless :
  ofJsonText? (ofList [("x", .double (.infinity false))]).toJson = none
    ∧ (ofJsonText? (ofList [("x", .double (.ofInt 8000000000000020))]).toJson).map entries
      = some [("x", .double (.ofInt 8000000000000019))]
    ∧ (Binary64.ofInt 8000000000000020).truncate = 8000000000000020
    ∧ (Binary64.ofInt 8000000000000019).truncate = 8000000000000019
  := by
  decide +kernel

/-- Doubles of prices, the least positive one, and a zero with a sign. -/
def prices : Store :=
  ofList [("net", .double (.ofRatio false 1999 100)), ("least", .double (.ofMagnitude false 1)),
    ("debt", .double (.ofMagnitude true 0)), ("name", .text "pear")]

theorem ofJsonText?_toJson_prices :
  ∃ t, ofJsonText? prices.toJson = some t ∧ List.Forall₂ RereadEntry prices.entries t.entries
  := by
  have hfinite : prices.entries.all (fun e =>
      match e.2 with
      | .double x => x.isFinite
      | _ => true) = true := by
    decide
  obtain ⟨hiff, hreread⟩ := ofJsonText?_toJson_doubles prices
  have hsome := hiff.mpr fun k x hmem => List.all_eq_true.mp hfinite (k, .double x) hmem
  obtain ⟨t, ht⟩ := Option.isSome_iff_exists.mp hsome
  exact ⟨t, ht, hreread t ht⟩

end Store

end TypedSql
