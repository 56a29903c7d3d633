import TypedSql.Proofs.Record.Fitting

/-!
# Casting what is found

Columns are set or read together by looking up a value for each column that is listed and casting
what is found to the kind of the column.  All of it succeeds when every value that is found casts
(`Model.exists_castEach_iff`), and otherwise it fails with the error of the first one that does not
(`Model.castEach_eq_error_iff`).  Reading stages exactly the values that setting would record
(`Model.stageEach_eq`).
-/

namespace TypedSql

namespace Value

variable {k : Kind} {v : Value} {e : CoercionError}

theorem of_map_eq_error {α β : Type} {f : α → β} {x : Except CoercionError α}
    (hx : ∀ e, x = .error e → e.value = v ∧ e.target = k) (h : x.map f = .error e) :
  e.value = v ∧ e.target = k
  := by
  cases x with
  | error d =>
      cases h
      exact hx e rfl
  | ok a => cases h

theorem of_toInteger_eq_error (h : v.toInteger = .error e) :
  e.value = v ∧ e.target = .integer
  := by
  cases v with
  | text s =>
      rw [toInteger] at h
      split at h <;> cases h
      exact ⟨rfl, rfl⟩
  | blob b =>
      cases h
      exact ⟨rfl, rfl⟩
  | _ => cases h

theorem of_toLong_eq_error (h : v.toLong = .error e) :
  e.value = v ∧ e.target = .long
  := by
  cases v with
  | text s =>
      rw [toLong] at h
      split at h <;> cases h
      exact ⟨rfl, rfl⟩
  | blob b =>
      cases h
      exact ⟨rfl, rfl⟩
  | _ => cases h

theorem of_toDouble_eq_error (h : v.toDouble = .error e) :
  e.value = v ∧ e.target = .double
  := by
  cases v with
  | text s =>
      rw [toDouble] at h
      split at h <;> cases h
      exact ⟨rfl, rfl⟩
  | blob b =>
      cases h
      exact ⟨rfl, rfl⟩
  | _ => cases h

theorem of_toBoolean_eq_error (h : v.toBoolean = .error e) :
  e.value = v ∧ e.target = .boolean
  := by
  cases v with
  | text | blob =>
      cases h
      exact ⟨rfl, rfl⟩
  | _ => cases h

theorem of_toBlob_eq_error (h : v.toBlob = .error e) :
  e.value = v ∧ e.target = .blob
  := by
  cases v with
  | null | blob => cases h
  | _ =>
      cases h
      exact ⟨rfl, rfl⟩

/-- The error of a cast tells of the value that does not cast, and of the kind. -/
theorem of_cast_eq_error (h : v.cast k = .error e) :
  e.value = v ∧ e.target = k
  := by
  cases k with
  | integer => exact of_map_eq_error (fun _ => of_toInteger_eq_error) h
  | long => exact of_map_eq_error (fun _ => of_toLong_eq_error) h
  | double => exact of_map_eq_error (fun _ => of_toDouble_eq_error) h
  | text => cases h
  | boolean => exact of_map_eq_error (fun _ => of_toBoolean_eq_error) h
  | blob => exact of_map_eq_error (fun _ => of_toBlob_eq_error) h

end Value

namespace Record

open Sql (Column)

/-! ### What is found -/

/-- The values that are found for the listed columns. -/
def found (find : Column → Option Value) (cs : List Column) : List (Column × Value) :=
  cs.filterMap fun c => (find c).map fun v => (c, v)

/-- A value that is found, cast to the kind of its column. -/
def castEntry (e : Column × Value) : Except CoercionError (Column × Value) :=
  (e.1.cast e.2).map fun w => (e.1, w)

variable {find : Column → Option Value} {cs : List Column} {c : Column}

theorem found_cons_of_none (h : find c = none) :
  found find (c :: cs) = found find cs
  := by
  simp [found, h]

theorem found_cons_of_some {v : Value} (h : find c = some v) :
  found find (c :: cs) = (c, v) :: found find cs
  := by
  simp [found, h]

theorem mem_found_iff {e : Column × Value} :
  e ∈ found find cs ↔ e.1 ∈ cs ∧ find e.1 = some e.2
  := by
  rw [found, List.mem_filterMap]
  constructor
  · rintro ⟨c, hc, he⟩
    obtain ⟨v, hv, rfl⟩ := Option.map_eq_some_iff.mp he
    exact ⟨hc, hv⟩
  · rintro ⟨hc, hv⟩
    exact ⟨e.1, hc, by rw [hv]; rfl⟩

/-- An error is the first refusal among the listed columns: a value is found for some column and
does not cast, with this error, and every value that is found for a column before it casts. -/
def FirstRefusal (find : Column → Option Value) (cs : List Column) (e : CoercionError) : Prop :=
  ∃ before c after v, cs = before ++ c :: after ∧ find c = some v ∧ c.cast v = .error e
    ∧ ∀ d ∈ before, ∀ w, find d = some w → ∃ x, d.cast w = .ok x

theorem firstRefusal_cons_iff {e : CoercionError} :
  FirstRefusal find (c :: cs) e
    ↔ (∃ v, find c = some v ∧ c.cast v = .error e)
      ∨ (∀ v, find c = some v → ∃ w, c.cast v = .ok w) ∧ FirstRefusal find cs e
  := by
  constructor
  · rintro ⟨before, d, after, v, hcs, hv, herror, hbefore⟩
    cases before with
    | nil =>
        obtain ⟨rfl, rfl⟩ := List.cons.inj hcs
        exact .inl ⟨v, hv, herror⟩
    | cons b before =>
        obtain ⟨rfl, rfl⟩ := List.cons.inj hcs
        rw [List.forall_mem_cons] at hbefore
        exact .inr ⟨hbefore.1, before, d, after, v, rfl, hv, herror, hbefore.2⟩
  · rintro (⟨v, hv, herror⟩ | ⟨hc, before, d, after, v, rfl, hv, herror, hbefore⟩)
    · exact ⟨[], c, cs, v, rfl, hv, herror, fun d hd => absurd hd List.not_mem_nil⟩
    · exact ⟨c :: before, d, after, v, rfl, hv, herror, List.forall_mem_cons.mpr ⟨hc, hbefore⟩⟩

namespace Model

variable {spec : Spec} {vs : List (Column × Value)}

theorem castEach_cons_of_none (h : find c = none) :
  castEach find (c :: cs) = castEach find cs
  := by
  rw [castEach, h]

theorem castEach_cons_of_some {v : Value} (h : find c = some v) :
  castEach find (c :: cs)
    = (c.cast v).bind fun w => (castEach find cs).map fun vs => (c, w) :: vs
  := by
  rw [castEach, h]
  dsimp only
  cases c.cast v with
  | error e => rfl
  | ok w => cases castEach find cs <;> rfl

/-- What is found is cast value by value. -/
theorem castEach_eq_mapM (find : Column → Option Value) (cs : List Column) :
  castEach find cs = (found find cs).mapM castEntry
  := by
  induction cs with
  | nil => rfl
  | cons c cs ih =>
      cases hfind : find c with
      | none => rw [castEach_cons_of_none hfind, found_cons_of_none hfind, ih]
      | some v =>
          rw [castEach_cons_of_some hfind, found_cons_of_some hfind, List.mapM_cons, ih, castEntry]
          cases c.cast v with
          | error e => rfl
          | ok w => cases (found find cs).mapM castEntry <;> rfl

/-- What is found is cast when every value of it casts. -/
theorem exists_castEach_iff :
  (∃ vs, castEach find cs = .ok vs) ↔ ∀ e ∈ found find cs, ∃ w, e.1.cast e.2 = .ok w
  := by
  induction cs with
  | nil => simp [castEach, found]
  | cons c cs ih =>
      cases hfind : find c with
      | none => rw [castEach_cons_of_none hfind, found_cons_of_none hfind, ih]
      | some v =>
          rw [castEach_cons_of_some hfind, found_cons_of_some hfind, List.forall_mem_cons, ← ih]
          cases c.cast v with
          | error e => simp [Except.bind]
          | ok w => cases castEach find cs <;> simp [Except.bind, Except.map]

/-- What is found is refused with the error of the first value that does not cast. -/
theorem castEach_eq_error_iff {e : CoercionError} :
  castEach find cs = .error e ↔ FirstRefusal find cs e
  := by
  induction cs with
  | nil => simp [castEach, FirstRefusal]
  | cons c cs ih =>
      rw [firstRefusal_cons_iff, ← ih]
      cases hfind : find c with
      | none => simp [castEach_cons_of_none hfind]
      | some v =>
          rw [castEach_cons_of_some hfind]
          cases hcast : c.cast v with
          | error e => simp [Except.bind, hcast]
          | ok w => cases castEach find cs <;> simp [Except.bind, Except.map, hcast]

theorem mem_of_castEach {v w : Value} (h : castEach find cs = .ok vs) (hc : c ∈ cs)
    (hfind : find c = some v) (hcast : c.cast v = .ok w) :
  (c, w) ∈ vs
  := by
  induction cs generalizing vs with
  | nil => cases hc
  | cons d cs ih =>
      cases hd : find d with
      | none =>
          rw [castEach_cons_of_none hd] at h
          obtain rfl | hc := List.mem_cons.mp hc
          · rw [hd] at hfind
            cases hfind
          · exact ih h hc
      | some u =>
          rw [castEach_cons_of_some hd] at h
          obtain ⟨x, hx, h⟩ := exists_of_bind_eq_ok h
          obtain ⟨r, hr, rfl⟩ := exists_of_map_eq_ok h
          obtain rfl | hc := List.mem_cons.mp hc
          · obtain rfl := Option.some.inj (hd.symm.trans hfind)
            obtain rfl := Except.ok.inj (hx.symm.trans hcast)
            exact List.mem_cons_self
          · exact List.mem_cons_of_mem _ (ih hr hc)

theorem sublist_of_castEach (h : castEach find cs = .ok vs) :
  (vs.map Prod.fst).Sublist cs
  := by
  induction cs generalizing vs with
  | nil =>
      cases h
      exact List.Sublist.refl []
  | cons c cs ih =>
      cases hfind : find c with
      | none =>
          rw [castEach_cons_of_none hfind] at h
          exact (ih h).cons c
      | some v =>
          rw [castEach_cons_of_some hfind] at h
          obtain ⟨w, -, h⟩ := exists_of_bind_eq_ok h
          obtain ⟨r, hr, rfl⟩ := exists_of_map_eq_ok h
          exact (ih hr).cons_cons c

end Model

/-! ### What is staged -/

/-- What is staged, with a value put in at a place. -/
def Model.Staged.put (s : Staged) : Place → Value → Staged
  | .native expression, v => { s with native := s.native.put expression v }
  | .foreign name, v => { s with foreign := s.foreign.put name v }

/-- What is staged, with the values of columns put in at their places. -/
def Model.Staged.putEach (spec : Spec) (s : Staged) (vs : List (Column × Value)) : Staged :=
  vs.foldl (fun s e => s.put (place spec.owner e.1) e.2) s

namespace Model

variable {spec : Spec}

theorem stage_eq (s : Staged) (c : Column) (v : Value) :
  stage spec s c v = (c.cast v).map (s.put (place spec.owner c))
  := by
  rw [stage, place]
  split
  · rw [save_eq]
    cases c.cast v <;> rfl
  · rw [save_eq]
    cases c.cast v <;> rfl

/-- Reading stages the values that are found, cast as for setting them. -/
theorem stageEach_eq (s : Staged) :
  stageEach spec find cs s = (castEach find cs).map (s.putEach spec)
  := by
  induction cs generalizing s with
  | nil => rfl
  | cons c cs ih =>
      cases hfind : find c with
      | none =>
          rw [castEach_cons_of_none hfind, stageEach, hfind]
          exact ih s
      | some v =>
          simp only [castEach_cons_of_some hfind, stageEach, hfind, stage_eq]
          cases c.cast v with
          | error e => rfl
          | ok w =>
              apply (ih _).trans
              cases castEach find cs <;> rfl

end Model

end Record

end TypedSql
