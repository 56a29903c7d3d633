import TypedSql.Proofs.Record.Cell

/-!
# Reading rows

What reading leaves at each place of a row.  The values that are found for columns of distinct
places are staged each at its place, and nothing is staged elsewhere (`Model.exists_staged`).
Reading every column of a row then leaves what is staged and nothing else, and reading the listed
columns leaves it over what was there before; in both cases what was set or attached is gone.
-/

namespace TypedSql.Record

open Sql (Column TableId)

/-! ### What a row has -/

/-- Handles that are the same have one place. -/
theorem place_eq_of_beq (owner : TableId) {c d : Column} (h : (c == d) = true) :
  place owner c = place owner d
  := by
  have hidentity : c.identity = d.identity := eq_of_beq h
  obtain ⟨kind, table, expression, alias?⟩ := c
  obtain ⟨kind', table', expression', alias?'⟩ := d
  cases hidentity
  rfl

/-- Where the handles of a row have distinct places, each of them has its own value. -/
theorem Row.get?_of_mem {owner : TableId} {r : Row} (h : (r.columns.map (place owner)).Nodup)
    {e : Column × Value} (he : e ∈ r.entries) :
  r.get? e.1 = some e.2
  := by
  obtain ⟨entries⟩ := r
  rw [Row.get?]
  dsimp only [Row.columns] at h he ⊢
  induction entries with
  | nil => cases he
  | cons b entries ih =>
      rw [List.map_cons, List.map_cons, List.nodup_cons] at h
      rw [Assoc.get?]
      obtain rfl | he := List.mem_cons.mp he
      · have hself : (e.1 == e.1) = true := beq_self_eq_true e.1.identity
        rw [if_pos hself]
      · have hne : ¬ (b.1 == e.1) = true := by
          intro hbeq
          apply h.1
          rw [place_eq_of_beq owner hbeq]
          exact List.mem_map_of_mem (List.mem_map_of_mem he)
        rw [if_neg hne]
        exact ih h.2 he

theorem Row.findFrom_source (r : Row) :
  Model.findFrom r.source = r.get?
  := by
  funext c
  cases h : r.get? c <;> simp [Model.findFrom, source, has, h]

namespace Model

variable {spec : Spec} {find : Column → Option Value} {cs : List Column} {p q : Place}
  {vs : List (Column × Value)}

/-! ### What is staged at a place -/

/-- The value that is staged at a place. -/
def Staged.at? (s : Staged) : Place → Option Value
  | .native expression => s.native.get? expression
  | .foreign name => s.foreign.get? name

theorem Staged.at?_put_self (s : Staged) (p : Place) (v : Value) :
  (s.put p v).at? p = some v
  := by
  cases p <;> simp only [put, at?, Store.get?_put, if_true]

theorem Staged.at?_put_of_ne (s : Staged) (h : p ≠ q) (v : Value) :
  (s.put q v).at? p = s.at? p
  := by
  cases p <;> cases q <;> simp_all [put, at?, Store.get?_put]

theorem Staged.at?_putEach_of_forall_ne (s : Staged)
    (h : ∀ e ∈ vs, p ≠ place spec.owner e.1) :
  (s.putEach spec vs).at? p = s.at? p
  := by
  induction vs generalizing s with
  | nil => rfl
  | cons e vs ih =>
      rw [List.forall_mem_cons] at h
      rw [putEach, List.foldl_cons]
      exact (ih _ h.2).trans (s.at?_put_of_ne h.1 e.2)

/-- No later column has the place of a value that is put in, so that it stays there. -/
theorem Staged.at?_putEach_of_mem (s : Staged)
    (hplaces : (vs.map fun e => place spec.owner e.1).Nodup) {e : Column × Value} (he : e ∈ vs) :
  (s.putEach spec vs).at? (place spec.owner e.1) = some e.2
  := by
  induction vs generalizing s with
  | nil => cases he
  | cons b vs ih =>
      rw [List.map_cons, List.nodup_cons] at hplaces
      rw [putEach, List.foldl_cons]
      obtain rfl | he := List.mem_cons.mp he
      · have hlater : ∀ d ∈ vs, place spec.owner e.1 ≠ place spec.owner d.1 := by
          intro d hd heq
          apply hplaces.1
          rw [heq]
          exact List.mem_map_of_mem hd
        exact (at?_putEach_of_forall_ne _ hlater).trans (s.at?_put_self _ e.2)
      · exact ih _ hplaces.2 he

/-- Where the listed columns have distinct places and what is found for them casts, each value that
is found is staged at the place of its column, and nothing is staged elsewhere. -/
theorem exists_staged (hplaces : (cs.map (place spec.owner)).Nodup)
    (hcasts : ∀ c ∈ cs, ∀ v, find c = some v → ∃ w, c.cast v = .ok w) :
  ∃ s, stageEach spec find cs {} = .ok s
    ∧ (∀ c ∈ cs, ∀ v, find c = some v →
      ∃ w, c.cast v = .ok w ∧ s.at? (place spec.owner c) = some w)
    ∧ ∀ p, (∀ c ∈ cs, (find c).isSome = true → p ≠ place spec.owner c) → s.at? p = none
  := by
  have hfound : ∀ e ∈ found find cs, ∃ w, e.1.cast e.2 = .ok w := by
    intro e he
    obtain ⟨hc, hv⟩ := mem_found_iff.mp he
    exact hcasts e.1 hc e.2 hv
  obtain ⟨vs, hvs⟩ := exists_castEach_iff.mpr hfound
  have hdistinct : (vs.map fun e => place spec.owner e.1).Nodup := by
    have hsublist := (sublist_of_castEach hvs).map (place spec.owner)
    rw [List.map_map] at hsublist
    exact hsublist.nodup hplaces
  refine ⟨Staged.putEach spec {} vs, ?_, ?_, ?_⟩
  · rw [stageEach_eq, hvs]
    rfl
  · intro c hc v hv
    obtain ⟨w, hw⟩ := hcasts c hc v hv
    exact ⟨w, hw, Staged.at?_putEach_of_mem {} hdistinct (mem_of_castEach hvs hc hv hw)⟩
  · intro p hp
    have hne : ∀ e ∈ vs, p ≠ place spec.owner e.1 := by
      intro e he
      obtain ⟨hc, v, hv, -⟩ := cast_of_mem_castEach hvs e he
      exact hp e.1 hc (by rw [hv]; rfl)
    rw [Staged.at?_putEach_of_forall_ne {} hne]
    cases p <;> rfl

/-! ### What is left after reading -/

theorem cell_replaceBy (s : Staged) (p : Place) :
  (replaceBy s).cell p = ⟨none, s.at? p⟩
  := by
  cases p <;> rfl

theorem cell_mergeIn (m : Model) (s : Staged) (p : Place) :
  (m.mergeIn s).cell p = ⟨none, (s.at? p).or (m.cell p).stored⟩
  := by
  cases p with
  | native expression =>
      rw [cell, cell, mergeIn, ← get?_getD_empty m.database, Staged.at?]
      exact congrArg (Cell.mk none) (Store.get?_overlay _ _ _)
  | foreign name =>
      rw [cell, cell, mergeIn, ← get?_getD_empty m.foreign, Staged.at?]
      exact congrArg (Cell.mk none) (Store.get?_overlay _ _ _)

/-- A row in which nothing has been set since it was read or saved, and to which nothing is
attached. -/
structure Settled (spec : Spec) (m : Model) : Prop where
  isDirty (c : Column) : m.isDirty spec c = false
  isModified : m.isModified = false
  transitory (key : String) : m.transitory? key = none

theorem settled_of_layers {m : Model} (hpending : m.pending = none)
    (htransitory : m.transitory = none) :
  m.Settled spec
  := by
  constructor
  · intro c
    rw [Model.isDirty, hpending]
    exact Bool.and_false _
  · rw [Model.isModified, hpending]
  · intro key
    rw [transitory?, htransitory]
    rfl

/-- What is read for a column is its value. -/
theorem tryGet_of_cast {m : Model} {c : Column} {v w : Value} (hcast : c.cast v = .ok w)
    (h : m.cell (place spec.owner c) = ⟨none, some w⟩) :
  m.tryGet spec c = .ok (some w)
  := by
  apply tryGet_of_value? _ (Value.fits_of_cast hcast)
  rw [h]
  rfl

/-- Reading every column of a row, where the handles of the row have distinct places and its values
cast, leaves the row's values and no others.  Reading listed columns of distinct places leaves the
row's values for those of them that the row has, and at every other place what was there before in
the database, or was read or set for a column of another table, over the default.  Either way
nothing that was set or attached before is left. -/
theorem read_replaces_or_merges (spec : Spec) (m : Model) (r : Row) :
  ((r.columns.map (place spec.owner)).Nodup → (∀ e ∈ r.entries, ∃ w, e.1.cast e.2 = .ok w) →
      ∃ m', (Reading.whole r.source).apply spec m = .ok m'
        ∧ (∀ e ∈ r.entries, ∃ w, e.1.cast e.2 = .ok w ∧ m'.tryGet spec e.1 = .ok (some w))
        ∧ (∀ d, (∀ c ∈ r.columns, place spec.owner d ≠ place spec.owner c) →
          m'.containsValue spec d = false)
        ∧ m'.Settled spec)
    ∧ ∀ cs, (cs.map (place spec.owner)).Nodup →
      (∀ c ∈ cs, ∀ v, r.get? c = some v → ∃ w, c.cast v = .ok w) →
      ∃ m', (Reading.source r.source cs).apply spec m = .ok m'
        ∧ (∀ c ∈ cs, ∀ v, r.get? c = some v →
          ∃ w, c.cast v = .ok w ∧ m'.tryGet spec c = .ok (some w))
        ∧ (∀ d, (∀ c ∈ cs, r.has c = true → place spec.owner d ≠ place spec.owner c) →
          m'.tryGet spec d
            = castOption d ((m.cell (place spec.owner d)).stored.or
                (spec.defaultAt (place spec.owner d))))
        ∧ m'.Settled spec
  := by
  constructor
  · intro hplaces hentries
    have hvalue : ∀ c ∈ r.columns, ∀ v, r.get? c = some v → (c, v) ∈ r.entries := by
      intro c hc v hv
      obtain ⟨e, he, rfl⟩ := List.mem_map.mp hc
      obtain rfl := Option.some.inj ((Row.get?_of_mem hplaces he).symm.trans hv)
      exact he
    obtain ⟨s, hs, hread, hrest⟩ := exists_staged hplaces
      fun c hc v hv => hentries _ (hvalue c hc v hv)
    refine ⟨replaceBy s, ?_, ?_, ?_, settled_of_layers rfl rfl⟩
    · rw [Reading.apply, readAllFromSource, r.findFrom_source]
      exact congrArg (Except.map replaceBy) hs
    · intro e he
      obtain ⟨w, hw, hat⟩ := hread e.1 (List.mem_map_of_mem he) e.2 (Row.get?_of_mem hplaces he)
      exact ⟨w, hw, tryGet_of_cast hw (by rw [cell_replaceBy, hat])⟩
    · intro d hd
      rw [containsValue_eq_cell, cell_replaceBy, hrest _ fun c hc _ => hd c hc]
      rfl
  · intro cs hplaces hcasts
    obtain ⟨s, hs, hread, hrest⟩ := exists_staged hplaces hcasts
    refine ⟨m.mergeIn s, ?_, ?_, ?_, settled_of_layers rfl rfl⟩
    · rw [Reading.apply, readFromSource, r.findFrom_source, hs]
      rfl
    · intro c hc v hv
      obtain ⟨w, hw, hat⟩ := hread c hc v hv
      exact ⟨w, hw, tryGet_of_cast hw (by rw [cell_mergeIn, hat, Option.some_or])⟩
    · intro d hd
      rw [tryGet_eq_cell, cell_mergeIn, hrest _ hd, Option.none_or, Cell.value?, Option.none_or]

/-- The title of books. -/
def title : Column :=
  { kind := .text, table := some ⟨"Book", "books"⟩, expression := "title" }

/-- The number of pages of books. -/
def pages : Column :=
  { kind := .integer, table := some ⟨"Book", "books"⟩, expression := "pages" }

/-- The title of the series of a book, under the name of the column for its own title. -/
def series : Column :=
  { kind := .text, table := some ⟨"Series", "series"⟩, expression := "title", alias? := "title" }

/-- Books, which have a hundred pages where nothing else is known. -/
def books : Spec :=
  ⟨"Book", { model := "Book", name := "books" }, [title, pages],
    Store.empty.put "pages" (.integer 100)⟩

/-- A book whose pages are being changed, and to which something is attached. -/
def draft : Model where
  pending := some (Store.empty.put "pages" (.integer 300))
  database := some (Store.empty.put "pages" (.integer 200))
  foreign := some (Store.empty.put "title" (.text "old"))
  transitory := some [("reviewer", .text "me")]

/-- A row with two titles and without pages. -/
def titles : Row :=
  ⟨[(title, .text "new"), (series, .null)]⟩

/-- When every column of the row is read, no pages are left but the default; when the title of the
series and the pages are read, the pages are those that were in the database. -/
theorem read_replaces_or_merges_titles :
  ∃ a b, (Reading.whole titles.source).apply books draft = .ok a
    ∧ (Reading.source titles.source [series, pages]).apply books draft = .ok b
    ∧ a.tryGet books title = .ok (some (.text "new"))
    ∧ a.containsValue books pages = false
    ∧ b.tryGet books series = .ok (some .null)
    ∧ b.tryGet books pages = .ok (some (.integer 200))
    ∧ a.Settled books ∧ b.Settled books
  := by
  have htitles : place books.owner title ≠ place books.owner series := nofun
  have hpages : place books.owner pages ≠ place books.owner title :=
    fun h => absurd (Place.native.inj h) (by decide)
  have hother : place books.owner pages ≠ place books.owner series := nofun
  have hentries : ∀ e ∈ titles.entries, ∃ w, e.1.cast e.2 = .ok w := by
    intro e he
    obtain rfl | rfl : e = (title, .text "new") ∨ e = (series, .null) := by
      simpa [titles] using he
    · exact ⟨.text "new", rfl⟩
    · exact ⟨.null, rfl⟩
  have hcasts : ∀ c ∈ [series, pages], ∀ v, titles.get? c = some v →
      ∃ w, c.cast v = .ok w := by
    intro c hc v hv
    obtain rfl | rfl : c = series ∨ c = pages := by simpa using hc
    · cases hv
      exact ⟨.null, rfl⟩
    · cases hv
  obtain ⟨hwhole, hlisted⟩ := read_replaces_or_merges books draft titles
  obtain ⟨a, ha, hread, hrest, hsettled⟩ :=
    hwhole (by simp [titles, Row.columns, htitles]) hentries
  obtain ⟨b, hb, hread', hrest', hsettled'⟩ :=
    hlisted [series, pages] (by simp [hother.symm]) hcasts
  refine ⟨a, b, ha, hb, ?_, ?_, ?_, ?_, hsettled, hsettled'⟩
  · obtain ⟨w, hw, htitle⟩ := hread (title, .text "new") List.mem_cons_self
    cases hw
    exact htitle
  · apply hrest pages
    intro c hc
    obtain rfl | rfl : c = title ∨ c = series := by simpa [titles, Row.columns] using hc
    · exact hpages
    · exact hother
  · obtain ⟨w, hw, hseries⟩ := hread' series List.mem_cons_self .null rfl
    cases hw
    exact hseries
  · apply hrest' pages
    intro c hc hhas
    obtain rfl | rfl : c = series ∨ c = pages := by simpa using hc
    · exact hother
    · cases hhas

end Model

end TypedSql.Record
