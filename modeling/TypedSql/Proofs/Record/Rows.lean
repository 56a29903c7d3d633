import TypedSql.Record.SplitRow

/-!
# Rows as associations

A row associates columns with values.  Whatever has been put in, its columns are the handles that
came first for what they name, in the order in which they came, and each has the value that was put
in last under a handle that is the same (`Row.Associates`).

Kept in two lists, columns and values stay in step, so that the index of a column is one of a value
and nothing that is put in or looked up ever fails (`SplitRow.putEach_associates`).
-/

namespace TypedSql

/-! ### First occurrences -/

/-- What has occurred is gathered in reverse, in front of what there is already. -/
theorem eraseDupsBy_loop_concat {α : Type} (same : α → α → Bool) (as bs : List α) (a : α) :
  List.eraseDupsBy.loop same (as ++ [a]) bs =
    if (List.eraseDupsBy.loop same as bs).any (same a) then List.eraseDupsBy.loop same as bs
    else List.eraseDupsBy.loop same as bs ++ [a]
  := by
  induction as generalizing bs with
  | nil => cases h : bs.any (same a) <;> simp [List.eraseDupsBy.loop, h]
  | cons b as ih =>
      rw [List.cons_append, List.eraseDupsBy.loop, List.eraseDupsBy.loop]
      cases bs.any (same b) <;> exact ih _

/-- One more element at the end is one more first occurrence, unless it has occurred. -/
theorem eraseDups_concat {α : Type} [BEq α] (as : List α) (a : α) :
  (as ++ [a]).eraseDups = if as.eraseDups.any (a == ·) then as.eraseDups else as.eraseDups ++ [a]
  :=
  eraseDupsBy_loop_concat (· == ·) as [] a

namespace Record

open Sql (Column)

variable {puts : List (Column × Value)} {r : Row}

/-! ### What a row associates -/

namespace Row

/-- What has been put in, from the first on, is in the row: no two columns are the same, the columns
are the first handles of those that are the same, in the order in which they came, and each has the
value that came last for it. -/
structure Associates (puts : List (Column × Value)) (r : Row) : Prop where
  distinct : r.columns.Pairwise fun c d => (c == d) = false
  columns_eq : r.columns = (puts.map Prod.fst).eraseDups
  get?_eq (c : Column) : r.get? c = (puts.filter fun e => e.1 == c).getLast?.map Prod.snd

theorem associates_empty :
  Associates [] empty
  := ⟨.nil, rfl, fun _ => rfl⟩

theorem columns_put (r : Row) (c : Column) (v : Value) :
  (r.put c v).columns = if r.columns.any (· == c) then r.columns else r.columns ++ [c]
  :=
  Assoc.keys_put_eq_ite c v r.entries

theorem get?_put (r : Row) (c d : Column) (v : Value) :
  (r.put c v).get? d = if c == d then some v else r.get? d
  :=
  Assoc.get?_put_eq_ite c d v r.entries

/-- One more column and value are in the row after they have been put in. -/
theorem Associates.put (h : Associates puts r) (c : Column) (v : Value) :
  Associates (puts ++ [(c, v)]) (r.put c v)
  := by
  constructor
  · rw [columns_put]
    split
    · exact h.distinct
    · rename_i hc
      have hnew : ∀ d ∈ r.columns, (d == c) = false := by simpa using hc
      rw [List.pairwise_append]
      refine ⟨h.distinct, List.pairwise_singleton _ _, fun d hd e he => ?_⟩
      rw [List.mem_singleton.mp he]
      exact hnew d hd
  · have hsame : r.columns.any (c == ·) = r.columns.any (· == c) := by simp only [BEq.comm]
    rw [columns_put, List.map_append, List.map_singleton, eraseDups_concat, ← h.columns_eq, hsame]
  · intro d
    rw [get?_put, List.filter_append, h.get?_eq]
    by_cases hd : (c == d) = true <;> simp [hd]

/-- Whatever is put in one after the other is in the row after that. -/
theorem Associates.putEach (h : Associates puts r) (es : List (Column × Value)) :
  Associates (puts ++ es) (es.foldl (fun r e => r.put e.1 e.2) r)
  := by
  induction es generalizing puts r with
  | nil =>
      rw [List.append_nil]
      exact h
  | cons e es ih =>
      have hrest := ih (h.put e.1 e.2)
      rw [List.append_assoc] at hrest
      exact hrest

theorem associates_ofList (puts : List (Column × Value)) :
  Associates puts (ofList puts)
  :=
  associates_empty.putEach puts

/-- A row has the columns that have been put in. -/
theorem Associates.has_iff (h : Associates puts r) (c : Column) :
  r.has c = true ↔ ∃ e ∈ puts, (e.1 == c) = true
  := by
  rw [has, h.get?_eq, Option.isSome_map, List.getLast?_isSome, ne_eq, List.filter_eq_nil_iff]
  simp

/-! ### Two lists -/

/-- The columns of a row and their values, in two lists. -/
def split (r : Row) : SplitRow :=
  ⟨r.entries.map Prod.fst, r.entries.map Prod.snd⟩

end Row

namespace SplitRow

/-- The index of a column of a row is one of a value. -/
theorem index?_split_lt (r : Row) {c : Column} {i : Nat} (h : r.split.index? c = some i) :
  i < r.split.values.length
  := by
  obtain ⟨hi, -⟩ := List.findIdx?_eq_some_iff_findIdx_eq.mp h
  simpa [Row.split] using hi

/-- What is put into the two lists of a row is put into the row. -/
theorem put_split (r : Row) (c : Column) (v : Value) :
  r.split.put c v = some (r.put c v).split
  := by
  obtain ⟨hcolumns, hvalues⟩ := Prod.ext_iff.mp (Assoc.unzip_put c v r.entries)
  have hrow : (r.put c v).split = ⟨_, _⟩ :=
    congr (congrArg SplitRow.mk hcolumns) hvalues
  rw [hrow, put]
  cases hi : r.split.index? c with
  | none =>
      have hindex : (r.entries.map Prod.fst).findIdx? (· == c) = none := hi
      rw [hindex]
      rfl
  | some i =>
      have hindex : (r.entries.map Prod.fst).findIdx? (· == c) = some i := hi
      simp only [hindex, replaceAt?, if_pos (index?_split_lt r hi)]
      rfl

theorem putEach_split (r : Row) (es : List (Column × Value)) :
  r.split.putEach es = some (es.foldl (fun r e => r.put e.1 e.2) r).split
  := by
  induction es generalizing r with
  | nil => rfl
  | cons e es ih =>
      rw [putEach, List.foldlM_cons, put_split]
      exact ih (r.put e.1 e.2)

/-- A row has a value for a column where its lists have one at the index of the column. -/
theorem get?_eq_bind_index? (r : Row) (c : Column) :
  r.get? c = (r.split.index? c).bind (r.split.values[·]?)
  :=
  Assoc.get?_eq_bind_findIdx? c r.entries

theorem get_split (r : Row) (c : Column) :
  r.split.get c = some (r.get? c)
  := by
  rw [get, get?_eq_bind_index?]
  cases hi : r.split.index? c with
  | none => rfl
  | some i =>
      have hvalue := List.getElem?_eq_getElem (index?_split_lt r hi)
      simp only [Option.bind_some, hvalue, Option.bind_eq_bind, Option.pure_def]

theorem has_split (r : Row) (c : Column) :
  r.split.has c = r.has c
  := by
  rw [has, Row.has, get?_eq_bind_index?]
  cases hi : r.split.index? c with
  | none => rfl
  | some i =>
      have hvalue := List.getElem?_eq_getElem (index?_split_lt r hi)
      simp only [Option.bind_some, hvalue, Option.isSome_some]

/-- Rows are well-formed associations.

Columns and values that are put in one after the other are kept in two lists of one length, so that
the index of a column is one of a value, and neither putting in nor looking up ever fails.  The
columns are pairwise of different tables, expressions or aliases, whatever their kinds: they are
the first handles of those that are the same, in the order in which they came.  The value of a
column is the one that was put in last under a handle that is the same, and a row has the columns
for which there is such a handle.  All of this is the same of the row that is made by pairs. -/
theorem putEach_associates (puts : List (Column × Value)) :
  ∃ r : SplitRow, empty.putEach puts = some r
    ∧ r.columns.length = r.values.length
    ∧ (∀ c i, r.index? c = some i → i < r.values.length)
    ∧ r.columns.Pairwise (fun c d =>
        ¬ (c.table = d.table ∧ c.expression = d.expression ∧ c.alias? = d.alias?))
    ∧ r.columns = (puts.map Prod.fst).eraseDups
    ∧ (∀ c, r.get c = some ((puts.filter fun e => e.1 == c).getLast?.map Prod.snd))
    ∧ (∀ c, r.has c = true ↔ ∃ e ∈ puts, (e.1 == c) = true)
    ∧ (∀ c d : Column, (c == d) = true
        ↔ c.table = d.table ∧ c.expression = d.expression ∧ c.alias? = d.alias?)
    ∧ r.columns = (Row.ofList puts).source.columns
    ∧ (∀ c, r.get c = some ((Row.ofList puts).source.get? c))
    ∧ ∀ c, r.has c = (Row.ofList puts).source.has c
  := by
  have hrow := Row.associates_ofList puts
  refine ⟨(Row.ofList puts).split, putEach_split Row.empty puts, ?_, fun c i => index?_split_lt _,
    ?_, hrow.columns_eq, fun c => ?_, fun c => ?_, fun c d => Column.beq_iff, rfl,
    get_split _, has_split _⟩
  · simp [Row.split]
  · apply hrow.distinct.imp
    intro c d hne
    rw [← Column.beq_iff, hne]
    exact Bool.false_ne_true
  · rw [get_split, hrow.get?_eq]
  · rw [has_split, hrow.has_iff]

/-- The points of a score. -/
def points : Column :=
  { kind := .integer, table := some ⟨"Score", "scores"⟩, expression := "points" }

/-- Points under another name are another column, and under another kind they are the same. -/
theorem putEach_associates_points :
  ∃ r : SplitRow, empty.putEach [(points, .integer 1), (points.withAlias "best", .integer 9),
      ({ points with kind := .long }, .long 2)] = some r
    ∧ r = ⟨[points, points.withAlias "best"], [.long 2, .integer 9]⟩
    ∧ r.index? { points with kind := .text } = some 0
    ∧ 0 < r.values.length
    ∧ r.get { points with kind := .text } = some (some (.long 2))
    ∧ r.has (points.withTable ⟨"Score", "old"⟩) = false
  := by
  obtain ⟨r, hr, -, hindices, -, -, hget, hhas, -⟩ :=
    putEach_associates [(points, .integer 1), (points.withAlias "best", .integer 9),
      ({ points with kind := .long }, .long 2)]
  obtain rfl : r = ⟨[points, points.withAlias "best"], [.long 2, .integer 9]⟩ :=
    (Option.some.inj hr).symm
  refine ⟨_, hr, rfl, rfl, hindices { points with kind := .text } 0 rfl, ?_, ?_⟩
  · rw [hget]
    rfl
  · rw [Bool.eq_false_iff, ne_eq, hhas]
    decide

end SplitRow

end Record

end TypedSql
