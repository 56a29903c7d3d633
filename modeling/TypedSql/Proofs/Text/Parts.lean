import Mathlib.Data.List.Forall2
import Mathlib.Data.List.TakeWhile
import TypedSql.Text.Blank

/-!
# Parts of texts

A text whose parts are put together again: the blanks around it and what is between them, and
the pieces that a separator stands between.
-/

namespace TypedSql

/-- All parts are read precisely if each of them is, one after the other. -/
theorem mapM_eq_some_iff {α β : Type} {f : α → Option β} {as : List α} {bs : List β} :
  as.mapM f = some bs ↔ List.Forall₂ (fun a b => f a = some b) as bs
  := by
  induction as generalizing bs with
  | nil => simp [eq_comm]
  | cons a as ih =>
      rw [List.mapM_cons, List.forall₂_cons_left_iff]
      simp only [Option.bind_eq_bind, Option.bind_eq_some_iff, Option.pure_def, Option.some.injEq,
        ih]
      constructor
      · rintro ⟨b, hb, bs, hbs, rfl⟩
        exact ⟨b, bs, hb, hbs, rfl⟩
      · rintro ⟨b, bs, hb, hbs, rfl⟩
        exact ⟨b, hb, bs, hbs, rfl⟩

/-- The characters of pieces with a separator between them. -/
theorem mem_intercalate {α : Type} {sep : List α} {x : α} {ls : List (List α)}
    (h : x ∈ sep.intercalate ls) :
  x ∈ sep ∨ ∃ l ∈ ls, x ∈ l
  := by
  induction ls with
  | nil => cases h
  | cons l ls ih =>
      cases ls with
      | nil =>
          rw [List.intercalate_singleton] at h
          exact .inr ⟨l, List.mem_cons_self, h⟩
      | cons m ls =>
          rw [List.intercalate_cons_cons, List.mem_append, List.mem_append] at h
          obtain (h | h) | h := h
          · exact .inr ⟨l, List.mem_cons_self, h⟩
          · exact .inl h
          · exact (ih h).imp_right fun ⟨k, hk, hx⟩ => ⟨k, List.mem_cons_of_mem l hk, hx⟩

namespace Text

/-! ### Blanks -/

variable {cs front back : List Char}

/-- A text is the blanks at its front, what is left without the blanks at its ends, and the blanks
at its end. -/
theorem exists_eq_append_trim (cs : List Char) :
  ∃ front back, cs = front ++ trim cs ++ back
    ∧ (∀ c ∈ front, isBlank c = true) ∧ ∀ c ∈ back, isBlank c = true
  := by
  have hfront := List.takeWhile_append_dropWhile (p := isBlank) (l := cs)
  have hback := List.takeWhile_append_dropWhile (p := isBlank)
    (l := (cs.dropWhile isBlank).reverse)
  refine ⟨cs.takeWhile isBlank, ((cs.dropWhile isBlank).reverse.takeWhile isBlank).reverse, ?_,
    fun c hc => List.mem_takeWhile_imp hc,
    fun c hc => List.mem_takeWhile_imp (List.mem_reverse.mp hc)⟩
  rw [trim, List.append_assoc, ← List.reverse_append, hback, List.reverse_reverse, hfront]

/-- Blanks around a text without blanks are left out. -/
theorem trim_append (hfront : ∀ c ∈ front, isBlank c = true) (hback : ∀ c ∈ back, isBlank c = true)
    (hcs : ∀ c ∈ cs, isBlank c = false) :
  trim (front ++ cs ++ back) = cs
  := by
  have hkeep {ds : List Char} (hds : ∀ c ∈ ds, isBlank c = false) : ds.dropWhile isBlank = ds :=
    List.dropWhile_eq_self_iff.mpr fun hlength => by
      simpa using hds _ (List.getElem_mem hlength)
  have hreverse : ∀ c ∈ cs.reverse, isBlank c = false := fun c hc => hcs c (List.mem_reverse.mp hc)
  cases cs with
  | nil =>
      have hall : ∀ c ∈ front ++ back, isBlank c = true :=
        List.forall_mem_append.mpr ⟨hfront, hback⟩
      rw [trim, List.append_nil, List.dropWhile_eq_nil_iff.mpr hall]
      rfl
  | cons d ds =>
      have hd : isBlank d = false := hcs d List.mem_cons_self
      rw [trim, List.append_assoc, List.dropWhile_append_of_pos hfront, List.cons_append,
        List.dropWhile_cons_of_neg (by simp [hd]), ← List.cons_append, List.reverse_append,
        List.dropWhile_append_of_pos fun c hc => hback c (List.mem_reverse.mp hc), hkeep hreverse,
        List.reverse_reverse]

end Text

end TypedSql
