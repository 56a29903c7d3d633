import Mathlib.Data.List.Nodup
import Mathlib.Data.List.Perm.Subperm
import TypedSql.Value.Store

/-!
# Stores as finite maps

The keys of a store and its entries, seen from the values under the keys.  Stores agree when what
they have under each key does (`Store.agrees_iff_rel`).  So stores with the same values under all
keys agree as far as values agree with themselves, which a value that is not a number does not.
-/

namespace TypedSql

namespace Assoc

variable {κ α : Type} [BEq κ] [LawfulBEq κ]

theorem keys_remove (k : κ) (xs : List (κ × α)) :
  (remove k xs).map Prod.fst = (xs.map Prod.fst).erase k
  := by
  induction xs with
  | nil => rfl
  | cons e r ih =>
      by_cases h : e.1 = k
      · simp [remove, h]
      · rw [remove, List.eraseP_cons_of_neg (by simpa using h), List.map_cons, List.map_cons,
          List.erase_cons_tail (by simpa using h), ← ih, remove]

/-- Where no key occurs twice, every pair counts. -/
theorem get?_of_mem {e : κ × α} {xs : List (κ × α)} (h : (xs.map Prod.fst).Nodup)
    (he : e ∈ xs) :
  get? e.1 xs = some e.2
  := by
  induction xs with
  | nil => cases he
  | cons d r ih =>
      rw [List.map_cons, List.nodup_cons] at h
      obtain rfl | he := List.mem_cons.mp he
      · simp [get?]
      · have hne : d.1 ≠ e.1 := by
          intro heq
          rw [heq] at h
          exact h.1 (List.mem_map_of_mem he)
        simpa [get?, hne] using ih h.2 he

theorem mem_of_get? {k : κ} {v : α} {xs : List (κ × α)} (h : get? k xs = some v) :
  (k, v) ∈ xs
  := by
  induction xs with
  | nil => cases h
  | cons e r ih =>
      obtain ⟨l, w⟩ := e
      by_cases hl : l = k
      · have hw : w = v := by simpa [get?, hl] using h
        simp [hl, hw]
      · exact List.mem_cons_of_mem _ (ih (by simpa [get?, hl] using h))

theorem put_of_notMem {k : κ} {xs : List (κ × α)} (h : k ∉ xs.map Prod.fst) (v : α) :
  put k v xs = xs ++ [(k, v)]
  := by
  induction xs with
  | nil => rfl
  | cons e r ih =>
      rw [List.map_cons, List.mem_cons, not_or] at h
      simp [put, Ne.symm h.1, ih h.2]

/-- Pairs of new keys, no two of one key, are put in behind the others. -/
theorem overlay_eq_append {xs ys : List (κ × α)} (h : ((xs ++ ys).map Prod.fst).Nodup) :
  overlay xs ys = xs ++ ys
  := by
  induction ys generalizing xs with
  | nil => exact (List.append_nil xs).symm
  | cons e ys ih =>
      have hnew : e.1 ∉ xs.map Prod.fst := by
        rw [List.map_append, List.map_cons, List.nodup_middle, List.nodup_cons] at h
        exact fun hmem => h.1 (List.mem_append_left _ hmem)
      rw [overlay, List.foldl_cons, put_of_notMem hnew, ← overlay, ih, List.append_assoc]
      · rfl
      · rwa [List.append_assoc, List.singleton_append]

/-! ### Overlays -/

theorem put_put_self (k : κ) (v w : α) (xs : List (κ × α)) :
  put k v (put k w xs) = put k v xs
  := by
  induction xs with
  | nil => simp [put]
  | cons e r ih =>
      by_cases h : e.1 = k
      · simp [put, h]
      · simp [put, h, ih]

/-- Putting a key that is present changes no place, so that it can be done before or after
another key is put. -/
theorem put_comm {k l : κ} {xs : List (κ × α)} (hne : k ≠ l) (hk : k ∈ xs.map Prod.fst)
    (v w : α) :
  put k v (put l w xs) = put l w (put k v xs)
  := by
  induction xs with
  | nil => cases hk
  | cons e r ih =>
      by_cases hek : e.1 = k
      · simp [put, hek, hne]
      · by_cases hel : e.1 = l
        · simp [put, hel, hne.symm]
        · have hr : k ∈ r.map Prod.fst := by
            rw [List.map_cons, List.mem_cons] at hk
            exact hk.resolve_left (Ne.symm hek)
          simp [put, hek, hel, ih hr]

/-- A key that is present, and that the overlaid pairs do not have, can be put before them. -/
theorem put_overlay_of_notMem {k : κ} {ys : List (κ × α)} (hy : k ∉ ys.map Prod.fst)
    {xs : List (κ × α)} (hx : k ∈ xs.map Prod.fst) (v : α) :
  put k v (overlay xs ys) = overlay (put k v xs) ys
  := by
  induction ys generalizing xs with
  | nil => rfl
  | cons e r ih =>
      rw [List.map_cons, List.mem_cons, not_or] at hy
      have hput : k ∈ (put e.1 e.2 xs).map Prod.fst := by
        rw [keys_put]
        split
        · exact hx
        · exact List.mem_append_left _ hx
      rw [overlay, overlay, List.foldl_cons, List.foldl_cons, ← put_comm hy.1 hx]
      exact ih hy.2 hput

/-- What is put into overlaid pairs is put in after them. -/
theorem overlay_put {ys : List (κ × α)} (h : (ys.map Prod.fst).Nodup) (k : κ) (v : α)
    (xs : List (κ × α)) :
  overlay xs (put k v ys) = put k v (overlay xs ys)
  := by
  induction ys generalizing xs with
  | nil => rfl
  | cons e r ih =>
      obtain ⟨l, w⟩ := e
      rw [List.map_cons, List.nodup_cons] at h
      by_cases hl : l = k
      · subst hl
        have hpresent : l ∈ (put l w xs).map Prod.fst := by
          rw [keys_put]
          split
          · assumption
          · exact List.mem_append_right _ (List.mem_singleton_self l)
        calc overlay xs (put l v ((l, w) :: r))
            = overlay (put l v xs) r := by simp [put, overlay]
          _ = overlay (put l v (put l w xs)) r := by rw [put_put_self]
          _ = put l v (overlay (put l w xs) r) := (put_overlay_of_notMem h.1 hpresent v).symm
      · have hput : put k v ((l, w) :: r) = (l, w) :: put k v r := by simp [put, hl]
        rw [hput, overlay, List.foldl_cons]
        exact ih h.2 (put l w xs)

/-- Overlaying is associative, order of the keys included. -/
theorem overlay_assoc {ys : List (κ × α)} (h : (ys.map Prod.fst).Nodup)
    (xs zs : List (κ × α)) :
  overlay (overlay xs ys) zs = overlay xs (overlay ys zs)
  := by
  induction zs generalizing ys with
  | nil => rfl
  | cons e zs ih =>
      calc overlay (overlay xs ys) (e :: zs)
          = overlay (put e.1 e.2 (overlay xs ys)) zs := rfl
        _ = overlay (overlay xs (put e.1 e.2 ys)) zs := by rw [overlay_put h]
        _ = overlay xs (overlay (put e.1 e.2 ys) zs) := ih (nodup_keys_put e.1 e.2 h)

/-! ### Values mapped -/

variable {β : Type} (f : α → β)

theorem get?_map (k : κ) (xs : List (κ × α)) :
  get? k (xs.map (Prod.map id f)) = (get? k xs).map f
  := by
  induction xs with
  | nil => rfl
  | cons e r ih => by_cases h : e.1 = k <;> simp [get?, h, ih]

theorem map_put (k : κ) (v : α) (xs : List (κ × α)) :
  (put k v xs).map (Prod.map id f) = put k (f v) (xs.map (Prod.map id f))
  := by
  induction xs with
  | nil => rfl
  | cons e r ih =>
      obtain ⟨l, w⟩ := e
      by_cases h : l = k <;> simp [put, h, ih]

theorem map_overlay (xs ys : List (κ × α)) :
  (overlay xs ys).map (Prod.map id f)
    = overlay (xs.map (Prod.map id f)) (ys.map (Prod.map id f))
  := by
  induction ys generalizing xs with
  | nil => rfl
  | cons e ys ih =>
      calc (overlay (put e.1 e.2 xs) ys).map (Prod.map id f)
          = overlay ((put e.1 e.2 xs).map (Prod.map id f)) (ys.map (Prod.map id f)) := ih _
        _ = overlay (put e.1 (f e.2) (xs.map (Prod.map id f))) (ys.map (Prod.map id f)) := by
            rw [map_put]

end Assoc

namespace Store

variable {s t : Store}

/-- A store is made of its entries. -/
theorem ofList_entries (s : Store) :
  ofList s.entries = s
  := by
  rw [ofList, Store.mk.injEq]
  exact Assoc.overlay_eq_append s.nodup

/-! ### Overlays -/

@[simp]
theorem overlay_empty (s : Store) :
  s.overlay .empty = s
  := rfl

@[simp]
theorem empty_overlay (s : Store) :
  empty.overlay s = s
  := s.ofList_entries

/-- Stores can be laid over each other from either end. -/
theorem overlay_assoc (s t u : Store) :
  (s.overlay t).overlay u = s.overlay (t.overlay u)
  := by
  rw [Store.mk.injEq]
  exact Assoc.overlay_assoc t.nodup s.entries u.entries

theorem mem_entries_iff {e : String × Value} :
  e ∈ s.entries ↔ s.get? e.1 = some e.2
  :=
  ⟨Assoc.get?_of_mem s.nodup, Assoc.mem_of_get?⟩

theorem mem_keys_iff {k : String} :
  k ∈ s.keys ↔ s.contains k = true
  := by
  rw [contains, get?, Option.isSome_iff_ne_none, ne_eq, Assoc.get?_eq_none_iff, not_not, keys]

/-! ### Keys after an edit -/

/-- A key that is put keeps its place, or else takes the last one. -/
theorem keys_put (s : Store) (k : String) (v : Value) :
  (s.put k v).keys = if k ∈ s.keys then s.keys else s.keys ++ [k]
  :=
  Assoc.keys_put k v s.entries

/-- The keys that are not removed keep their order. -/
theorem keys_remove (s : Store) (k : String) :
  (s.remove k).keys = s.keys.erase k
  :=
  Assoc.keys_remove k s.entries

theorem keys_put_remove (s : Store) (k : String) (v : Value) :
  ((s.remove k).put k v).keys = s.keys.erase k ++ [k]
  := by
  have hgone : k ∉ s.keys.erase k := List.Nodup.not_mem_erase s.nodup
  rw [keys_put, keys_remove, if_neg hgone]

end Store

/-! ### Agreement -/

/-- Whether a value is a double that is not a number. -/
def Value.isNaN : Value → Bool
  | double x => x.isNaN
  | _ => false

/-- A value agrees with itself unless it is not a number. -/
theorem Value.agrees_self_iff {v : Value} :
  v.agrees v = true ↔ v.isNaN = false
  := by
  cases v <;> simp [agrees, isNaN, Binary64.equal]

namespace Store

variable {s t : Store}

/-- Stores with the same keys have them in permuted orders. -/
theorem keys_perm (h : ∀ k, k ∈ s.keys ↔ k ∈ t.keys) :
  s.keys.Perm t.keys
  :=
  (List.perm_ext_iff_of_nodup s.nodup t.nodup).mpr h

theorem isSome_eq_of_rel {r : Value → Value → Prop} {a b : Option Value} (h : a.Rel r b) :
  a.isSome = b.isSome
  := by
  cases h <;> rfl

theorem exists_of_rel {r : Value → Value → Prop} {b : Option Value} {v : Value}
    (h : (some v).Rel r b) :
  ∃ w, b = some w ∧ r v w
  := by
  cases h with
  | some h => exact ⟨_, rfl, h⟩

/-- Of stores that agree, the second one has a value that agrees wherever the first one has one. -/
theorem exists_of_agrees (h : s.agrees t = true) {k : String} {v : Value}
    (hv : s.get? k = some v) :
  ∃ w, t.get? k = some w ∧ v.agrees w = true
  := by
  rw [agrees, Bool.and_eq_true, List.all_eq_true] at h
  have he := h.2 (k, v) (mem_entries_iff.mpr hv)
  cases hw : t.get? k with
  | none => simp [hw] at he
  | some w => exact ⟨w, rfl, by simpa [hw] using he⟩

/-- The keys of the first of two stores that agree are among those of the second, which are as
many. -/
theorem keys_perm_of_agrees (h : s.agrees t = true) :
  s.keys.Perm t.keys
  := by
  have hsubset : s.keys ⊆ t.keys := by
    intro k hk
    rw [mem_keys_iff, contains, Option.isSome_iff_exists] at hk ⊢
    obtain ⟨v, hv⟩ := hk
    obtain ⟨w, hw, -⟩ := exists_of_agrees h hv
    exact ⟨w, hw⟩
  rw [agrees, Bool.and_eq_true, beq_iff_eq] at h
  have hlength : t.keys.length ≤ s.keys.length := by
    rw [keys, keys, List.length_map, List.length_map]
    exact Nat.le_of_eq h.1.symm
  exact (List.subperm_of_subset s.nodup hsubset).perm_of_length_le hlength

/-- Stores agree when under every key both have values that agree, or neither has any. -/
theorem agrees_iff_rel :
  s.agrees t = true ↔ ∀ k, (s.get? k).Rel (fun v w => v.agrees w = true) (t.get? k)
  := by
  constructor
  · intro h k
    cases hv : s.get? k with
    | some v =>
        obtain ⟨w, hw, hvw⟩ := exists_of_agrees h hv
        rw [hw]
        exact .some hvw
    | none =>
        have hk : k ∉ t.keys := by
          rw [← (keys_perm_of_agrees h).mem_iff]
          exact Assoc.get?_eq_none_iff.mp hv
        have hnone : t.get? k = none := Assoc.get?_eq_none_iff.mpr hk
        rw [hnone]
        exact .none
  · intro hrel
    have hkeys : ∀ k, k ∈ s.keys ↔ k ∈ t.keys := by
      intro k
      rw [mem_keys_iff, mem_keys_iff, contains, contains, isSome_eq_of_rel (hrel k)]
    have hsize : s.size = t.size := by simpa [keys, size] using (keys_perm hkeys).length_eq
    rw [agrees, hsize, beq_self_eq_true, Bool.true_and, List.all_eq_true]
    intro e he
    have hvalues := hrel e.1
    rw [mem_entries_iff.mp he] at hvalues
    obtain ⟨w, hw, h⟩ := exists_of_rel hvalues
    simpa only [hw] using h

/-- Stores with the same values under all keys agree when every value is a number, as far as it
is a double. -/
theorem agrees_iff_of_get?_eq (h : ∀ k, s.get? k = t.get? k) :
  s.agrees t = true ↔ ∀ e ∈ t.entries, e.2.isNaN = false
  := by
  rw [agrees_iff_rel]
  constructor
  · intro hrel e he
    have hself := hrel e.1
    rw [h, mem_entries_iff.mp he] at hself
    obtain ⟨w, ⟨⟩, hw⟩ := exists_of_rel hself
    exact Value.agrees_self_iff.mp hw
  · intro hnumbers k
    rw [h]
    cases hv : t.get? k with
    | none => exact .none
    | some v => exact .some (Value.agrees_self_iff.mpr (hnumbers (k, v) (mem_entries_iff.mpr hv)))

end Store

end TypedSql
