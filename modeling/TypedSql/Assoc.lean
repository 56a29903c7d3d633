/-!
# Associations in order of insertion

Lists of pairs read as finite maps: the first pair of a key counts.  `put` replaces the
value of a key that is there and otherwise adds a pair at the end, so that a key keeps the
place, and the spelling, of its first insertion.
-/

namespace TypedSql.Assoc

variable {κ α : Type} [BEq κ]

/-- Replaces the value of a key, or adds the key at the end. -/
def put (k : κ) (v : α) : List (κ × α) → List (κ × α)
  | [] => [(k, v)]
  | (l, w) :: r => if l == k then (l, v) :: r else (l, w) :: put k v r

/-- The value of a key. -/
def get? (k : κ) : List (κ × α) → Option α
  | [] => none
  | (l, v) :: r => if l == k then some v else get? k r

/-- Removes the first pair of a key. -/
def remove (k : κ) (xs : List (κ × α)) : List (κ × α) :=
  xs.eraseP fun e => e.1 == k

/-- Puts every pair of `ys` into `xs`, from the first on. -/
def overlay (xs ys : List (κ × α)) : List (κ × α) :=
  ys.foldl (fun zs e => put e.1 e.2 zs) xs

/-! ### Keys and values apart -/

/-- The value of a key that is present is replaced at the index of the key, which keeps its
spelling; a new key and its value come last. -/
theorem unzip_put (k : κ) (v : α) (xs : List (κ × α)) :
  ((put k v xs).map Prod.fst, (put k v xs).map Prod.snd) =
    match (xs.map Prod.fst).findIdx? (· == k) with
    | some i => (xs.map Prod.fst, (xs.map Prod.snd).set i v)
    | none => (xs.map Prod.fst ++ [k], xs.map Prod.snd ++ [v])
  := by
  induction xs with
  | nil => rfl
  | cons e r ih =>
      rw [List.map_cons, List.map_cons, List.findIdx?_cons]
      by_cases h : (e.1 == k) = true
      · rw [put, if_pos h, if_pos h]
        rfl
      · rw [put, if_neg h, if_neg h, List.map_cons, List.map_cons]
        obtain ⟨hkeys, hvalues⟩ := Prod.ext_iff.mp ih
        dsimp only at hkeys hvalues
        rw [hkeys, hvalues]
        cases (r.map Prod.fst).findIdx? (· == k) <;> rfl

theorem keys_put_eq_ite (k : κ) (v : α) (xs : List (κ × α)) :
  (put k v xs).map Prod.fst =
    if (xs.map Prod.fst).any (· == k) then xs.map Prod.fst else xs.map Prod.fst ++ [k]
  := by
  have hkeys := congrArg Prod.fst (unzip_put k v xs)
  rw [← List.findIdx?_isSome]
  cases hi : (xs.map Prod.fst).findIdx? (· == k) <;> simpa [hi] using hkeys

/-- The value of a key is the one at its index. -/
theorem get?_eq_bind_findIdx? (k : κ) (xs : List (κ × α)) :
  get? k xs = ((xs.map Prod.fst).findIdx? (· == k)).bind ((xs.map Prod.snd)[·]?)
  := by
  induction xs with
  | nil => rfl
  | cons e r ih =>
      rw [get?, ih, List.map_cons, List.map_cons, List.findIdx?_cons]
      split
      · rfl
      · cases (r.map Prod.fst).findIdx? (· == k) <;> rfl

/-- What is put under a key is under all keys that are the same. -/
theorem get?_put_eq_ite [PartialEquivBEq κ] (k l : κ) (v : α) (xs : List (κ × α)) :
  get? l (put k v xs) = if k == l then some v else get? l xs
  := by
  induction xs with
  | nil => rfl
  | cons e r ih =>
      by_cases h : (e.1 == k) = true
      · rw [put, if_pos h, get?, get?, BEq.congr_left h]
        split <;> rfl
      · rw [put, if_neg h, get?, get?, ih]
        split
        · rename_i hl
          have hk : ¬ (k == l) = true := fun hk => h (BEq.trans hl (BEq.symm hk))
          rw [if_neg hk]
        · rfl

/-! ### Keys -/

variable {γ : Type} [BEq γ] [LawfulBEq γ]

theorem keys_put (k : γ) (v : α) (xs : List (γ × α)) :
  (put k v xs).map Prod.fst =
    if k ∈ xs.map Prod.fst then xs.map Prod.fst else xs.map Prod.fst ++ [k]
  := by
  rw [keys_put_eq_ite]
  simp only [List.any_eq_true, beq_iff_eq, exists_eq_right]

theorem nodup_keys_put (k : γ) (v : α) {xs : List (γ × α)}
    (h : (xs.map Prod.fst).Nodup) :
  ((put k v xs).map Prod.fst).Nodup
  := by
  rw [keys_put]
  split
  · exact h
  · rename_i hk
    apply List.nodup_append.mpr
    refine ⟨h, by simp, ?_⟩
    intro a ha b hb
    rw [List.mem_singleton.mp hb]
    rintro rfl
    exact hk ha

omit [LawfulBEq γ] in
theorem nodup_keys_remove (k : γ) {xs : List (γ × α)} (h : (xs.map Prod.fst).Nodup) :
  ((remove k xs).map Prod.fst).Nodup
  := (List.eraseP_sublist.map _).nodup h

theorem nodup_keys_overlay (ys : List (γ × α)) {xs : List (γ × α)}
    (h : (xs.map Prod.fst).Nodup) :
  ((overlay xs ys).map Prod.fst).Nodup
  := by
  unfold overlay
  induction ys generalizing xs with
  | nil => exact h
  | cons e r ih => exact ih (nodup_keys_put e.1 e.2 h)

/-! ### Values -/

theorem get?_put_self (k : γ) (v : α) (xs : List (γ × α)) :
  get? k (put k v xs) = some v
  := by
  rw [get?_put_eq_ite, if_pos (beq_self_eq_true k)]

theorem get?_put_of_ne {k l : γ} (h : l ≠ k) (v : α) (xs : List (γ × α)) :
  get? l (put k v xs) = get? l xs
  := by
  rw [get?_put_eq_ite, if_neg (by simpa using Ne.symm h)]

theorem get?_eq_none_iff {k : γ} {xs : List (γ × α)} :
  get? k xs = none ↔ k ∉ xs.map Prod.fst
  := by
  induction xs with
  | nil => simp [get?]
  | cons e r ih =>
    obtain ⟨l, w⟩ := e
    by_cases h : l = k
    · simp [get?, h]
    · have h' : ¬ k = l := fun e => h e.symm
      simp [get?, h, h', ih]

/-- Where no key occurs twice, the values of the overlaid list count before the others. -/
theorem get?_overlay (k : γ) {ys : List (γ × α)} (h : (ys.map Prod.fst).Nodup)
    (xs : List (γ × α)) :
  get? k (overlay xs ys) = (get? k ys).or (get? k xs)
  := by
  unfold overlay
  induction ys generalizing xs with
  | nil => rfl
  | cons e r ih =>
    obtain ⟨l, v⟩ := e
    rw [List.map_cons, List.nodup_cons] at h
    rw [List.foldl_cons, ih h.2]
    by_cases hl : l = k
    · subst hl
      simp [get?, get?_eq_none_iff.mpr h.1, get?_put_self]
    · simp [get?, hl, get?_put_of_ne (Ne.symm hl)]

theorem get?_remove_self {k : γ} {xs : List (γ × α)} (h : (xs.map Prod.fst).Nodup) :
  get? k (remove k xs) = none
  := by
  induction xs with
  | nil => rfl
  | cons e r ih =>
    obtain ⟨l, w⟩ := e
    rw [List.map_cons, List.nodup_cons] at h
    by_cases hl : l = k
    · subst hl
      simpa [remove] using get?_eq_none_iff.mpr h.1
    · simpa [remove, get?, hl] using ih h.2

theorem get?_remove_of_ne {k l : γ} (h : l ≠ k) (xs : List (γ × α)) :
  get? l (remove k xs) = get? l xs
  := by
  induction xs with
  | nil => rfl
  | cons e r ih =>
    obtain ⟨m, w⟩ := e
    by_cases hm : m = k
    · simp [remove, get?, hm, Ne.symm h]
    · rw [remove] at ih ⊢
      rw [List.eraseP_cons_of_neg (by simpa using hm), get?, get?, ih]

end TypedSql.Assoc
