import TypedSql.Proofs.Value.Store

/-!
# Agreement and fingerprints

Agreement is symmetric and transitive, for doubles, for values and for stores, and what agrees has
one fingerprint.  The fingerprint of a store depends on what is under its keys alone
(`Store.fingerprint_eq`), because the keys are sorted before they are read.
-/

namespace TypedSql

namespace Binary64

variable {x y z : Binary64}

theorem equal_eq_true_iff :
  x.equal y = true
    ↔ x.isNaN = false ∧ y.isNaN = false ∧ (x = y ∨ x.isZero = true ∧ y.isZero = true)
  := by
  have hbits : x.bits = y.bits ↔ x = y := by
    cases x
    cases y
    simp
  simp [equal, hbits, and_assoc]

theorem equal_trans (hxy : x.equal y = true) (hyz : y.equal z = true) :
  x.equal z = true
  := by
  rw [equal_eq_true_iff] at *
  obtain ⟨hx, -, rfl | ⟨hxzero, hyzero⟩⟩ := hxy
  · exact hyz
  · obtain ⟨-, hz, rfl | ⟨-, hzzero⟩⟩ := hyz
    · exact ⟨hx, hz, .inr ⟨hxzero, hyzero⟩⟩
    · exact ⟨hx, hz, .inr ⟨hxzero, hzzero⟩⟩

/-- Numbers that are equal are the same word once the zeros are. -/
theorem foldZero_eq_of_equal (h : x.equal y = true) :
  x.foldZero = y.foldZero
  := by
  obtain ⟨-, -, rfl | ⟨hx, hy⟩⟩ := equal_eq_true_iff.mp h
  · rfl
  · rw [foldZero, foldZero, if_pos hx, if_pos hy]

end Binary64

/-! ### Values -/

namespace Value

variable {v w u : Value}

theorem agrees_comm (v w : Value) :
  v.agrees w = w.agrees v
  := by
  cases v <;> cases w <;> simp only [agrees, BEq.comm, Binary64.equal_comm]

/-- Values that agree are identical, or else they are doubles that are equal as numbers. -/
theorem eq_or_equal_of_agrees (h : v.agrees w = true) :
  v = w ∨ ∃ x y, v = double x ∧ w = double y ∧ x.equal y = true
  := by
  cases v with
  | double x =>
      cases w with
      | double y => exact .inr ⟨x, y, rfl, rfl, h⟩
      | _ => cases h
  | _ => cases w <;> simp_all [agrees]

theorem agrees_trans (hvw : v.agrees w = true) (hwu : w.agrees u = true) :
  v.agrees u = true
  := by
  obtain rfl | ⟨x, y, rfl, rfl, hxy⟩ := eq_or_equal_of_agrees hvw
  · exact hwu
  · obtain rfl | ⟨_, z, ⟨⟩, rfl, hyz⟩ := eq_or_equal_of_agrees hwu
    · exact hvw
    · exact Binary64.equal_trans hxy hyz

theorem fingerprint_eq_of_agrees (h : v.agrees w = true) :
  v.fingerprint = w.fingerprint
  := by
  obtain rfl | ⟨x, y, rfl, rfl, hxy⟩ := eq_or_equal_of_agrees h
  · rfl
  · rw [fingerprint, fingerprint, Binary64.foldZero_eq_of_equal hxy]

end Value

/-! ### Stores -/

namespace Store

variable {s t u : Store}

theorem agrees_comm (s t : Store) :
  s.agrees t = t.agrees s
  := by
  have hswap {s t : Store} (h : s.agrees t = true) : t.agrees s = true := by
    rw [agrees_iff_rel] at h ⊢
    intro k
    have hk := h k
    generalize s.get? k = a, t.get? k = b at hk ⊢
    cases hk with
    | some hvw => exact .some (by rwa [Value.agrees_comm])
    | none => exact .none
  exact Bool.eq_iff_iff.mpr ⟨hswap, hswap⟩

theorem agrees_trans (hst : s.agrees t = true) (htu : t.agrees u = true) :
  s.agrees u = true
  := by
  rw [agrees_iff_rel] at *
  intro k
  have hk := hst k
  have hk' := htu k
  generalize s.get? k = a, t.get? k = b, u.get? k = c at hk hk' ⊢
  cases hk with
  | some hvw =>
      obtain ⟨w, rfl, hwu⟩ := exists_of_rel hk'
      exact .some (Value.agrees_trans hvw hwu)
  | none => exact hk'

/-- Stores agree when they have the same keys, with values that agree. -/
theorem agrees_iff :
  s.agrees t = true
    ↔ (∀ k, k ∈ s.keys ↔ k ∈ t.keys)
      ∧ ∀ k v w, s.get? k = some v → t.get? k = some w → v.agrees w = true
  := by
  constructor
  · intro h
    refine ⟨fun k => (keys_perm_of_agrees h).mem_iff, ?_⟩
    intro k v w hv hw
    obtain ⟨w', hw', hvw⟩ := exists_of_agrees h hv
    obtain rfl := Option.some.inj (hw.symm.trans hw')
    exact hvw
  · rintro ⟨hkeys, hvalues⟩
    rw [agrees_iff_rel]
    intro k
    have hk := hkeys k
    rw [mem_keys_iff, mem_keys_iff, contains, contains] at hk
    cases hv : s.get? k with
    | some v =>
        obtain ⟨w, hw⟩ := Option.isSome_iff_exists.mp (hk.mp (by rw [hv]; rfl))
        rw [hw]
        exact .some (hvalues k v w hv hw)
    | none =>
        cases hw : t.get? k with
        | none => exact .none
        | some w => simp [hv, hw] at hk

/-! ### Fingerprints of stores -/

/-- Only the keys and what is under them make the fingerprint of a store. -/
theorem fingerprint_eq (s : Store) :
  s.fingerprint
    = .number s.keys.length :: s.sortedKeys.flatMap fun k =>
        .text k :: ((s.get? k).map Value.fingerprint).getD []
  := by
  have hkeys : (s.entries.mergeSort fun a b => decide (a.1 ≤ b.1)).map Prod.fst = s.sortedKeys :=
    List.map_mergeSort fun _ _ _ _ => rfl
  rw [fingerprint, ← hkeys, List.flatMap_map, keys, List.length_map]
  congr 1
  apply List.flatMap_congr
  intro e he
  rw [mem_entries_iff.mp ((List.mergeSort_perm _ _).mem_iff.mp he)]
  rfl

/-- Sorting is canonical: keys in whatever order are sorted to one list. -/
theorem sortedKeys_eq_of_perm (h : s.keys.Perm t.keys) :
  s.sortedKeys = t.sortedKeys
  := by
  have htrans : ∀ a b c : String,
      decide (a ≤ b) = true → decide (b ≤ c) = true → decide (a ≤ c) = true := by
    simpa using fun _ _ _ => String.le_trans
  have htotal : ∀ a b : String, (decide (a ≤ b) || decide (b ≤ a)) = true := by
    simpa using String.le_total
  have hantisymm : ∀ a b : String, decide (a ≤ b) = true → decide (b ≤ a) = true → a = b := by
    simpa using fun _ _ => String.le_antisymm
  apply List.Perm.eq_of_pairwise (fun a b _ _ => hantisymm a b)
    (List.pairwise_mergeSort htrans htotal _) (List.pairwise_mergeSort htrans htotal _)
  exact ((List.mergeSort_perm _ _).trans h).trans (List.mergeSort_perm _ _).symm

theorem fingerprint_eq_of_agrees (h : s.agrees t = true) :
  s.fingerprint = t.fingerprint
  := by
  have hkeys := keys_perm_of_agrees h
  have hvalues (k : String) :
      (s.get? k).map Value.fingerprint = (t.get? k).map Value.fingerprint := by
    have hk := agrees_iff_rel.mp h k
    generalize s.get? k = a, t.get? k = b at hk ⊢
    cases hk with
    | some hvw => exact congrArg some (Value.fingerprint_eq_of_agrees hvw)
    | none => rfl
  rw [fingerprint_eq, fingerprint_eq, hkeys.length_eq, sortedKeys_eq_of_perm hkeys]
  simp only [hvalues]

end Store

end TypedSql
