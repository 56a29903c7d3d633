import TypedSql.Sql.Step

/-!
# Flags as sets

A set of flags is known by its bits: a flag is in a union when it is in either set, and it
stays when it is not removed.  Equations between sets of flags are shown bit by bit; among
them are those by which the flags that a query switches on its way in are what they were once
they are switched back.
-/

namespace TypedSql.Sql

namespace Flags

/-- Whether the flag number `i` is in a set. -/
def bit (f : Flags) (i : Nat) : Bool :=
  f.bits.toBitVec.getLsbD i

theorem ext_bit {f g : Flags} (h : ∀ i < 8, f.bit i = g.bit i) :
  f = g
  := by
  obtain ⟨⟨a⟩⟩ := f
  obtain ⟨⟨b⟩⟩ := g
  obtain rfl : a = b := BitVec.eq_of_getLsbD_eq h
  rfl

theorem bit_union (f g : Flags) (i : Nat) :
  (f.union g).bit i = (f.bit i || g.bit i)
  := by
  simp [bit, union]

theorem bit_remove (f g : Flags) {i : Nat} (h : i < 8) :
  (f.remove g).bit i = (f.bit i && !g.bit i)
  := by
  simp [bit, remove, h]

/-- A set contains another when it has all its bits. -/
theorem contains_iff {f g : Flags} :
  f.contains g = true ↔ ∀ i < 8, g.bit i = true → f.bit i = true
  := by
  have hinter (i : Nat) : (f.bits &&& g.bits).toBitVec.getLsbD i = (f.bit i && g.bit i) := by
    simp [bit]
  rw [contains, beq_iff_eq]
  constructor
  · intro h i _ hg
    have hi := hinter i
    rw [h] at hi
    change g.bit i = _ at hi
    rw [hg, Bool.and_true] at hi
    exact hi.symm
  · intro h
    apply UInt8.toBitVec_inj.mp
    apply BitVec.eq_of_getLsbD_eq
    intro i hi
    rw [hinter]
    change (f.bit i && g.bit i) = g.bit i
    cases hg : g.bit i with
    | false => rw [Bool.and_false]
    | true => rw [h i hi hg, Bool.and_true]

theorem bit_validation {i : Nat} (h : i < 8) :
  validation.bit i = decide (i = 0)
  := by
  revert i
  decide

theorem bit_topLevel {i : Nat} (h : i < 8) :
  topLevel.bit i = decide (i = 1)
  := by
  revert i
  decide

theorem validates_iff {f : Flags} :
  f.validates = true ↔ f.bit 0 = true
  := by
  rw [validates, contains_iff]
  constructor
  · intro h
    apply h 0 (by decide) (by decide)
  · intro h i hi hv
    obtain rfl : i = 0 := by simpa [bit_validation hi] using hv
    exact h

theorem contains_topLevel_iff {f : Flags} :
  f.contains .topLevel = true ↔ f.bit 1 = true
  := by
  rw [contains_iff]
  constructor
  · intro h
    apply h 1 (by decide) (by decide)
  · intro h i hi ht
    obtain rfl : i = 1 := by simpa [bit_topLevel hi] using ht
    exact h

/-! ### Asking for validation -/

theorem contains_topLevel_union_validation (f : Flags) :
  (f.union .validation).contains .topLevel = f.contains .topLevel
  := by
  rw [Bool.eq_iff_iff, contains_topLevel_iff, contains_topLevel_iff, bit_union,
    bit_validation (by decide)]
  simp

theorem contains_topLevel_remove (f : Flags) :
  (f.remove .topLevel).contains .topLevel = false
  := by
  rw [Bool.eq_false_iff, ne_eq, contains_topLevel_iff, bit_remove _ _ (by decide),
    bit_topLevel (by decide)]
  simp

theorem validates_union_validation (f : Flags) :
  (f.union .validation).validates = true
  := by
  rw [validates_iff, bit_union, bit_validation (by decide)]
  simp

theorem union_validation_of_validates {f : Flags} (h : f.validates = true) :
  f.union .validation = f
  := by
  rw [validates_iff] at h
  apply ext_bit
  intro i hi
  rw [bit_union, bit_validation hi]
  by_cases hi0 : i = 0
  · simp [hi0, h]
  · simp [hi0]

/-- Validation in force around a query is in force inside of it. -/
theorem union_validation_remove_topLevel (f : Flags) :
  (f.union .validation).remove .topLevel = (f.remove .topLevel).union .validation
  := by
  apply ext_bit
  intro i hi
  simp only [bit_union, bit_remove _ _ hi, bit_validation hi, bit_topLevel hi]
  by_cases h : i = 0 <;> simp [h]

/-- A request for validation is the same inside of a query and around it. -/
theorem remove_topLevel_union_validation (f : Flags) :
  ((f.union .validation).remove .topLevel).union .validation
    = (f.remove .topLevel).union .validation
  := by
  rw [union_validation_remove_topLevel]
  apply union_validation_of_validates (validates_union_validation _)

/-! ### Switching back -/

theorem remove_validation_union {f : Flags} (h : f.validates = false) :
  (f.union .validation).remove .validation = f
  := by
  have hbit : f.bit 0 = false := by
    cases hb : f.bit 0 with
    | false => rfl
    | true => rw [validates_iff.mpr hb] at h; cases h
  apply ext_bit
  intro i hi
  rw [bit_remove _ _ hi, bit_union, bit_validation hi]
  by_cases hi0 : i = 0
  · simp [hi0, hbit]
  · simp [hi0]

theorem union_topLevel_remove {f : Flags} (h : f.contains .topLevel = true) :
  (f.remove .topLevel).union .topLevel = f
  := by
  rw [contains_topLevel_iff] at h
  apply ext_bit
  intro i hi
  rw [bit_union, bit_remove _ _ hi, bit_topLevel hi]
  by_cases hi1 : i = 1
  · simp [hi1, h]
  · simp [hi1]

theorem remove_topLevel_of_not_contains {f : Flags} (h : f.contains .topLevel = false) :
  f.remove .topLevel = f
  := by
  have hbit : f.bit 1 = false := by
    cases hb : f.bit 1 with
    | false => rfl
    | true => rw [contains_topLevel_iff.mpr hb] at h; cases h
  apply ext_bit
  intro i hi
  rw [bit_remove _ _ hi, bit_topLevel hi]
  by_cases hi1 : i = 1
  · simp [hi1, hbit]
  · simp [hi1]

end Flags

end TypedSql.Sql
