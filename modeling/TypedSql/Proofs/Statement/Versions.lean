import Mathlib.Data.List.Lex
import TypedSql.Proofs.Text.Parts
import TypedSql.Proofs.Value.Integers
import TypedSql.Sql.Version

/-!
# Texts of versions

What the texts of versions are, without saying how they are read: two to four numbers of sixteen
bits with points between them.  A text is read as a version precisely if it is one, with blanks
around it, and gives the numbers that are written; the text of every version is read back as the
version; and versions are compared number by number (`parse_exact`).
-/

namespace TypedSql.Sql.Version

open Decimal (WritesNatural)

/-- The numbers of a version, the most significant first. -/
def components (v : Version) : List Nat :=
  [v.major.toNat, v.minor.toNat, v.micro.toNat, v.nano.toNat]

/-- A component is a number of sixteen bits, written in digits after at most one plus sign. -/
def WritesComponent (cs : List Char) (n : Nat) : Prop :=
  (WritesNatural cs n ∨ ∃ ds, cs = '+' :: ds ∧ WritesNatural ds n) ∧ n ≤ 65535

/-- Two to four components between points write a version.  Those that are missing are zero. -/
def Writes (cs : List Char) (v : Version) : Prop :=
  ∃ (ps : List (List Char)) (ns : List Nat),
    cs = ['.'].intercalate ps ∧ List.Forall₂ WritesComponent ps ns
      ∧ 2 ≤ ns.length ∧ ns.length ≤ 4
      ∧ v.components = ns ++ List.replicate (4 - ns.length) 0

/-! ### Components -/

variable {cs : List Char} {n : Nat} {v w : Version}

/-- The components that are read are those that are written. -/
theorem component?_eq_some_iff {k : UInt16} :
  component? cs = some k ↔ WritesComponent cs k.toNat
  := by
  have hk := k.toNat_lt
  rw [component?, Option.bind_eq_some_iff]
  simp only [Decimal.natural?_eq_some_iff, Option.ite_none_right_eq_some, Option.some.injEq,
    WritesComponent]
  constructor
  · rintro ⟨n, hn, hbound, rfl⟩
    rw [UInt16.toNat_ofNat_of_lt' hbound]
    exact ⟨hn, Nat.le_of_lt_succ hbound⟩
  · rintro ⟨hn, -⟩
    exact ⟨k.toNat, hn, hk, UInt16.ofNat_toNat⟩

theorem WritesComponent.exists_component? (h : WritesComponent cs n) :
  ∃ k : UInt16, k.toNat = n ∧ component? cs = some k
  := by
  have hn : (UInt16.ofNat n).toNat = n := UInt16.toNat_ofNat_of_lt' (Nat.lt_succ_of_le h.2)
  refine ⟨.ofNat n, hn, component?_eq_some_iff.mpr ?_⟩
  rwa [hn]

theorem isDigit_ne_point {c : Char} (h : c.isDigit = true) :
  c ≠ '.' ∧ Text.isBlank c = false
  := by
  have hlow : 48 ≤ c.toNat ∧ c.toNat ≤ 57 := by
    simpa [Char.isDigit, UInt32.le_iff_toNat_le] using h
  constructor
  · rintro rfl
    cases h
  · rw [← Bool.not_eq_true]
    simp only [Text.isBlank, Text.blankRanges, List.any_cons, List.any_nil, Bool.or_eq_true,
      decide_eq_true_iff, Bool.or_false]
    omega

/-- A component has no points and no blanks. -/
theorem WritesComponent.of_mem (h : WritesComponent cs n) :
  ∀ c ∈ cs, c ≠ '.' ∧ Text.isBlank c = false
  := by
  obtain ⟨h | ⟨ds, rfl, h⟩, -⟩ := h
  · exact fun c hc => isDigit_ne_point (h.isDigit_of_mem c hc)
  · rw [List.forall_mem_cons]
    exact ⟨by decide, fun c hc => isDigit_ne_point (h.isDigit_of_mem c hc)⟩

/-! ### Texts without blanks around them -/

theorem parts_eq_splitOn (cs : List Char) :
  parts cs = cs.splitOn '.'
  := by
  rw [List.splitOn_eq_splitOnP]
  induction cs with
  | nil => rfl
  | cons c cs ih =>
      rw [parts, List.splitOnP_cons_eq_if_modifyHead, ih]
      obtain ⟨p, ps, hps⟩ := List.exists_cons_of_ne_nil (List.splitOnP_ne_nil (· == '.') cs)
      rw [hps]
      by_cases hc : c = '.'
      · rw [if_pos hc, if_pos (beq_iff_eq.mpr hc)]
      · rw [if_neg hc, if_neg (by simpa using hc), List.modifyHead_cons]

/-- Components are read as the version whose numbers they are, as long as there are two to four. -/
theorem ofChars?_eq_some_iff :
  ofChars? cs = some v ↔ ∃ ks : List UInt16, (parts cs).mapM component? = some ks
    ∧ 2 ≤ ks.length ∧ ks.length ≤ 4
    ∧ v.components = ks.map UInt16.toNat ++ List.replicate (4 - ks.length) 0
  := by
  obtain ⟨major, minor, micro, nano⟩ := v
  rw [ofChars?]
  cases (parts cs).mapM component? with
  | none => simp
  | some ks =>
      simp only [Option.some.injEq, exists_eq_left', components]
      rcases ks with _ | ⟨a, _ | ⟨b, _ | ⟨c, _ | ⟨d, _ | ⟨e, ks⟩⟩⟩⟩⟩
      · simp
      · simp
      · simp [← UInt16.toNat_inj, eq_comm]
      · simp [← UInt16.toNat_inj, eq_comm]
      · simp [UInt16.toNat_inj, eq_comm]
      · simp

/-- Written components are read as the numbers that they write, and have no points and no blanks. -/
theorem exists_components {ps : List (List Char)} {ns : List Nat}
    (h : List.Forall₂ WritesComponent ps ns) :
  (∃ ks : List UInt16, ks.map UInt16.toNat = ns
      ∧ List.Forall₂ (fun p k => component? p = some k) ps ks)
    ∧ ∀ p ∈ ps, ∀ c ∈ p, c ≠ '.' ∧ Text.isBlank c = false
  := by
  induction h with
  | nil => exact ⟨⟨[], rfl, .nil⟩, by simp⟩
  | cons hn _ ih =>
      obtain ⟨⟨ks, rfl, hks⟩, hps⟩ := ih
      obtain ⟨k, rfl, hk⟩ := hn.exists_component?
      exact ⟨⟨k :: ks, rfl, .cons hk hks⟩, List.forall_mem_cons.mpr ⟨hn.of_mem, hps⟩⟩

/-- The texts that are read are those that write the version. -/
theorem ofChars?_eq_some_iff_writes :
  ofChars? cs = some v ↔ Writes cs v
  := by
  rw [ofChars?_eq_some_iff]
  constructor
  · rintro ⟨ks, hks, hlow, hhigh, hv⟩
    refine ⟨parts cs, ks.map UInt16.toNat, ?_, ?_, by simpa using hlow, by simpa using hhigh,
      by simpa using hv⟩
    · rw [parts_eq_splitOn, List.intercalate_splitOn]
    · rw [List.forall₂_map_right_iff]
      exact (mapM_eq_some_iff.mp hks).imp fun p k hk => component?_eq_some_iff.mp hk
  · rintro ⟨ps, ns, rfl, h, hlow, hhigh, hv⟩
    obtain ⟨⟨ks, rfl, hks⟩, hps⟩ := exists_components h
    have hne : ps ≠ [] := by
      rintro rfl
      cases hks
      cases hlow
    have hparts : parts (['.'].intercalate ps) = ps := by
      rw [parts_eq_splitOn]
      exact List.splitOn_intercalate '.' (fun p hp hpoint => (hps p hp '.' hpoint).1 rfl) hne
    rw [List.length_map] at hlow hhigh hv
    refine ⟨ks, ?_, hlow, hhigh, hv⟩
    rw [hparts]
    exact mapM_eq_some_iff.mpr hks

/-- What writes a version has no blanks. -/
theorem Writes.isBlank_of_mem (h : Writes cs v) :
  ∀ c ∈ cs, Text.isBlank c = false
  := by
  obtain ⟨ps, ns, rfl, hps, -⟩ := h
  intro c hc
  obtain hc | ⟨p, hp, hc⟩ := mem_intercalate hc
  · rw [List.mem_singleton.mp hc]
    decide
  · exact ((exists_components hps).2 p hp c hc).2

/-! ### Texts -/

theorem parse_eq_ok_iff {s : String} :
  parse s = .ok v ↔ Writes (Text.trim s.toList) v
  := by
  rw [← ofChars?_eq_some_iff_writes, parse]
  cases ofChars? (Text.trim s.toList) <;> simp

theorem parse_eq_error_iff {s : String} :
  parse s = .error (.invalidVersion s) ↔ ∀ v, parse s ≠ .ok v
  := by
  rw [parse]
  cases ofChars? (Text.trim s.toList) <;> simp

/-- A text is read as a version if it writes it, with blanks around it. -/
theorem parse_eq_ok_iff_append {s : String} :
  parse s = .ok v ↔ ∃ front body back, s.toList = front ++ body ++ back
    ∧ (∀ c ∈ front, Text.isBlank c = true) ∧ (∀ c ∈ back, Text.isBlank c = true)
    ∧ Writes body v
  := by
  rw [parse_eq_ok_iff]
  constructor
  · intro h
    obtain ⟨front, back, heq, hfront, hback⟩ := Text.exists_eq_append_trim s.toList
    exact ⟨front, Text.trim s.toList, back, heq, hfront, hback, h⟩
  · rintro ⟨front, body, back, heq, hfront, hback, h⟩
    rwa [heq, Text.trim_append hfront hback h.isBlank_of_mem]

theorem writesComponent_toDigits (k : UInt16) :
  WritesComponent (Nat.toDigits 10 k.toNat) k.toNat
  :=
  ⟨.inl (Decimal.writesNatural_toDigits k.toNat), Nat.le_of_lt_succ k.toNat_lt⟩

/-- The text of a version writes the version. -/
theorem writes_display (v : Version) :
  Writes v.display.toList v
  := by
  obtain ⟨major, minor, micro, nano⟩ := v
  have hcomponents : List.Forall₂ WritesComponent
      [Nat.toDigits 10 major.toNat, Nat.toDigits 10 minor.toNat, Nat.toDigits 10 micro.toNat]
      [major.toNat, minor.toNat, micro.toNat] :=
    .cons (writesComponent_toDigits major) (.cons (writesComponent_toDigits minor)
      (.cons (writesComponent_toDigits micro) .nil))
  by_cases hnano : nano = 0
  · subst hnano
    refine ⟨_, _, ?_, hcomponents, by simp, by simp, rfl⟩
    simp [display, Nat.repr]
  · refine ⟨_, _, ?_, List.rel_append hcomponents (.cons (writesComponent_toDigits nano) .nil),
      by simp, by simp, rfl⟩
    simp [display, Nat.repr, hnano]

theorem parse_display (v : Version) :
  parse v.display = .ok v
  := by
  apply parse_eq_ok_iff_append.mpr
  exact ⟨[], v.display.toList, [], by simp, by simp, by simp, writes_display v⟩

theorem display_eq_iff :
  v.display = w.display ↔ v = w
  := by
  constructor
  · intro h
    have hread := parse_display v
    rw [h, parse_display w] at hread
    exact (Except.ok.inj hread).symm
  · rintro rfl
    rfl

/-! ### Order -/

/-- Numbers are compared before what stands behind them. -/
theorem isGE_compare_then (m n : Nat) (o : Ordering) :
  ((Ord.compare m n).then o).isGE = true ↔ n < m ∨ n = m ∧ o.isGE = true
  := by
  cases h : Ord.compare m n with
  | lt =>
      have hlt := Nat.compare_eq_lt.mp h
      simp only [Ordering.then, Ordering.isGE, Bool.false_eq_true, false_iff]
      omega
  | eq =>
      obtain rfl := Nat.compare_eq_eq.mp h
      simp [Ordering.then]
  | gt =>
      have hgt := Nat.compare_eq_gt.mp h
      simp [Ordering.then, Ordering.isGE, hgt]

/-- A version has reached another if the numbers of the other are not greater, in the order that
looks at the first number in which they differ. -/
theorem atLeast_iff :
  v.atLeast w = true ↔ w.components ≤ v.components
  := by
  have hlast : (Ord.compare v.nano.toNat w.nano.toNat).isGE = true
      ↔ w.nano.toNat < v.nano.toNat ∨ w.nano.toNat = v.nano.toNat := by
    rw [Nat.isGE_compare, Nat.le_iff_lt_or_eq]
  rw [atLeast, compare, isGE_compare_then, isGE_compare_then, isGE_compare_then, hlast, components,
    components, ← not_lt]
  simp only [List.cons_lt_cons_iff, List.not_lt_nil, and_false, or_false]
  omega

/-- A text is read as a version precisely if, but for blanks around it, it is two to four numbers of
sixteen bits with points between them, each of them in digits after at most one plus sign; it gives
these numbers, and zero for those that are missing.  Every other text is refused.  The text of a
version is read back as the version, so that only equal versions have the same text; and versions
are compared as the lists of their numbers are. -/
theorem parse_exact :
  (∀ s v, parse s = .ok v ↔ ∃ front body back, s.toList = front ++ body ++ back
      ∧ (∀ c ∈ front, Text.isBlank c = true) ∧ (∀ c ∈ back, Text.isBlank c = true)
      ∧ Writes body v)
    ∧ (∀ s, parse s = .error (.invalidVersion s) ↔ ∀ v, parse s ≠ .ok v)
    ∧ (∀ v : Version, parse v.display = .ok v)
    ∧ (∀ v w : Version, v.display = w.display ↔ v = w)
    ∧ ∀ v w : Version, v.atLeast w = true ↔ w.components ≤ v.components
  :=
  ⟨fun _ _ => parse_eq_ok_iff_append, fun _ => parse_eq_error_iff, parse_display,
    fun _ _ => display_eq_iff, fun _ _ => atLeast_iff⟩

example : parse "\t+3.08\n" = .ok ⟨3, 8, 0, 0⟩ := by decide

example : parse "3.8." = .error (.invalidVersion "3.8.") := by decide

end TypedSql.Sql.Version
