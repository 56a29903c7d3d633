import TypedSql.Proofs.Token.Lexemes
import TypedSql.Proofs.Token.Single
import TypedSql.Sql.Cursor

/-!
# Offsets

The placeholders of a text are given by offsets in bytes.  Each of them is the offset of a question
mark, the brackets behind it belong to it, and no placeholder begins before the one before it has
ended (`pairwise_placeholders`, `Placeholder.standsIn`).  The offsets where a placeholder begins
and where it ends are between characters, so that the text can be cut there.
-/

namespace TypedSql.Sql

/-! ### Parts of a text -/

theorem pos?_eq_some_iff {s : String} {n : String.Pos.Raw} {p : s.Pos} :
  s.pos? n = some p ↔ p.offset = n
  := by
  unfold String.pos? String.Slice.pos?
  constructor
  · intro h
    obtain ⟨q, hq, rfl⟩ := Option.map_eq_some_iff.mp h
    split at hq
    · cases hq
      rfl
    · cases hq
  · rintro rfl
    rw [dif_pos (String.Pos.Raw.isValidForSlice_eq_true_iff.mpr p.isValid.toSlice)]
    rfl

/-- What stands before the end of a part is what stands before the part, followed by the part. -/
theorem sliceTo_append_slice {s : String} {p q : s.Pos} (h : p ≤ q) :
  (s.sliceTo p).copy ++ (s.slice p q h).copy = (s.sliceTo q).copy
  := by
  rw [← String.toByteArray_inj, String.toByteArray_append, p.splits.toByteArray_left_eq,
    q.splits.toByteArray_left_eq, String.toByteArray_copy_slice]
  exact (ByteArray.extract_eq_extract_append_extract p.offset.byteIdx (Nat.zero_le _) h).symm

/-- A part exists between two offsets exactly where the text is made of it, what stands before the
first offset and what stands behind the second. -/
theorem part?_eq_some_iff {s t : String} {n m : Nat} :
  part? s n m = some t
    ↔ ∃ a b, s = a ++ t ++ b ∧ n = a.utf8ByteSize ∧ m = (a ++ t).utf8ByteSize
  := by
  simp only [part?, Option.bind_eq_bind, Option.bind_eq_some_iff, pos?_eq_some_iff,
    Option.pure_def, Option.some.injEq]
  constructor
  · rintro ⟨p, hp, q, hq, u, hu, rfl⟩
    unfold String.slice? at hu
    split at hu
    · rename_i hle
      cases hu
      have hsplit := sliceTo_append_slice hle
      refine ⟨(s.sliceTo p).copy, (s.sliceFrom q).copy, ?_, ?_, ?_⟩
      · rw [hsplit]
        exact q.splits.eq_append
      · rw [p.splits.offset_eq_rawEndPos] at hp
        exact (congrArg String.Pos.Raw.byteIdx hp).symm
      · rw [q.splits.offset_eq_rawEndPos] at hq
        rw [hsplit]
        exact (congrArg String.Pos.Raw.byteIdx hq).symm
    · cases hu
  · rintro ⟨a, b, hs, rfl, rfl⟩
    have hs' : s = a ++ (t ++ b) := by rw [hs, String.append_assoc]
    have hp : String.Pos.Raw.IsValid s a.rawEndPos :=
      String.Pos.Raw.isValid_iff_exists_append.mpr ⟨a, t ++ b, hs', rfl⟩
    have hq : String.Pos.Raw.IsValid s (a ++ t).rawEndPos :=
      String.Pos.Raw.isValid_iff_exists_append.mpr ⟨a ++ t, b, hs, rfl⟩
    have hle : s.pos _ hp ≤ s.pos _ hq := by
      simp [String.Pos.le_iff, String.Pos.Raw.le_iff]
    have hbefore : (s.pos _ hp).Splits a (t ++ b) := ⟨hs', rfl⟩
    have hbehind : (s.pos _ hq).Splits (a ++ t) b := ⟨hs, rfl⟩
    refine ⟨s.pos _ hp, rfl, s.pos _ hq, rfl, _, dif_pos hle, ?_⟩
    have hsplit := sliceTo_append_slice hle
    rw [String.Pos.Splits.eq_left (String.Pos.splits _) hbefore,
      String.Pos.Splits.eq_left (String.Pos.splits _) hbehind] at hsplit
    exact (String.append_right_inj a).mp hsplit

/-- The part that stands between two texts. -/
theorem part?_of_toList {s : String} {a t b : List Char} (h : s.toList = a ++ (t ++ b)) :
  part? s (byteSize a) (byteSize a + byteSize t) = some (String.ofList t)
  := by
  rw [part?_eq_some_iff]
  refine ⟨String.ofList a, String.ofList b, ?_, ?_, ?_⟩
  · rw [← String.ofList_toList (s := s), h, String.ofList_append, String.ofList_append,
      String.append_assoc]
  · rw [utf8ByteSize_ofList]
  · rw [String.utf8ByteSize_append, utf8ByteSize_ofList, utf8ByteSize_ofList]

/-! ### The text of a placeholder -/

/-- What stands behind the question mark of a placeholder. -/
def Token.brackets (array : Bool) : List Char :=
  if array then ['[', ']'] else []

theorem Token.text_placeholder (array : Bool) :
  (Token.placeholder array).text = ['?'] ++ brackets array
  := by
  cases array <;> rfl

theorem Token.add_byteSize_placeholder (n : Nat) (array : Bool) :
  n + byteSize (Token.placeholder array).text = n + byteSize ['?'] + byteSize (brackets array)
  := by
  rw [text_placeholder, byteSize_append, Nat.add_assoc]

/-- The question mark of a placeholder. -/
def Placeholder.mark (p : Placeholder) : Placeholder :=
  { p with isArray := false }

/-! ### The order of placeholders -/

theorem Placeholder.stop_eq (p : Placeholder) :
  p.stop = p.offset + byteSize (Token.placeholder p.isArray).text
  := by
  obtain ⟨n, array⟩ := p
  cases array <;> rfl

theorem Placeholder.offset_lt_stop (p : Placeholder) :
  p.offset < p.stop
  := by
  unfold stop
  split <;> omega

theorem le_offset {n : Nat} {ts : List Token} :
  ∀ p ∈ placeholdersFrom n ts, n ≤ p.offset
  := by
  induction ts generalizing n with
  | nil => exact List.forall_mem_nil _
  | cons t ts ih =>
      have hrest : ∀ p ∈ placeholdersFrom (n + byteSize t.text) ts, n ≤ p.offset :=
        fun p hp => Nat.le_trans (Nat.le_add_right _ _) (ih p hp)
      cases t with
      | placeholder array => exact List.forall_mem_cons.mpr ⟨Nat.le_refl n, hrest⟩
      | _ => exact hrest

theorem pairwise_placeholdersFrom (n : Nat) (ts : List Token) :
  (placeholdersFrom n ts).Pairwise fun p q => p.stop ≤ q.offset
  := by
  induction ts generalizing n with
  | nil => exact .nil
  | cons t ts ih =>
      cases t with
      | placeholder array =>
          apply List.Pairwise.cons _ (ih _)
          intro q hq
          rw [Placeholder.stop_eq]
          exact le_offset q hq
      | _ => exact ih _

/-- A placeholder begins behind those before it, none of which reaches into it. -/
theorem pairwise_placeholders (s : String) :
  (placeholders s).Pairwise fun p q => p.offset < q.offset ∧ p.stop ≤ q.offset
  := by
  apply (pairwise_placeholdersFrom 0 _).imp
  intro p q h
  exact ⟨Nat.lt_of_lt_of_le p.offset_lt_stop h, h⟩

/-! ### Where a placeholder stands -/

theorem exists_of_mem_placeholdersFrom {n : Nat} {ts : List Token} {p : Placeholder}
    (h : p ∈ placeholdersFrom n ts) :
  ∃ us vs, ts = us ++ .placeholder p.isArray :: vs
    ∧ p.offset = n + byteSize (us.flatMap Token.text)
  := by
  induction ts generalizing n with
  | nil => cases h
  | cons t ts ih =>
      have hrest (h : p ∈ placeholdersFrom (n + byteSize t.text) ts) :
          ∃ us vs, t :: ts = us ++ .placeholder p.isArray :: vs
            ∧ p.offset = n + byteSize (us.flatMap Token.text) := by
        obtain ⟨us, vs, rfl, hoffset⟩ := ih h
        use t :: us, vs, rfl
        rw [hoffset, List.flatMap_cons, byteSize_append, Nat.add_assoc]
      cases t with
      | placeholder array =>
          rcases List.mem_cons.mp h with rfl | h
          · exact ⟨[], ts, rfl, rfl⟩
          · exact hrest h
      | _ => exact hrest h

/-- The tokens from one on are those of what is left of the text. -/
theorem tokens_flatMap_of_append {cs : List Char} {us vs : List Token}
    (h : tokens cs = us ++ vs) :
  tokens (vs.flatMap Token.text) = vs
  := by
  induction us generalizing cs with
  | nil =>
      rw [List.nil_append] at h
      rw [← h, text_tokens]
  | cons u us ih => exact ih (tokens_flatMap_of_cons h)

/-- Brackets behind a question mark belong to the placeholder. -/
theorem isArray_iff {array : Bool} {ts : List Token} {c : List Char}
    (h : tokens ('?' :: c) = .placeholder array :: ts) :
  array = true ↔ ['[', ']'] <+: c
  := by
  have htext := text_tokens ('?' :: c)
  rw [h, List.flatMap_cons] at htext
  constructor
  · rintro rfl
    obtain ⟨-, hc⟩ := List.cons.inj htext
    exact ⟨_, hc⟩
  · rintro ⟨r, rfl⟩
    have hbrackets : tokens ('?' :: (['[', ']'] ++ r)) = .placeholder true :: tokens r := rfl
    rw [hbrackets] at h
    cases h
    rfl

/-- A placeholder stands in a text where there is a question mark, and where the text can be cut
before it, behind the question mark and behind all of it. -/
structure Placeholder.StandsIn (p : Placeholder) (s : String) : Prop where
  questionMark : ∃ before behind, s = before ++ "?" ++ behind ∧ p.offset = before.utf8ByteSize
    ∧ (p.isArray = true ↔ ['[', ']'] <+: behind.toList)
  begins : String.Pos.Raw.IsValid s ⟨p.offset⟩
  passes : String.Pos.Raw.IsValid s ⟨p.offset + 1⟩
  ends : String.Pos.Raw.IsValid s ⟨p.stop⟩
  inside : p.stop ≤ s.utf8ByteSize

/-- The placeholders of a text stand in it. -/
theorem Placeholder.standsIn {s : String} :
  ∀ p ∈ placeholders s, p.StandsIn s
  := by
  intro p hp
  obtain ⟨us, vs, htokens, hoffset⟩ := exists_of_mem_placeholdersFrom hp
  rw [Nat.zero_add] at hoffset
  have htext := text_tokens s.toList
  rw [htokens, List.flatMap_append, List.flatMap_cons] at htext
  have hpart := part?_of_toList htext.symm
  rw [← hoffset, ← p.stop_eq, part?_eq_some_iff] at hpart
  obtain ⟨a, b, hs, hbegin, hend⟩ := hpart
  have hmark := tokens_flatMap_of_append htokens
  rw [List.flatMap_cons, Token.text_placeholder] at hmark
  have hsplit : s = String.ofList (us.flatMap Token.text) ++ "?"
      ++ String.ofList (Token.brackets p.isArray ++ vs.flatMap Token.text) := by
    rw [← String.toList_inj, ← htext, Token.text_placeholder]
    simp
  rw [← utf8ByteSize_ofList] at hoffset
  constructor
  · refine ⟨_, _, hsplit, hoffset, ?_⟩
    rw [String.toList_ofList]
    exact isArray_iff hmark
  · rw [hbegin, String.Pos.Raw.isValid_iff_exists_append]
    exact ⟨a, _, hs.trans String.append_assoc, rfl⟩
  · rw [hoffset, String.Pos.Raw.isValid_iff_exists_append]
    refine ⟨_, _, hsplit, ?_⟩
    rw [String.Pos.Raw.ext_iff, String.byteIdx_rawEndPos, String.utf8ByteSize_append]
    rfl
  · rw [hend, String.Pos.Raw.isValid_iff_exists_append]
    exact ⟨_, b, hs, rfl⟩
  · have hsize := congrArg String.utf8ByteSize hs
    rw [String.utf8ByteSize_append] at hsize
    rw [hend, hsize]
    apply Nat.le_add_right

end TypedSql.Sql
