import TypedSql.Json.Reader
import TypedSql.Json.Writer

/-!
# Written strings are read

Each character of a text is written as one unit of a string: as it is, as a letter behind a
backslash, or as four hexadecimal digits.  What is read behind the opening mark of a written
string is the text, up to the closing mark: `stringText_quote`.
-/

namespace TypedSql.Json

/-- Control characters are written with four digits, of which the first two are zeros. -/
theorem hexUnit?_hexDigit :
  ∀ n < 32, hexUnit? '0' '0' (hexDigit (n / 16)) (hexDigit n) = some n
  := by
  decide

theorem stringUnits_letter {e c : Char} (he : escaped? e = some c) (r : List Char) :
  stringUnits ('\\' :: e :: r) = (stringUnits r).map fun p => (.char c :: p.1, p.2)
  := by
  have hu : ∀ a b d f s, e = 'u' → r = a :: b :: d :: f :: s → False := by
    rintro a b d f s rfl -
    cases he
  rw [stringUnits, he]
  · cases stringUnits r <;> rfl
  · exact hu

theorem stringUnits_hex {n : Nat} (h : n < 32) (r : List Char) :
  stringUnits ('\\' :: 'u' :: '0' :: '0' :: hexDigit (n / 16) :: hexDigit n :: r)
    = (stringUnits r).map fun p => (.unit n :: p.1, p.2)
  := by
  rw [stringUnits, hexUnit?_hexDigit n h]
  cases stringUnits r <;> rfl

theorem stringUnits_plain {c : Char} (hmark : c ≠ '\x22') (hslash : c ≠ '\\') (hc : ¬ c < ' ')
    (r : List Char) :
  stringUnits (c :: r) = (stringUnits r).map fun p => (.char c :: p.1, p.2)
  := by
  rw [stringUnits, if_neg hmark, if_neg (by simp [hslash, hc])]
  · cases stringUnits r <;> rfl
  · exact fun _ _ _ _ _ h => absurd h hslash
  · exact fun _ _ h => absurd h hslash

theorem stringUnits_mark (r : List Char) :
  stringUnits ('\x22' :: r) = some ([], r)
  := by
  rw [stringUnits, if_pos rfl] <;> simp

/-- A character is written as a letter behind a backslash, with hexadecimal digits, or as it is. -/
theorem escape_cases (c : Char) :
  (∃ e, escaped? e = some c ∧ escape c = ['\\', e])
    ∨ (c.toNat < 32
      ∧ escape c = ['\\', 'u', '0', '0', hexDigit (c.toNat / 16), hexDigit c.toNat])
    ∨ (c ≠ '\x22' ∧ c ≠ '\\' ∧ ¬ c < ' ' ∧ escape c = [c])
  := by
  unfold escape
  iterate 7
    split
    · rename_i h
      exact .inl ⟨_, by rw [h]; rfl, rfl⟩
  split
  · rename_i h
    exact .inr (.inl ⟨h, rfl⟩)
  · rename_i hmark hslash _ _ _ _ _ hc
    exact .inr (.inr ⟨hmark, hslash, hc, rfl⟩)

/-- A written character is read as one unit, which makes up the character. -/
theorem exists_unit (c : Char) :
  ∃ u, (∀ r, stringUnits (escape c ++ r) = (stringUnits r).map fun p => (u :: p.1, p.2))
    ∧ ∀ us, characters? (u :: us) = (characters? us).map (c :: ·)
  := by
  obtain ⟨e, he, heq⟩ | ⟨hc, heq⟩ | ⟨hmark, hslash, hc, heq⟩ := escape_cases c
  · rw [heq]
    exact ⟨.char c, stringUnits_letter he, fun _ => rfl⟩
  · rw [heq]
    refine ⟨.unit c.toNat, stringUnits_hex hc, ?_⟩
    intro us
    rw [characters?.eq_def]
    simp only [Char.ofNat_toNat]
    exact if_pos (.inl (by omega))
  · rw [heq]
    exact ⟨.char c, stringUnits_plain hmark hslash hc, fun _ => rfl⟩

theorem exists_units (cs r : List Char) :
  ∃ us, stringUnits (cs.flatMap escape ++ '\x22' :: r) = some (us, r) ∧ characters? us = some cs
  := by
  induction cs with
  | nil => exact ⟨[], stringUnits_mark r, rfl⟩
  | cons c cs ih =>
      obtain ⟨us, hus, hcs⟩ := ih
      obtain ⟨u, hread, hmake⟩ := exists_unit c
      refine ⟨u :: us, ?_, ?_⟩
      · rw [List.flatMap_cons, List.append_assoc, hread, hus]
        rfl
      · rw [hmake, hcs]
        rfl

/-- What is read behind the opening mark of a written text is the text. -/
theorem stringText_quote (s : String) (r : List Char) :
  stringText (s.toList.flatMap escape ++ '\x22' :: r) = some (some s, r)
  := by
  obtain ⟨us, hus, hs⟩ := exists_units s.toList r
  simp only [stringText, hus, Option.map_some, hs, String.ofList_toList]

end TypedSql.Json
