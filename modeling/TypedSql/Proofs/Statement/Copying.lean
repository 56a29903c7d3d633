import TypedSql.Proofs.Statement.Flattening
import TypedSql.Proofs.Token.Offsets

/-!
# Copied statements

A statement that is flattened with a cursor, and a fragment into which literals are put with one,
are the ones that come from the tokens, whatever the text and however many arguments there are
(`Statement.flattenInPlace_eq`, `inlineInPlace_eq`).  In particular every part that is copied
exists: it lies within the text and is cut between characters.

One invariant carries both loops: between the cursor and the next token stands a gap, which has
been passed and is still to be copied.
-/

namespace TypedSql.Sql

/-! ### The gap before the cursor -/

namespace Cursor

/-- What stands in a text from the cursor on: a gap, and what has not been looked at. -/
def Faces (c : Cursor) (s : String) (gap rest : List Char) : Prop :=
  ∃ done, s.toList = done ++ (gap ++ rest) ∧ c.position = byteSize done

variable {c : Cursor} {s : String} {gap a rest : List Char}

theorem faces_start (s : String) :
  start.Faces s [] s.toList
  := ⟨[], rfl, rfl⟩

/-- What is looked at and not written over becomes part of the gap. -/
theorem Faces.keep (h : c.Faces s gap (a ++ rest)) :
  c.Faces s (gap ++ a) rest
  := by
  obtain ⟨done, hs, hposition⟩ := h
  exact ⟨done, by rw [hs, List.append_assoc], hposition⟩

/-- What comes next is a part of the text. -/
theorem Faces.part? (h : c.Faces s gap (a ++ rest)) :
  Sql.part? s (c.position + byteSize gap) (c.position + byteSize gap + byteSize a)
    = some (String.ofList a)
  := by
  obtain ⟨done, hs, hposition⟩ := h
  rw [hposition, ← byteSize_append]
  apply part?_of_toList (b := rest)
  rw [hs, List.append_assoc]

/-- The gap is copied, and the cursor goes on wherever it should. -/
theorem Faces.pass (h : c.Faces s gap rest) (stop : Nat) :
  c.pass s (c.position + byteSize gap) stop = some ⟨stop, c.written ++ String.ofList gap⟩
  := by
  obtain ⟨done, hs, hposition⟩ := h
  rw [Cursor.pass, hposition, part?_of_toList hs]
  rfl

/-- A cursor behind what came next faces the rest. -/
theorem Faces.behind (h : c.Faces s gap (a ++ rest)) (written : String) :
  Faces ⟨c.position + byteSize gap + byteSize a, written⟩ s [] rest
  := by
  obtain ⟨done, hs, hposition⟩ := h
  refine ⟨done ++ gap ++ a, ?_, ?_⟩
  · rw [hs]
    simp
  · simp only [hposition, byteSize_append]

/-- At the end of the text the gap is copied. -/
theorem Faces.finish (h : c.Faces s gap []) :
  c.finish s = some (c.written ++ String.ofList gap)
  := by
  obtain ⟨done, hs, hposition⟩ := h
  have hsize : s.utf8ByteSize = byteSize done + byteSize gap := by
    rw [← byteSize_toList, hs, List.append_nil, byteSize_append]
  rw [Cursor.finish, hposition, hsize, part?_of_toList hs]
  rfl

end Cursor

/-! ### Flattening -/

namespace Statement

/-- From wherever the cursor is, flattening goes on as it does with the tokens that are left. -/
theorem flattenFrom_eq {s : String} {ts : List Token} {c : Cursor} {gap : List Char}
    (h : c.Faces s gap (ts.flatMap Token.text)) (as : List BoundArg) (values : List Value) :
  flattenFrom s (placeholdersFrom (c.position + byteSize gap) ts) as c values
    = some (c.written ++ String.ofList (gap ++ (flattenTokens ts as).1),
        values ++ (flattenTokens ts as).2)
  := by
  induction ts generalizing c gap as values with
  | nil =>
      simp [placeholdersFrom, flattenFrom, h.finish, flattenTokens]
  | cons t ts ih =>
      rw [List.flatMap_cons] at h
      cases t with
      | placeholder array =>
          have hstop := Placeholder.stop_eq ⟨c.position + byteSize gap, array⟩
          simp only [placeholdersFrom, flattenFrom, hstop, h.pass, Option.bind_eq_bind,
            Option.bind_some]
          -- behind the placeholder the gap is empty, whatever has been written for it
          have hrest (as : List BoundArg) (values : List Value) (written : String) :=
            ih (h.behind written) as values
          simp only [byteSize, Nat.add_zero, List.nil_append] at hrest
          cases as with
          | nil =>
              simp only [h.part?, Option.bind_some, Cursor.write, hrest]
              simp [flattenTokens, String.append_assoc]
          | cons a as =>
              cases a with
              | value v =>
                  simp only [Cursor.write, hrest]
                  simp [flattenTokens, String.append_assoc, scalarMark]
              | array vs =>
                  simp only [Cursor.write, hrest]
                  simp [flattenTokens, String.append_assoc]
      | _ =>
          have hkeep := ih h.keep as values
          rw [byteSize_append, ← Nat.add_assoc] at hkeep
          simp only [placeholdersFrom, hkeep, flattenTokens, List.append_assoc]

/-- Flattening a statement with a cursor always succeeds and is flattening it by its tokens. -/
theorem flattenInPlace_eq (st : Statement) :
  st.flattenInPlace = some st.flatten
  := by
  have hfaces : Cursor.start.Faces st.sql [] ((tokens st.sql.toList).flatMap Token.text) := by
    rw [text_tokens]
    apply Cursor.faces_start
  have hflatten := flattenFrom_eq hfaces st.args []
  simp only [Cursor.start, List.nil_append, String.empty_append] at hflatten
  exact hflatten

end Statement

/-! ### Putting literals in -/

theorem placeholdersFrom_cons {t : Token} (ht : t.isPlaceholder = false) (n : Nat)
    (ts : List Token) :
  placeholdersFrom n (t :: ts) = placeholdersFrom (n + byteSize t.text) ts
  := by
  cases t with
  | placeholder array => cases ht
  | _ => rfl

theorem substitute_cons_eq {t : Token} (ht : t.isPlaceholder = false) (validated : Bool)
    (ts : List Token) (vs : List Value) :
  substitute validated (t :: ts) vs = (substitute validated ts vs).map (t.text ++ ·)
  := by
  cases t with
  | placeholder array => cases ht
  | _ => rfl

/-- From wherever the cursor is, literals are put in as they are with the tokens that are left. -/
theorem inlineFrom_eq (validated : Bool) {s : String} {ts : List Token} {vs : List Value}
    (hcount : ts.countP Token.isPlaceholder = vs.length) ⦃c : Cursor⦄ ⦃gap : List Char⦄
    (h : c.Faces s gap (ts.flatMap Token.text)) :
  inlineFrom validated s
      (((placeholdersFrom (c.position + byteSize gap) ts).map Placeholder.offset).zip vs) c
    = some ((substitute validated ts vs).map fun r => c.written ++ String.ofList (gap ++ r))
  := by
  revert c gap
  refine matched_induction ?nil ?placeholder ?other ts vs hcount
  case nil =>
    intro c gap h
    simp [placeholdersFrom, inlineFrom, h.finish, substitute, Except.map]
  case placeholder =>
    intro array ts v vs _ ih c gap h
    rw [List.flatMap_cons, Token.text_placeholder] at h
    -- only the question mark is passed: brackets behind it become the gap before the next token
    have hrest (l : String) :
        inlineFrom validated s (((placeholdersFrom (c.position + byteSize gap
            + byteSize (Token.placeholder array).text) ts).map Placeholder.offset).zip vs)
            ⟨c.position + byteSize gap + 1, c.written ++ String.ofList gap ++ l⟩
          = some ((substitute validated ts vs).map fun r => c.written ++ String.ofList gap ++ l
              ++ String.ofList (Token.brackets array ++ r)) := by
      rw [Token.add_byteSize_placeholder]
      exact ih (h.behind (a := ['?']) _).keep
    simp only [placeholdersFrom, List.map_cons, List.zip_cons_cons, inlineFrom, h.pass,
      Option.bind_eq_bind, Option.bind_some]
    cases hl : literal validated v with
    | error e => simp [substitute, hl, bind, Except.bind, Except.map]
    | ok l =>
        simp only [Cursor.write, hrest]
        cases hr : substitute validated ts vs with
        | error e => simp [substitute, hl, hr, bind, Except.bind, Except.map]
        | ok r =>
            simp [substitute, hl, hr, bind, Except.bind, Except.map, pure, Except.pure,
              Token.brackets, String.append_assoc]
  case other =>
    intro t ts vs ht _ ih c gap h
    rw [List.flatMap_cons] at h
    have hkeep := ih h.keep
    rw [byteSize_append, ← Nat.add_assoc] at hkeep
    rw [placeholdersFrom_cons ht, hkeep, substitute_cons_eq ht]
    cases substitute validated ts vs <;> simp [Except.map]

/-- Putting literals in with a cursor always succeeds and is putting them in by the tokens. -/
theorem inlineInPlace_eq (validated : Bool) (s : String) (args : List Value) :
  inlineInPlace validated s args = some (inlineArguments validated s args)
  := by
  have hlength : ((placeholders s).map Placeholder.offset).length
      = (tokens s.toList).countP Token.isPlaceholder := by
    rw [List.length_map, placeholders, length_placeholdersFrom]
  simp only [inlineInPlace, inlineArguments, hlength]
  split
  · rename_i hcount
    have hfaces : Cursor.start.Faces s [] ((tokens s.toList).flatMap Token.text) := by
      rw [text_tokens]
      apply Cursor.faces_start
    have hinline := inlineFrom_eq validated hcount hfaces
    simp only [Cursor.start, List.nil_append, String.empty_append] at hinline
    exact hinline
  · rfl

/-- Putting literals in replaces the question marks of the placeholders, in their order, by the
literals of the values, and keeps everything else, also the brackets behind a question mark. -/
theorem replaces_substitute {validated : Bool} {ts : List Token} {vs : List Value}
    (hcount : ts.countP Token.isPlaceholder = vs.length) ⦃r : List Char⦄
    (h : substitute validated ts vs = .ok r) (n : Nat) :
  ∃ ls, List.Forall₂ (fun v l => literal validated v = .ok l) vs ls
    ∧ Replaces n (((placeholdersFrom n ts).map Placeholder.mark).zip (ls.map String.toList))
        (ts.flatMap Token.text) r
  := by
  revert r n
  refine matched_induction ?nil ?placeholder ?other ts vs hcount
  case nil =>
    intro r h n
    obtain rfl := Except.ok.inj h
    exact ⟨[], .nil, .rest n []⟩
  case placeholder =>
    intro array ts v vs _ ih r h n
    obtain ⟨l, r, hl, hr, rfl⟩ := substitute_placeholder.mp h
    obtain ⟨ls, hls, hreplaces⟩ := ih hr (n + byteSize (Token.placeholder array).text)
    rw [Token.add_byteSize_placeholder] at hreplaces
    refine ⟨l :: ls, .cons hl hls, ?_⟩
    rw [placeholdersFrom, Token.add_byteSize_placeholder, List.flatMap_cons,
      Token.text_placeholder, List.append_assoc, List.append_assoc]
    exact .next (p := ⟨n, false⟩) (c := []) rfl hreplaces.append_left
  case other =>
    intro t ts vs ht _ ih r h n
    obtain ⟨r, hr, rfl⟩ := (substitute_cons ht).mp h
    obtain ⟨ls, hls, hreplaces⟩ := ih hr (n + byteSize t.text)
    rw [placeholdersFrom_cons ht, List.flatMap_cons]
    exact ⟨ls, hls, hreplaces.append_left⟩

/-- Placeholders never make a cursor cut a text where it cannot be cut.

The placeholders of every text stand in it, one behind the other.  Flattening a statement with a
cursor succeeds, whatever its text and however many arguments it has, and so does putting literals
into a fragment; and everything between what is replaced is kept, in its order. -/
theorem slices_valid :
  (∀ s : String, ((placeholders s).Pairwise fun p q => p.offset < q.offset ∧ p.stop ≤ q.offset)
      ∧ ∀ p ∈ placeholders s, p.StandsIn s)
    ∧ (∀ st : Statement, st.flattenInPlace = some st.flatten
      ∧ Replaces 0 ((placeholders st.sql).zip (st.args.map BoundArg.expansion)) st.sql.toList
          st.flatten.1.toList)
    ∧ ∀ (validated : Bool) (s : String) (args : List Value),
      inlineInPlace validated s args = some (inlineArguments validated s args)
        ∧ ∀ t, inlineArguments validated s args = .ok t →
          ∃ ls, List.Forall₂ (fun v l => literal validated v = .ok l) args ls
            ∧ Replaces 0 (((placeholders s).map Placeholder.mark).zip (ls.map String.toList))
                s.toList t.toList
  := by
  refine ⟨fun s => ⟨pairwise_placeholders s, Placeholder.standsIn⟩,
    fun st => ⟨st.flattenInPlace_eq, st.replaces_flatten⟩, fun validated s args =>
    ⟨inlineInPlace_eq validated s args, fun t ht => ?_⟩⟩
  obtain ⟨hcount, hsubstitute⟩ := inlineArguments_eq_ok_iff.mp ht
  have hreplaces := replaces_substitute hcount hsubstitute 0
  rw [text_tokens] at hreplaces
  exact hreplaces

/-- Behind characters of several bytes a statement is flattened, also where arguments are missing,
and a literal is put before brackets, which stay. -/
theorem slices_valid_multibyte :
  (Statement.mk "é = ? AND '?' = ü AND x IN ?[] OR ?"
        [.value (.integer 1), .array [.null, .null]] false).flattenInPlace
      = some ("é = ? AND '?' = ü AND x IN ?, ? OR ?", [.integer 1, .null, .null])
    ∧ inlineInPlace true "é IN ?[]" [.text "ü"] = some (.ok "é IN 'ü'[]")
    ∧ ∃ ls, List.Forall₂ (fun v l => literal true v = .ok l) [.text "ü"] ls
      ∧ Replaces 0 (((placeholders "é IN ?[]").map Placeholder.mark).zip (ls.map String.toList))
          "é IN ?[]".toList "é IN 'ü'[]".toList
  := by
  obtain ⟨-, hflatten, hinline⟩ := slices_valid
  obtain ⟨hinlined, hreplaces⟩ := hinline true "é IN ?[]" [.text "ü"]
  refine ⟨?_, ?_, hreplaces _ rfl⟩
  · rw [(hflatten _).1]
    rfl
  · rw [hinlined]
    rfl

end TypedSql.Sql
