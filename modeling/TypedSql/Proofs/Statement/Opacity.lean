import Mathlib.Data.List.Basic
import TypedSql.Proofs.Token.Lexemes
import TypedSql.Proofs.Tree.Redaction
import TypedSql.Proofs.Tree.Written

/-!
# Opacity of texts

Two trees that differ only in the contents of their texts are compiled, with literals under
validation, to statements with the same lexemes: whatever a text contains, it cannot change the
structure of the statement that it is written in.
-/

namespace TypedSql.Sql

/-! ### Literals -/

/-- The literal of a text has no lexemes, whatever the text contains. -/
theorem lexemes_quote (s : String) :
  lexemes (quote s).toList = []
  := by
  simp only [lexemes, tokens_quote, List.filterMap_cons, Token.lexeme?, List.filterMap_nil]

/-- A value and the value without the content of its text have literals with the same
lexemes. -/
theorem exists_literal_redact {validated : Bool} {v : Value} {s : String}
    (h : literal validated v = .ok s) :
  ∃ t, literal validated v.redact = .ok t ∧ lexemes s.toList = lexemes t.toList
  := by
  cases v with
  | text u =>
      use quote ""
      constructor
      · simp [Value.redact, literal]
      · simp only [literal] at h
        split at h
        · cases h
        · cases h
          rw [lexemes_quote, lexemes_quote]
  | _ => exact ⟨s, h, rfl⟩

/-- The lexemes of a list of literals are not changed by redaction. -/
theorem Emission.lexemes_literalList {flags : Flags} {vs : List Value}
    (h : (literalList flags vs).failure = none) :
  (literalList flags (vs.map Value.redact)).failure = none
    ∧ lexemes (literalList flags vs).text.toList
        = lexemes (literalList flags (vs.map Value.redact)).text.toList
  := by
  induction vs with
  | nil => exact ⟨rfl, rfl⟩
  | cons v vs ih =>
      cases vs with
      | nil =>
          obtain ⟨s, hs, ht⟩ := exists_of_ofExcept h
          obtain ⟨t, hl, hlex⟩ := exists_literal_redact hs
          simp only [List.map_cons, List.map_nil, literalList, hs, hl]
          exact ⟨rfl, hlex⟩
      | cons w vs =>
          obtain ⟨hvs, s, hs⟩ := exists_of_literalList h
          obtain ⟨hvs', hlexs⟩ := ih hvs
          obtain ⟨t, ht, hlex⟩ := exists_literal_redact hs
          simp only [List.map_cons] at hvs' hlexs ⊢
          rw [literalList_cons hs, literalList_cons ht]
          use hvs'
          simp only [lexemes] at hlex hlexs ⊢
          rw [tokens_literal_append hs, tokens_literal_append ht, List.filterMap_append,
            List.filterMap_append, hlex]
          simp only [List.filterMap_cons, Token.lexeme?, hlexs]

/-- The lexemes of a written step are not changed by redaction. -/
theorem Step.Valid.lexemes_redact {n : Node} {s : Step} (hs : s.Valid n .literals) :
  lexemes (s.written .literals) = lexemes (s.redact.written .literals)
  := by
  have h := hs.succeeds
  obtain ⟨flags, piece⟩ := s
  cases piece with
  | scalar v =>
      cases hn : v.isNull with
      | true =>
          obtain rfl : v = .null := by cases v <;> first | rfl | cases hn
          rfl
      | false =>
          have hn' : v.redact.isNull = false := by cases v <;> first | rfl | cases hn
          rw [Emission.ofStep_literals hn] at h
          obtain ⟨l, hl, -⟩ := Emission.exists_of_ofExcept h
          obtain ⟨t, ht, hlex⟩ := exists_literal_redact hl
          rw [Step.redact, Step.written, Step.written, Emission.ofStep_literals hn,
            Emission.ofStep_literals hn', hl, ht]
          exact hlex
  | list vs =>
      cases vs with
      | nil => rfl
      | cons v vs => exact (Emission.lexemes_literalList h).2
  | _ => rfl

/-! ### Statements -/

namespace Node

theorem defaultFlags_redact (n : Node) :
  n.redact.defaultFlags = n.defaultFlags
  := by
  cases n with
  | query q =>
      cases q
      rfl
  | _ => rfl

theorem map_redact_stepsWith (n : Node) (o : Options) :
  (n.redact.stepsWith o).map Step.redact = (n.stepsWith o).map Step.redact
  := by
  rw [stepsWith, stepsWith, defaultFlags_redact]
  apply map_redact_steps

variable {m n : Node} {o : Options} {st st' : Statement}

/-- The lexemes of a statement are those of its redacted steps. -/
theorem lexemes_sql (hv : o.flags.validates = true) (hl : o.withArguments = false)
    (hn : ∀ s args, .condition s args ∈ n.leaves → args = []) (h : n.Compiled o st) :
  lexemes st.sql.toList
    = ((n.stepsWith o).map Step.redact).flatMap fun s => lexemes (s.written .literals)
  := by
  have hvalid := valid_of_mem hv h
  have htokens := tokens_compileWith hv (fun _ => hn) h
  rw [show o.binding = .literals by simp [Options.binding, hl]] at hvalid htokens
  rw [lexemes, htokens, List.filterMap_flatMap, List.flatMap_map]
  apply List.flatMap_congr fun s hs => (hvalid s hs).lexemes_redact

/-- Two nodes that differ only in the contents of their texts are compiled, with literals
under validation, to statements with the same lexemes. -/
theorem lexemes_compileWith (hv : o.flags.validates = true) (hl : o.withArguments = false)
    (hm : ∀ s args, .condition s args ∈ m.leaves → args = [])
    (hn : ∀ s args, .condition s args ∈ n.leaves → args = [])
    (hmn : m.redact = n.redact) (h : m.compileWith o = .ok st)
    (h' : n.compileWith o = .ok st') :
  lexemes st.sql.toList = lexemes st'.sql.toList
  := by
  rw [lexemes_sql hv hl hm (compiled h), lexemes_sql hv hl hn (compiled h'),
    ← map_redact_stepsWith m, ← map_redact_stepsWith n, hmn]

/-- A comparison of names with a pattern. -/
def named (pattern : String) : Node :=
  .criterion (.like (.node (.computed (.raw "name"))) (.value (.text pattern)) none false)

/-- A text with apostrophes, a dash and a bracket has the place of any other. -/
theorem lexemes_compileWith_hostile_text :
  (named "a'; -- [").compileWith Options.standard.validated.inlined
      = .ok ⟨"name LIKE 'a''; -- ['", [], true⟩
    ∧ (named "b").compileWith Options.standard.validated.inlined
      = .ok ⟨"name LIKE 'b'", [], true⟩
    ∧ lexemes "name LIKE 'a''; -- ['".toList = lexemes "name LIKE 'b'".toList
  := by
  have hm : (named "a'; -- [").compileWith Options.standard.validated.inlined
      = .ok ⟨"name LIKE 'a''; -- ['", [], true⟩ := rfl
  have hn : (named "b").compileWith Options.standard.validated.inlined
      = .ok ⟨"name LIKE 'b'", [], true⟩ := rfl
  have hleaves (t : String) : ∀ s args, Piece.condition s args ∈ (named t).leaves → args = [] := by
    intro s args hs
    change _ ∈ [Piece.fragment "name", .scalar (.text t)] at hs
    simp at hs
  have hsame := lexemes_compileWith (by decide) rfl (hleaves "a'; -- [") (hleaves "b") rfl
    hm hn
  exact ⟨hm, hn, hsame⟩

end Node

end TypedSql.Sql
