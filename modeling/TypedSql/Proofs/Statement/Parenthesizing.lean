import TypedSql.Proofs.Statement.Rejection
import TypedSql.Proofs.Token.Parentheses

/-!
# Parentheses for validation

The SQL of a query that is to be checked has parentheses around conditions that the SQL that is
run does not have.  There is no other difference: when the SQL that is to be checked can be
written, so can the one that is run, which is what is left of the former when pairs of matching
parentheses around conditions of the query are deleted (`Query.rawSql_of_sqlForValidation`).
Quoted texts are those of the split of a text into segments, in which comments have no part.
-/

namespace TypedSql.Sql

/-! ### What is written for a step -/

/-- Whether a step is written as code of the compiler, or as a matched text of the caller. -/
def Step.IsMatched (s : Step) : Prop :=
  match s.piece with
  | .text t => isInert t.toList = true
  | .refusal _ => False
  | _ => Matched (s.written .literals)

/-- What the caller supplies is matched where it is written under validation.  A raw condition is
checked before its values are put into it, and is matched with them all the same. -/
theorem Step.Valid.isMatched {n : Node} {s : Step} (hs : s.Valid n .literals) :
  s.IsMatched
  := by
  obtain ⟨flags, piece⟩ := s
  cases piece with
  | text t => apply hs.inert t rfl
  | refusal e => cases hs.succeeds
  | condition t args =>
      have hok := Emission.checkFragment_of_condition (hs.validates rfl) hs.succeeds
      have hsucceeds := hs.succeeds
      rw [Emission.ofStep_condition hok] at hsucceeds
      obtain ⟨l, hl, htext⟩ := Emission.exists_of_ofExcept hsucceeds
      change Matched (Emission.ofStep .literals ⟨flags, .condition t args⟩).text.toList
      rw [Emission.ofStep_condition hok]
      change Matched (Emission.ofExcept flags _).text.toList
      rw [htext]
      apply matched_inlineArguments hok hl
  | _ => exact matched_of_harmless (hs.admits_written nofun)

/-- In code no quote is opened. -/
theorem quoteAfter_of_isInert {a : List Char} (h : isInert a = true) :
  quoteAfter none a = none
  := by
  have hcode : ∀ c ∈ a, tokens [c] = [.code c] := by
    intro c hc
    have hmem : .code c ∈ tokens a := by
      rw [tokens_of_isInert h]
      apply List.mem_map_of_mem hc
    exact tokens_text _ hmem
  clear h
  induction a with
  | nil => rfl
  | cons c a ih =>
      obtain ⟨hc, ha⟩ := List.forall_mem_cons.mp hcode
      have hcloser : closer? c = none := by
        cases hclose : closer? c with
        | none => rfl
        | some close =>
            rw [tokens_of_content_end hclose .nil] at hc
            cases hc
      rw [quoteAfter, List.foldl_cons, quoteStep, hcloser]
      apply ih ha

theorem Step.IsMatched.quoteAfter_written {s : Step} (h : s.IsMatched) :
  quoteAfter none (s.written .literals) = none
  := by
  obtain ⟨flags, piece⟩ := s
  cases piece with
  | text t => exact quoteAfter_of_isInert h
  | refusal e => cases h
  | _ => exact quoteAfter_eq_none h

theorem quoteAfter_flatMap_written {ss : List Step} (h : ∀ s ∈ ss, s.IsMatched) :
  quoteAfter none (ss.flatMap (Step.written .literals)) = none
  := by
  induction ss with
  | nil => rfl
  | cons s ss ih =>
      obtain ⟨hs, hss⟩ := List.forall_mem_cons.mp h
      rw [List.flatMap_cons, quoteAfter_append, hs.quoteAfter_written, ih hss]

/-- Where the code of the compiler matches, so does what is written. -/
theorem matchedFrom_flatMap_written {ss : List Step} (h : ∀ s ∈ ss, s.IsMatched) {d : Nat}
    (hd : hazardFrom d (frame ss) = none) :
  matchedFrom none d (ss.flatMap (Step.written .literals)) = true
  := by
  induction ss generalizing d with
  | nil => simpa [frame, hazardFrom, matchedFrom] using hd
  | cons s ss ih =>
      obtain ⟨hs, hss⟩ := List.forall_mem_cons.mp h
      rw [List.flatMap_cons]
      obtain ⟨flags, piece⟩ := s
      cases piece with
      | text t =>
          have hcode : hazardFrom d (tokens t.toList ++ frame ss) = none := by
            rw [tokens_of_isInert hs]
            exact hd
          obtain ⟨d', hd', htext⟩ := exists_matchedFrom_flatMap tokens_text hcode
          rw [text_tokens] at htext
          exact (htext _).trans (ih hss hd')
      | refusal e => cases hs
      | _ => exact (Matched.matchedFrom_append hs d _).trans (ih hss hd)

theorem Phrase.matched_written {Q : Piece → Prop} {behind : Bool} {ss : List Step}
    (hphrase : Phrase Q behind ss) (h : ∀ s ∈ ss, s.IsMatched) :
  Matched (ss.flatMap (Step.written .literals))
  := matchedFrom_flatMap_written h hphrase.balanced

/-! ### Steps with and without parentheses -/

/-- Whether a text is what conditions of a query write in the SQL that is to be checked: one or
more conditions that are rendered there, with a connective between them, in parentheses or not. -/
def Query.WritesConditions (q : Query) (version : Version) (a : List Char) : Prop :=
  ∃ (ctx : Context) (ss : List Step), a = ss.flatMap (Step.written .literals)
    ∧ ctx.OfConditions (Part.Renders (⟨version, q.validationFlags, true⟩, .node (.query q))) ss

/-- The same context for SQL that is run. -/
def Context.forRunning (ctx : Context) : Context :=
  { ctx with forValidation := false }

theorem Context.OfConditions.phrase {ctx : Context} {A : Context × Part → Prop} {ss : List Step}
    (h : ctx.OfConditions A ss) (hv : ctx.flags.validates = true) :
  Phrase (fun _ => True) false ss
  := by
  obtain ⟨op, cs, -, -, hss⟩ := h
  have hseparated : Phrase (fun _ => True) false
      (ctx.separated (" " ++ op.symbol ++ " ") (cs.map (Criterion.steps ctx))) := by
    apply Phrase.separated (isConnective_connective op)
    rw [List.forall_mem_map]
    intro c _
    apply c.phrase_steps hv fun _ _ => trivial
  obtain rfl | rfl := hss
  · apply hseparated
  · apply hseparated.enclosed

/-- The steps `ts` are among the steps `ss`, and write what these write without some parentheses
around texts that satisfy `P`. -/
structure Unwraps (P : List Char → Prop) (ss ts : List Step) : Prop where
  subset : ts ⊆ ss
  drops (h : ∀ s ∈ ss, s.IsMatched) :
    Relation.ReflTransGen (DropsMatched P) (ss.flatMap (Step.written .literals))
      (ts.flatMap (Step.written .literals))

theorem piecewise_unwraps (P : List Char → Prop) :
  Piecewise (fun ctx ctx' => ctx.forValidation = true ∧ ctx.flags.validates = true
      ∧ ctx' = ctx.forRunning)
    (Unwraps P)
  := by
  constructor
  · constructor
    · apply List.Subset.refl
    · intro _
      apply Relation.ReflTransGen.refl
  · intro ss ss' ts ts' hs ht
    constructor
    · apply List.append_subset.mpr
      use List.subset_append_of_subset_left _ hs.subset
      apply List.subset_append_of_subset_right _ ht.subset
    · intro h
      obtain ⟨hss, hts⟩ := List.forall_mem_append.mp h
      rw [List.flatMap_append, List.flatMap_append]
      apply DropsMatched.reflTransGen_append (hs.drops hss) (ht.drops hts)
      apply quoteAfter_flatMap_written hss
  · rintro ctx _ ⟨-, -, rfl⟩ p
    constructor
    · apply List.Subset.refl
    · intro _
      apply Relation.ReflTransGen.refl

/-- Whatever is rendered for the SQL that is run is rendered for the SQL that is to be checked
with parentheses around conditions. -/
theorem Query.parallel_unwraps (q : Query) (version : Version) :
  Parallel (fun ctx ctx' => ctx.forValidation = true ∧ ctx.flags.validates = true
      ∧ ctx' = ctx.forRunning)
    (Part.Renders (⟨version, q.validationFlags, true⟩, .node (.query q)))
    (Unwraps (q.WritesConditions version))
  := by
  constructor
  · apply piecewise_unwraps
  · rintro ctx _ ⟨-, -, rfl⟩
    rfl
  · rintro ctx _ ⟨hf, hv, rfl⟩ validated
    exact ⟨hf, ctx.validates_inside hv validated, rfl⟩
  · rintro ctx _ ⟨hf, hv, rfl⟩ ss ts hconditions hs
    have henclosed : ctx.enclosedForValidation ss = ctx.enclosed ss := by
      rw [Context.enclosedForValidation, if_pos hf]
    have hbare : ctx.forRunning.enclosedForValidation ts = ts := rfl
    have hmem : ss ⊆ ctx.enclosed ss := by
      apply List.subset_append_of_subset_left
      apply List.subset_append_of_subset_right _ (List.Subset.refl ss)
    rw [henclosed, hbare]
    constructor
    · apply List.Subset.trans hs.subset hmem
    · intro h
      have hss : ∀ s ∈ ss, s.IsMatched := fun s hs => h s (hmem hs)
      have hdrop : DropsMatched (q.WritesConditions version)
          ((ctx.enclosed ss).flatMap (Step.written .literals))
          (ss.flatMap (Step.written .literals)) := by
        refine ⟨[], ss.flatMap (Step.written .literals), [], ?_, ?_, rfl,
          (hconditions.phrase hv).matched_written hss, ctx, ss, rfl, hconditions⟩
        · rw [Context.written_enclosed]
          rfl
        · rw [List.nil_append, List.append_nil]
      exact .head hdrop (hs.drops hss)
  · rintro ctx _ ⟨hf, hv, rfl⟩ o - ss ts hs
    apply (piecewise_unwraps _).orderTerm ⟨hf, hv, rfl⟩ (.inr rfl) hs
  · rintro ctx _ ⟨hf, hv, rfl⟩ i - f g hs
    apply (piecewise_unwraps _).insertedRows ⟨hf, hv, rfl⟩ (.inr rfl) hs

/-! ### Queries -/

/-- When the SQL of a query that is to be checked can be written, so can the SQL that is run.  It is
what is left of the former when pairs of parentheses are deleted, each of them outside of quoted
texts and around conditions of the query; and but for parentheses the two are the same. -/
theorem Query.rawSql_of_sqlForValidation {q : Query} {version : Version} {s : String}
    (h : q.sqlForValidation version = .ok s) :
  ∃ t, (Node.query q).rawSql version = .ok t
    ∧ Loosens (q.WritesConditions version) s.toList t.toList
    ∧ s.toList.filter (fun c => c != '(' && c != ')')
      = t.toList.filter fun c => c != '(' && c != ')'
  := by
  have hvalidates : q.validationFlags.validates = true :=
    Flags.validates_union_validation q.defaultFlags
  obtain ⟨hnone, rfl⟩ := Node.map_text_build_eq_ok_iff.mp h
  have hchecked := Emission.ofSteps_failure_eq_none_iff.mp hnone
  have hunwraps : Unwraps (q.WritesConditions version)
      ((Node.query q).steps ⟨version, q.validationFlags, true⟩)
      ((Node.query q).steps ⟨version, q.validationFlags, false⟩) :=
    (q.parallel_unwraps version).steps_node ⟨rfl, hvalidates, rfl⟩ fun _ hr => hr
  have hrun : ∀ s ∈ (Node.query q).steps ⟨version, q.validationFlags, false⟩,
      (Emission.ofStep .literals s).failure = none :=
    fun s hs => hchecked s (hunwraps.subset hs)
  have hdrops := hunwraps.drops fun s hs =>
    (Node.valid_of_mem_steps hvalidates hchecked s hs).isMatched
  -- without validation the same is written
  have hchecks := Emission.checks_ofSteps .literals
    ((Node.query q).steps ⟨version, q.defaultFlags, false⟩)
  rw [← Node.steps_validating] at hchecks
  have hrunning := hchecks.eq_of_succeeds (Emission.ofSteps_failure_eq_none_iff.mpr hrun)
  have htext : (Emission.ofSteps .literals
        ((Node.query q).steps ⟨version, q.defaultFlags, false⟩)).text.toList
      = ((Node.query q).steps ⟨version, q.validationFlags, false⟩).flatMap
          (Step.written .literals) := by
    rw [← hrunning]
    apply Emission.text_ofSteps hrun
  have hloosens : Loosens (q.WritesConditions version)
      (Emission.ofSteps .literals
        ((Node.query q).steps ⟨version, q.validationFlags, true⟩)).text.toList
      (Emission.ofSteps .literals
        ((Node.query q).steps ⟨version, q.defaultFlags, false⟩)).text.toList := by
    rw [htext, Emission.text_ofSteps hchecked]
    apply Loosens.of_dropsMatched hdrops
  refine ⟨_, Node.map_text_build_eq_ok_iff.mpr ⟨?_, rfl⟩, hloosens, hloosens.filter_eq⟩
  change (Emission.ofSteps .literals
    ((Node.query q).steps ⟨version, q.defaultFlags, false⟩)).failure = none
  rw [← hrunning]
  apply Emission.ofSteps_failure_eq_none_iff.mpr hrun

/-- The people with a bracket for a name who are of age, where there are several of an age. -/
def Query.bracketed : Query :=
  { selectAll with
    source := some (.table { model := "Person", name := "people" })
    filters := [.combination .and
      [.compare (.node (.computed (.raw "name"))) .equal (.value (.text ":(")),
        .raw "age > ?" [.integer 17]]]
    groups := [.node (.computed (.raw "age"))]
    having := [.compare (.node (.computed .countAll)) .greater (.value (.integer 1))] }

/-- The parenthesis in the quoted name is left alone, and so are those that conditions have in any
case. -/
theorem Query.rawSql_of_sqlForValidation_bracketed :
  (Node.query .bracketed).rawSql .latest
      = .ok ("SELECT * FROM people WHERE (name = ':(' AND (age > 17)) " ++
          "GROUP BY age HAVING COUNT(*) > 1")
    ∧ Loosens (Query.bracketed.WritesConditions .latest)
      ("SELECT * FROM people WHERE (((name = ':(' AND (age > 17)))) " ++
        "GROUP BY age HAVING (COUNT(*) > 1)").toList
      ("SELECT * FROM people WHERE (name = ':(' AND (age > 17)) " ++
        "GROUP BY age HAVING COUNT(*) > 1").toList
  := by
  have hchecked : Query.bracketed.sqlForValidation .latest
      = .ok ("SELECT * FROM people WHERE (((name = ':(' AND (age > 17)))) " ++
          "GROUP BY age HAVING (COUNT(*) > 1)") := rfl
  have hrun : (Node.query .bracketed).rawSql .latest
      = .ok ("SELECT * FROM people WHERE (name = ':(' AND (age > 17)) " ++
          "GROUP BY age HAVING COUNT(*) > 1") := rfl
  obtain ⟨t, ht, hloosens, -⟩ := Query.rawSql_of_sqlForValidation hchecked
  obtain rfl := Except.ok.inj (hrun.symm.trans ht)
  exact ⟨hrun, hloosens⟩

end TypedSql.Sql
