import TypedSql.Proofs.Logic.Precedence
import TypedSql.Proofs.Tree.Part
import TypedSql.Proofs.Tree.Written

/-!
# Conditions

What a condition is written as is read back, by precedence, with the value of the condition:
wherever precedence would group operands otherwise than the tree does, there are parentheses.
This is so for every single condition, and for the conditions of a clause, all of which have to
hold.  The clauses of queries, updates and deletions are where these are written, whatever else
is written before and after them: `Criterion.reads_clause`.

Conditions that are neither combinations nor negations are not looked into.
-/

namespace TypedSql.Sql

/-! ### The words of conditions -/

mutual

/-- The words that a condition is written as. -/
def Criterion.words (forValidation : Bool) : Criterion → List (Word Criterion)
  | .combination op members =>
    if members.isEmpty then [.constant (op = .and)]
    else
      Word.bracketed forValidation <| Word.enclosed <|
        Word.joined op (Criterion.wordsEach forValidation members)
  | .negation c => .negation :: Word.enclosed (c.words forValidation)
  | c => [.operand c]

/-- The words that each of some conditions is written as. -/
def Criterion.wordsEach (forValidation : Bool) : List Criterion → List (List (Word Criterion))
  | [] => []
  | c :: cs => c.words forValidation :: Criterion.wordsEach forValidation cs

end

/-- The words that the conditions of a clause are written as. -/
def Criterion.clauseWords (isBracketed forValidation : Bool) (cs : List Criterion) :
    List (Word Criterion) :=
  if cs.isEmpty then []
  else Word.bracketed isBracketed (Word.joined .and (Criterion.wordsEach forValidation cs))

/-! ### The text of words -/

/-- The text of a word.  That of an operand is what is written of the steps of the condition. -/
def Word.written (binding : Binding) (ctx : Context) : Word Criterion → List Char
  | opening => "(".toList
  | closing => ")".toList
  | negation => "NOT ".toList
  | connective .and => " AND ".toList
  | connective .or => " OR ".toList
  | constant true => "1".toList
  | constant false => "0".toList
  | operand c => (c.steps ctx).flatMap (Step.written binding)

/-- The text of words, one after the other. -/
def Word.spell (binding : Binding) (ctx : Context) (ws : List (Word Criterion)) : List Char :=
  ws.flatMap (Word.written binding ctx)

/-- The text of a clause: nothing when there are no conditions, and otherwise the keyword and the
words of the conditions. -/
def Criterion.clauseText (binding : Binding) (ctx : Context) (isBracketed : Bool)
    (keyword : String) (cs : List Criterion) : List Char :=
  if cs.isEmpty then []
  else keyword.toList ++ Word.spell binding ctx (clauseWords isBracketed ctx.forValidation cs)

section

variable {binding : Binding} {ctx : Context} {ws : List (Word Criterion)} {ss : List Step}

theorem Word.spell_enclosed (h : spell binding ctx ws = ss.flatMap (Step.written binding)) :
  spell binding ctx (enclosed ws) = (ctx.enclosed ss).flatMap (Step.written binding)
  := by
  rw [Context.written_enclosed, ← h, enclosed, spell, List.flatMap_append, List.flatMap_cons]
  rfl

theorem Word.spell_bracketed (h : spell binding ctx ws = ss.flatMap (Step.written binding)) :
  spell binding ctx (bracketed ctx.forValidation ws)
    = (ctx.enclosedForValidation ss).flatMap (Step.written binding)
  := by
  unfold bracketed Context.enclosedForValidation
  split
  · apply spell_enclosed h
  · apply h

theorem Word.spell_joined (op : Connective) {wss : List (List (Word Criterion))}
    {sss : List (List Step)}
    (h : wss.map (spell binding ctx) = sss.map (List.flatMap (Step.written binding))) :
  spell binding ctx (joined op wss)
    = (ctx.separated (" " ++ op.symbol ++ " ") sss).flatMap (Step.written binding)
  := by
  have hop : (" " ++ op.symbol ++ " ").toList = (connective op).written binding ctx := by
    cases op <;> rfl
  rw [Context.written_separated, ← h, hop]
  clear h
  induction wss with
  | nil => rfl
  | cons ws r ih =>
      cases r with
      | nil => simp [joined]
      | cons us r =>
          rw [joined, spell, List.flatMap_append, List.flatMap_cons, List.map_cons, List.map_cons,
            List.intercalate_cons_cons, List.append_assoc, ← List.map_cons, ← ih]
          rfl

end

mutual

/-- A condition is written as its words. -/
theorem Criterion.spell_words (binding : Binding) (ctx : Context) :
    ∀ c : Criterion,
      Word.spell binding ctx (c.words ctx.forValidation)
        = (c.steps ctx).flatMap (Step.written binding)
  | .combination op members => by
      rw [Criterion.words, Criterion.steps]
      split
      · cases op <;> rfl
      · apply Word.spell_bracketed
        apply Word.spell_enclosed
        apply Word.spell_joined op (Criterion.spell_wordsEach binding ctx members)
  | .negation c => by
      rw [Criterion.words, Criterion.steps, List.flatMap_append, Context.written_text,
        ← Word.spell_enclosed (Criterion.spell_words binding ctx c)]
      rfl
  | .compare _ _ _ | .nullCheck _ _ | .member _ _ _ | .between _ _ _ _ | .like _ _ _ _
  | .existence _ _ | .raw _ _ => List.append_nil _

theorem Criterion.spell_wordsEach (binding : Binding) (ctx : Context) :
    ∀ cs : List Criterion,
      (Criterion.wordsEach ctx.forValidation cs).map (Word.spell binding ctx)
        = (Criterion.stepsEach ctx cs).map (List.flatMap (Step.written binding))
  | [] => rfl
  | c :: cs => by
      rw [Criterion.wordsEach, List.map_cons, Criterion.spell_words binding ctx c,
        Criterion.spell_wordsEach binding ctx cs, Criterion.stepsEach, List.map_cons]

end

theorem Criterion.wordsEach_eq_map (forValidation : Bool) (cs : List Criterion) :
  Criterion.wordsEach forValidation cs = cs.map (Criterion.words forValidation)
  := by
  induction cs with
  | nil => rfl
  | cons c cs ih => rw [wordsEach, ih, List.map_cons]

/-! ### Reading conditions -/

/-- Conditions that are read as operands with their values are read, when they are joined, with
the value that the connective gives these. -/
theorem Criterion.reads_joined {v : Criterion → Truth} {forValidation : Bool} (op : Connective)
    {cs : List Criterion} (hne : cs ≠ [])
    (h : ∀ c ∈ cs, Reads v .factor (c.words forValidation) (c.value v)) :
  Reads v op.level (Word.joined op (Criterion.wordsEach forValidation cs))
    (op.fold (Criterion.valueEach v cs))
  := by
  rw [wordsEach_eq_map, valueEach_eq_map]
  apply Reads.joined op hne h

mutual

/-- The words of a condition are read as an operand with its value. -/
theorem Criterion.reads_words (v : Criterion → Truth) (forValidation : Bool) :
    ∀ c : Criterion, Reads v .factor (c.words forValidation) (c.value v)
  | .combination op members => by
      rw [Criterion.words, Criterion.value]
      cases members with
      | nil => cases op <;> apply Reads.constant
      | cons c cs =>
          have hmembers := Criterion.reads_wordsEach v forValidation (c :: cs)
          apply Reads.bracketed
          apply Reads.enclosed
          apply (Criterion.reads_joined op (List.cons_ne_nil c cs) hmembers).whole
  | .negation c => by
      apply Reads.negation
      apply Reads.enclosed
      apply (Criterion.reads_words v forValidation c).whole
  | .compare _ _ _ | .nullCheck _ _ | .member _ _ _ | .between _ _ _ _ | .like _ _ _ _
  | .existence _ _ | .raw _ _ => .operand _

theorem Criterion.reads_wordsEach (v : Criterion → Truth) (forValidation : Bool) :
    ∀ cs : List Criterion, ∀ c ∈ cs, Reads v .factor (c.words forValidation) (c.value v)
  | [] => List.forall_mem_nil _
  | c :: cs => by
      rw [List.forall_mem_cons]
      constructor
      · apply Criterion.reads_words v forValidation c
      · apply Criterion.reads_wordsEach v forValidation cs

end

/-- The value that the words of a clause are read to have: without words there is no clause, and
nothing has to hold. -/
def ReadsClause (v : Criterion → Truth) (ws : List (Word Criterion)) (x : Truth) : Prop :=
  ws = [] ∧ x = .holds ∨ Reads v .disjunction ws x

theorem Criterion.readsClause_clauseWords (v : Criterion → Truth) (isBracketed : Bool)
    (forValidation : Bool) (cs : List Criterion) (x : Truth) :
  ReadsClause v (clauseWords isBracketed forValidation cs) x
    ↔ x = Connective.and.fold (valueEach v cs)
  := by
  cases cs with
  | nil =>
      constructor
      · rintro (⟨-, rfl⟩ | h)
        · rfl
        · cases h.ne_nil rfl
      · rintro rfl
        exact .inl ⟨rfl, rfl⟩
  | cons c cs =>
      have hreads : Reads v .disjunction (clauseWords isBracketed forValidation (c :: cs))
          (Connective.and.fold (valueEach v (c :: cs))) := by
        apply Reads.bracketed
        apply (reads_joined .and (List.cons_ne_nil c cs) (reads_wordsEach v _ _)).whole
      constructor
      · rintro (⟨hnil, -⟩ | h)
        · cases hreads.ne_nil hnil
        · apply h.unique hreads
      · rintro rfl
        exact .inr hreads

/-! ### Clauses -/

section

variable (binding : Binding) (ctx : Context)

/-- The clause of a select core for its conditions, or for those on its groups. -/
theorem Criterion.written_clause (keyword : String) (cs : List Criterion) :
  (ctx.clause keyword (cs.map (steps ctx))).flatMap (Step.written binding)
    = clauseText binding ctx ctx.forValidation keyword cs
  := by
  cases cs with
  | nil => rfl
  | cons c cs =>
      have hwords := Word.spell_bracketed
        (Word.spell_joined .and (spell_wordsEach binding ctx (c :: cs)))
      rw [stepsEach_eq_map] at hwords
      rw [Context.clause, if_neg (by simp), List.flatMap_append, Context.written_text]
      apply congrArg (keyword.toList ++ ·) hwords.symm

/-- The clause of an update or a deletion. -/
theorem Criterion.written_filters (cs : List Criterion) :
  (ctx.filters (cs.map (steps ctx))).flatMap (Step.written binding)
    = clauseText binding ctx false " WHERE " cs
  := by
  cases cs with
  | nil => rfl
  | cons c cs =>
      have hwords := Word.spell_joined .and (spell_wordsEach binding ctx (c :: cs))
      rw [stepsEach_eq_map] at hwords
      rw [Context.filters, if_neg (by simp), List.flatMap_append, Context.written_text]
      apply congrArg (" WHERE ".toList ++ ·) hwords.symm

namespace Query

/-- A query with other conditions. -/
def withConditions (q : Query) (filters having : List Criterion) : Query :=
  { q with filters := filters, having := having }

/-- The context in which the select core of a query is rendered: as a plain member of a compound
it is that of the compound. -/
def coreContext (role : Role) (q : Query) : Context :=
  if role = .member ∧ q.isPlain = true then ctx else ctx.inside q.validated

variable (q : Query)

/-- The steps of a select core before its conditions: all that there is without conditions and
groups. -/
def headSteps : List Step :=
  (({ q with groups := [] } : Query).withConditions [] []).coreSteps ctx

/-- The steps of the groups of a select core. -/
def groupSteps : List Step :=
  if (q.groups.map (Operand.steps ctx)).isEmpty then []
  else ctx.text " GROUP BY " ++ ctx.separated ", " (q.groups.map (Operand.steps ctx))

/-- The clauses of a select core stand before and behind its groups. -/
theorem coreSteps_withConditions (filters having : List Criterion) :
  (q.withConditions filters having).coreSteps ctx
    = q.headSteps ctx ++ ctx.clause " WHERE " (filters.map (Criterion.steps ctx))
      ++ q.groupSteps ctx ++ ctx.clause " HAVING " (having.map (Criterion.steps ctx))
  := by
  simp only [headSteps, groupSteps, withConditions, coreSteps_eq, Context.selection,
    Context.clause, List.map_nil, List.isEmpty_nil, if_true, List.append_nil, List.append_assoc]

/-- What stands around the clauses of a select core does not depend on the conditions. -/
theorem written_coreSteps (filters having : List Criterion) :
  ((q.withConditions filters having).coreSteps ctx).flatMap (Step.written binding)
    = (q.headSteps ctx).flatMap (Step.written binding)
      ++ Criterion.clauseText binding ctx ctx.forValidation " WHERE " filters
      ++ (q.groupSteps ctx).flatMap (Step.written binding)
      ++ Criterion.clauseText binding ctx ctx.forValidation " HAVING " having
  := by
  rw [coreSteps_withConditions, List.flatMap_append, List.flatMap_append, List.flatMap_append,
    Criterion.written_clause, Criterion.written_clause]

/-- The steps of what follows the select core of a query that is a statement. -/
def restSteps : List Step :=
  q.compounds.flatMap (fun e => (ctx.inside q.validated).text (" " ++ e.1.keyword ++ " ") ++
      e.2.steps .member (ctx.inside q.validated)) ++
    ((if ctx.flags.contains .topLevel || q.isLimited then
        (ctx.inside q.validated).ordering (q.orders.map (Order.steps (ctx.inside q.validated)))
      else []) ++
      (ctx.inside q.validated).limits (q.limit.map (Operand.steps (ctx.inside q.validated)))
        (q.offset.map (Operand.steps (ctx.inside q.validated))))

/-- What follows the select core of a statement does not depend on the conditions. -/
theorem steps_statement_withConditions (filters having : List Criterion) :
  (q.withConditions filters having).steps .statement ctx
    = (q.withConditions filters having).coreSteps (ctx.inside q.validated) ++ q.restSteps ctx
  := by
  rw [steps_statement, List.append_assoc, List.append_assoc]
  rfl

theorem steps_member_withConditions (filters having : List Criterion) :
  (q.withConditions filters having).steps .member ctx
    = if q.isPlain then (q.withConditions filters having).coreSteps ctx
      else ctx.text "SELECT * FROM " ++
        ctx.enclosed ((q.withConditions filters having).steps .statement ctx)
  := steps_member ctx _

/-- The clauses of a query, in either role, are written for its conditions, and what stands around
them does not depend on these. -/
theorem written_clauses (role : Role) :
  ∃ before between after, ∀ filters having,
    ((q.withConditions filters having).steps role ctx).flatMap (Step.written binding)
      = before
        ++ Criterion.clauseText binding (q.coreContext ctx role) ctx.forValidation " WHERE " filters
        ++ between
        ++ Criterion.clauseText binding (q.coreContext ctx role) ctx.forValidation " HAVING " having
        ++ after
  := by
  cases role with
  | statement =>
      use (q.headSteps (ctx.inside q.validated)).flatMap (Step.written binding),
        (q.groupSteps (ctx.inside q.validated)).flatMap (Step.written binding),
        (q.restSteps ctx).flatMap (Step.written binding)
      intro filters having
      rw [steps_statement_withConditions, List.flatMap_append, written_coreSteps]
      rfl
  | member =>
      by_cases hplain : q.isPlain = true
      · use (q.headSteps ctx).flatMap (Step.written binding),
          (q.groupSteps ctx).flatMap (Step.written binding), []
        intro filters having
        rw [steps_member_withConditions, if_pos hplain, written_coreSteps, coreContext,
          if_pos ⟨rfl, hplain⟩, List.append_nil]
      · use "SELECT * FROM (".toList
            ++ (q.headSteps (ctx.inside q.validated)).flatMap (Step.written binding),
          (q.groupSteps (ctx.inside q.validated)).flatMap (Step.written binding),
          (q.restSteps ctx).flatMap (Step.written binding) ++ ")".toList
        intro filters having
        rw [steps_member_withConditions, if_neg hplain, List.flatMap_append, Context.written_text,
          Context.written_enclosed, steps_statement_withConditions, List.flatMap_append,
          written_coreSteps, coreContext, if_neg fun h => hplain h.2]
        simp only [List.append_assoc]
        rfl

end Query

end

/-- A compiled node is what its steps write, and whatever else these write, the conditions of
queries, updates and deletions are written as the words of their clauses.  Read by precedence, the
words have one value, which is that of the conjunction of the conditions. -/
theorem Criterion.reads_clause (v : Criterion → Truth) (binding : Binding) (ctx : Context) :
  (∀ (n : Node) b, n.build ctx.version binding ctx.forValidation ctx.flags = .ok b →
      b.text.toList = (n.steps ctx).flatMap (Step.written binding))
    ∧ (∀ role (q : Query), ∃ before between after, ∀ filters having,
      ((q.withConditions filters having).steps role ctx).flatMap (Step.written binding)
        = before
          ++ clauseText binding (q.coreContext ctx role) ctx.forValidation " WHERE " filters
          ++ between
          ++ clauseText binding (q.coreContext ctx role) ctx.forValidation " HAVING " having
          ++ after)
    ∧ (∀ u : Update, ∃ before, ∀ filters,
      (({ u with filters := filters } : Update).steps ctx).flatMap (Step.written binding)
        = before ++ if u.assignments.isEmpty then []
          else clauseText binding ctx false " WHERE " filters)
    ∧ (∀ d : Delete, ∃ before, ∀ filters,
      (({ d with filters := filters } : Delete).steps ctx).flatMap (Step.written binding)
        = before ++ clauseText binding ctx false " WHERE " filters)
    ∧ ∀ (isBracketed forValidation : Bool) (cs : List Criterion) x,
      ReadsClause v (clauseWords isBracketed forValidation cs) x
        ↔ x = Connective.and.fold (valueEach v cs)
  := by
  refine ⟨fun _ _ => Node.text_build, fun role q => q.written_clauses binding ctx role, ?_, ?_, ?_⟩
  · rintro ⟨table, assignments, _, conflict⟩
    simp only [Update.steps, stepsEach_eq_map]
    split
    · exact ⟨_, fun _ => (List.append_nil _).symm⟩
    · simp only [List.flatMap_append, written_filters]
      exact ⟨_, fun _ => rfl⟩
  · rintro ⟨table, _⟩
    simp only [Delete.steps, stepsEach_eq_map, List.flatMap_append, written_filters]
    exact ⟨_, fun _ => rfl⟩
  · intro isBracketed forValidation cs x
    apply readsClause_clauseWords

/-- A negated combination stands between the parentheses of both, and one of no conditions is a
literal. -/
example :
  Criterion.clauseWords false false
      [.negation (.combination .or [.raw "a" [], .raw "b" []]), .combination .and []]
    = [.negation, .opening, .opening, .operand (.raw "a" []), .connective .or,
        .operand (.raw "b" []), .closing, .closing, .connective .and, .constant true]
  := rfl

end TypedSql.Sql
