import TypedSql.Proofs.Tree.Part
import TypedSql.Proofs.Tree.Trimming
import TypedSql.Proofs.Tree.Written

/-!
# Compound queries

A compound is written without parentheses around its members, for members cannot have them.  What
it is written as is a sequence of words, among which the select cores, the orderings and the limits
are not looked into.  Such a sequence is read from the left: the operators of compounding are left
associative and of equal precedence, an ordering and limits belong to everything before them, and a
statement between parentheses after `SELECT * FROM` stands for the statement itself.

Read in this way, a query has the value of its tree, whatever is meant by the cores, the operators,
the orderings and the limits (`Node.reads_build`).
-/

namespace TypedSql.Sql

namespace Query

/-- What the parts of a query mean: cores are relations, and what else there is makes relations of
relations. -/
structure Meaning (R : Type) where
  core : SelectCore → R
  combine : Compounding → R → R → R
  order : List Order → R → R
  limit : Option Operand → Option Operand → R → R

namespace Meaning

variable {R : Type} (m : Meaning R)

/-- A relation in an ordering, which is no ordering when there are no terms. -/
def ordered (orders : List Order) (x : R) : R :=
  if orders.isEmpty then x else m.order orders x

/-- A relation within limits, if there are any. -/
def limited (limit offset : Option Operand) (x : R) : R :=
  if limit.isSome || offset.isSome then m.limit limit offset x else x

end Meaning

/-! ### Words -/

/-- A word of a written query. -/
inductive Word where
  | core (c : SelectCore)
  | operator (op : Compounding)
  /-- What stands before a statement that is wrapped in a query of its result. -/
  | opening
  | closing
  | ordering (orders : List Order)
  | limits (limit offset : Option Operand)

namespace Word

/-- The text of a word in its context.  Cores, terms of orderings and limits are what is written of
their steps; an offset alone stands after the limit `-1`. -/
def written (binding : Binding) : Context × Word → List Char
  | (ctx, core c) => (c.steps ctx).flatMap (Step.written binding)
  | (_, operator .union) => " UNION ".toList
  | (_, operator .unionAll) => " UNION ALL ".toList
  | (_, operator .intersect) => " INTERSECT ".toList
  | (_, operator .except) => " EXCEPT ".toList
  | (_, opening) => "SELECT * FROM (".toList
  | (_, closing) => ")".toList
  | (ctx, ordering orders) =>
    " ORDER BY ".toList ++ ", ".toList.intercalate
      (orders.map fun o => (o.steps ctx).flatMap (Step.written binding))
  | (_, limits none none) => []
  | (ctx, limits (some l) none) =>
    " LIMIT ".toList ++ (l.steps ctx).flatMap (Step.written binding)
  | (ctx, limits none (some o)) =>
    " LIMIT -1".toList ++ " OFFSET ".toList ++ (o.steps ctx).flatMap (Step.written binding)
  | (ctx, limits (some l) (some o)) =>
    " LIMIT ".toList ++ (l.steps ctx).flatMap (Step.written binding)
      ++ " OFFSET ".toList ++ (o.steps ctx).flatMap (Step.written binding)

/-- The text of words, each in its context, one after the other. -/
def spell (binding : Binding) (ws : List (Context × Word)) : List Char :=
  ws.flatMap (written binding)

/-- The word for an ordering; there is none when there are no terms. -/
def ordered (orders : List Order) : List Word :=
  if orders.isEmpty then [] else [.ordering orders]

/-- The word for limits, if there are any. -/
def limited (limit offset : Option Operand) : List Word :=
  if limit.isSome || offset.isSome then [.limits limit offset] else []

end Word

/-- The words of a member of a compound, given the words of the query that it is.  A query that is
nothing but its core is written as that, and others are wrapped. -/
def memberWords (ctx : Context) (q : Query) (ws : List (Context × Word)) : List (Context × Word) :=
  if q.isPlain then [(ctx, .core q.core)] else (ctx, .opening) :: ws ++ [(ctx, .closing)]

end Query

mutual

/-- The words that a query is written as, each with the context in which it is written. -/
def Query.words (ctx : Context) : Query → List (Context × Query.Word)
  | ⟨fields, distinct, source, joins, filters, groups, having, orders, limit, offset,
      compounds, validated⟩ =>
    let isOrdered := ctx.flags.contains .topLevel || (limit.isSome || offset.isSome)
    let inner := ctx.inside validated
    (inner, .core ⟨fields, distinct, source, joins, filters, groups, having⟩)
      :: Query.wordsCompounds inner compounds ++
      (Query.Word.ordered (if isOrdered then orders else []) ++
        Query.Word.limited limit offset).map (inner, ·)

/-- The words of the members of a compound, each after its operator. -/
def Query.wordsCompounds (ctx : Context) :
    List (Compounding × Query) → List (Context × Query.Word)
  | [] => []
  | (op, q) :: r =>
    (ctx, .operator op) :: q.memberWords ctx (q.words ctx) ++ Query.wordsCompounds ctx r

end

mutual

/-- The value of a query.  The core is combined, in order, with the values of the members; the
ordering and the limits are those of the query itself, and the ordering matters where the query is
outermost or limited. -/
def Query.value {R : Type} (m : Query.Meaning R) (outermost : Bool) : Query → R
  | ⟨fields, distinct, source, joins, filters, groups, having, orders, limit, offset,
      compounds, _⟩ =>
    m.limited limit offset <|
      m.ordered (if outermost || (limit.isSome || offset.isSome) then orders else []) <|
        Query.valueCompounds m
          (m.core ⟨fields, distinct, source, joins, filters, groups, having⟩) compounds

/-- The value of a relation combined with the values of members, from the left to the right. -/
def Query.valueCompounds {R : Type} (m : Query.Meaning R) (x : R) :
    List (Compounding × Query) → R
  | [] => x
  | (op, q) :: r => Query.valueCompounds m (m.combine op x (q.value m false)) r

end

namespace Query

theorem valueCompounds_eq_foldl {R : Type} (m : Meaning R) (x : R)
    (cs : List (Compounding × Query)) :
  valueCompounds m x cs = cs.foldl (fun x c => m.combine c.1 x (c.2.value m false)) x
  := by
  induction cs generalizing x with
  | nil => rfl
  | cons c cs ih => apply ih

/-- The value of a query in terms of the values of its members. -/
theorem value_eq {R : Type} (m : Meaning R) (outermost : Bool) (q : Query) :
  q.value m outermost
    = m.limited q.limit q.offset
        (m.ordered (if outermost || q.isLimited then q.orders else [])
          (q.compounds.foldl (fun x c => m.combine c.1 x (c.2.value m false)) (m.core q.core)))
  := by
  cases q
  rw [value, valueCompounds_eq_foldl]
  rfl

variable (ctx : Context)

theorem words_eq (q : Query) :
  q.words ctx
    = (ctx.inside q.validated, .core q.core)
        :: wordsCompounds (ctx.inside q.validated) q.compounds ++
        (Word.ordered (if ctx.flags.contains .topLevel || q.isLimited then q.orders else []) ++
          Word.limited q.limit q.offset).map (ctx.inside q.validated, ·)
  := by
  cases q
  rfl

/-! ### Spelling -/

namespace Word

variable (binding : Binding)

theorem spell_append (ws us : List (Context × Word)) :
  spell binding (ws ++ us) = spell binding ws ++ spell binding us
  := List.flatMap_append

theorem spell_cons (w : Context × Word) (ws : List (Context × Word)) :
  spell binding (w :: ws) = written binding w ++ spell binding ws
  := List.flatMap_cons

theorem written_operator (op : Compounding) :
  written binding (ctx, .operator op) = (" " ++ op.keyword ++ " ").toList
  := by
  cases op <;> rfl

theorem spell_ordered (orders : List Order) :
  spell binding ((ordered orders).map (ctx, ·))
    = (ctx.ordering (orders.map (Order.steps ctx))).flatMap (Step.written binding)
  := by
  cases orders with
  | nil => rfl
  | cons o os =>
      rw [Context.ordering, if_neg (by simp), List.flatMap_append, Context.written_text,
        Context.written_separated, List.map_map]
      apply List.append_nil

theorem spell_limited (limit offset : Option Operand) :
  spell binding ((limited limit offset).map (ctx, ·))
    = (ctx.limits (limit.map (Operand.steps ctx)) (offset.map (Operand.steps ctx))).flatMap
        (Step.written binding)
  := by
  cases limit with
  | none =>
      cases offset with
      | none => rfl
      | some o =>
          rw [Option.map_none, Option.map_some, Context.limits, List.flatMap_append,
            List.flatMap_append, Context.written_text, Context.written_text]
          apply List.append_nil
  | some l =>
      cases offset with
      | none =>
          rw [Option.map_none, Option.map_some, Context.limits, List.flatMap_append,
            Context.written_text]
          apply List.append_nil
      | some o =>
          rw [Option.map_some, Option.map_some, Context.limits, List.flatMap_append,
            List.flatMap_append, List.flatMap_append, Context.written_text, Context.written_text]
          apply List.append_nil

end Word

variable {binding : Binding}

/-- A member is written as its words when the query that it is is written as its own. -/
theorem spell_memberWords {q : Query} {ws : List (Context × Word)}
    (h : Word.spell binding ws = (q.steps .statement ctx).flatMap (Step.written binding)) :
  Word.spell binding (q.memberWords ctx ws)
    = (q.steps .member ctx).flatMap (Step.written binding)
  := by
  rw [memberWords, steps_member]
  split
  · apply List.append_nil
  · rw [Word.spell_append, Word.spell_cons, h, List.flatMap_append, Context.written_text,
      Context.written_enclosed]
    simp only [List.append_assoc]
    rfl

/-- A query is written as its words when the members of the compound are. -/
theorem spell_words_of_compounds {q : Query}
    (h : Word.spell binding (wordsCompounds (ctx.inside q.validated) q.compounds)
      = (stepsCompounds (ctx.inside q.validated) q.compounds).flatMap (Step.written binding)) :
  Word.spell binding (q.words ctx) = (q.steps .statement ctx).flatMap (Step.written binding)
  := by
  have hcore : Word.written binding (ctx.inside q.validated, .core q.core)
      = (q.coreSteps (ctx.inside q.validated)).flatMap (Step.written binding) := rfl
  rw [words_eq, steps_statement, ← stepsCompounds_eq_flatMap, Word.spell_append, Word.spell_cons,
    List.map_append, Word.spell_append, Word.spell_ordered, Word.spell_limited, h, hcore,
    List.flatMap_append, List.flatMap_append, List.flatMap_append, List.append_assoc,
    List.append_assoc, List.append_assoc]
  split <;> rfl

end Query

mutual

/-- A query is written as its words. -/
theorem Query.spell_words (binding : Binding) (ctx : Context) :
    ∀ q : Query,
      Query.Word.spell binding (q.words ctx)
        = (q.steps .statement ctx).flatMap (Step.written binding)
  | ⟨_, _, _, _, _, _, _, _, _, _, compounds, validated⟩ => by
      apply Query.spell_words_of_compounds
      apply Query.spell_wordsCompounds binding (ctx.inside validated) compounds

theorem Query.spell_wordsCompounds (binding : Binding) (ctx : Context) :
    ∀ cs : List (Compounding × Query),
      Query.Word.spell binding (Query.wordsCompounds ctx cs)
        = (Query.stepsCompounds ctx cs).flatMap (Step.written binding)
  | [] => rfl
  | (op, q) :: r => by
      rw [Query.wordsCompounds, Query.Word.spell_append, Query.Word.spell_cons,
        Query.Word.written_operator, Query.spell_memberWords ctx (Query.spell_words binding ctx q),
        Query.spell_wordsCompounds binding ctx r, Query.stepsCompounds, List.flatMap_append,
        List.flatMap_append, Context.written_text]

end

namespace Query

/-! ### Reading -/

/-- How much is read. -/
inductive Level where
  /-- What can stand beside an operator. -/
  | member
  /-- Members with operators between them. -/
  | chain
  /-- A chain with the ordering that follows it. -/
  | ordered
  | statement

/-- Words are read, at a level, to have a value. -/
inductive Reads {R : Type} (m : Meaning R) : Level → List Word → R → Prop where
  | core (c : SelectCore) : Reads m .member [.core c] (m.core c)
  | enclosed {ws : List Word} {x : R} (h : Reads m .statement ws x) :
    Reads m .member (.opening :: ws ++ [.closing]) x
  | member {ws : List Word} {x : R} (h : Reads m .member ws x) : Reads m .chain ws x
  | operator {ws us : List Word} {x y : R} (op : Compounding) (h : Reads m .chain ws x)
    (h' : Reads m .member us y) :
    Reads m .chain (ws ++ .operator op :: us) (m.combine op x y)
  | chain {ws : List Word} {x : R} (h : Reads m .chain ws x) : Reads m .ordered ws x
  | ordering {ws : List Word} {x : R} (orders : List Order) (h : Reads m .chain ws x) :
    Reads m .ordered (ws ++ [.ordering orders]) (m.order orders x)
  | ordered {ws : List Word} {x : R} (h : Reads m .ordered ws x) : Reads m .statement ws x
  | limits {ws : List Word} {x : R} (limit offset : Option Operand)
    (h : Reads m .ordered ws x) :
    Reads m .statement (ws ++ [.limits limit offset]) (m.limit limit offset x)

section

variable {R : Type} (m : Meaning R)

mutual

/-- Reads on where a member is due, which `k` is done to, inside of the statements that are still
open, with what is to be done to their values. -/
def readMember (k : R → R) (ks : List (R → R)) : List Word → Option R
  | .core c :: ws => readOn (k (m.core c)) ks ws
  | .opening :: ws => readMember id (k :: ks) ws
  | .operator _ :: _ | .closing :: _ | .ordering _ :: _ | .limits _ _ :: _ | [] => none

/-- Reads on after a value. -/
def readOn (x : R) (ks : List (R → R)) : List Word → Option R
  | .operator op :: ws => readMember (m.combine op x) ks ws
  | .ordering orders :: ws => readOn (m.order orders x) ks ws
  | .limits limit offset :: ws => readOn (m.limit limit offset x) ks ws
  | .closing :: ws =>
    match ks with
    | k :: ks => readOn (k x) ks ws
    | [] => none
  | [] => if ks.isEmpty then some x else none
  | .core _ :: _ | .opening :: _ => none

end

/-- The machine reads words to have the value `x` at a level, whatever is still open and whatever
is to be read afterwards. -/
def MachineReads : Level → List Word → R → Prop
  | .member, ws, x => ∀ (k : R → R) (ks : List (R → R)) (us : List Word),
    readMember m k ks (ws ++ us) = readOn m (k x) ks us
  | _, ws, x => ∀ (ks : List (R → R)) (us : List Word),
    readMember m id ks (ws ++ us) = readOn m x ks us

end

namespace Reads

variable {R : Type} {m : Meaning R} {level : Level} {ws : List Word} {x y : R}

theorem machineReads (h : Reads m level ws x) :
  MachineReads m level ws x
  := by
  induction h with
  | core c =>
      intro k ks us
      rfl
  | enclosed _ ih =>
      intro k ks us
      rw [List.append_assoc, List.cons_append, readMember, ih]
      rfl
  | member _ ih =>
      intro ks us
      apply ih
  | operator op _ _ ih ih' =>
      intro ks us
      rw [List.append_assoc, ih, List.cons_append, readOn, ih']
  | chain _ ih => exact ih
  | ordering orders _ ih =>
      intro ks us
      rw [List.append_assoc, ih]
      rfl
  | ordered _ ih => exact ih
  | limits limit offset _ ih =>
      intro ks us
      rw [List.append_assoc, ih]
      rfl

/-- Words are read to have one value only. -/
theorem unique (h : Reads m .statement ws x) (h' : Reads m .statement ws y) :
  x = y
  := by
  have hread := (h.machineReads [] []).symm.trans (h'.machineReads [] [])
  simpa [readOn] using hread

/-! ### Reading queries -/

theorem append_ordered (h : Reads m .chain ws x) (orders : List Order) :
  Reads m .ordered (ws ++ Word.ordered orders) (m.ordered orders x)
  := by
  cases orders with
  | nil =>
      rw [Word.ordered, List.isEmpty_nil, if_pos rfl, List.append_nil]
      apply chain h
  | cons o os => apply ordering _ h

theorem append_limited (h : Reads m .ordered ws x) (limit offset : Option Operand) :
  Reads m .statement (ws ++ Word.limited limit offset) (m.limited limit offset x)
  := by
  unfold Word.limited Meaning.limited
  split
  · apply limits _ _ h
  · rw [List.append_nil]
    apply ordered h

end Reads

theorem value_of_isPlain {R : Type} (m : Meaning R) {q : Query} (h : q.isPlain = true) :
  q.value m false = m.core q.core
  := by
  simp only [isPlain, Bool.and_eq_true, Bool.not_eq_true', List.isEmpty_iff] at h
  obtain ⟨hcompounds, hlimited⟩ := h
  rw [value_eq, hcompounds, hlimited, Meaning.limited, if_neg (by simpa [isLimited] using hlimited)]
  rfl

/-- A member is read to have the value of the query that it is, when the words of the query
are. -/
theorem reads_memberWords {R : Type} {m : Meaning R} (ctx : Context) {q : Query}
    {ws : List (Context × Word)} (h : Reads m .statement (ws.map Prod.snd) (q.value m false)) :
  Reads m .member ((q.memberWords ctx ws).map Prod.snd) (q.value m false)
  := by
  unfold memberWords
  split
  · rename_i hplain
    rw [value_of_isPlain m hplain]
    apply Reads.core
  · rw [List.map_append]
    apply Reads.enclosed h

/-- With its ordering and its limits, a query has its value when the core and the members combined
have theirs. -/
theorem reads_words_of_chain {R : Type} {m : Meaning R} (ctx : Context) {q : Query}
    (h : Reads m .chain
      ([.core q.core] ++ (wordsCompounds (ctx.inside q.validated) q.compounds).map Prod.snd)
      (valueCompounds m (m.core q.core) q.compounds)) :
  Reads m .statement ((q.words ctx).map Prod.snd) (q.value m (ctx.flags.contains .topLevel))
  := by
  have hsnd (ws : List Word) : (ws.map (ctx.inside q.validated, ·)).map Prod.snd = ws := by
    rw [List.map_map]
    apply List.map_id
  rw [words_eq, value_eq, List.map_append, hsnd, ← List.append_assoc, ← valueCompounds_eq_foldl]
  apply (h.append_ordered _).append_limited

end Query

mutual

/-- The words of a query are read to have its value. -/
theorem Query.reads_words {R : Type} (m : Query.Meaning R) (ctx : Context) :
    ∀ q : Query, Query.Reads m .statement ((q.words ctx).map Prod.snd)
      (q.value m (ctx.flags.contains .topLevel))
  | ⟨_, _, _, _, _, _, _, _, _, _, compounds, validated⟩ => by
      apply Query.reads_words_of_chain
      apply Query.reads_wordsCompounds m (ctx.isNested_inside validated) compounds
      apply Query.Reads.member
      apply Query.Reads.core

/-- What has been read is combined with the values of the members that follow it. -/
theorem Query.reads_wordsCompounds {R : Type} (m : Query.Meaning R) {ctx : Context}
    (hctx : ctx.IsNested) :
    ∀ (cs : List (Compounding × Query)) {ws : List Query.Word} {x : R},
      Query.Reads m .chain ws x →
        Query.Reads m .chain (ws ++ (Query.wordsCompounds ctx cs).map Prod.snd)
          (Query.valueCompounds m x cs)
  | [], ws, x, h => by
      rw [Query.wordsCompounds, List.map_nil, List.append_nil]
      exact h
  | (op, q) :: r, ws, x, h => by
      have hq := Query.reads_words m ctx q
      rw [hctx] at hq
      have hread := Query.reads_wordsCompounds m hctx r
        (h.operator op (Query.reads_memberWords ctx hq))
      rw [List.append_assoc] at hread
      rw [Query.wordsCompounds, List.map_append]
      exact hread

end

/-! ### Compiled queries -/

/-- The text of a compiled query consists of words, and read from the left, as compound queries
are, these have one value, which is that of the tree. -/
theorem Node.reads_build {R : Type} (m : Query.Meaning R) {q : Query} {version : Version}
    {binding : Binding} {forValidation : Bool} {flags : Flags} {b : Builder}
    (h : (Node.query q).build version binding forValidation flags = .ok b) :
  b.text.toList
      = (q.words ⟨version, flags, forValidation⟩).flatMap (Query.Word.written binding)
    ∧ ∀ x, Query.Reads m .statement ((q.words ⟨version, flags, forValidation⟩).map Prod.snd) x
      ↔ x = q.value m (flags.contains .topLevel)
  := by
  constructor
  · rw [text_build h]
    apply (Query.spell_words binding _ q).symm
  · intro x
    constructor
    · intro hread
      apply hread.unique (Query.reads_words m _ q)
    · rintro rfl
      apply Query.reads_words m ⟨version, flags, forValidation⟩ q

/-- All rows of a table. -/
def Query.rowsOf (name : String) : Query :=
  selectAll.selectFrom (.table { model := name, name := name })

/-- Tables have one row each, which is their name.  The operators keep the order of rows, and every
ordering reverses it. -/
def Query.Meaning.named : Meaning (List String) where
  core c :=
    match c.source with
    | some (.table t) => [t.name]
    | _ => []
  combine
    | .union, x, y => x ++ y.filter (· ∉ x)
    | .unionAll, x, y => x ++ y
    | .intersect, x, y => x.filter (· ∈ y)
    | .except, x, y => x.filter (· ∉ y)
  order _ x := x.reverse
  limit
    | some (.value (.integer n)), _, x => x.take n.toNatClampNeg
    | _, _, x => x

/-- The cats, without the first of those dogs that are no cats, and those dogs that are cats or
dogs, in descending order. -/
def Query.catsAndDogs : Query :=
  let otherDogs := ((rowsOf "dogs").compound .except (rowsOf "cats")).limitTo (.value (.integer 1))
  let petDogs :=
    (rowsOf "dogs").compound .intersect ((rowsOf "cats").compound .union (rowsOf "dogs"))
  (((rowsOf "cats").compound .except otherDogs).compound .unionAll petDogs).orderBy
    (.of (.node (.computed (.raw "name"))) .descending)

/-- Only dogs would be left if the members were read one after the other. -/
theorem Node.reads_build_catsAndDogs :
  ∃ b, (Node.query .catsAndDogs).build .latest .literals false .topLevel = .ok b
    ∧ b.text = "SELECT * FROM cats EXCEPT " ++
        "SELECT * FROM (SELECT * FROM dogs EXCEPT SELECT * FROM cats LIMIT 1) UNION ALL " ++
        "SELECT * FROM (SELECT * FROM dogs INTERSECT " ++
        "SELECT * FROM (SELECT * FROM cats UNION SELECT * FROM dogs)) ORDER BY name DESC"
    ∧ b.text.toList
      = (Query.catsAndDogs.words ⟨.latest, .topLevel, false⟩).flatMap
          (Query.Word.written .literals)
    ∧ ∀ x, Query.Reads .named .statement
        [.core (Query.rowsOf "cats").core, .operator .except, .opening,
          .core (Query.rowsOf "dogs").core, .operator .except, .core (Query.rowsOf "cats").core,
          .limits (some (.value (.integer 1))) none, .closing, .operator .unionAll, .opening,
          .core (Query.rowsOf "dogs").core, .operator .intersect, .opening,
          .core (Query.rowsOf "cats").core, .operator .union, .core (Query.rowsOf "dogs").core,
          .closing, .closing, .ordering [.of (.node (.computed (.raw "name"))) .descending]] x
      ↔ x = ["dogs", "cats"]
  := by
  have hbuild : (Node.query .catsAndDogs).build .latest .literals false .topLevel
      = .ok ⟨.latest, "SELECT * FROM cats EXCEPT " ++
          "SELECT * FROM (SELECT * FROM dogs EXCEPT SELECT * FROM cats LIMIT 1) UNION ALL " ++
          "SELECT * FROM (SELECT * FROM dogs INTERSECT " ++
          "SELECT * FROM (SELECT * FROM cats UNION SELECT * FROM dogs)) ORDER BY name DESC",
          none, .topLevel⟩ := by
    set_option maxRecDepth 2000 in rfl
  have hvalue : Query.catsAndDogs.value .named true = ["dogs", "cats"] := rfl
  have hreads := Node.reads_build .named hbuild
  refine ⟨_, hbuild, rfl, hreads.1, ?_⟩
  rw [← hvalue]
  exact hreads.2

end TypedSql.Sql
