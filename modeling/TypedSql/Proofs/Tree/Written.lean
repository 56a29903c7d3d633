import TypedSql.Proofs.Token.Quoting
import TypedSql.Proofs.Token.Substitution
import TypedSql.Proofs.Tree.Leaves
import TypedSql.Sql.Compilation

/-!
# Written phrases

A compilation that succeeds writes all the steps of its node, one after the other.  The
steps of a validated node are a phrase, and what the caller supplies is harmless where it is
written.  From these two facts it follows that the tokens of the text are those of what the
steps write, one after the other (`Node.tokens_compileWith`).
-/

namespace TypedSql.Sql

/-! ### Emissions -/

namespace Emission

variable {b : Binding} {ss : List Step}

theorem failure_append (e f : Emission) :
  (e.append f).failure = e.failure.or f.failure
  := by
  cases h : e.failure <;> simp [append, h]

theorem append_failure_eq_none_iff {e f : Emission} :
  (e.append f).failure = none ↔ e.failure = none ∧ f.failure = none
  := by
  rw [failure_append, Option.or_eq_none_iff]

theorem append_of_failure_eq_none {e : Emission} (h : e.failure = none) (f : Emission) :
  e.append f = ⟨e.text ++ f.text, e.args ++ f.args, f.failure⟩
  := by
  simp only [append, h]

theorem failure_ofSteps_append (binding : Binding) (ss ts : List Step) :
  (ofSteps binding (ss ++ ts)).failure
    = (ofSteps binding ss).failure.or (ofSteps binding ts).failure
  := by
  rw [ofSteps_append, failure_append]

theorem failure_ofSteps_text (binding : Binding) (ctx : Context) (s : String) :
  (ofSteps binding (ctx.text s)).failure = none
  := rfl

/-- Lists of steps, one after the other, fail as the first of them does that fails. -/
theorem failure_ofSteps_flatMap {α : Type} (f : α → List Step) (xs : List α) :
  (ofSteps b (xs.flatMap f)).failure = xs.findSome? fun x => (ofSteps b (f x)).failure
  := by
  induction xs with
  | nil => rfl
  | cons x xs ih =>
      rw [List.flatMap_cons, failure_ofSteps_append, ih, List.findSome?_cons]
      cases (ofSteps b (f x)).failure <;> rfl

theorem ofSteps_failure_eq_none_iff :
  (ofSteps b ss).failure = none ↔ ∀ s ∈ ss, (ofStep b s).failure = none
  := by
  induction ss with
  | nil => simp [ofSteps, empty]
  | cons s ss ih => rw [ofSteps, append_failure_eq_none_iff, ih, List.forall_mem_cons]

/-- A failure arises at a step. -/
theorem exists_of_failure_eq_some {f : Failure} (h : (ofSteps b ss).failure = some f) :
  ∃ s ∈ ss, (ofStep b s).failure = some f
  := by
  induction ss with
  | nil => cases h
  | cons s ss ih =>
      cases hs : (ofStep b s).failure with
      | none =>
          rw [ofSteps, append_of_failure_eq_none hs] at h
          obtain ⟨t, ht, hf⟩ := ih h
          use t, List.mem_cons_of_mem s ht
      | some g =>
          simp only [ofSteps, append, hs] at h
          use s, List.mem_cons_self
          rw [hs, ← h]

theorem text_ofSteps (h : ∀ s ∈ ss, (ofStep b s).failure = none) :
  (ofSteps b ss).text.toList = ss.flatMap fun s => (ofStep b s).text.toList
  := by
  induction ss with
  | nil => rfl
  | cons s ss ih =>
      rw [List.forall_mem_cons] at h
      simp only [ofSteps, append_of_failure_eq_none h.1, String.toList_append, ih h.2,
        List.flatMap_cons]

theorem args_ofSteps_flatMap {α : Type} {f : α → List Step} {xs : List α}
    (h : ∀ x ∈ xs, (ofSteps b (f x)).failure = none) :
  (ofSteps b (xs.flatMap f)).args = xs.flatMap fun x => (ofSteps b (f x)).args
  := by
  induction xs with
  | nil => rfl
  | cons x xs ih =>
      rw [List.forall_mem_cons] at h
      rw [List.flatMap_cons, ofSteps_append, append_of_failure_eq_none h.1, ih h.2,
        List.flatMap_cons]

theorem args_ofSteps (h : ∀ s ∈ ss, (ofStep b s).failure = none) :
  (ofSteps b ss).args = ss.flatMap fun s => (ofStep b s).args
  := by
  induction ss with
  | nil => rfl
  | cons s ss ih =>
      rw [List.forall_mem_cons] at h
      simp only [ofSteps, append_of_failure_eq_none h.1, ih h.2, List.flatMap_cons]

end Emission

/-- The text that a step writes. -/
def Step.written (b : Binding) (s : Step) : List Char :=
  (Emission.ofStep b s).text.toList

section

variable {binding : Binding}

theorem Context.written_text (ctx : Context) (s : String) :
  (ctx.text s).flatMap (Step.written binding) = s.toList
  := by
  apply List.append_nil

theorem Context.written_enclosed (ctx : Context) (ss : List Step) :
  (ctx.enclosed ss).flatMap (Step.written binding)
    = "(".toList ++ ss.flatMap (Step.written binding) ++ ")".toList
  := by
  rw [enclosed, List.flatMap_append, List.flatMap_append, written_text, written_text]

theorem Context.written_separated (ctx : Context) (separator : String) (sss : List (List Step)) :
  (ctx.separated separator sss).flatMap (Step.written binding)
    = separator.toList.intercalate (sss.map (List.flatMap (Step.written binding)))
  := by
  induction sss with
  | nil => rfl
  | cons ss r ih =>
      cases r with
      | nil => simp [separated]
      | cons ts r =>
          rw [separated, List.flatMap_append, List.flatMap_append, ih, written_text]
          simp

end

/-! ### Compilations -/

namespace Builder

variable (version : Version) (binding : Binding) (flags : Flags)

theorem context_new (forValidation : Bool) :
  ((new version binding).setFlags flags).context forValidation = ⟨version, flags, forValidation⟩
  := by
  simp [context, setFlags, new, Flags.union, Flags.none]

/-- What is appended to a new builder is all that is in it. -/
theorem append_new (ss : List Step) :
  ((new version binding).setFlags flags).append ss
    = (⟨version, (Emission.ofSteps binding ss).text,
        (new version binding).args.map (· ++ (Emission.ofSteps binding ss).args),
        match (Emission.ofSteps binding ss).failure with
        | some f => f.flags
        | none => flags⟩,
      (Emission.ofSteps binding ss).failure.map Failure.error)
  := by
  have hbinding : ((new version binding).setFlags flags).binding = binding := by
    cases binding <;> rfl
  have hflags : ((new version binding).setFlags flags).flags = flags := by
    simp [setFlags, new, Flags.union, Flags.none]
  have htext : ((new version binding).setFlags flags).text ++ (Emission.ofSteps binding ss).text
      = (Emission.ofSteps binding ss).text := String.empty_append
  rw [append, hbinding, add, hflags, htext]
  rfl

/-- What comes of appending steps to a new builder. -/
def fill (ss : List Step) : Except CompileError Builder :=
  match ((new version binding).setFlags flags).append ss with
  | (b, none) => .ok b
  | (_, some e) => .error e

/-- A new builder once steps are appended that can be written. -/
def filled (ss : List Step) : Builder :=
  ⟨version, (Emission.ofSteps binding ss).text,
    (new version binding).args.map (· ++ (Emission.ofSteps binding ss).args), flags⟩

theorem fill_eq (ss : List Step) :
  fill version binding flags ss
    = match (Emission.ofSteps binding ss).failure with
      | some f => .error f.error
      | none => .ok (filled version binding flags ss)
  := by
  rw [fill, append_new, filled]
  cases (Emission.ofSteps binding ss).failure <;> rfl

variable {version binding flags} {ss : List Step}

theorem fill_eq_ok_iff {b : Builder} :
  fill version binding flags ss = .ok b
    ↔ (Emission.ofSteps binding ss).failure = none ∧ b = filled version binding flags ss
  := by
  rw [fill_eq]
  cases (Emission.ofSteps binding ss).failure with
  | some f => simp
  | none => simp [eq_comm]

theorem fill_eq_error_iff {e : CompileError} :
  fill version binding flags ss = .error e
    ↔ ∃ f, (Emission.ofSteps binding ss).failure = some f ∧ f.error = e
  := by
  rw [fill_eq]
  cases (Emission.ofSteps binding ss).failure <;> simp

theorem exists_fill_iff :
  (∃ b, fill version binding flags ss = .ok b) ↔ (Emission.ofSteps binding ss).failure = none
  := by
  simp only [fill_eq_ok_iff, exists_and_left, exists_eq, and_true]

end Builder

namespace Node

section

variable {n : Node} {version : Version} {binding : Binding} {forValidation : Bool} {flags : Flags}

/-- A compilation writes the steps of its node into a new builder. -/
theorem build_eq_fill :
  n.build version binding forValidation flags
    = Builder.fill version binding flags (n.steps ⟨version, flags, forValidation⟩)
  := by
  rw [build, Builder.appendNode, Builder.context_new]
  rfl

theorem build_eq_ok_iff {b : Builder} :
  n.build version binding forValidation flags = .ok b
    ↔ (Emission.ofSteps binding (n.steps ⟨version, flags, forValidation⟩)).failure = none
        ∧ b = Builder.filled version binding flags (n.steps ⟨version, flags, forValidation⟩)
  := by
  rw [build_eq_fill, Builder.fill_eq_ok_iff]

theorem build_eq_error_iff {e : CompileError} :
  n.build version binding forValidation flags = .error e
    ↔ ∃ f, (Emission.ofSteps binding (n.steps ⟨version, flags, forValidation⟩)).failure = some f
        ∧ f.error = e
  := by
  rw [build_eq_fill, Builder.fill_eq_error_iff]

theorem exists_build_iff :
  (∃ b, n.build version binding forValidation flags = .ok b)
    ↔ (Emission.ofSteps binding (n.steps ⟨version, flags, forValidation⟩)).failure = none
  := by
  rw [build_eq_fill, Builder.exists_fill_iff]

/-- The text of a compilation is the text of the steps of the node. -/
theorem map_text_build_eq_ok_iff {s : String} :
  (n.build version binding forValidation flags).map Builder.text = .ok s
    ↔ (Emission.ofSteps binding (n.steps ⟨version, flags, forValidation⟩)).failure = none
      ∧ (Emission.ofSteps binding (n.steps ⟨version, flags, forValidation⟩)).text = s
  := by
  rw [build_eq_fill, Builder.fill_eq]
  cases (Emission.ofSteps binding (n.steps ⟨version, flags, forValidation⟩)).failure <;>
    simp [Except.map, Builder.filled]

/-- The text of a compilation is what the steps of the node write, one after the other. -/
theorem text_build {b : Builder} (h : n.build version binding forValidation flags = .ok b) :
  b.text.toList = (n.steps ⟨version, flags, forValidation⟩).flatMap (Step.written binding)
  := by
  obtain ⟨hnone, rfl⟩ := build_eq_ok_iff.mp h
  exact Emission.text_ofSteps (Emission.ofSteps_failure_eq_none_iff.mp hnone)

end

variable {n : Node} {o : Options}

/-- The steps of a node under given settings. -/
def stepsWith (n : Node) (o : Options) : List Step :=
  n.steps ⟨o.version, n.defaultFlags.union o.flags, false⟩

/-- A compilation writes the steps of its node. -/
theorem compileWith_eq (n : Node) (o : Options) :
  n.compileWith o
    = match (Emission.ofSteps o.binding (n.stepsWith o)).failure with
      | some f => .error f.error
      | none => .ok ⟨(Emission.ofSteps o.binding (n.stepsWith o)).text,
          if o.withArguments then (Emission.ofSteps o.binding (n.stepsWith o)).args else [],
          (n.defaultFlags.union o.flags).validates⟩
  := by
  have hargs (as : List BoundArg) :
      ((Builder.new o.version o.binding).args.map (· ++ as)).getD []
        = if o.withArguments then as else [] := by
    simp only [Options.binding]
    split <;> rfl
  rw [compileWith, build_eq_fill, Builder.fill_eq]
  cases hf : (Emission.ofSteps o.binding (n.steps ⟨_, _, false⟩)).failure with
  | some f => simp only [stepsWith, hf, Except.map]
  | none => simp only [stepsWith, hf, Except.map, Statement.ofBuilder, Builder.filled, hargs]

/-- What is known of a compilation that succeeds: every step is written, and the statement
is what the steps write, one after the other. -/
structure Compiled (n : Node) (o : Options) (st : Statement) : Prop where
  succeeds : ∀ s ∈ n.stepsWith o, (Emission.ofStep o.binding s).failure = none
  sql : st.sql.toList = (n.stepsWith o).flatMap (Step.written o.binding)
  args : o.withArguments = true →
    st.args = (n.stepsWith o).flatMap fun s => (Emission.ofStep o.binding s).args

theorem compiled {st : Statement} (h : n.compileWith o = .ok st) :
  n.Compiled o st
  := by
  rw [compileWith_eq] at h
  cases hf : (Emission.ofSteps o.binding (n.stepsWith o)).failure with
  | some f => simp [hf] at h
  | none =>
      simp only [hf, Except.ok.injEq] at h
      have hs := Emission.ofSteps_failure_eq_none_iff.mp hf
      constructor
      · exact hs
      · rw [← h]
        apply Emission.text_ofSteps hs
      · intro ho
        rw [← h]
        simp only [ho, if_true]
        apply Emission.args_ofSteps hs

/-- A compilation fails only at a step that cannot be written. -/
theorem exists_failure_of_compileWith {e : CompileError} (h : n.compileWith o = .error e) :
  ∃ s ∈ n.stepsWith o, ∃ f, (Emission.ofStep o.binding s).failure = some f ∧ f.error = e
  := by
  rw [compileWith_eq] at h
  cases hf : (Emission.ofSteps o.binding (n.stepsWith o)).failure with
  | none => simp [hf] at h
  | some f =>
      simp only [hf, Except.error.injEq] at h
      obtain ⟨s, hs, hfail⟩ := Emission.exists_of_failure_eq_some hf
      use s, hs, f, hfail

/-- The steps of a validated node are a phrase of its leaves. -/
theorem phrase_stepsWith (hv : o.flags.validates = true) (n : Node) :
  Phrase (· ∈ n.leaves) false (n.stepsWith o)
  := by
  apply phrase_steps n
  · apply Flags.contains_union_right hv
  · intro p hp
    exact hp

end Node

/-- Where nothing is refused, the texts of the compiler are scanned as code. -/
theorem Spaced.isInert_of_mem {ss : List Step} {behind : Bool} (h : Spaced behind ss)
    (hr : ∀ s ∈ ss, ∀ e, s.piece ≠ .refusal e) :
  ∀ s ∈ ss, ∀ t, s.piece = .text t → isInert t.toList = true
  := by
  induction ss generalizing behind with
  | nil => simp
  | cons s ss ih =>
      obtain ⟨hs, hss⟩ := List.forall_mem_cons.mp hr
      rw [List.forall_mem_cons]
      obtain ⟨flags, piece⟩ := s
      cases piece with
      | text t =>
          obtain ⟨hframe, -, hrest⟩ := h
          simp only [isFrame, Bool.and_eq_true] at hframe
          refine ⟨?_, ih hrest hss⟩
          rintro _ ⟨⟩
          exact hframe.2
      | refusal e => exact absurd rfl (hs e)
      | _ => exact ⟨by simp, ih h.2 hss⟩

/-- What is known of a step of the node `n` that is written under validation. -/
structure Step.Valid (n : Node) (b : Binding) (s : Step) : Prop where
  inert : ∀ t, s.piece = .text t → isInert t.toList = true
  validates : s.piece.isSupplied = true → s.flags.validates = true
  leaf : s.piece.isSupplied = true → s.piece ∈ n.leaves
  succeeds : (Emission.ofStep b s).failure = none

/-- Where validation is in force and every step of a node is written, the steps are valid. -/
theorem Node.valid_of_mem_steps {n : Node} {ctx : Context} {b : Binding}
    (hv : ctx.flags.validates = true)
    (h : ∀ s ∈ n.steps ctx, (Emission.ofStep b s).failure = none) :
  ∀ s ∈ n.steps ctx, s.Valid n b
  := by
  have hphrase : Phrase (· ∈ n.leaves) false (n.steps ctx) := n.phrase_steps hv fun _ hp => hp
  intro s hs
  constructor
  · apply hphrase.spaced.isInert_of_mem _ s hs
    rintro ⟨flags, piece⟩ ht e rfl
    cases h _ ht
  · exact fun hp => (hphrase.supplied s hs hp).1
  · exact fun hp => (hphrase.supplied s hs hp).2
  · apply h s hs

theorem Node.valid_of_mem {n : Node} {o : Options} {st : Statement}
    (hv : o.flags.validates = true) (h : n.Compiled o st) :
  ∀ s ∈ n.stepsWith o, s.Valid n o.binding
  := valid_of_mem_steps (Flags.contains_union_right hv) h.succeeds

/-! ### Tokens of what is written -/

/-- Whether a text can stand for a step: it is the text of the compiler, or, where the caller
supplies the piece, harmless.  Nothing stands for a refusal. -/
def Step.Admits (s : Step) (w : List Char) : Prop :=
  match s.piece with
  | .text t => w = t.toList
  | .refusal _ => False
  | _ => Harmless (tokens w)

namespace Spaced

variable {w : Step → List Char} {ss : List Step} {behind : Bool}

/-- Behind a piece of the caller stands nothing or a separating character. -/
theorem isApart_flatMap (h : Spaced true ss) (hw : ∀ s ∈ ss, s.Admits (w s)) :
  isApart (ss.flatMap w) = true
  := by
  cases ss with
  | nil => rfl
  | cons s ss =>
      have hs := hw s List.mem_cons_self
      obtain ⟨flags, piece⟩ := s
      cases piece with
      | text t =>
          obtain ⟨hframe, hapart, -⟩ := h
          have hne : t.toList ≠ [] := by
            simp only [isFrame, Bool.and_eq_true, bne_iff_ne] at hframe
            exact hframe.1
          rw [List.flatMap_cons, show w _ = t.toList from hs]
          cases ht : t.toList with
          | nil => exact absurd ht hne
          | cons c cs =>
              rw [ht] at hapart
              apply hapart rfl
      | refusal e => cases hs
      | _ => cases h.1

/-- The tokens of texts that stand for spaced steps are those of one text after the
other. -/
theorem tokens_flatMap (h : Spaced behind ss) (hw : ∀ s ∈ ss, s.Admits (w s)) :
  tokens (ss.flatMap w) = ss.flatMap fun s => tokens (w s)
  := by
  induction ss generalizing behind with
  | nil => rfl
  | cons s ss ih =>
      obtain ⟨hs, hss⟩ := List.forall_mem_cons.mp hw
      have supplied (ho : Harmless (tokens (w s))) (h : Spaced true ss) :
          tokens ((s :: ss).flatMap w) = (s :: ss).flatMap fun s => tokens (w s) := by
        rw [List.flatMap_cons, List.flatMap_cons, ← ih h hss]
        apply tokens_append_of_isApart (endsOutside_of_harmless ho) (h.isApart_flatMap hss)
      obtain ⟨flags, piece⟩ := s
      cases piece with
      | text t =>
          obtain ⟨hframe, -, hrest⟩ := h
          simp only [isFrame, Bool.and_eq_true] at hframe
          have ht : w ⟨flags, .text t⟩ = t.toList := hs
          rw [List.flatMap_cons, List.flatMap_cons, ← ih hrest hss, ht,
            tokens_append_of_isInert hframe.2, tokens_of_isInert hframe.2]
      | refusal e => cases hs
      | _ => exact supplied hs h.2

end Spaced

/-! ### What the caller supplies -/

namespace Emission

variable {flags : Flags}

theorem exists_of_ofExcept {r : Except CompileError String}
    (h : (ofExcept flags r).failure = none) :
  ∃ s, r = .ok s ∧ (ofExcept flags r).text = s
  := by
  cases r with
  | ok s => exact ⟨s, rfl, rfl⟩
  | error e => cases h

/-- What is written under validation has passed its check. -/
theorem check_of_checked {check : Except CompileError Unit} {s : String}
    (hv : flags.validates = true) (h : (checked flags check s).failure = none) :
  check = .ok () ∧ (checked flags check s).text = s
  := by
  simp only [checked, hv, if_true] at h ⊢
  cases check with
  | ok u => exact ⟨rfl, rfl⟩
  | error e => cases h

/-- Nothing is bound for what is checked. -/
theorem args_checked (flags : Flags) (check : Except CompileError Unit) (s : String) :
  (checked flags check s).args = []
  := by
  unfold checked
  split
  · cases check <;> rfl
  · rfl

theorem ofStep_null {v : Value} (h : v.isNull = true) (b : Binding) :
  ofStep b ⟨flags, .scalar v⟩ = ofText "NULL"
  := by
  simp [ofStep, scalar, h]

theorem ofStep_bound {v : Value} (h : v.isNull = false) :
  ofStep .bound ⟨flags, .scalar v⟩ = ⟨"?", [.value v], none⟩
  := by
  simp [ofStep, scalar, h]

theorem ofStep_literals {v : Value} (h : v.isNull = false) :
  ofStep .literals ⟨flags, .scalar v⟩ = ofExcept flags (literal flags.validates v)
  := by
  simp [ofStep, scalar, h]

/-- A condition that is written under validation has passed its check. -/
theorem checkFragment_of_condition {b : Binding} {t : String} {args : List Value}
    (hv : flags.validates = true)
    (h : (ofStep b ⟨flags, .condition t args⟩).failure = none) :
  checkFragment t = .ok ()
  := by
  obtain ⟨hcheck, -⟩ := append_failure_eq_none_iff.mp h
  apply (check_of_checked hv hcheck).1

/-- A condition that passes its check is written with its values. -/
theorem ofStep_condition {t : String} (hok : checkFragment t = .ok ()) (b : Binding)
    (args : List Value) :
  ofStep b ⟨flags, .condition t args⟩ = condition b flags t args
  := by
  have hchecked : checked flags (checkFragment t) "" = empty := by
    simp [checked, hok, ofText, empty]
  rw [ofStep, hchecked, empty_append]

/-- A condition with bound values has as many of them as placeholders. -/
theorem condition_bound {t : String} {args : List Value}
    (h : (condition .bound flags t args).failure = none) :
  placeholderCount t = args.length
    ∧ condition .bound flags t args = ⟨t, args.map .value, none⟩
  := by
  have hcount : placeholderCount t = args.length := by
    by_contra hne
    simp [condition, hne, fail] at h
  use hcount
  simp [condition, hcount]

/-- Two values or more are written as the literal of the first, a comma and the others. -/
theorem literalList_cons {v : Value} {s : String} (h : literal flags.validates v = .ok s)
    (w : Value) (vs : List Value) :
  literalList flags (v :: w :: vs)
    = ⟨s ++ (", " ++ (literalList flags (w :: vs)).text), (literalList flags (w :: vs)).args,
        (literalList flags (w :: vs)).failure⟩
  := by
  rw [literalList, h]
  rfl

theorem exists_of_literalList {v w : Value} {vs : List Value}
    (h : (literalList flags (v :: w :: vs)).failure = none) :
  (literalList flags (w :: vs)).failure = none ∧ ∃ s, literal flags.validates v = .ok s
  := by
  rw [literalList, append_failure_eq_none_iff, append_failure_eq_none_iff] at h
  obtain ⟨hv, -, hvs⟩ := h
  obtain ⟨s, hs, -⟩ := exists_of_ofExcept hv
  use hvs, s

/-- The tokens of a literal, a comma and a text. -/
theorem tokens_literal_append {validated : Bool} {v : Value} {s : String}
    (h : literal validated v = .ok s) (t : String) :
  tokens (s ++ (", " ++ t)).toList
    = tokens s.toList ++ (.code ',' :: .code ' ' :: tokens t.toList)
  := by
  have hcomma : tokens (", " ++ t).toList = .code ',' :: .code ' ' :: tokens t.toList := by
    rw [String.toList_append]
    apply tokens_append_of_isInert (by decide) t.toList
  have hs := endsOutside_of_harmless (harmless_literal h)
  rw [String.toList_append, tokens_append_of_isApart hs, hcomma]
  rw [String.toList_append]
  rfl

theorem harmless_literalList {vs : List Value} (h : (literalList flags vs).failure = none) :
  Harmless (tokens (literalList flags vs).text.toList)
  := by
  induction vs with
  | nil => rfl
  | cons v vs ih =>
      cases vs with
      | nil =>
          obtain ⟨s, hs, ht⟩ := exists_of_ofExcept h
          rw [literalList, ht]
          apply harmless_literal hs
      | cons w vs =>
          obtain ⟨hvs, s, hs⟩ := exists_of_literalList h
          rw [literalList_cons hs, tokens_literal_append hs]
          exact (harmless_literal hs).append (ih hvs)

end Emission

/-- A step that is written under validation is harmless, unless it is a condition with
literals in it. -/
theorem Step.Valid.admits_written {n : Node} {b : Binding} {s : Step} (hs : s.Valid n b)
    (hc : b = .literals → ∀ t args, s.piece = .condition t args → args = []) :
  s.Admits (s.written b)
  := by
  have hv := hs.validates
  have h := hs.succeeds
  obtain ⟨flags, piece⟩ := s
  cases piece with
  | text t => rfl
  | refusal e => cases h
  | identifier name =>
      obtain ⟨hok, ht⟩ := Emission.check_of_checked (hv rfl) h
      change Harmless (tokens (Emission.checked _ _ _).text.toList)
      rw [ht]
      apply harmless_of_isPlain (isPlain_of_checkIdentifier hok)
  | fragment t =>
      obtain ⟨hok, ht⟩ := Emission.check_of_checked (hv rfl) h
      change Harmless (tokens (Emission.checked _ _ _).text.toList)
      rw [ht]
      apply (checkFragment_eq_ok_iff t).mp hok
  | scalar v =>
      change Harmless (tokens (Emission.ofStep b ⟨flags, .scalar v⟩).text.toList)
      cases hn : v.isNull with
      | true =>
          rw [Emission.ofStep_null hn]
          exact show Harmless (tokens "NULL".toList) by decide
      | false =>
          cases b with
          | bound =>
              rw [Emission.ofStep_bound hn]
              exact show Harmless (tokens "?".toList) by decide
          | literals =>
              rw [Emission.ofStep_literals hn] at h ⊢
              obtain ⟨l, hl, ht⟩ := Emission.exists_of_ofExcept h
              rw [ht]
              apply harmless_literal hl
  | list vs =>
      change (Emission.list b flags vs).failure = none at h
      change Harmless (tokens (Emission.list b flags vs).text.toList)
      cases b with
      | bound => exact show Harmless (tokens "?[]".toList) by decide
      | literals =>
          unfold Emission.list at h ⊢
          dsimp only at h ⊢
          split
          · decide
          · rename_i hne
            simp only [hne] at h
            apply Emission.harmless_literalList h
  | condition t args =>
      have hok := Emission.checkFragment_of_condition (hv rfl) h
      rw [Emission.ofStep_condition hok] at h
      have htext : (Emission.condition b flags t args).text = t := by
        cases b with
        | bound => rw [(Emission.condition_bound h).2]
        | literals =>
            obtain ⟨l, hl, ht⟩ := Emission.exists_of_ofExcept h
            rw [hc rfl t args rfl] at hl
            apply ht.trans (inlineArguments_nil hl)
      change Harmless (tokens (Emission.ofStep b ⟨flags, .condition t args⟩).text.toList)
      rw [Emission.ofStep_condition hok, htext]
      apply (checkFragment_eq_ok_iff t).mp hok

namespace Node

variable {n : Node} {o : Options} {st : Statement}

/-- Every step of a validated compilation is harmless where it comes from the caller, when
the raw conditions with values are bound. -/
theorem admits_written (hv : o.flags.validates = true)
    (hc : o.withArguments = false → ∀ s args, .condition s args ∈ n.leaves → args = [])
    (h : n.Compiled o st) :
  ∀ s ∈ n.stepsWith o, s.Admits (s.written o.binding)
  := by
  intro s hs
  have hvalid := valid_of_mem hv h s hs
  apply hvalid.admits_written
  intro hb t args hp
  have ho : o.withArguments = false := by
    cases ho : o.withArguments with
    | false => rfl
    | true => simp [Options.binding, ho] at hb
  have hleaf := hvalid.leaf (by rw [hp]; rfl)
  rw [hp] at hleaf
  apply hc ho t args hleaf

/-- The tokens of a validated statement are those of its steps. -/
theorem tokens_compileWith (hv : o.flags.validates = true)
    (hc : o.withArguments = false → ∀ s args, .condition s args ∈ n.leaves → args = [])
    (h : n.Compiled o st) :
  tokens st.sql.toList = (n.stepsWith o).flatMap fun s => tokens (s.written o.binding)
  := by
  rw [h.sql]
  apply (phrase_stepsWith hv n).spaced.tokens_flatMap (admits_written hv hc h)

end Node

end TypedSql.Sql
