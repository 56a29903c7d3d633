import Mathlib.Tactic.Common
import TypedSql.Proofs.Logic.Truth

/-!
# Precedence

What a condition is written as is a sequence of words, among which operands that are not looked
into stand as single words.  Such a sequence is read by precedence: a negation takes the
shortest operand after it, a conjunction takes negations, a disjunction takes conjunctions, and
parentheses make an operand of everything between them.  How the operands of one connective are
grouped is left open.

A sequence has at most one value (`Reads.unique`).  This is because there is a machine that goes
over the words from the left to the right, and comes to the value of every reading there is.
-/

namespace TypedSql.Sql

/-- A word of a written condition. -/
inductive Word (α : Type) where
  | opening
  | closing
  | negation
  | connective (op : Connective)
  | constant (b : Bool)
  /-- An operand that is not looked into. -/
  | operand (a : α)

/-- How tightly what is read holds together. -/
inductive Level where
  | disjunction
  | conjunction
  | factor

variable {α : Type}

/-- Words between parentheses. -/
def Word.enclosed (ws : List (Word α)) : List (Word α) :=
  .opening :: ws ++ [.closing]

/-- Words between parentheses, if so wanted. -/
def Word.bracketed (isBracketed : Bool) (ws : List (Word α)) : List (Word α) :=
  if isBracketed then enclosed ws else ws

/-- Operands with a connective between them. -/
def Word.joined (op : Connective) : List (List (Word α)) → List (Word α)
  | [] => []
  | [ws] => ws
  | ws :: us :: r => ws ++ .connective op :: joined op (us :: r)

/-- The level at which a connective takes its operands. -/
def Connective.level : Connective → Level
  | and => .conjunction
  | or => .disjunction

/-- Words are read, at a level, to have a value when operands have the values `v`. -/
inductive Reads (v : α → Truth) : Level → List (Word α) → Truth → Prop where
  | constant (b : Bool) : Reads v .factor [.constant b] (.ofBool b)
  | operand (a : α) : Reads v .factor [.operand a] (v a)
  | enclosed {ws : List (Word α)} {x : Truth} (h : Reads v .disjunction ws x) :
    Reads v .factor (Word.enclosed ws) x
  | negation {ws : List (Word α)} {x : Truth} (h : Reads v .factor ws x) :
    Reads v .factor (.negation :: ws) x.not
  | factor {ws : List (Word α)} {x : Truth} (h : Reads v .factor ws x) :
    Reads v .conjunction ws x
  | and {ws us : List (Word α)} {x y : Truth} (h : Reads v .conjunction ws x)
    (h' : Reads v .conjunction us y) :
    Reads v .conjunction (ws ++ .connective .and :: us) (x.and y)
  | conjunction {ws : List (Word α)} {x : Truth} (h : Reads v .conjunction ws x) :
    Reads v .disjunction ws x
  | or {ws us : List (Word α)} {x y : Truth} (h : Reads v .disjunction ws x)
    (h' : Reads v .disjunction us y) :
    Reads v .disjunction (ws ++ .connective .or :: us) (x.or y)

/-! ### The machine -/

/-- What has been read of an expression before an operand: the disjuncts, the conjuncts of the
last disjunct, and whether the operand is negated. -/
structure Frame where
  disjuncts : Truth
  conjuncts : Truth
  negated : Bool

namespace Frame

/-- The start of an expression. -/
def start : Frame := ⟨.fails, .holds, false⟩

/-- The conjuncts once an operand of value `x` is read. -/
def conjoin (f : Frame) (x : Truth) : Truth :=
  f.conjuncts.and (if f.negated then x.not else x)

end Frame

mutual

/-- Reads on where an operand is due, inside of the expressions that are still open. -/
def readOperand (v : α → Truth) (f : Frame) (fs : List Frame) : List (Word α) → Option Truth
  | .opening :: ws => readOperand v .start (f :: fs) ws
  | .negation :: ws => readOperand v { f with negated := !f.negated } fs ws
  | .constant b :: ws => readConnective v f.disjuncts (f.conjoin (.ofBool b)) fs ws
  | .operand a :: ws => readConnective v f.disjuncts (f.conjoin (v a)) fs ws
  | .closing :: _ | .connective _ :: _ | [] => none

/-- Reads on after an operand, with the disjuncts, and the conjuncts of the last disjunct. -/
def readConnective (v : α → Truth) (x y : Truth) (fs : List Frame) :
    List (Word α) → Option Truth
  | .connective .and :: ws => readOperand v ⟨x, y, false⟩ fs ws
  | .connective .or :: ws => readOperand v ⟨x.or y, .holds, false⟩ fs ws
  | .closing :: ws =>
    match fs with
    | f :: fs => readConnective v f.disjuncts (f.conjoin (x.or y)) fs ws
    | [] => none
  | [] => if fs.isEmpty then some (x.or y) else none
  | .opening :: _ | .negation :: _ | .constant _ :: _ | .operand _ :: _ => none

end

/-- The machine reads words to have the value `x` at a level, whatever it has read before and
whatever is to be read afterwards. -/
def MachineReads (v : α → Truth) : Level → List (Word α) → Truth → Prop
  | .factor, ws, x => ∀ (f : Frame) (fs : List Frame) (us : List (Word α)),
    readOperand v f fs (ws ++ us) = readConnective v f.disjuncts (f.conjoin x) fs us
  | .conjunction, ws, x => ∀ (d c : Truth) (fs : List Frame) (us : List (Word α)),
    readOperand v ⟨d, c, false⟩ fs (ws ++ us) = readConnective v d (c.and x) fs us
  | .disjunction, ws, x => ∀ (d : Truth) (fs : List Frame) (us : List (Word α)),
    ∃ d' c', d'.or c' = d.or x ∧
      readOperand v ⟨d, .holds, false⟩ fs (ws ++ us) = readConnective v d' c' fs us

namespace Reads

variable {v : α → Truth} {level : Level} {ws : List (Word α)} {x y : Truth}

theorem machineReads (h : Reads v level ws x) :
  MachineReads v level ws x
  := by
  induction h with
  | constant b =>
      intro f fs us
      rfl
  | operand a =>
      intro f fs us
      rfl
  | @enclosed ws x _ ih =>
      intro f fs us
      obtain ⟨d, c, hdc, hread⟩ := ih .fails (f :: fs) (.closing :: us)
      rw [Truth.fails_or] at hdc
      rw [Word.enclosed, List.append_assoc, List.cons_append, readOperand]
      apply hread.trans
      rw [readConnective, hdc]
  | negation _ ih =>
      intro f fs us
      rw [List.cons_append, readOperand, ih]
      cases hf : f.negated <;> simp [Frame.conjoin, hf]
  | factor _ ih =>
      intro d c fs us
      apply ih
  | @and ws us x y _ _ ihx ihy =>
      intro d c fs ts
      rw [List.append_assoc, ihx, List.cons_append, readConnective, ihy, Truth.and_assoc]
  | @conjunction ws x _ ih =>
      intro d fs us
      use d, x
      constructor
      · rfl
      · rw [ih, Truth.holds_and]
  | @or ws us x y _ _ ihx ihy =>
      intro d fs ts
      obtain ⟨d', c', hx, hreadx⟩ := ihx d fs (.connective .or :: us ++ ts)
      obtain ⟨d'', c'', hy, hready⟩ := ihy (d'.or c') fs ts
      use d'', c''
      constructor
      · rw [hy, hx, Truth.or_assoc]
      · rw [List.append_assoc, hreadx, List.cons_append, readConnective, hready]

/-- Words are read to have one value only. -/
theorem unique (h : Reads v .disjunction ws x) (h' : Reads v .disjunction ws y) :
  x = y
  := by
  obtain ⟨d, c, hx, hreadx⟩ := h.machineReads .fails [] []
  obtain ⟨d', c', hy, hready⟩ := h'.machineReads .fails [] []
  rw [Truth.fails_or] at hx hy
  have hread := hreadx.symm.trans hready
  simp only [readConnective, List.isEmpty_nil, if_true, Option.some.injEq] at hread
  rw [← hx, ← hy, hread]

theorem ne_nil (h : Reads v level ws x) :
  ws ≠ []
  := by
  induction h <;> simp_all [Word.enclosed]

/-! ### Levels -/

/-- What is read as the operand of a negation can be read at every level. -/
theorem at_level (h : Reads v .factor ws x) (level : Level) :
  Reads v level ws x
  := by
  cases level with
  | factor => apply h
  | conjunction => apply factor h
  | disjunction => apply conjunction (factor h)

/-- What is read at some level can be read as a whole. -/
theorem whole (h : Reads v level ws x) :
  Reads v .disjunction ws x
  := by
  cases level with
  | factor => apply h.at_level
  | conjunction => apply conjunction h
  | disjunction => apply h

/-- Parentheses around an expression change nothing. -/
theorem bracketed (isBracketed : Bool) (h : Reads v level ws x) :
  Reads v level (Word.bracketed isBracketed ws) x
  := by
  cases isBracketed with
  | true => apply (enclosed h.whole).at_level
  | false => apply h

theorem join {op : Connective} {us : List (Word α)} (h : Reads v op.level ws x)
    (h' : Reads v op.level us y) :
  Reads v op.level (ws ++ .connective op :: us) (op.apply x y)
  := by
  cases op with
  | and => apply and h h'
  | or => apply or h h'

/-- One operand or more, joined by a connective, have the value that it gives them. -/
theorem joined {β : Type} {f : β → List (Word α)} {g : β → Truth} (op : Connective) {xs : List β}
    (hne : xs ≠ []) (h : ∀ a ∈ xs, Reads v .factor (f a) (g a)) :
  Reads v op.level (Word.joined op (xs.map f)) (op.fold (xs.map g))
  := by
  induction xs with
  | nil => cases hne rfl
  | cons a xs ih =>
      obtain ⟨ha, hxs⟩ := List.forall_mem_cons.mp h
      cases xs with
      | nil =>
          rw [List.map_singleton, List.map_singleton, Word.joined, op.fold_singleton]
          apply ha.at_level
      | cons b xs => apply (ha.at_level op.level).join (ih (List.cons_ne_nil _ _) hxs)

end Reads

end TypedSql.Sql
