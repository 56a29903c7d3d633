import TypedSql.Sql.Literal
import TypedSql.Sql.Token

/-!
# Raw fragments and identifiers

Texts of SQL that come from the caller are checked before they are made part of a
statement: a fragment must not be able to leave the clause it stands in, and a name must be
a plain name.  The placeholders of a fragment can be replaced by literals.
-/

namespace TypedSql.Sql

/-! ### Hazards -/

/-- The first hazard among tokens that `depth` open parentheses precede.  A parenthesis that
stays open is a hazard only where there is no other.  The depth is a natural number, which agrees
with a signed count of 32 bits as long as fewer than `2 ^ 31` parentheses are open. -/
def hazardFrom (depth : Nat) : List Token → Option Hazard
  | [] => if depth = 0 then none else some .unbalancedParentheses
  | .code c :: ts =>
    if c = ';' then some .separator
    else if c = '(' then hazardFrom (depth + 1) ts
    else if c = ')' then
      match depth with
      | 0 => some .unbalancedParentheses
      | d + 1 => hazardFrom d ts
    else hazardFrom depth ts
  | .lineComment _ :: _ => some .lineComment
  | .blockComment _ :: _ => some .blockComment
  | .unterminated _ :: _ => some .unterminatedQuote
  | .placeholder _ :: ts | .quoted _ :: ts => hazardFrom depth ts

/-- The hazard of a fragment, if it has one. -/
def hazard? (fragment : String) : Option Hazard :=
  hazardFrom 0 (tokens fragment.toList)

/-- Accepts the fragments without a hazard. -/
def checkFragment (fragment : String) : Except CompileError Unit :=
  match hazard? fragment with
  | some h => .error (.unsafeFragment fragment h)
  | none => .ok ()

/-! ### Identifiers -/

/-- The characters a name may begin with. -/
def isNameStart (c : Char) : Bool :=
  c.isAlpha || c == '_'

/-- The characters a name may continue with. -/
def isNameRest (c : Char) : Bool :=
  c.isAlphanum || c == '_' || c == '$'

/-- Whether a text is a single plain name. -/
def isName : List Char → Bool
  | [] => false
  | c :: cs => isNameStart c && cs.all isNameRest

/-- Whether a text is a plain name, or two with a point between them. -/
def isIdentifier (cs : List Char) : Bool :=
  isName (cs.takeWhile (· != '.')) &&
    match cs.dropWhile (· != '.') with
    | [] => true
    | _ :: r => isName r

/-- Accepts the plain names. -/
def checkIdentifier (name : String) : Except CompileError Unit :=
  if isIdentifier name.toList then .ok () else .error (.invalidIdentifier name)

/-! ### Replacing placeholders by literals -/

/-- The text of tokens in which the question mark of each placeholder is replaced by the
literal of the next value. -/
def substitute (validated : Bool) : List Token → List Value → Except CompileError (List Char)
  | [], _ => .ok []
  | .placeholder array :: ts, v :: vs => do
    let l ← literal validated v
    let r ← substitute validated ts vs
    return l.toList ++ (if array then ['[', ']'] else []) ++ r
  | t :: ts, vs => do
    let r ← substitute validated ts vs
    return t.text ++ r

/-- The text of a fragment with the literals of as many values as it has placeholders. -/
def inlineArguments (validated : Bool) (fragment : String) (args : List Value) :
    Except CompileError String :=
  let ts := tokens fragment.toList
  let n := ts.countP Token.isPlaceholder
  if n = args.length then (substitute validated ts args).map String.ofList
  else .error (.countMismatch .fragmentArguments n args.length)

end TypedSql.Sql
