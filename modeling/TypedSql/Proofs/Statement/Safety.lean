import TypedSql.Proofs.Tree.Written

/-!
# Validated statements are safe

Every piece that a caller supplies is checked by itself.  What is claimed here is about the
whole: a statement that is compiled under validation passes the check of fragments, so that
it is a single statement without comments, without open quotes, and with matching
parentheses.  With bound values this holds of every tree, and with literals of every tree
whose raw conditions have no values of their own.
-/

namespace TypedSql.Sql

/-- The hazard of a text in which harmless texts stand for what the caller supplies is the
hazard of the code of the compiler. -/
theorem Spaced.hazardFrom_flatMap {w : Step → List Char} {ss : List Step} {behind : Bool}
    (h : Spaced behind ss) (hw : ∀ s ∈ ss, s.Admits (w s)) (d : Nat) :
  hazardFrom d (ss.flatMap fun s => tokens (w s)) = hazardFrom d (frame ss)
  := by
  induction ss generalizing behind d with
  | nil => rfl
  | cons s ss ih =>
      obtain ⟨hs, hss⟩ := List.forall_mem_cons.mp hw
      rw [List.flatMap_cons]
      obtain ⟨flags, piece⟩ := s
      cases piece with
      | text t =>
          obtain ⟨hframe, -, hrest⟩ := h
          simp only [isFrame, Bool.and_eq_true] at hframe
          have ht : w ⟨flags, .text t⟩ = t.toList := hs
          rw [ht, tokens_of_isInert hframe.2]
          apply hazardFrom_append_congr (fun d => ih hrest hss d) _ d
      | refusal e => cases hs
      | _ => exact (Harmless.hazardFrom_append hs d _).trans (ih h.2 hss d)

/-- A statement that is compiled under validation passes the check of fragments. -/
theorem Node.checkFragment_compileWith {n : Node} {o : Options} {st : Statement}
    (hv : o.flags.validates = true)
    (hc : o.withArguments = false → ∀ s args, .condition s args ∈ n.leaves → args = [])
    (h : n.compileWith o = .ok st) :
  checkFragment st.sql = .ok ()
  := by
  have hphrase := phrase_stepsWith hv n
  have hadmits := admits_written hv hc (compiled h)
  apply (checkFragment_eq_ok_iff st.sql).mpr
  rw [tokens_compileWith hv hc (compiled h)]
  apply (hphrase.spaced.hazardFrom_flatMap hadmits 0).trans hphrase.balanced

/-- A condition on a name, among those that are not deleted. -/
def Criterion.ofName (name : String) : Criterion :=
  .combination .and
    [.raw "deleted = 0" [],
      .compare (.node (.computed (.raw "name"))) .equal (.value (.text name))]

/-- A text that would end its clause and open a comment is safe where it is a literal. -/
theorem Node.checkFragment_compileWith_hostile_text :
  (Node.criterion (.ofName "x'); --")).compileWith Options.standard.validated.inlined
      = .ok ⟨"((deleted = 0) AND name = 'x''); --')", [], true⟩
    ∧ checkFragment "((deleted = 0) AND name = 'x''); --')" = .ok ()
  := by
  have hcompile : (Node.criterion (.ofName "x'); --")).compileWith
        Options.standard.validated.inlined
      = .ok ⟨"((deleted = 0) AND name = 'x''); --')", [], true⟩ := rfl
  use hcompile
  refine Node.checkFragment_compileWith (by decide) ?_ hcompile
  intro _ s args hs
  change _ ∈ [Piece.condition "deleted = 0" [], .fragment "name",
    .scalar (.text "x'); --")] at hs
  simp at hs
  exact hs.2

end TypedSql.Sql
