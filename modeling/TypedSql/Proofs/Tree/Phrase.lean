import TypedSql.Proofs.Token.Harmless
import TypedSql.Sql.Rendering

/-!
# Phrases

The steps of a tree alternate between texts of the compiler and pieces that come from the
caller.  They form a phrase when

* no two pieces of the caller meet: between them stands a text of the compiler, which is
  nonempty, inert, and begins with a separating character;
* the texts of the compiler, taken together, are harmless, so that their parentheses match;
* the flags ask for validation at every piece of the caller.

Phrases are built from phrases: they are appended, led by a connective, put between brackets
and separated by a connective.  These are the rules by which the steps of every tree are
shown to be a phrase.
-/

namespace TypedSql.Sql

/-- Whether a piece comes from the caller. -/
def Piece.isSupplied : Piece → Bool
  | text _ | refusal _ => false
  | identifier _ | fragment _ | scalar _ | list _ | condition _ _ => true

/-- Whether a text of the compiler is nonempty and scanned as code. -/
def isFrame (s : String) : Bool :=
  s.toList != [] && isInert s.toList

/-- Whether a text of the compiler can be put between any two phrases. -/
def isConnective (s : String) : Bool :=
  isFrame s && isApart s.toList && decide (Harmless (s.toList.map .code))

/-- Whether two texts of the compiler can be put around any phrase. -/
def isBracket (l r : String) : Bool :=
  isFrame l && isApart l.toList && isFrame r && isApart r.toList &&
    decide (Harmless (l.toList.map .code ++ r.toList.map .code))

/-- Whether the pieces of the caller are kept apart by texts of the compiler, behind a piece
of the caller or not.  What follows a refusal is never written. -/
def Spaced : Bool → List Step → Prop
  | _, [] => True
  | behind, s :: ss =>
    match s.piece with
    | .text t => isFrame t = true ∧ (behind = true → isApart t.toList = true) ∧ Spaced false ss
    | .refusal _ => True
    | _ => behind = false ∧ Spaced true ss

/-- The code of the compiler in steps. -/
def frame : List Step → List Token
  | [] => []
  | s :: ss =>
    match s.piece with
    | .text t => t.toList.map .code ++ frame ss
    | _ => frame ss

theorem Spaced.weaken {ss : List Step} (h : Spaced true ss) (behind : Bool) :
  Spaced behind ss
  := by
  cases ss with
  | nil => trivial
  | cons s ss =>
      obtain ⟨flags, piece⟩ := s
      cases piece with
      | text t => exact ⟨h.1, fun _ => h.2.1 rfl, h.2.2⟩
      | refusal e => trivial
      | _ => cases h.1

theorem Spaced.append {ss ts : List Step} {behind : Bool} (hs : Spaced behind ss)
    (ht : Spaced true ts) :
  Spaced behind (ss ++ ts)
  := by
  induction ss generalizing behind with
  | nil => exact ht.weaken behind
  | cons s ss ih =>
      obtain ⟨flags, piece⟩ := s
      cases piece with
      | text t => exact ⟨hs.1, hs.2.1, ih hs.2.2⟩
      | refusal e => trivial
      | _ => exact ⟨hs.1, ih hs.2⟩

theorem frame_append (ss ts : List Step) :
  frame (ss ++ ts) = frame ss ++ frame ts
  := by
  induction ss with
  | nil => rfl
  | cons s ss ih =>
      obtain ⟨flags, piece⟩ := s
      cases piece <;> simp [frame, ih]

/-- Steps that form a phrase, behind a piece of the caller or not, in which the pieces of the
caller satisfy `Q`. -/
structure Phrase (Q : Piece → Prop) (behind : Bool) (ss : List Step) : Prop where
  spaced : Spaced behind ss
  balanced : Harmless (frame ss)
  supplied : ∀ s ∈ ss, s.piece.isSupplied = true → s.flags.validates = true ∧ Q s.piece

namespace Phrase

variable {Q : Piece → Prop} {behind : Bool} {ctx : Context} {ss ts : List Step}

theorem nil :
  Phrase Q behind []
  where
  spaced := trivial
  balanced := rfl
  supplied := by simp

theorem append (hs : Phrase Q behind ss) (ht : Phrase Q true ts) :
  Phrase Q behind (ss ++ ts)
  where
  spaced := hs.spaced.append ht.spaced
  balanced := by
    rw [frame_append]
    apply hs.balanced.append ht.balanced
  supplied := by
    rw [List.forall_mem_append]
    exact ⟨hs.supplied, ht.supplied⟩

/-- A piece of the caller. -/
theorem piece {p : Piece} (hp : p.isSupplied = true) (hv : ctx.flags.validates = true)
    (hQ : Q p) :
  Phrase Q false (ctx.piece p)
  where
  spaced := by cases p <;> first | exact ⟨rfl, trivial⟩ | cases hp
  balanced := by cases p <;> first | rfl | cases hp
  supplied := by
    intro s hs _
    obtain rfl := List.mem_singleton.mp hs
    exact ⟨hv, hQ⟩

theorem refusal (e : CompileError) :
  Phrase Q behind (ctx.piece (.refusal e))
  where
  spaced := trivial
  balanced := rfl
  supplied := by
    intro s hs h
    obtain rfl := List.mem_singleton.mp hs
    cases h

/-- A text of the compiler that is harmless, before a phrase. -/
theorem text_append {s : String} (hs : isFrame s = true)
    (ha : behind = true → isApart s.toList = true) (hh : Harmless (s.toList.map .code))
    (ht : Phrase Q false ts) :
  Phrase Q behind (ctx.text s ++ ts)
  where
  spaced := ⟨hs, ha, ht.spaced⟩
  balanced := hh.append ht.balanced
  supplied := by
    rw [List.forall_mem_append]
    refine ⟨?_, ht.supplied⟩
    intro s hs h
    obtain rfl := List.mem_singleton.mp hs
    cases h

/-- A connective before a phrase. -/
theorem lead {s : String} (hs : isConnective s = true) (ht : Phrase Q false ts) :
  Phrase Q behind (ctx.text s ++ ts)
  := by
  simp only [isConnective, Bool.and_eq_true, decide_eq_true_eq] at hs
  obtain ⟨⟨hframe, hapart⟩, hh⟩ := hs
  apply text_append hframe (fun _ => hapart) hh ht

/-- A connective by itself. -/
theorem text {s : String} (hs : isConnective s = true) :
  Phrase Q behind (ctx.text s)
  := by
  have h : Phrase Q behind (ctx.text s ++ []) := lead hs nil
  rwa [List.append_nil] at h

/-- A phrase between brackets, before another phrase. -/
theorem bracket {l r : String} (h : isBracket l r = true) (hs : Phrase Q false ss)
    (ht : Phrase Q false ts) :
  Phrase Q behind (ctx.text l ++ (ss ++ (ctx.text r ++ ts)))
  := by
  simp only [isBracket, Bool.and_eq_true, decide_eq_true_eq] at h
  obtain ⟨⟨⟨⟨hl, hla⟩, hr⟩, hra⟩, hlr⟩ := h
  have hr' : Spaced true (ctx.text r ++ ts) := ⟨hr, fun _ => hra, ht.spaced⟩
  constructor
  · exact ⟨hl, fun _ => hla, hs.spaced.append hr'⟩
  · have heq : frame (ctx.text l ++ (ss ++ (ctx.text r ++ ts)))
        = l.toList.map .code ++ (frame ss ++ (r.toList.map .code ++ frame ts)) := by
      rw [frame_append, frame_append, frame_append]
      simp [Context.text, Context.piece, frame]
    rw [heq]
    apply hs.balanced.insert
    rw [← List.append_assoc]
    apply hlr.append ht.balanced
  · have htext : ∀ (t : String), ∀ s ∈ ctx.text t, s.piece.isSupplied = true →
        s.flags.validates = true ∧ Q s.piece := by
      intro t s hs h
      obtain rfl := List.mem_singleton.mp hs
      cases h
    simp only [List.forall_mem_append]
    exact ⟨htext l, hs.supplied, htext r, ht.supplied⟩

/-- A phrase between brackets. -/
theorem bracketed {l r : String} (h : isBracket l r = true) (hs : Phrase Q false ss) :
  Phrase Q behind (ctx.text l ++ (ss ++ ctx.text r))
  := by
  have h' : Phrase Q behind (ctx.text l ++ (ss ++ (ctx.text r ++ []))) := bracket h hs nil
  rwa [List.append_nil] at h'

theorem enclosed (hs : Phrase Q false ss) :
  Phrase Q behind (ctx.enclosed ss)
  := by
  rw [Context.enclosed, List.append_assoc]
  apply bracketed (by decide) hs

theorem enclosedForValidation (hs : Phrase Q false ss) :
  Phrase Q false (ctx.enclosedForValidation ss)
  := by
  unfold Context.enclosedForValidation
  split
  · exact hs.enclosed
  · exact hs

theorem separated {separator : String} (h : isConnective separator = true)
    {phrases : List (List Step)} (hs : ∀ ss ∈ phrases, Phrase Q false ss) :
  Phrase Q false (ctx.separated separator phrases)
  := by
  induction phrases with
  | nil => exact nil
  | cons ss r ih =>
      obtain ⟨hss, hr⟩ := List.forall_mem_cons.mp hs
      cases r with
      | nil => exact hss
      | cons ts r =>
          rw [Context.separated, List.append_assoc]
          apply hss.append (lead h (ih hr))

theorem identifiers {names : List String} (hv : ctx.flags.validates = true)
    (hs : ∀ name ∈ names, Q (.identifier name)) :
  Phrase Q false (ctx.identifiers names)
  := by
  apply separated (by decide)
  rw [List.forall_mem_map]
  intro name hname
  apply piece rfl hv (hs name hname)

/-! ### Clauses -/

theorem clause {keyword : String} (h : isConnective keyword = true)
    {conditions : List (List Step)} (hs : ∀ ss ∈ conditions, Phrase Q false ss) :
  Phrase Q behind (ctx.clause keyword conditions)
  := by
  unfold Context.clause
  split
  · exact nil
  · apply lead h (separated (by decide) hs).enclosedForValidation

theorem filters {conditions : List (List Step)} (hs : ∀ ss ∈ conditions, Phrase Q false ss) :
  Phrase Q behind (ctx.filters conditions)
  := by
  unfold Context.filters
  split
  · exact nil
  · apply lead (by decide) (separated (by decide) hs)

theorem insertedRows {rows : List (List Step)} (hs : ∀ ss ∈ rows, Phrase Q false ss) :
  Phrase Q behind (ctx.insertedRows rows)
  := by
  unfold Context.insertedRows
  split
  · apply lead (by decide) (separated (by decide) hs)
  · apply lead (by decide)
    apply separated (by decide)
    rw [List.forall_mem_map]
    intro ss hss
    apply (hs ss hss).enclosed

theorem inserted {columns : Nat} {widths : List Nat} {rows : List (List Step)}
    {query : Option (List Step)} (hs : ∀ ss ∈ rows, Phrase Q false ss)
    (hq : ∀ ss ∈ query, Phrase Q false ss) :
  Phrase Q false (ctx.inserted columns widths rows query)
  := by
  unfold Context.inserted
  split
  · apply hq _ rfl
  · split
    · apply refusal _
    · split
      · apply refusal _
      · apply insertedRows hs

theorem orderTerm (hs : Phrase Q false ss) (direction : Direction)
    (nulls : Option NullsPlace) :
  Phrase Q false (ctx.orderTerm ss direction nulls)
  := by
  have hdirection : isConnective (" " ++ direction.keyword) = true := by
    cases direction <;> decide
  have hterm : Phrase Q false (ss ++ ctx.text (" " ++ direction.keyword)) :=
    hs.append (text hdirection)
  unfold Context.orderTerm
  simp only [List.append_assoc]
  split
  · exact hterm
  · apply hs.append (lead hdirection (text (by decide)))
  · apply hs.append (lead hdirection (text (by decide)))
  · apply bracket (by decide) hs hterm
  · apply bracket (by decide) hs hterm

theorem ordering {terms : List (List Step)} (hs : ∀ ss ∈ terms, Phrase Q false ss) :
  Phrase Q behind (ctx.ordering terms)
  := by
  unfold Context.ordering
  split
  · exact nil
  · apply lead (by decide) (separated (by decide) hs)

theorem limits {limit offset : Option (List Step)} (hl : ∀ ss ∈ limit, Phrase Q false ss)
    (ho : ∀ ss ∈ offset, Phrase Q false ss) :
  Phrase Q behind (ctx.limits limit offset)
  := by
  unfold Context.limits
  simp only [List.append_assoc]
  split
  · exact nil
  · apply lead (by decide) (hl _ rfl)
  · apply lead (by decide) (lead (by decide) (ho _ rfl))
  · apply lead (by decide) ((hl _ rfl).append (lead (by decide) (ho _ rfl)))

theorem constraint {on : Option (List Step)} {shared : List String}
    (hv : ctx.flags.validates = true) (ho : ∀ ss ∈ on, Phrase Q false ss)
    (hs : ∀ name ∈ shared, Q (.identifier name)) :
  Phrase Q behind (ctx.constraint on shared)
  := by
  unfold Context.constraint
  split
  · apply lead (by decide) (ho _ rfl)
  · split
    · exact nil
    · apply lead (by decide) (identifiers hv hs).enclosed

/-- A select core. -/
theorem selection {distinct : Bool} {fields filters groups having : List (List Step)}
    {source : Option (List Step)} {joins : List Step}
    (hfields : ∀ ss ∈ fields, Phrase Q false ss)
    (hsource : ∀ ss ∈ source, Phrase Q false ss)
    (hjoins : Phrase Q true joins)
    (hfilters : ∀ ss ∈ filters, Phrase Q false ss)
    (hgroups : ∀ ss ∈ groups, Phrase Q false ss)
    (hhaving : ∀ ss ∈ having, Phrase Q false ss) :
  Phrase Q behind (ctx.selection distinct fields source joins filters groups having)
  := by
  simp only [Context.selection, List.append_assoc]
  apply lead (by split <;> decide)
  apply append
  · split
    · have hstar : Phrase Q false (ctx.text "*" ++ []) :=
        text_append (by decide) (by simp) (by decide) nil
      exact hstar
    · apply separated (by decide) hfields
  apply append
  · split
    · exact nil
    · apply lead (by decide) (hsource _ rfl)
  apply hjoins.append
  apply (clause (by decide) hfilters).append
  apply append
  · split
    · exact nil
    · apply lead (by decide) (separated (by decide) hgroups)
  · apply clause (by decide) hhaving

/-- A query in either role. -/
theorem inRole {role : Role} {bare : Bool} {core whole : List Step}
    (hcore : Phrase Q false core) (hwhole : Phrase Q false whole) :
  Phrase Q false (ctx.inRole role bare core whole)
  := by
  unfold Context.inRole
  split
  · exact hwhole
  · split
    · exact hcore
    · apply lead (by decide) hwhole.enclosed

end Phrase

end TypedSql.Sql
