import TypedSql.Proofs.Tree.Part

/-!
# Induction on parts

A part is larger than what is rendered directly in it.  So a property holds of every part, in
every context, once it holds of each part of whose own parts it holds: `Part.induction`.  The
induction runs through what is rendered only, and each of its steps is a statement about one
construct of the language.
-/

namespace TypedSql.Sql

/-- The weight of a part.  A member of a compound outweighs the same query as a statement, in
which it may be wrapped. -/
noncomputable def Part.weight : Part → Nat
  | operand x => 2 * sizeOf x
  | node n => 2 * sizeOf n
  | criterion c => 2 * sizeOf c
  | computed e => 2 * sizeOf e
  | item f => 2 * sizeOf f
  | source s => 2 * sizeOf s
  | join j => 2 * sizeOf j
  | order o => 2 * sizeOf o
  | query .statement q => 2 * sizeOf q
  | query .member q => 2 * sizeOf q + 1
  | insert i => 2 * sizeOf i
  | update u => 2 * sizeOf u
  | delete d => 2 * sizeOf d

theorem Option.sizeOf_lt_of_mem_toList {α : Type} [SizeOf α] {x : α} {o : Option α}
    (h : x ∈ o.toList) :
  sizeOf x < sizeOf o
  := by
  obtain rfl := Option.mem_toList.mp h
  simp

section

variable {p : Part}

theorem Operand.weight_lt_of_mem_parts {x : Operand} (h : p ∈ x.parts) :
  p.weight < (Part.operand x).weight
  := by
  cases x with
  | node n =>
      obtain rfl := List.mem_singleton.mp h
      simp only [Part.weight, node.sizeOf_spec]
      omega
  | list vs => cases h
  | value v => cases h

theorem Node.weight_lt_of_mem_parts {n : Node} (h : p ∈ n.parts) :
  p.weight < (Part.node n).weight
  := by
  cases n with
  | column c => cases h
  | table t => cases h
  | _ =>
      obtain rfl := List.mem_singleton.mp h
      simp [Part.weight]

theorem Criterion.weight_lt_of_mem_parts {c : Criterion} (h : p ∈ c.parts) :
  p.weight < (Part.criterion c).weight
  := by
  cases c with
  | compare left op right =>
      simp only [parts, List.mem_cons, List.not_mem_nil, or_false] at h
      obtain rfl | rfl := h <;> simp only [Part.weight, compare.sizeOf_spec] <;> omega
  | nullCheck operand negated =>
      obtain rfl := List.mem_singleton.mp h
      simp only [Part.weight, nullCheck.sizeOf_spec]
      omega
  | member operand values negated =>
      simp only [parts, List.mem_cons, List.not_mem_nil, or_false] at h
      obtain rfl | rfl := h <;> simp only [Part.weight, member.sizeOf_spec] <;> omega
  | between operand low high negated =>
      simp only [parts, List.mem_cons, List.not_mem_nil, or_false] at h
      obtain rfl | rfl | rfl := h <;> simp only [Part.weight, between.sizeOf_spec] <;> omega
  | like operand pattern escape negated =>
      simp only [parts, List.mem_cons, List.not_mem_nil, or_false] at h
      obtain rfl | rfl := h <;> simp only [Part.weight, like.sizeOf_spec] <;> omega
  | existence query negated =>
      obtain rfl := List.mem_singleton.mp h
      simp only [Part.weight, existence.sizeOf_spec]
      omega
  | combination op members =>
      obtain ⟨c, hc, rfl⟩ := List.mem_map.mp h
      have hsize := List.sizeOf_lt_of_mem hc
      simp only [Part.weight, combination.sizeOf_spec]
      omega
  | negation c =>
      obtain rfl := List.mem_singleton.mp h
      simp only [Part.weight, negation.sizeOf_spec]
      omega
  | raw s args => cases h

theorem Computed.weight_lt_of_mem_parts {e : Computed} (h : p ∈ e.parts) :
  p.weight < (Part.computed e).weight
  := by
  cases e with
  | call name args distinct =>
      obtain ⟨x, hx, rfl⟩ := List.mem_map.mp h
      have hsize := List.sizeOf_lt_of_mem hx
      simp only [Part.weight, call.sizeOf_spec]
      omega
  | countAll => cases h
  | arithmetic op left right =>
      simp only [parts, List.mem_cons, List.not_mem_nil, or_false] at h
      obtain rfl | rfl := h <;> simp only [Part.weight, arithmetic.sizeOf_spec] <;> omega
  | raw s => cases h

theorem SelectItem.weight_lt_of_mem_parts {f : SelectItem} (h : p ∈ f.parts) :
  p.weight < (Part.item f).weight
  := by
  cases f with
  | computed expression name =>
      obtain rfl := List.mem_singleton.mp h
      simp only [Part.weight, computed.sizeOf_spec]
      omega
  | _ => cases h

theorem Source.weight_lt_of_mem_parts {s : Source} (h : p ∈ s.parts) :
  p.weight < (Part.source s).weight
  := by
  cases s with
  | table t => cases h
  | subquery query name =>
      obtain rfl := List.mem_singleton.mp h
      simp only [Part.weight, subquery.sizeOf_spec]
      omega

theorem Join.weight_lt_of_mem_parts {j : Join} (h : p ∈ j.parts) :
  p.weight < (Part.join j).weight
  := by
  obtain ⟨kind, source, on, shared⟩ := j
  simp only [parts, List.mem_cons, List.mem_map] at h
  obtain rfl | ⟨c, hc, rfl⟩ := h
  · simp only [Part.weight, mk.sizeOf_spec]
    omega
  · have hsize := Option.sizeOf_lt_of_mem_toList hc
    simp only [Part.weight, mk.sizeOf_spec]
    omega

theorem Order.weight_operand_lt (o : Order) :
  (Part.operand o.operand).weight < (Part.order o).weight
  := by
  obtain ⟨operand, direction, nulls⟩ := o
  simp only [Part.weight, mk.sizeOf_spec]
  omega

theorem Query.weight_lt_of_mem_parts {q : Query} { isOrdered : Bool}
    (h : p ∈ q.parts isOrdered) :
  p.weight < (Part.query .statement q).weight
  := by
  obtain ⟨fields, distinct, source, joins, filters, groups, having, orders, limit, offset,
    compounds, validated⟩ := q
  simp only [parts, coreParts, List.mem_append, List.mem_map] at h
  simp only [Part.weight, mk.sizeOf_spec]
  obtain ((((((((⟨f, hf, rfl⟩ | ⟨s, hs, rfl⟩) | ⟨j, hj, rfl⟩) | ⟨c, hc, rfl⟩) | ⟨x, hx, rfl⟩)
    | ⟨c, hc, rfl⟩) | ⟨e, he, rfl⟩) | h) | ⟨x, hx, rfl⟩) | ⟨x, hx, rfl⟩ := h
  · have hsize := List.sizeOf_lt_of_mem hf
    dsimp only
    omega
  · have hsize := Option.sizeOf_lt_of_mem_toList hs
    dsimp only
    omega
  · have hsize := List.sizeOf_lt_of_mem hj
    dsimp only
    omega
  · have hsize := List.sizeOf_lt_of_mem hc
    dsimp only
    omega
  · have hsize := List.sizeOf_lt_of_mem hx
    dsimp only
    omega
  · have hsize := List.sizeOf_lt_of_mem hc
    dsimp only
    omega
  · have hsize := List.sizeOf_lt_of_mem he
    obtain ⟨op, r⟩ := e
    simp only [Prod.mk.sizeOf_spec] at hsize
    dsimp only
    omega
  · split at h
    · obtain ⟨o, ho, rfl⟩ := List.mem_map.mp h
      have hsize := List.sizeOf_lt_of_mem ho
      dsimp only
      omega
    · cases h
  · have hsize := Option.sizeOf_lt_of_mem_toList hx
    dsimp only
    omega
  · have hsize := Option.sizeOf_lt_of_mem_toList hx
    dsimp only
    omega

theorem Insert.weight_lt_of_mem_parts {i : Sql.Insert} (h : p ∈ i.parts) :
  p.weight < (Part.insert i).weight
  := by
  obtain ⟨table, columns, rows, select, useDefaults, conflict⟩ := i
  simp only [Part.weight, mk.sizeOf_spec]
  rw [parts] at h
  split at h
  · cases h
  · cases select with
    | some q =>
        obtain rfl := List.mem_singleton.mp h
        simp only [Option.some.sizeOf_spec]
        omega
    | none =>
        dsimp only at h
        split at h
        · obtain ⟨x, hx, rfl⟩ := List.mem_map.mp h
          obtain ⟨r, hr, hxr⟩ := List.mem_flatten.mp hx
          have hrow := List.sizeOf_lt_of_mem hr
          have hsize := List.sizeOf_lt_of_mem hxr
          dsimp only
          omega
        · cases h

theorem Update.weight_lt_of_mem_parts {u : Update} (h : p ∈ u.parts) :
  p.weight < (Part.update u).weight
  := by
  obtain ⟨table, assignments, filters, conflict⟩ := u
  simp only [Part.weight, mk.sizeOf_spec]
  rw [parts] at h
  split at h
  · cases h
  · simp only [List.mem_append, List.mem_map] at h
    obtain ⟨e, he, rfl⟩ | ⟨c, hc, rfl⟩ := h
    · have hsize := List.sizeOf_lt_of_mem he
      obtain ⟨name, x⟩ := e
      simp only [Prod.mk.sizeOf_spec] at hsize
      dsimp only
      omega
    · have hsize := List.sizeOf_lt_of_mem hc
      dsimp only
      omega

theorem Delete.weight_lt_of_mem_parts {d : Delete} (h : p ∈ d.parts) :
  p.weight < (Part.delete d).weight
  := by
  obtain ⟨table, filters⟩ := d
  obtain ⟨c, hc, rfl⟩ : ∃ c ∈ filters, Part.criterion c = p := List.mem_map.mp h
  have hsize := List.sizeOf_lt_of_mem hc
  simp only [Part.weight, mk.sizeOf_spec]
  omega

end

namespace Part

/-- What is rendered directly in a part weighs less than the part. -/
theorem weight_lt_of_mem_parts {ctx : Context} {p : Part} {r : Context × Part}
    (h : r ∈ p.parts ctx) :
  r.2.weight < p.weight
  := by
  have within {c : Context} {rs : List Part} (h : r ∈ rs.map (c, ·)) : r.2 ∈ rs := by
    obtain ⟨r', hr, rfl⟩ := List.mem_map.mp h
    exact hr
  cases p with
  | operand x => apply Operand.weight_lt_of_mem_parts (within h)
  | node n => apply Node.weight_lt_of_mem_parts (within h)
  | criterion c => apply Criterion.weight_lt_of_mem_parts (within h)
  | computed e => apply Computed.weight_lt_of_mem_parts (within h)
  | item f => apply SelectItem.weight_lt_of_mem_parts (within h)
  | source s => apply Source.weight_lt_of_mem_parts (within h)
  | join j => apply Join.weight_lt_of_mem_parts (within h)
  | order o =>
      obtain rfl := List.mem_singleton.mp h
      apply o.weight_operand_lt
  | query role q =>
      cases role with
      | statement => apply Query.weight_lt_of_mem_parts (within h)
      | member =>
          rw [parts] at h
          split at h
          · have hcore : r.2 ∈ q.parts false := by
              simp only [Query.parts, List.mem_append]
              exact .inl (.inl (.inl (.inl (within h))))
            apply Nat.lt_succ_of_lt (Query.weight_lt_of_mem_parts hcore)
          · obtain rfl := List.mem_singleton.mp h
            apply Nat.lt_succ_self
  | insert i => apply Insert.weight_lt_of_mem_parts (within h)
  | update u => apply Update.weight_lt_of_mem_parts (within h)
  | delete d => apply Delete.weight_lt_of_mem_parts (within h)

/-- A property holds of every part in every context when it holds of each part that it holds of
the parts of. -/
theorem induction {motive : Context × Part → Prop}
    (step : ∀ p, (∀ r ∈ p.2.parts p.1, motive r) → motive p) (p : Context × Part) :
  motive p
  :=
  step p fun r _ => induction step r
termination_by p.2.weight
decreasing_by
  apply weight_lt_of_mem_parts
  assumption

/-- What holds of a part, and of all that is rendered in its parts, holds of all that is rendered
in the part. -/
theorem forall_renders {P : Context × Part → Prop} {p : Context × Part} (hp : P p)
    (h : ∀ q ∈ p.2.parts p.1, ∀ r, Renders q r → P r) :
  ∀ r, Renders p r → P r
  := by
  intro r hr
  obtain rfl | ⟨q, hq, hr⟩ := Relation.ReflTransGen.cases_head hr
  · apply hp
  · apply h q hq r hr

end Part

end TypedSql.Sql
