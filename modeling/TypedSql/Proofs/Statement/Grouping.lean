import TypedSql.Proofs.Json.Numerals
import TypedSql.Proofs.Tree.Written

/-!
# Grouping

A comparison is written without parentheses, also where it is an operand of another comparison.
Of comparisons by equality that are nested in any way, with integers inside, the text keeps the
integers and the operators between them in their order, but not which comparison is inside which
(`Criterion.rawSql_eq_iff`).

The text stands for exactly one condition in which no comparison is on the right of another one.
Among such conditions it determines the condition, and so the value.
-/

namespace TypedSql.Sql

/-! ### Comparisons by equality -/

namespace Comparison

/-- Whether a comparison is one by equality. -/
def isEquality : Comparison → Bool
  | equal | notEqual => true
  | _ => false

/-- The integer that the comparison of two integers is: 1 if it holds and 0 otherwise.  Only
comparisons by equality are looked into. -/
def integer? : Comparison → Int → Int → Option Int
  | equal, a, b => some (if a = b then 1 else 0)
  | notEqual, a, b => some (if a = b then 0 else 1)
  | _, _, _ => none

theorem isSome_integer? (op : Comparison) (a b : Int) :
  (op.integer? a b).isSome = op.isEquality
  := by
  cases op <;> rfl

theorem symbol_injective {op op' : Comparison} (h : op.symbol = op'.symbol) :
  op = op'
  := by
  have hread (op : Comparison) : ofSymbol? op.symbol = some op := by
    cases op <;> rfl
  apply Option.some.inj
  rw [← hread op, ← hread op', h]

end Comparison

/-- A condition as an operand. -/
def Criterion.operand (c : Criterion) : Operand :=
  .node (.criterion c)

namespace Operand

/-- The integer that an operand is, when it is an integer or a comparison of such operands by
equality. -/
def integer? : Operand → Option Int
  | .value (.integer n) => some n.toInt
  | .node (.criterion (.compare left op right)) =>
    match left.integer?, right.integer? with
    | some a, some b => op.integer? a b
    | _, _ => none
  | _ => none

/-- Whether no comparison is on the right of another one. -/
def groupsLeft : Operand → Bool
  | .node (.criterion (.compare left _ (.value _))) => left.groupsLeft
  | .node (.criterion (.compare _ _ _)) => false
  | _ => true

variable {x : Operand} {a : Int}

theorem integer?_compare {left right : Operand} {op : Comparison} :
  (Criterion.compare left op right).operand.integer? = some a
    ↔ ∃ b c, left.integer? = some b ∧ right.integer? = some c ∧ op.integer? b c = some a
  := by
  rw [Criterion.operand, integer?]
  split
  · rename_i b c hb hc
    simp [hb, hc]
  · rename_i hnone
    simp only [reduceCtorEq, false_iff]
    rintro ⟨b, c, hb, hc, -⟩
    apply hnone b c hb hc

/-- An operand that is an integer is given as one, or compares two such operands by equality. -/
@[elab_as_elim]
theorem integer?_induction {motive : Operand → Prop}
    (integer : ∀ n, motive (.value (.integer n)))
    (compare : ∀ left op right, op.isEquality = true → motive left → motive right →
      motive (Criterion.compare left op right).operand)
    (x : Operand) (h : x.integer? = some a) :
  motive x
  := by
  induction x using Operand.integer?.induct generalizing a with
  | case1 n => exact integer n
  | case2 left op right b c hc hb ihl ihr =>
      obtain ⟨b, c, hb, hc, hop⟩ := integer?_compare.mp h
      apply compare _ _ _ _ (ihl hb) (ihr hc)
      rw [← op.isSome_integer? b c, hop]
      rfl
  | case3 left op right hnone =>
      obtain ⟨b, c, hb, hc, -⟩ := integer?_compare.mp h
      cases hnone b c hb hc
  | case4 x hvalue hcompare =>
      rw [integer?] at h
      cases h
      · exact hvalue
      · exact hcompare

end Operand

/-! ### Chains -/

/-- Integers with operators between them. -/
structure Chain where
  first : Int32
  rest : List (Comparison × Int32)

namespace Chain

/-- Two chains with an operator between them. -/
def join (c : Chain) (op : Comparison) (d : Chain) : Chain :=
  ⟨c.first, c.rest ++ (op, d.first) :: d.rest⟩

/-- The words that a chain is written with. -/
def words (c : Chain) : List String :=
  toString c.first.toInt :: c.rest.flatMap fun p => [p.1.symbol, toString p.2.toInt]

/-- The text of a chain. -/
def text (c : Chain) : String :=
  " ".intercalate c.words

/-- Whether all operators of a chain are comparisons by equality. -/
def IsEquality (c : Chain) : Prop :=
  ∀ p ∈ c.rest, p.1.isEquality = true

variable {c d : Chain} {op : Comparison}

theorem words_join :
  (c.join op d).words = c.words ++ op.symbol :: d.words
  := by
  simp [join, words]

theorem text_join :
  (c.join op d).text = c.text ++ (" " ++ op.symbol ++ " ") ++ d.text
  := by
  have hc : c.words ≠ [] := List.cons_ne_nil _ _
  have hd : d.words ≠ [] := List.cons_ne_nil _ _
  rw [text, words_join, String.intercalate_append_of_ne_nil hc (List.cons_ne_nil _ _),
    String.intercalate_cons_of_ne_nil hd]
  simp only [text, String.append_assoc]

theorem IsEquality.join (hc : c.IsEquality) (hop : op.isEquality = true) (hd : d.IsEquality) :
  (c.join op d).IsEquality
  := by
  intro p hp
  rcases List.mem_append.mp hp with hp | hp
  · apply hc p hp
  · rcases List.mem_cons.mp hp with rfl | hp
    · exact hop
    · apply hd p hp

/-! #### Reading a text -/

theorem rest_injective {ps qs : List (Comparison × Int32)}
    (h : (ps.flatMap fun p => [p.1.symbol, toString p.2.toInt])
      = qs.flatMap fun p => [p.1.symbol, toString p.2.toInt]) :
  ps = qs
  := by
  induction ps generalizing qs with
  | nil =>
      cases qs with
      | nil => rfl
      | cons q qs => cases h
  | cons p ps ih =>
      cases qs with
      | nil => cases h
      | cons q qs =>
          obtain ⟨hop, h⟩ := List.cons.inj h
          obtain ⟨hn, h⟩ := List.cons.inj h
          have hn := Int32.toInt_inj.mp (Json.eq_of_toString_eq hn)
          rw [Prod.ext (Comparison.symbol_injective hop) hn, ih h]

/-- The words determine the chain. -/
theorem words_injective (h : c.words = d.words) :
  c = d
  := by
  obtain ⟨m, ps⟩ := c
  obtain ⟨n, qs⟩ := d
  obtain ⟨hfirst, hrest⟩ := List.cons.inj h
  obtain rfl : m = n := Int32.toInt_inj.mp (Json.eq_of_toString_eq hfirst)
  apply congrArg (mk m) (rest_injective hrest)

theorem blank_not_mem_toString (n : Int) :
  ' ' ∉ (toString n).toList
  := by
  have hdigits (m : Nat) : ' ' ∉ Nat.toDigits 10 m := by
    intro hmem
    have hdigit := Nat.isDigit_of_mem_toDigits (by decide) (by decide) hmem
    cases hdigit
  cases n with
  | ofNat m =>
      rw [Json.toList_toString_ofNat]
      apply hdigits
  | negSucc m =>
      rw [Json.toList_toString_negSucc, List.mem_cons, not_or]
      exact ⟨by decide, hdigits (m + 1)⟩

theorem IsEquality.blank_not_mem (hc : c.IsEquality) :
  ∀ w ∈ c.words, ' ' ∉ w.toList
  := by
  intro w hw
  rcases List.mem_cons.mp hw with rfl | hw
  · apply blank_not_mem_toString
  · obtain ⟨⟨op, n⟩, hp, hw⟩ := List.mem_flatMap.mp hw
    obtain rfl | rfl : w = op.symbol ∨ w = toString n.toInt := by simpa using hw
    · have hop := hc (op, n) hp
      cases op with
      | equal | notEqual => exact show ' ' ∉ _ by decide
      | _ => cases hop
    · apply blank_not_mem_toString

/-- The text determines the chain, because the words can be told apart by the blanks. -/
theorem IsEquality.eq_of_text_eq (hc : c.IsEquality) (hd : d.IsEquality) (h : c.text = d.text) :
  c = d
  := by
  have hread {e : Chain} (he : e.IsEquality) :
      e.text.toList.splitOn ' ' = e.words.map String.toList := by
    rw [text, String.toList_intercalate]
    apply List.splitOn_intercalate ' ' _ (by simp [words])
    simpa using he.blank_not_mem
  apply words_injective
  apply (List.map_inj_right fun _ _ => String.toList_inj.mp).mp
  rw [← hread hc, ← hread hd, h]

end Chain

/-! ### What comparisons are written as -/

namespace Operand

/-- The integers of an operand and the operators between them. -/
def chain? : Operand → Option Chain
  | .value (.integer n) => some ⟨n, []⟩
  | .node (.criterion (.compare left op right)) =>
    match left.chain?, right.chain? with
    | some c, some d => some (c.join op d)
    | _, _ => none
  | _ => none

variable {x y : Operand} {a b : Int} {c : Chain}

theorem chain?_compare {left right : Operand} {op : Comparison} :
  (Criterion.compare left op right).operand.chain? = some c
    ↔ ∃ d e, left.chain? = some d ∧ right.chain? = some e ∧ d.join op e = c
  := by
  rw [Criterion.operand, chain?]
  split
  · rename_i d e hd he
    simp [hd, he]
  · rename_i hnone
    simp only [reduceCtorEq, false_iff]
    rintro ⟨d, e, hd, he, -⟩
    apply hnone d e hd he

/-- Comparisons by equality are written as the text of their chain. -/
theorem exists_chain (h : x.integer? = some a) :
  ∃ c, x.chain? = some c ∧ c.IsEquality
    ∧ ∀ ctx, Emission.ofSteps .literals (x.steps ctx) = .ofText c.text
  := by
  refine integer?_induction ?integer ?compare x h
  case integer =>
    intro n
    refine ⟨⟨n, []⟩, rfl, by simp [Chain.IsEquality], ?_⟩
    intro ctx
    apply Emission.append_empty
  case compare =>
    rintro left op right hop ⟨c, hc, hceq, hcsteps⟩ ⟨d, hd, hdeq, hdsteps⟩
    refine ⟨c.join op d, chain?_compare.mpr ⟨c, d, hc, hd, rfl⟩, hceq.join hop hdeq, ?_⟩
    intro ctx
    have hsteps : (Criterion.compare left op right).operand.steps ctx
        = left.steps ctx ++ ctx.text (" " ++ op.symbol ++ " ") ++ right.steps ctx := by
      rfl
    have hsymbol : Emission.ofSteps .literals (ctx.text (" " ++ op.symbol ++ " "))
        = .ofText (" " ++ op.symbol ++ " ") := by
      apply Emission.append_empty
    rw [hsteps, Emission.ofSteps_append, Emission.ofSteps_append, hcsteps, hsymbol, hdsteps,
      Chain.text_join]
    rfl

end Operand

/-! ### Grouping to the left -/

/-- The comparison of an operand with an integer. -/
def Operand.extend (x : Operand) (p : Comparison × Int32) : Operand :=
  (Criterion.compare x p.1 (.value (.integer p.2))).operand

/-- The comparisons of a chain, each of which is the left side of the next one. -/
def Chain.operand (c : Chain) : Operand :=
  c.rest.foldl Operand.extend (.value (.integer c.first))

namespace Operand

variable {x : Operand} {a : Int} {c : Chain}

theorem of_groupsLeft_compare {left right : Operand} {op : Comparison}
    (h : (Criterion.compare left op right).operand.groupsLeft = true) :
  left.groupsLeft = true ∧ ∃ v, right = .value v
  := by
  cases right with
  | value v => exact ⟨h, v, rfl⟩
  | node n => cases h
  | list vs => cases h

/-- Where no comparison is on the right of another one, the chain determines the operand. -/
theorem operand_of_groupsLeft (h : x.integer? = some a) (hleft : x.groupsLeft = true)
    (hc : x.chain? = some c) :
  c.operand = x
  := by
  let motive (x : Operand) : Prop :=
    ∀ c, x.groupsLeft = true → x.chain? = some c → c.operand = x
  -- The chain of the left side is a shorter one, so it cannot be fixed in the induction.
  refine integer?_induction (motive := motive) ?integer ?compare x h c hleft hc
  case integer =>
    intro n c _ hc
    obtain rfl : ⟨n, []⟩ = c := Option.some.inj hc
    rfl
  case compare =>
    intro left op right hop ihl ihr c hleft hc
    obtain ⟨d, e, hd, he, rfl⟩ := chain?_compare.mp hc
    obtain ⟨hleft, v, rfl⟩ := of_groupsLeft_compare hleft
    cases v with
    | integer n =>
        obtain rfl : ⟨n, []⟩ = e := Option.some.inj he
        have hd := ihl d hleft hd
        rw [Chain.operand] at hd
        rw [Chain.operand, Chain.join, List.foldl_append, hd]
        rfl
    | _ => cases he

/-- Comparing an operand with integers goes on with its chain. -/
theorem chain?_foldl (hc : x.chain? = some c) (ps : List (Comparison × Int32)) :
  (ps.foldl extend x).chain? = some ⟨c.first, c.rest ++ ps⟩
  := by
  induction ps generalizing x c with
  | nil => simpa using hc
  | cons p ps ih =>
      have hp : (x.extend p).chain? = some (c.join p.1 ⟨p.2, []⟩) :=
        chain?_compare.mpr ⟨c, ⟨p.2, []⟩, hc, rfl, rfl⟩
      rw [List.foldl_cons, ih hp]
      simp [Chain.join]

theorem groupsLeft_foldl (hleft : x.groupsLeft = true) (ps : List (Comparison × Int32)) :
  (ps.foldl extend x).groupsLeft = true
  := by
  induction ps generalizing x with
  | nil => exact hleft
  | cons p ps ih => exact ih (show (x.extend p).groupsLeft = true from hleft)

theorem exists_integer?_foldl (hx : x.integer? = some a) {ps : List (Comparison × Int32)}
    (hps : ∀ p ∈ ps, p.1.isEquality = true) :
  ∃ b, (ps.foldl extend x).integer? = some b
  := by
  induction ps generalizing x a with
  | nil => exact ⟨a, hx⟩
  | cons p ps ih =>
      obtain ⟨hp, hps⟩ := List.forall_mem_cons.mp hps
      rw [← p.1.isSome_integer? a p.2.toInt] at hp
      obtain ⟨b, hb⟩ := Option.isSome_iff_exists.mp hp
      have hxp : (x.extend p).integer? = some b :=
        integer?_compare.mpr ⟨a, p.2.toInt, hx, rfl, hb⟩
      apply ih hxp hps

end Operand

/-! ### Conditions -/

namespace Criterion

variable {c d : Criterion} {a b : Int}

/-- A condition of comparisons by equality is written as the text of its chain. -/
theorem exists_rawSql (hc : c.operand.integer? = some a) :
  ∃ ch, c.operand.chain? = some ch ∧ ch.IsEquality
    ∧ ∀ version, (Node.criterion c).rawSql version = .ok ch.text
  := by
  obtain ⟨ch, hch, heq, hsteps⟩ := Operand.exists_chain hc
  refine ⟨ch, hch, heq, ?_⟩
  intro version
  have hwrites : Emission.ofSteps .literals ((Node.criterion c).steps ⟨version, .none, false⟩)
      = .ofText ch.text := hsteps _
  have hbuild : (Node.criterion c).build version .literals false .none
      = .ok ⟨version, ch.text, none, .none⟩ := by
    apply Node.build_eq_ok_iff.mpr
    rw [Builder.filled, hwrites]
    exact ⟨rfl, rfl⟩
  exact congrArg (Except.map Builder.text) hbuild

/-- Comparisons by equality are written the same exactly when the integers and the operators between
them are the same, however they are nested. -/
theorem rawSql_eq_iff (hc : c.operand.integer? = some a) (hd : d.operand.integer? = some b)
    (version : Version) :
  (Node.criterion c).rawSql version = (Node.criterion d).rawSql version
    ↔ c.operand.chain? = d.operand.chain?
  := by
  obtain ⟨ch, hch, hceq, hctext⟩ := exists_rawSql hc
  obtain ⟨dh, hdh, hdeq, hdtext⟩ := exists_rawSql hd
  rw [hctext, hdtext, hch, hdh, Except.ok.injEq, Option.some.injEq]
  constructor
  · apply hceq.eq_of_text_eq hdeq
  · rintro rfl
    rfl

/-- Every condition of comparisons by equality is written like one in which no comparison is on the
right of another one. -/
theorem exists_groupsLeft (hc : c.operand.integer? = some a) (version : Version) :
  ∃ d b, d.operand.integer? = some b ∧ d.operand.groupsLeft = true
    ∧ (Node.criterion d).rawSql version = (Node.criterion c).rawSql version
  := by
  obtain ⟨ch, hch, heq, -⟩ := exists_rawSql hc
  obtain ⟨ps, p, hrest⟩ : ∃ ps p, ch.rest = ps ++ [p] := by
    cases c with
    | compare left op right =>
        obtain ⟨d, e, -, -, rfl⟩ := Operand.chain?_compare.mp hch
        rcases List.eq_nil_or_concat (d.join op e).rest with hnil | ⟨ps, p, hrest⟩
        · cases (List.append_eq_nil_iff.mp hnil).2
        · exact ⟨ps, p, hrest.trans List.concat_eq_append⟩
    | _ => cases hc
  let first : Operand := .value (.integer ch.first)
  let d : Criterion := .compare (ps.foldl .extend first) p.1 (.value (.integer p.2))
  have hd : d.operand = ch.rest.foldl .extend first := by
    rw [hrest, List.foldl_append]
    rfl
  have hfirst : first.chain? = some ⟨ch.first, []⟩ := rfl
  have hinteger : first.integer? = some ch.first.toInt := rfl
  obtain ⟨b, hb⟩ := Operand.exists_integer?_foldl hinteger heq
  use d, b
  rw [rawSql_eq_iff (hd ▸ hb) hc, hd, hch]
  exact ⟨hb, Operand.groupsLeft_foldl rfl ch.rest, Operand.chain?_foldl hfirst ch.rest⟩

/-- Conditions of comparisons by equality can be written, and those that are written the same are
the same, if no comparison is on the right of another one.  Where a comparison is on the right of
another one, the text is that of some other condition too. -/
theorem eq_of_rawSql_eq (hc : c.operand.integer? = some a) (hd : d.operand.integer? = some b)
    (version : Version) :
  (∃ s, (Node.criterion c).rawSql version = .ok s)
    ∧ (c.operand.groupsLeft = true → d.operand.groupsLeft = true →
        (Node.criterion c).rawSql version = (Node.criterion d).rawSql version → c = d ∧ a = b)
    ∧ (c.operand.groupsLeft = false → ∃ e k, e ≠ c ∧ e.operand.integer? = some k
        ∧ (Node.criterion e).rawSql version = (Node.criterion c).rawSql version)
  := by
  obtain ⟨ch, hch, -, htext⟩ := exists_rawSql hc
  refine ⟨⟨ch.text, htext version⟩, ?_, ?_⟩
  · intro hcleft hdleft h
    have hdh : d.operand.chain? = some ch := ((rawSql_eq_iff hc hd version).mp h).symm.trans hch
    have hoperand : c.operand = d.operand := by
      rw [← Operand.operand_of_groupsLeft hc hcleft hch,
        Operand.operand_of_groupsLeft hd hdleft hdh]
    obtain rfl : c = d := by
      simpa [operand] using hoperand
    rw [hc, Option.some.injEq] at hd
    exact ⟨rfl, hd⟩
  · intro hright
    obtain ⟨e, k, he, heleft, heraw⟩ := exists_groupsLeft hc version
    refine ⟨e, k, ?_, he, heraw⟩
    rintro rfl
    cases hright.symm.trans heleft

/-- Two conditions that group to the left are told apart, of which one holds. -/
theorem eq_of_rawSql_eq_minus :
  (Node.criterion (.compare (Criterion.compare (.value (.integer (-1))) .notEqual
        (.value (.integer 0))).operand .equal (.value (.integer 1)))).rawSql .latest
    ≠ (Node.criterion (.compare (Criterion.compare (.value (.integer (-1))) .equal
        (.value (.integer 0))).operand .equal (.value (.integer 1)))).rawSql .latest
  := by
  intro h
  obtain ⟨-, hvalue⟩ := (eq_of_rawSql_eq rfl rfl .latest).2.1 rfl rfl h
  cases hvalue

/-- The same text is written for two conditions of which one holds. -/
theorem not_eq_of_rawSql_eq :
  ∃ c d : Criterion,
    (Node.criterion c).rawSql .latest = .ok "1 = 2 = 0"
      ∧ (Node.criterion d).rawSql .latest = .ok "1 = 2 = 0"
      ∧ c.operand.integer? = some 0 ∧ d.operand.integer? = some 1
  := by
  use .compare (.value (.integer 1)) .equal
      (Criterion.compare (.value (.integer 2)) .equal (.value (.integer 0))).operand,
    .compare (Criterion.compare (.value (.integer 1)) .equal (.value (.integer 2))).operand .equal
      (.value (.integer 0))
  exact ⟨rfl, rfl, rfl, rfl⟩

end Criterion

end TypedSql.Sql
