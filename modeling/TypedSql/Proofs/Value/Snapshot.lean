import TypedSql.Proofs.Json.Documents
import TypedSql.Proofs.Text.Parts
import TypedSql.Proofs.Value.Store
import TypedSql.Value.Snapshot

/-!
# Snapshots are lossless

Every value that is no double, and every store of such values, is read back from its snapshot as
it was: `Store.ofJsonText?_toJson`.
-/

namespace TypedSql

open Json (Writes WritesMember)

/-- What each part is read as, all of them are. -/
theorem mapM_of_forall₂ {α β : Type} {f : α → Option β} {as : List α} {bs : List β}
    (h : List.Forall₂ (fun a b => f a = some b) as bs) :
  as.mapM f = some bs
  :=
  mapM_eq_some_iff.mpr h

namespace Value

/-! ### Contents -/

theorem contains_signed32 (n : Int32) :
  Decimal.Bounds.signed32.contains n.toInt = true
  := by
  have hlow := n.le_toInt
  have hhigh := n.toInt_lt
  apply decide_eq_true
  change -2147483648 ≤ n.toInt ∧ n.toInt ≤ 2147483647
  omega

theorem contains_signed64 (n : Int64) :
  Decimal.Bounds.signed64.contains n.toInt = true
  := by
  have hlow := n.le_toInt
  have hhigh := n.toInt_lt
  apply decide_eq_true
  change -9223372036854775808 ≤ n.toInt ∧ n.toInt ≤ 9223372036854775807
  omega

theorem contains_unsigned8 (b : UInt8) :
  Decimal.Bounds.unsigned8.contains (b.toNat : Int) = true
  := by
  have hhigh := b.toNat_lt
  apply decide_eq_true
  change 0 ≤ (b.toNat : Int) ∧ (b.toNat : Int) ≤ 255
  omega

/-- The elements of a blob are read as its bytes. -/
theorem ofContent?_bytes (bytes : List UInt8) :
  ofContent? .blob (.array (bytes.map fun b => .numeral (.ofInt b.toNat))) = some (blob bytes)
  := by
  have hread : (bytes.map fun b => Json.numeral (.ofInt b.toNat)).mapM (fun (e : Json) =>
      e.asNumeral.bind (JsonNumeral.integerWithin? .unsigned8))
        = some (bytes.map fun b => (b.toNat : Int)) := by
    apply mapM_of_forall₂
    rw [List.forall₂_map_left_iff, List.forall₂_map_right_iff, List.forall₂_same]
    exact fun b _ => JsonNumeral.integerWithin?_ofInt (contains_unsigned8 b)
  have hbytes : (bytes.map fun b => (b.toNat : Int)).map (fun n => UInt8.ofNat n.toNat)
      = bytes := by
    rw [List.map_map]
    exact (List.map_congr_left fun b _ => by simp).trans (List.map_id bytes)
  simp only [ofContent?, hread, Option.map_some, hbytes]

/-- A content is written, and read back. -/
theorem exists_content {v : Value} {k : Kind} (hk : v.kind? = some k) (hdouble : k ≠ .double) :
  ∃ text j, v.writeContent = some text ∧ Writes text j ∧ ofContent? k j = some v
  := by
  cases v with
  | null => cases hk
  | double x => exact absurd (Option.some.inj hk).symm hdouble
  | integer n =>
      obtain rfl := Option.some.inj hk
      refine ⟨_, _, rfl, Json.writes_integer n.toInt, ?_⟩
      simp [ofContent?, Json.asNumeral, JsonNumeral.integerWithin?_ofInt (contains_signed32 n)]
  | long n =>
      obtain rfl := Option.some.inj hk
      refine ⟨_, _, rfl, Json.writes_integer n.toInt, ?_⟩
      simp [ofContent?, Json.asNumeral, JsonNumeral.integerWithin?_ofInt (contains_signed64 n)]
  | text s =>
      obtain rfl := Option.some.inj hk
      exact ⟨_, _, rfl, Json.writes_quote s, rfl⟩
  | boolean b =>
      obtain rfl := Option.some.inj hk
      exact ⟨_, _, rfl, Json.writes_boolean b, rfl⟩
  | blob bytes =>
      obtain rfl := Option.some.inj hk
      refine ⟨_, _, rfl, Json.writes_array ?_, ofContent?_bytes bytes⟩
      rw [List.forall₂_map_left_iff, List.forall₂_map_right_iff, List.forall₂_same]
      exact fun b _ => Json.writes_integer b.toNat

/-! ### Values -/

/-- A value with a content is written as its kind and its content. -/
theorem toJson_of_writeContent {v : Value} {content : String}
    (h : v.writeContent = some content) :
  v.toJson = Json.writeObject [("type", Json.quote v.typeName), ("value", content)]
  := by
  simp only [toJson, h]

/-- A document of a kind and a content is read as the value of the kind. -/
theorem ofJson?_parts (k : Kind) (j : Json) :
  ofJson? (.object [(some "type", .string (some k.name)), (some "value", j)]) = ofContent? k j
  := by
  have hparts : ofParts? k.name (some j) = ofContent? k j := by
    simp only [ofParts?, Kind.ofName?_name]
  exact hparts

/-- A value that is no double is written as a document that is read back as the value. -/
theorem exists_document {v : Value} (h : v.kind? ≠ some .double) :
  ∃ j, Writes v.toJson j ∧ ofJson? j = some v
  := by
  have htag (name : String) :
      WritesMember ("type", Json.quote name) (some "type", .string (some name)) :=
    ⟨rfl, Json.writes_quote name⟩
  cases hk : v.kind? with
  | none =>
      obtain rfl : v = .null := by cases v <;> first | rfl | cases hk
      exact ⟨_, Json.writes_object (.cons (htag "Null") .nil), rfl⟩
  | some k =>
      have hdouble : k ≠ .double := by
        rintro rfl
        exact h hk
      obtain ⟨content, j, hcontent, hwrites, hread⟩ := exists_content hk hdouble
      have hname : v.typeName = k.name := by simp only [typeName, hk]
      refine ⟨_, ?_, (ofJson?_parts k j).trans hread⟩
      rw [toJson_of_writeContent hcontent, hname]
      exact Json.writes_object (.cons (htag k.name) (.cons ⟨rfl, hwrites⟩ .nil))

end Value

namespace Store

/-- The entries of a store are written as members that are read back as the entries. -/
theorem exists_documents {entries : List (String × Value)}
    (h : ∀ e ∈ entries, e.2.kind? ≠ some .double) :
  ∃ ms : List (String × Json),
    List.Forall₂ WritesMember (entries.map fun e => (e.1, e.2.toJson))
        (ms.map fun m => (some m.1, m.2))
      ∧ List.Forall₂ (fun m e => (Value.ofJson? m.2).map (fun v => (m.1, v)) = some e) ms entries
  := by
  induction entries with
  | nil => exact ⟨[], .nil, .nil⟩
  | cons e entries ih =>
      obtain ⟨ms, hwrites, hread⟩ := ih fun d hd => h d (List.mem_cons_of_mem e hd)
      obtain ⟨j, hj, hvalue⟩ := Value.exists_document (h e List.mem_cons_self)
      exact ⟨(e.1, j) :: ms, .cons ⟨rfl, hj⟩ hwrites, .cons (by rw [hvalue]; rfl) hread⟩

/-- A store without doubles is read back from its snapshot: it has the same keys in the same
order, with the same values. -/
theorem ofJsonText?_toJson {s : Store} (h : ∀ e ∈ s.entries, e.2.kind? ≠ some .double) :
  ofJsonText? s.toJson = some s
  := by
  obtain ⟨ms, hwrites, hread⟩ := exists_documents h
  have htext : Json.read? s.toJson = some (.object (ms.map fun m => (some m.1, m.2))) :=
    (Json.writes_object hwrites).read?
  have hobject : (Json.object (ms.map fun m => (some m.1, m.2))).asObject = some ms := by
    apply mapM_of_forall₂
    rw [List.forall₂_map_left_iff, List.forall₂_same]
    exact fun m _ => rfl
  rw [ofJsonText?, htext, Option.bind_some, ofJson?, hobject, Option.bind_some,
    mapM_of_forall₂ hread, Option.map_some, ofList_entries]

/-- Keys and texts with marks, backslashes and control characters, and integers at the ends of
their ranges. -/
def awkward : Store :=
  ofList [("", .null), ("\x22\\\n\x01", .text "\x00\t/\x1fé😀\x22"),
    ("least", .integer (-2147483648)), ("longest", .long 9223372036854775807),
    ("shortest", .long (-9223372036854775808)), ("flag", .boolean false),
    ("bytes", .blob [0, 10, 255]), ("none", .blob [])]

theorem ofJsonText?_toJson_awkward :
  awkward.keys = ["", "\x22\\\n\x01", "least", "longest", "shortest", "flag", "bytes", "none"]
    ∧ ofJsonText? awkward.toJson = some awkward
  := by
  have hkinds : ∀ e ∈ awkward.entries, e.2.kind? ≠ some .double := by decide
  exact ⟨by decide, ofJsonText?_toJson hkinds⟩

end Store

end TypedSql
