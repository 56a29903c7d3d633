import TypedSql.Assoc
import TypedSql.Value.Basic

/-!
# Stores

A store maps keys to values and keeps its keys in the order of their first insertion.  No
key occurs twice, which is part of the type.  A key that is mapped to null is present.
-/

namespace TypedSql

/-- An ordered finite map from keys to values. -/
structure Store where
  entries : List (String × Value)
  nodup : (entries.map Prod.fst).Nodup

namespace Store

/-- The store without entries. -/
def empty : Store := ⟨[], List.nodup_nil⟩

/-- Maps a key to a value.  A key that is present keeps its place. -/
def put (s : Store) (k : String) (v : Value) : Store :=
  ⟨Assoc.put k v s.entries, Assoc.nodup_keys_put k v s.nodup⟩

/-- The value of a key. -/
def get? (s : Store) (k : String) : Option Value :=
  Assoc.get? k s.entries

/-- Whether a key is present. -/
def contains (s : Store) (k : String) : Bool :=
  (s.get? k).isSome

/-- Removes a key; the others keep their order. -/
def remove (s : Store) (k : String) : Store :=
  ⟨Assoc.remove k s.entries, Assoc.nodup_keys_remove k s.nodup⟩

/-- Puts every entry of `t` into `s`, in the order of `t`. -/
def overlay (s t : Store) : Store :=
  ⟨Assoc.overlay s.entries t.entries, Assoc.nodup_keys_overlay t.entries s.nodup⟩

/-- The store of a list of entries, of which the last with a key counts. -/
def ofList (es : List (String × Value)) : Store :=
  ⟨Assoc.overlay [] es, Assoc.nodup_keys_overlay es List.nodup_nil⟩

/-- The keys, in the order of their first insertion. -/
def keys (s : Store) : List String :=
  s.entries.map Prod.fst

/-- The number of entries. -/
def size (s : Store) : Nat :=
  s.entries.length

/-- Whether there are no entries. -/
def isEmpty (s : Store) : Bool :=
  s.entries.isEmpty

/-- The keys in alphabetical order. -/
def sortedKeys (s : Store) : List String :=
  s.keys.mergeSort fun a b => decide (a ≤ b)

/-- The text by which messages refer to a store. -/
def display (s : Store) : String :=
  "\x7b" ++ ", ".intercalate (s.entries.map fun e => e.1 ++ "=" ++ e.2.display) ++ "\x7d"

/-- Whether two stores have the same keys with values that agree, in whatever order. -/
def agrees (s t : Store) : Bool :=
  s.size == t.size && s.entries.all fun e =>
    match t.get? e.1 with
    | some v => e.2.agrees v
    | none => false

/-- The atoms of which the hash of a store is made, in the order of the keys. -/
def fingerprint (s : Store) : List Atom :=
  let sorted := s.entries.mergeSort fun a b => decide (a.1 ≤ b.1)
  .number s.size :: sorted.flatMap fun e => .text e.1 :: e.2.fingerprint

/-! ### Values of keys -/

@[simp]
theorem get?_empty (k : String) :
  empty.get? k = none
  := rfl

theorem get?_put (s : Store) (k : String) (v : Value) (l : String) :
  (s.put k v).get? l = if l = k then some v else s.get? l
  := by
  by_cases h : l = k
  · subst h
    rw [if_pos rfl]
    exact Assoc.get?_put_self l v s.entries
  · rw [if_neg h]
    exact Assoc.get?_put_of_ne h v s.entries

theorem get?_remove (s : Store) (k l : String) :
  (s.remove k).get? l = if l = k then none else s.get? l
  := by
  by_cases h : l = k
  · subst h
    rw [if_pos rfl]
    exact Assoc.get?_remove_self s.nodup
  · rw [if_neg h]
    exact Assoc.get?_remove_of_ne h s.entries

/-- The entries of the store that is laid over the other count first. -/
theorem get?_overlay (s t : Store) (k : String) :
  (s.overlay t).get? k = (t.get? k).or (s.get? k)
  :=
  Assoc.get?_overlay k t.nodup s.entries

end Store

end TypedSql
