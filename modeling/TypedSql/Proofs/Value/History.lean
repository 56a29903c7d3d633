import Mathlib.Data.List.Induction
import TypedSql.Proofs.Value.Store
import TypedSql.Value.Edit

/-!
# Histories of stores

The edits of a store come down to writes, each of which puts one key, removes one key, or removes
them all.  A key is present when the last write that affected it was a put, whose value it then
has; and it stands where it entered, which was at the first put since it was last absent.

The main statement, `Store.run_follows`, says that a store made by any edits is what the writes
of the edits say: its keys are those whose last write was a put, each once, in the order in which
they entered.
-/

namespace TypedSql

namespace Store

/-! ### Writes -/

/-- What is done to keys by the parts of an edit. -/
inductive Write where
  | put (k : String) (v : Value)
  | remove (k : String)
  | clear
deriving DecidableEq

namespace Write

/-- A store after a write. -/
def apply (s : Store) : Write → Store
  | put k v => s.put k v
  | remove k => s.remove k
  | clear => .empty

/-- Whether a write puts a key. -/
def puts (k : String) : Write → Bool
  | put l _ => l == k
  | remove _ | clear => false

/-- Whether a key is absent after a write, whatever was before. -/
def drops (k : String) : Write → Bool
  | put _ _ => false
  | remove l => l == k
  | clear => true

/-- Whether a write is about a key. -/
def affects (k : String) (w : Write) : Bool :=
  w.puts k || w.drops k

/-- What a write leaves under the keys that it affects. -/
def value? : Write → Option Value
  | put _ v => some v
  | remove _ | clear => none

theorem get?_apply (s : Store) (w : Write) (k : String) :
  (w.apply s).get? k = if w.affects k = true then w.value? else s.get? k
  := by
  cases w with
  | put l v => simp [apply, get?_put, affects, puts, drops, value?, eq_comm (a := k)]
  | remove l => simp [apply, get?_remove, affects, puts, drops, value?, eq_comm (a := k)]
  | clear => simp [apply, affects, puts, drops, value?]

theorem eq_put_of_affects {k : String} {w : Write} (h : w.affects k = true)
    (hdrops : w.drops k = false) :
  ∃ v, w = put k v
  := by
  cases w with
  | put l v =>
      obtain rfl : l = k := by simpa [affects, puts, drops] using h
      exact ⟨v, rfl⟩
  | _ => simp [affects, puts, hdrops] at h

end Write

/-- The writes of an edit.  Another store is put in entry by entry. -/
def Edit.writes : Edit → List Write
  | put k v => [.put k v]
  | overlay t => t.entries.map fun e => .put e.1 e.2
  | remove k => [.remove k]
  | clear => [.clear]

/-- The writes of edits, one after the other. -/
def history (edits : List Edit) : List Write :=
  edits.flatMap Edit.writes

/-- An edit does what its writes do. -/
theorem after_eq_foldl (s : Store) (e : Edit) :
  s.after e = e.writes.foldl Write.apply s
  := by
  cases e with
  | overlay t =>
      have hputs (es : List (String × Value)) (s : Store) :
          ((es.map fun e => Write.put e.1 e.2).foldl Write.apply s).entries
            = Assoc.overlay s.entries es := by
        induction es generalizing s with
        | nil => rfl
        | cons e es ih => exact ih (s.put e.1 e.2)
      rw [Store.mk.injEq]
      exact (hputs t.entries s).symm
  | _ => rfl

theorem run_eq_foldl (s : Store) (edits : List Edit) :
  s.run edits = (history edits).foldl Write.apply s
  := by
  induction edits generalizing s with
  | nil => rfl
  | cons e edits ih =>
      rw [history, List.flatMap_cons, List.foldl_append, ← after_eq_foldl]
      exact ih (s.after e)

/-! ### What a history says -/

/-- The last write that affected a key. -/
def lastWrite? (ws : List Write) (k : String) : Option Write :=
  ws.reverse.find? (Write.affects k)

/-- Whether the last write that affected a key was a put. -/
def IsPut (ws : List Write) (k : String) : Prop :=
  ∃ v, lastWrite? ws k = some (.put k v)

/-- The number of the write at which a key entered for good: the first put of it since it was
last absent. -/
structure EntersAt (ws : List Write) (k : String) (i : Nat) : Prop where
  put : ∃ v, ws[i]? = some (.put k v)
  absent : ¬ IsPut (ws.take i) k
  stays (j : Nat) (w : Write) : i < j → ws[j]? = some w → w.drops k = false

/-- A store that is what a history says. -/
structure Follows (ws : List Write) (s : Store) : Prop where
  /-- No key occurs twice. -/
  nodup : s.keys.Nodup
  /-- A key is present when the last write that affected it was a put. -/
  present (k : String) : s.contains k = true ↔ IsPut ws k
  /-- It then has the value that was put. -/
  value (k : String) (v : Value) : lastWrite? ws k = some (.put k v) → s.get? k = some v
  /-- What is listed is what is found under the keys. -/
  listed (e : String × Value) : e ∈ s.entries → s.get? e.1 = some e.2
  /-- The keys that are present are those that entered. -/
  entered (k : String) : s.contains k = true ↔ ∃ i, EntersAt ws k i
  /-- They are listed in the order in which they entered. -/
  ordered : s.keys.Pairwise fun k l => ∀ i j, EntersAt ws k i → EntersAt ws l j → i < j

section

variable {ws : List Write} {w : Write} {s : Store} {k : String} {i j : Nat}

theorem lastWrite?_append (ws : List Write) (w : Write) (k : String) :
  lastWrite? (ws ++ [w]) k = if w.affects k = true then some w else lastWrite? ws k
  := by
  rw [lastWrite?, List.reverse_append, List.reverse_singleton, List.singleton_append,
    List.find?_cons]
  cases w.affects k <;> rfl

/-- A key that was put, and not removed since, was last put. -/
theorem isPut_of_getElem? {v : Value} (hput : ws[i]? = some (.put k v))
    (hstays : ∀ j w, i < j → ws[j]? = some w → w.drops k = false) :
  IsPut ws k
  := by
  induction ws using List.reverseRecOn with
  | nil => cases hput
  | append_singleton ws w ih =>
      rw [IsPut, lastWrite?_append]
      have hlast : (ws ++ [w])[ws.length]? = some w := List.getElem?_concat_length
      obtain hi | rfl | hi := Nat.lt_trichotomy i ws.length
      · have hdrops := hstays ws.length w hi hlast
        cases haffects : w.affects k with
        | true =>
            obtain ⟨u, rfl⟩ := Write.eq_put_of_affects haffects hdrops
            exact ⟨u, rfl⟩
        | false =>
            rw [List.getElem?_append_left hi] at hput
            apply ih hput
            intro j u hij hu
            apply hstays j u hij
            rwa [List.getElem?_append_left (List.getElem?_eq_some_iff.mp hu).1]
      · obtain rfl : Write.put k v = w := Option.some.inj (hput.symm.trans hlast)
        exact ⟨v, by simp [Write.affects, Write.puts]⟩
      · rw [List.getElem?_eq_none (by simp; omega)] at hput
        cases hput

namespace EntersAt

theorem lt_length (h : EntersAt ws k i) :
  i < ws.length
  := by
  obtain ⟨v, hv⟩ := h.put
  exact (List.getElem?_eq_some_iff.mp hv).1

theorem isPut (h : EntersAt ws k i) :
  IsPut ws k
  := by
  obtain ⟨v, hv⟩ := h.put
  exact isPut_of_getElem? hv h.stays

/-- A key is not absent after it has entered for good. -/
theorem not_lt (hi : EntersAt ws k i) (hj : EntersAt ws k j) :
  ¬ i < j
  := by
  intro hij
  obtain ⟨v, hv⟩ := hi.put
  apply hj.absent
  apply isPut_of_getElem? (i := i) (v := v)
  · rwa [List.getElem?_take_of_lt hij]
  · intro l w hil hw
    apply hi.stays l w hil
    rw [List.getElem?_take] at hw
    split at hw
    · exact hw
    · cases hw

/-- A key has entered for good only once. -/
theorem unique (hi : EntersAt ws k i) (hj : EntersAt ws k j) :
  i = j
  :=
  Nat.le_antisymm (Nat.le_of_not_lt (hj.not_lt hi)) (Nat.le_of_not_lt (hi.not_lt hj))

/-- What a key has entered by stays so until the key is removed. -/
theorem append (h : EntersAt ws k i) (hw : w.drops k = false) :
  EntersAt (ws ++ [w]) k i
  where
  put := by
    rw [List.getElem?_append_left h.lt_length]
    exact h.put
  absent := by
    rw [List.take_append_of_le_length (Nat.le_of_lt h.lt_length)]
    exact h.absent
  stays j u hij hu := by
    obtain hj | hj := Nat.lt_or_ge j ws.length
    · rw [List.getElem?_append_left hj] at hu
      exact h.stays j u hij hu
    · rw [List.getElem?_append_right hj] at hu
      obtain rfl := List.mem_singleton.mp (List.mem_of_getElem? hu)
      exact hw

/-- A key that is absent enters with a put. -/
theorem append_put (h : ¬ IsPut ws k) (v : Value) :
  EntersAt (ws ++ [.put k v]) k ws.length
  where
  put := ⟨v, List.getElem?_concat_length⟩
  absent := by rwa [List.take_left]
  stays j u hj hu := by
    rw [List.getElem?_eq_none (by simp; omega)] at hu
    cases hu

end EntersAt

/-- A key that was last put has entered. -/
theorem exists_entersAt (h : IsPut ws k) :
  ∃ i, EntersAt ws k i
  := by
  induction ws using List.reverseRecOn with
  | nil =>
      obtain ⟨v, hv⟩ := h
      cases hv
  | append_singleton ws w ih =>
      have hkept (hbefore : IsPut ws k) (hdrops : w.drops k = false) :
          ∃ i, EntersAt (ws ++ [w]) k i := by
        obtain ⟨i, hi⟩ := ih hbefore
        exact ⟨i, hi.append hdrops⟩
      obtain ⟨v, hv⟩ := h
      rw [lastWrite?_append] at hv
      split at hv
      · obtain rfl := Option.some.inj hv
        by_cases hbefore : IsPut ws k
        · exact hkept hbefore rfl
        · exact ⟨ws.length, .append_put hbefore v⟩
      · rename_i haffects
        apply hkept ⟨v, hv⟩
        cases hdrops : w.drops k with
        | false => rfl
        | true => simp [Write.affects, hdrops] at haffects

/-! ### Runs -/

namespace Follows

theorem empty :
  Follows [] .empty
  where
  nodup := List.nodup_nil
  present k := by simp [contains, IsPut, lastWrite?]
  value k v h := by cases h
  listed e he := by cases he
  entered k := by
    constructor
    · intro h
      cases h
    · rintro ⟨i, hi⟩
      cases hi.lt_length
  ordered := List.Pairwise.nil

/-- A key that is present enters where it entered before. -/
theorem entersAt_of_append (h : Follows ws s) (hk : k ∈ s.keys) (hw : w.drops k = false)
    (hi : EntersAt (ws ++ [w]) k i) :
  EntersAt ws k i
  := by
  obtain ⟨j, hj⟩ := (h.entered k).mp (mem_keys_iff.mp hk)
  rwa [hi.unique (hj.append hw)]

theorem ordered_of_sublist {ks : List String} (h : Follows ws s) (hks : ks.Sublist s.keys)
    (hw : ∀ k ∈ ks, w.drops k = false) :
  ks.Pairwise fun k l => ∀ i j, EntersAt (ws ++ [w]) k i → EntersAt (ws ++ [w]) l j → i < j
  := by
  apply (h.ordered.sublist hks).imp_of_mem
  intro k l hk hl hkl i j hi hj
  apply hkl
  · exact h.entersAt_of_append (hks.subset hk) (hw k hk) hi
  · exact h.entersAt_of_append (hks.subset hl) (hw l hl) hj

theorem ordered_apply (h : Follows ws s) (w : Write) :
  (w.apply s).keys.Pairwise fun k l =>
    ∀ i j, EntersAt (ws ++ [w]) k i → EntersAt (ws ++ [w]) l j → i < j
  := by
  cases w with
  | put k v =>
      have hold := h.ordered_of_sublist (w := .put k v) (List.Sublist.refl _) fun _ _ => rfl
      rw [Write.apply, keys_put]
      split
      · exact hold
      · rename_i hk
        rw [List.pairwise_append]
        refine ⟨hold, List.pairwise_singleton _ _, ?_⟩
        intro l hl k' hk' i j hi hj
        obtain rfl := List.mem_singleton.mp hk'
        have hi := h.entersAt_of_append hl rfl hi
        have habsent : ¬ IsPut ws k' := by rwa [← h.present, ← mem_keys_iff]
        rw [hj.unique (.append_put habsent v)]
        exact hi.lt_length
  | remove k =>
      rw [Write.apply, keys_remove]
      apply h.ordered_of_sublist List.erase_sublist
      intro l hl
      have hne : k ≠ l := by
        rintro rfl
        exact List.Nodup.not_mem_erase s.nodup hl
      simpa [Write.drops] using hne
  | clear => exact List.Pairwise.nil

theorem apply (h : Follows ws s) (w : Write) :
  Follows (ws ++ [w]) (w.apply s)
  := by
  have hvalue (k : String) (v : Value) (hv : lastWrite? (ws ++ [w]) k = some (.put k v)) :
      (w.apply s).get? k = some v := by
    rw [lastWrite?_append] at hv
    rw [Write.get?_apply]
    split at hv
    · rename_i haffects
      rw [if_pos haffects, Option.some.inj hv]
      rfl
    · rename_i haffects
      rw [if_neg haffects]
      exact h.value k v hv
  have hpresent (k : String) : (w.apply s).contains k = true ↔ IsPut (ws ++ [w]) k := by
    constructor
    · intro hk
      rw [contains, Write.get?_apply] at hk
      rw [IsPut, lastWrite?_append]
      split at hk
      · rename_i haffects
        rw [if_pos haffects]
        cases w with
        | put l v =>
            obtain rfl : l = k := by simpa [Write.affects, Write.puts, Write.drops] using haffects
            exact ⟨v, rfl⟩
        | _ => cases hk
      · rename_i haffects
        rw [if_neg haffects]
        exact (h.present k).mp hk
    · rintro ⟨v, hv⟩
      rw [contains, hvalue k v hv]
      rfl
  have hentered (k : String) :
      (w.apply s).contains k = true ↔ ∃ i, EntersAt (ws ++ [w]) k i := by
    rw [hpresent]
    constructor
    · exact exists_entersAt
    · rintro ⟨i, hi⟩
      exact hi.isPut
  exact {
    nodup := (w.apply s).nodup
    present := hpresent
    value := hvalue
    listed := fun e he => mem_entries_iff.mp he
    entered := hentered
    ordered := h.ordered_apply w }

theorem foldl {us : List Write} (h : Follows ws s) :
  Follows (ws ++ us) (us.foldl Write.apply s)
  := by
  induction us generalizing ws s with
  | nil => rwa [List.append_nil]
  | cons u us ih =>
      have hrest := ih (h.apply u)
      rwa [List.append_assoc] at hrest

end Follows

end

/-- A store that is made by any edits is what their history says: its keys are those whose last
write was a put, with the values that were put, each listed once, in the order in which they
entered for good.  So a key that is put again keeps its place, the keys that are not removed keep
their order, and a key that is removed and put again comes last. -/
theorem run_follows (edits : List Edit) :
  let s := empty.run edits
  Follows (history edits) s
    ∧ (∀ k v, (s.put k v).keys = if s.contains k = true then s.keys else s.keys ++ [k])
    ∧ (∀ k, (s.remove k).keys = s.keys.erase k)
    ∧ ∀ k v, ((s.remove k).put k v).keys = s.keys.erase k ++ [k]
  := by
  intro s
  refine ⟨?_, ?_, s.keys_remove, s.keys_put_remove⟩
  · change Follows (history edits) (empty.run edits)
    rw [run_eq_foldl]
    exact Follows.empty.foldl
  · intro k v
    simp only [keys_put, mem_keys_iff]

-- "a" is overwritten by the other store and keeps its place; "b" leaves and comes back
example :
  (empty.run [.put "a" (.integer 1), .put "b" .null, .put "c" (.boolean true),
    .overlay (empty.put "a" (.text "x")), .remove "b", .put "b" .null]).keys = ["a", "c", "b"]
  := by decide

end Store

end TypedSql
