import TypedSql.Proofs.Record.Layer
import TypedSql.Proofs.Value.Store

/-!
# Overlays

Laying a store over another one keeps the entries of the lower store in their places, with the
values of the upper one where it has any, and puts the other entries of the upper store behind
them (`Store.entries_overlay`).  So nothing changes exactly when every entry of the upper store is
there already.

Stores act on each other by overlaying, the order of the keys included (`Store.overlay_laws`), and
through that on rows: reading a row in two parts is reading the overlay of what the parts have
(`Model.mergeIn_mergeIn`), so that a row that is read once more stays the same
(`Reading.apply_again`).
-/

namespace TypedSql

namespace Assoc

variable {κ α : Type} [BEq κ] [LawfulBEq κ]

/-- A key that is present is put by replacing its value where it stands. -/
theorem put_of_mem {k : κ} {xs : List (κ × α)} (h : k ∈ xs.map Prod.fst)
    (hnodup : (xs.map Prod.fst).Nodup) (v : α) :
  put k v xs = xs.map fun e => if e.1 == k then (e.1, v) else e
  := by
  induction xs with
  | nil => cases h
  | cons e r ih =>
      rw [List.map_cons, List.nodup_cons] at hnodup
      by_cases he : e.1 = k
      · have hrest : ∀ d ∈ r, (if d.1 == k then (d.1, v) else d) = d := by
          intro d hd
          have hne : d.1 ≠ k := by
            rintro rfl
            exact hnodup.1 (he ▸ List.mem_map_of_mem hd)
          simp [hne]
        simp [put, he, List.map_congr_left hrest]
      · have hr : k ∈ r.map Prod.fst := by
          rw [List.map_cons, List.mem_cons] at h
          exact h.resolve_left (Ne.symm he)
        simp [put, he, ih hr hnodup.2]

/-- The pairs of a lower list in their places, with the values of the upper one where it has any,
and the other pairs of the upper list behind them. -/
def laid (xs ys : List (κ × α)) : List (κ × α) :=
  xs.map (fun e => (e.1, (get? e.1 ys).getD e.2)) ++ ys.filter fun e => (get? e.1 xs).isNone

/-- A pair whose key is not among the others might as well be put into the lower list first. -/
theorem laid_cons {xs ys : List (κ × α)} (hxs : (xs.map Prod.fst).Nodup) {e : κ × α}
    (he : e.1 ∉ ys.map Prod.fst) :
  laid xs (e :: ys) = laid (put e.1 e.2 xs) ys
  := by
  have hfresh : get? e.1 ys = none := get?_eq_none_iff.mpr he
  have hothers : (ys.filter fun d => (get? d.1 (put e.1 e.2 xs)).isNone)
      = ys.filter fun d => (get? d.1 xs).isNone := by
    apply List.filter_congr
    intro d hd
    rw [get?_put_of_ne]
    intro heq
    exact he (heq ▸ List.mem_map_of_mem hd)
  unfold laid
  rw [hothers, List.filter_cons]
  by_cases hmem : e.1 ∈ xs.map Prod.fst
  · have hpresent : ¬ (get? e.1 xs).isNone = true := by
      rw [Option.isNone_iff_eq_none, get?_eq_none_iff]
      exact not_not.mpr hmem
    rw [put_of_mem hmem hxs, if_neg hpresent, List.map_map]
    congr 1
    apply List.map_congr_left
    intro d _
    by_cases hd : d.1 = e.1
    · simp [get?, hd, hfresh]
    · simp [get?, hd, Ne.symm hd]
  · have habsent : (get? e.1 xs).isNone = true := by
      rw [Option.isNone_iff_eq_none, get?_eq_none_iff]
      exact hmem
    rw [put_of_notMem hmem, if_pos habsent, List.map_append, List.map_singleton, hfresh,
      List.append_assoc]
    congr 1
    apply List.map_congr_left
    intro d hd
    have hne : e.1 ≠ d.1 := fun heq => hmem (heq ▸ List.mem_map_of_mem hd)
    simp [get?, hne]

theorem overlay_eq_laid {xs ys : List (κ × α)} (hxs : (xs.map Prod.fst).Nodup)
    (hys : (ys.map Prod.fst).Nodup) :
  overlay xs ys = laid xs ys
  := by
  induction ys generalizing xs with
  | nil => simp [overlay, laid, get?]
  | cons e ys ih =>
      rw [List.map_cons, List.nodup_cons] at hys
      rw [laid_cons hxs hys.1, ← ih (nodup_keys_put e.1 e.2 hxs) hys.2]
      rfl

end Assoc

namespace Store

/-- The entries of the lower store keep their places, and take the values of the upper one where it
has any; what else the upper store has comes behind them, in its order. -/
theorem entries_overlay (s t : Store) :
  (s.overlay t).entries
    = s.entries.map (fun e => (e.1, (t.get? e.1).getD e.2))
      ++ t.entries.filter fun e => (s.get? e.1).isNone
  :=
  Assoc.overlay_eq_laid s.nodup t.nodup

/-- Nothing changes exactly when every entry of the upper store is there already, with the very
same value. -/
theorem overlay_eq_self_iff {s t : Store} :
  s.overlay t = s ↔ t.entries ⊆ s.entries
  := by
  constructor
  · intro h e he
    rw [mem_entries_iff, ← h, get?_overlay, mem_entries_iff.mp he, Option.some_or]
  · intro hsubset
    have hvalue : ∀ e ∈ s.entries, (e.1, (t.get? e.1).getD e.2) = e := by
      intro e he
      cases hv : t.get? e.1 with
      | none => rfl
      | some v =>
          have hs := mem_entries_iff.mp (hsubset (mem_entries_iff (e := (e.1, v)).mpr hv))
          rw [mem_entries_iff.mp he] at hs
          exact Prod.ext rfl (Option.some.inj hs).symm
    have hnew : (t.entries.filter fun e => (s.get? e.1).isNone) = [] := by
      rw [List.filter_eq_nil_iff]
      intro e he
      rw [mem_entries_iff.mp (hsubset he)]
      exact Bool.false_ne_true
    rw [Store.mk.injEq]
    calc Assoc.overlay s.entries t.entries
        = s.entries.map (fun e => (e.1, (t.get? e.1).getD e.2))
            ++ t.entries.filter fun e => (s.get? e.1).isNone := s.entries_overlay t
      _ = s.entries.map id ++ [] := by rw [hnew, List.map_congr_left hvalue]; rfl
      _ = s.entries := by simp

/-- The upper store counts where it has a key. -/
theorem get?_overlay_eq_ite (s t : Store) (k : String) :
  (s.overlay t).get? k = if t.contains k then t.get? k else s.get? k
  := by
  rw [get?_overlay, contains]
  cases t.get? k <;> rfl

/-- The laws of overlaying: it is associative, the order of the keys included, the empty store
changes nothing from either side, and neither does a store whose entries are all there already;
the upper store counts where it has a key; and the entries of the lower store come first. -/
theorem overlay_laws :
  (∀ s t u : Store, (s.overlay t).overlay u = s.overlay (t.overlay u))
    ∧ (∀ s : Store, s.overlay empty = s ∧ empty.overlay s = s)
    ∧ (∀ s t : Store, s.overlay t = s ↔ t.entries ⊆ s.entries)
    ∧ (∀ (s t : Store) (k : String),
      (s.overlay t).get? k = if t.contains k then t.get? k else s.get? k)
    ∧ ∀ s t : Store, (s.overlay t).entries
        = s.entries.map (fun e => (e.1, (t.get? e.1).getD e.2))
          ++ t.entries.filter fun e => (s.get? e.1).isNone
  :=
  ⟨overlay_assoc, fun s => ⟨s.overlay_empty, s.empty_overlay⟩, fun _ _ => overlay_eq_self_iff,
    get?_overlay_eq_ite, entries_overlay⟩

end Store

namespace Record.Model

/-- What is staged, followed by what is staged after it. -/
def Staged.overlay (s t : Staged) : Staged where
  native := s.native.overlay t.native
  foreign := s.foreign.overlay t.foreign

/-- Reading a row in two parts is reading both at once, the second over the first. -/
theorem mergeIn_mergeIn (m : Model) (s t : Staged) :
  (m.mergeIn s).mergeIn t = m.mergeIn (s.overlay t)
  := by
  simp only [mergeIn, Option.getD_some, Staged.overlay, Store.overlay_assoc]

/-- Reading the same once more changes nothing. -/
theorem mergeIn_self (m : Model) (s : Staged) :
  (m.mergeIn s).mergeIn s = m.mergeIn s
  := by
  have hself (t : Store) : t.overlay t = t := Store.overlay_eq_self_iff.mpr (List.Subset.refl _)
  rw [mergeIn_mergeIn, Staged.overlay, hself, hself]

end Record.Model

/-- A row that has been read, whole or in part, stays the same when the same is read once more. -/
theorem Record.Reading.apply_again {spec : Spec} {m m' : Model} {r : Reading}
    (h : r.apply spec m = .ok m') :
  r.apply spec m' = .ok m'
  := by
  rw [r.apply_eq] at h ⊢
  obtain ⟨s, hstage, rfl⟩ := exists_of_map_eq_ok h
  rw [hstage]
  cases r with
  | whole _ => rfl
  | _ => exact congrArg Except.ok (Model.mergeIn_self m s)

end TypedSql
