import TypedSql.Proofs.Record.Casting
import TypedSql.Record.InPlace

/-!
# Failures change nothing

Carried out bit by bit, an operation that fails stops half way.  Values are cast before anything of
the model changes, so that a failure leaves the model as it was: an operation in place is made as a
whole or not at all (`Setting.write_eq_atOnce`, `Reading.write_eq_atOnce`).  The main statement,
`Change.error_iff_firstRefusal`, says this together with which error it is.
-/

namespace TypedSql.Record

open Sql (Column)

namespace Change

variable {σ τ : Type} {find : Column → Option Value} {cs : List Column}

/-- A change that is made as a whole, or not at all where it fails. -/
def atOnce (f : σ → Except CoercionError σ) : Change σ Unit := fun s =>
  match f s with
  | .ok s' => .ok () s'
  | .error e => .error e s

theorem atOnce_eq_error_iff {f : σ → Except CoercionError σ} {s s' : σ} {e : CoercionError} :
  atOnce f s = .error e s' ↔ s' = s ∧ f s = .error e
  := by
  rw [atOnce]
  cases f s with
  | ok t => simp
  | error d => simp [eq_comm, and_comm]

theorem atOnce_eq_ok_iff {f : σ → Except CoercionError σ} {s s' : σ} :
  atOnce f s = .ok () s' ↔ f s = .ok s'
  := by
  rw [atOnce]
  cases f s <;> simp

theorem outcome_atOnce (f : σ → Except CoercionError σ) (s : σ) :
  (atOnce f).outcome s = f s
  := by
  rw [outcome, atOnce]
  cases f s <;> rfl

theorem outcome_bind (x y : Change σ Unit) (s : σ) :
  outcome (do x; y) s = (x.outcome s).bind y.outcome
  := by
  change outcome (EStateM.bind x fun _ => y) s = _
  rw [outcome, outcome, EStateM.bind]
  cases x s <;> rfl

theorem outcome_forM_cons {α : Type} (f : α → Change σ Unit) (a : α) (as : List α) (s : σ) :
  ((a :: as).forM f).outcome s = ((f a).outcome s).bind (as.forM f).outcome
  :=
  outcome_bind (f a) (as.forM f) s

theorem ofExcept_bind {α : Type} (r : Except CoercionError α) (x : α → Change σ Unit) (s : σ) :
  (ofExcept r >>= x) s
    = match r with
      | .ok a => x a s
      | .error e => .error e s
  := by
  cases r <;> rfl

/-- A change of a part of a state is made at once if it is at once for the part. -/
theorem onPart_atOnce {part : σ → τ} {replace : σ → τ → σ} (hpart : ∀ s, replace s (part s) = s)
    (f : τ → Except CoercionError τ) :
  onPart part replace (atOnce f) = atOnce fun s => (f (part s)).map (replace s)
  := by
  funext s
  rw [onPart, atOnce, atOnce]
  cases f (part s) with
  | ok t => rfl
  | error e => exact congrArg (EStateM.Result.error e) (hpart s)

/-! ### Saving -/

theorem save_eq_atOnce (mode : KeyMode) (c : Column) (v : Value) :
  save mode c v = atOnce (Record.save mode c v)
  := by
  funext s
  rw [save, atOnce, Record.save]
  split
  · rfl
  · cases c.cast v <;> rfl

theorem overrideDefault_eq_atOnce (c : Column) (v : Value) :
  overrideDefault c v = atOnce fun spec => spec.overrideDefault c v
  := by
  rw [overrideDefault, save_eq_atOnce, onPart_atOnce fun _ => rfl]
  rfl

/-! ### Setting values -/

variable (spec : Spec)

/-- Values that are cast already are recorded without a failure. -/
theorem commit_eq (c : Column) (v : Value) (m : Model) :
  commit spec c v m = .ok () (m.commit spec c v)
  := by
  cases h : c.belongsTo spec.owner with
  | false =>
      simp only [commit, Model.commit, h, Bool.false_eq_true, if_false]
      rfl
  | true =>
      let key := c.storageKey spec.owner
      have hget : commit spec c v m
          = (if m.records key v then
              (modify fun m => { m with pending := putLayer m.pending key v } : Change Model Unit)
            else pure ()) m := by
        simp only [commit, h, if_true]
        rfl
      rw [hget, Model.commit, if_pos h]
      cases m.records key v <;> rfl

theorem forM_commit_eq (vs : List (Column × Value)) (m : Model) :
  (vs.forM fun e => commit spec e.1 e.2) m = .ok () (m.commitAll spec vs)
  := by
  induction vs generalizing m with
  | nil => rfl
  | cons e vs ih =>
      change EStateM.bind (commit spec e.1 e.2) (fun _ => vs.forM fun e => commit spec e.1 e.2) m
        = _
      rw [EStateM.bind, commit_eq]
      exact ih _

theorem set_eq_atOnce (c : Column) (v : Value) :
  set spec c v = atOnce fun m => m.set spec c v
  := by
  funext m
  rw [set, ofExcept_bind, atOnce, Model.set]
  cases c.cast v with
  | error e => rfl
  | ok w => exact commit_eq spec c w m

/-- What is gathered in place is what is found, cast as it is listed. -/
theorem outcome_castEach (vs : List (Column × Value)) :
  (castEach find cs).outcome vs = (Model.castEach find cs).map fun ws => vs ++ ws
  := by
  induction cs generalizing vs with
  | nil => exact congrArg Except.ok (List.append_nil vs).symm
  | cons c cs ih =>
      rw [castEach, outcome_forM_cons, ← castEach]
      cases hfind : find c with
      | none =>
          rw [Model.castEach_cons_of_none hfind]
          exact ih vs
      | some v =>
          rw [Model.castEach_cons_of_some hfind]
          dsimp only
          cases c.cast v with
          | error e => rfl
          | ok w =>
              apply (ih _).trans
              cases Model.castEach find cs with
              | error e => rfl
              | ok ws => exact congrArg Except.ok (List.append_assoc vs [(c, w)] ws)

theorem setEach_eq_atOnce (find : Column → Option Value) (cs : List Column) :
  setEach spec find cs = atOnce fun m => m.setEach spec find cs
  := by
  funext m
  rw [setEach, outcome_castEach, ofExcept_bind, atOnce, Model.setEach]
  cases Model.castEach find cs with
  | error e => rfl
  | ok vs => exact forM_commit_eq spec vs m

/-! ### Reading rows -/

theorem stage_eq_atOnce (c : Column) (v : Value) :
  stage spec c v = atOnce fun s => Model.stage spec s c v
  := by
  cases h : c.belongsTo spec.owner with
  | true =>
      simp only [stage, Model.stage, h, if_true, save_eq_atOnce]
      exact onPart_atOnce (fun _ => rfl) _
  | false =>
      simp only [stage, Model.stage, h, Bool.false_eq_true, if_false, save_eq_atOnce]
      exact onPart_atOnce (fun _ => rfl) _

/-- What is staged in place is what is staged one after the other. -/
theorem outcome_stageEach (s : Model.Staged) :
  (stageEach spec find cs).outcome s = Model.stageEach spec find cs s
  := by
  induction cs generalizing s with
  | nil => rfl
  | cons c cs ih =>
      rw [stageEach, outcome_forM_cons, ← stageEach, Model.stageEach]
      cases hfind : find c with
      | none => exact ih s
      | some v =>
          dsimp only
          rw [stage_eq_atOnce, outcome_atOnce]
          exact congrArg _ (funext ih)

theorem readEach_eq_atOnce (find : Column → Option Value) (cs : List Column) (replace : Bool) :
  readEach spec find cs replace
    = atOnce fun m => (Model.stageEach spec find cs {}).map fun s =>
        if replace then Model.replaceBy s else m.mergeIn s
  := by
  funext m
  rw [readEach, outcome_stageEach, ofExcept_bind, atOnce]
  cases Model.stageEach spec find cs {} with
  | error e => rfl
  | ok s => cases replace <;> rfl

end Change

/-! ### Operations -/

theorem Setting.write_eq_atOnce (spec : Spec) (x : Setting) :
  x.write spec = Change.atOnce fun m => x.apply spec m
  := by
  cases x with
  | value c v => exact Change.set_eq_atOnce spec c v
  | store s cs => exact Change.setEach_eq_atOnce spec _ cs
  | map values cs => exact Change.setEach_eq_atOnce spec _ cs
  | model spec' m' cs => exact Change.setEach_eq_atOnce spec _ cs

theorem Setting.apply_eq_error_iff {spec : Spec} {x : Setting} {m : Model} {e : CoercionError} :
  x.apply spec m = .error e ↔ FirstRefusal (x.find spec) x.columns e
  := by
  rw [x.apply_eq, x.casts_eq, ← Model.castEach_eq_error_iff]
  cases Model.castEach (x.find spec) x.columns <;> simp [Except.map]

theorem Reading.write_eq_atOnce (spec : Spec) (r : Reading) :
  r.write spec = Change.atOnce fun m => r.apply spec m
  := by
  cases r with
  | source s cs => exact Change.readEach_eq_atOnce spec _ cs false
  | whole s => exact Change.readEach_eq_atOnce spec _ s.columns true
  | store s cs => exact Change.readEach_eq_atOnce spec _ cs false
  | map values cs => exact Change.readEach_eq_atOnce spec _ cs false

theorem Reading.apply_eq_error_iff {spec : Spec} {r : Reading} {m : Model} {e : CoercionError} :
  r.apply spec m = .error e ↔ FirstRefusal (r.find spec) r.columns e
  := by
  rw [r.apply_eq, Model.stageEach_eq, ← Model.castEach_eq_error_iff]
  cases Model.castEach (r.find spec) r.columns <;> simp [Except.map]

theorem save_eq_error_iff {mode : KeyMode} {c : Column} {v : Value} {s : Store}
    {e : CoercionError} :
  save mode c v s = .error e ↔ c.cast v = .error e
  := by
  rw [save_eq]
  cases c.cast v <;> simp [Except.map]

theorem Spec.overrideDefault_eq_error_iff {spec : Spec} {c : Column} {v : Value}
    {e : CoercionError} :
  spec.overrideDefault c v = .error e ↔ c.cast v = .error e
  := by
  rw [Spec.overrideDefault, save_eq]
  cases c.cast v <;> simp [Except.map]

namespace Change

/-- Setting and reading in place fail exactly when a value that is found for one of the listed
columns does not cast.  The error is then that of the first such column in the order of the list,
and everything of the model is as it was.  So it is for saving a value in a store and for overriding
a default; and the error tells of the value and of the kind of the column. -/
theorem error_iff_firstRefusal (spec : Spec) (e : CoercionError) :
  (∀ (x : Setting) (m m' : Model),
      x.write spec m = .error e m' ↔ m' = m ∧ FirstRefusal (x.find spec) x.columns e)
    ∧ (∀ (r : Reading) (m m' : Model),
      r.write spec m = .error e m' ↔ m' = m ∧ FirstRefusal (r.find spec) r.columns e)
    ∧ (∀ c v spec',
      overrideDefault c v spec = .error e spec' ↔ spec' = spec ∧ c.cast v = .error e)
    ∧ (∀ mode c v s s',
      save mode c v s = .error e s' ↔ s' = s ∧ c.cast v = .error e)
    ∧ ∀ (c : Column) v, c.cast v = .error e → e.value = v ∧ e.target = c.kind
  := by
  refine ⟨?_, ?_, ?_, ?_, fun c v h => Value.of_cast_eq_error h⟩
  · intro x m m'
    rw [x.write_eq_atOnce, atOnce_eq_error_iff, x.apply_eq_error_iff]
  · intro r m m'
    rw [r.write_eq_atOnce, atOnce_eq_error_iff, r.apply_eq_error_iff]
  · intro c v spec'
    rw [overrideDefault_eq_atOnce, atOnce_eq_error_iff, Spec.overrideDefault_eq_error_iff]
  · intro mode c v s s'
    rw [save_eq_atOnce, atOnce_eq_error_iff, save_eq_error_iff]

/-- The handle on a column of members. -/
def member (kind : Kind) (expression : String) : Column :=
  { kind := kind, table := some ⟨"Member", "members"⟩, expression := expression }

/-- Members of a club. -/
def members : Spec :=
  ⟨"Member", { model := "Member", name := "members" },
    [member .text "name", member .blob "photo", member .integer "age"], .empty⟩

/-- A member whose name is about to be changed, and of whom it is noted that she is present. -/
def grace : Model where
  pending := some (Store.empty.put "name" (.text "G."))
  transitory := some [("present", .boolean true)]

/-- What a member wrote into a form. -/
def form : Store :=
  ((Store.empty.put "age" (.text "old")).put "photo" (.text "none")).put "name" (.text "Grace")

/-- The photo is refused.  The name, which is listed before it, is not set, and the age, which is
listed after it and would be refused too, is not what the error tells of. -/
theorem error_iff_firstRefusal_form :
  (Setting.store form [member .text "name", member .blob "photo", member .integer "age"]).write
      members grace = .error ⟨.text "none", .blob, .wrongKind⟩ grace
    ∧ (⟨.text "none", .blob, .wrongKind⟩ : CoercionError).target = (member .blob "photo").kind
  := by
  obtain ⟨hset, -, -, -, htells⟩ := error_iff_firstRefusal members ⟨.text "none", .blob, .wrongKind⟩
  have hphoto : (member .blob "photo").cast (.text "none")
      = .error ⟨.text "none", .blob, .wrongKind⟩ := rfl
  have hname : ∀ d ∈ [member .text "name"], ∀ w, Model.findIn members form d = some w →
      ∃ x, d.cast w = .ok x := by
    intro d hd w _
    obtain rfl := List.mem_singleton.mp hd
    exact ⟨_, rfl⟩
  constructor
  · rw [hset]
    exact ⟨rfl, [member .text "name"], member .blob "photo", [member .integer "age"],
      .text "none", rfl, rfl, hphoto, hname⟩
  · exact (htells (member .blob "photo") (.text "none") hphoto).2

end Change

end TypedSql.Record
