import NativeBridge.Plan.Interfaces
import NativeBridge.Proofs.Effects
import NativeBridge.Proofs.Meaning

/-!
# Steps that do not depend on progress

What has been planned so far makes planning quicker and gives slots their numbers, but most steps
end the same way from any progress that a session can be in. Such a step is steady, its outcome is
how it ends with nothing planned, and the outcome of steady steps one after another is made of their
outcomes.
-/
namespace NativeBridge

namespace Planning

variable {α β : Type}

/-- How a step ends with nothing planned. -/
def outcome (x : Planning α) : Except Failure α := (x.runFrom {}).1

@[simp] theorem runFrom_check (x : Except Failure α) (p : Progress) :
    (check x).runFrom p = (x, p) := rfl
@[simp] theorem runFrom_note (event : Event) (p : Progress) :
    (note event).runFrom p = (.ok (), { p with log := p.log ++ [event] }) := rfl
@[simp] theorem runFrom_within (place : Place) (x : Planning α) (p : Progress) :
    (within place x).runFrom p =
      ((x.runFrom p).1.mapError (·.located place), (x.runFrom p).2) := rfl

@[simp] theorem outcome_pure (a : α) : outcome (pure a : Planning α) = .ok a := rfl
@[simp] theorem outcome_throw (e : Failure) : outcome (throw e : Planning α) = .error e := rfl
@[simp] theorem outcome_check (x : Except Failure α) : outcome (check x) = x := rfl
@[simp] theorem outcome_note (event : Event) : outcome (note event) = .ok () := rfl
@[simp] theorem outcome_within (place : Place) (x : Planning α) :
    outcome (within place x) = x.outcome.mapError (·.located place) := rfl

theorem outcome_guard_eq_ok_iff {c : Prop} [Decidable c] {e : Failure} {k : PUnit → Planning α}
    {a : α} :
    (if c then throw e >>= k else k ⟨⟩).outcome = .ok a ↔ ¬ c ∧ (k ⟨⟩).outcome = .ok a := by
  by_cases h : c
  · simp only [h, if_true, not_true_eq_false, false_and, iff_false]
    intro thrown
    cases thrown
  · simp [h]

end Planning

/-- The tables of one progress are those of another; memo, marshalings and log may differ. -/
structure Progress.SameTables (p q : Progress) : Prop where
  slots : q.slots = p.slots
  layouts : q.layouts = p.layouts
  callbacks : q.callbacks = p.callbacks
  plans : q.plans = p.plans

theorem Progress.SameTables.refl (p : Progress) : p.SameTables p := ⟨rfl, rfl, rfl, rfl⟩

theorem Progress.SameTables.trans {p q r : Progress} (pq : p.SameTables q) (qr : q.SameTables r) :
    p.SameTables r :=
  ⟨qr.slots.trans pq.slots, qr.layouts.trans pq.layouts, qr.callbacks.trans pq.callbacks,
    qr.plans.trans pq.plans⟩

namespace Session

/-- Progress that remembers meanings only, and marshalings only of the types they were found for. -/
def Sound (s : Session) (p : Progress) : Prop :=
  Memo.Sound s.scope p.memo ∧ ∀ kept ∈ p.marshalings, s.classify (some kept.1) = .ok kept.2

theorem sound_empty (s : Session) : s.Sound {} := by
  refine ⟨Memo.Sound.nil s.scope, ?_⟩
  intro kept member
  cases member

/-- A step that ends the same way from all sound progress, and adds to what is remembered and to the
log only. -/
structure Steady (s : Session) {α : Type} (x : Planning α) : Prop where
  result : ∀ {p}, s.Sound p → (x.runFrom p).1 = x.outcome
  sound : ∀ {p}, s.Sound p → s.Sound (x.runFrom p).2
  tables : ∀ p : Progress, p.SameTables (x.runFrom p).2

variable {s : Session} {α β : Type}

namespace Steady

theorem pure (a : α) : s.Steady (Pure.pure a : Planning α) :=
  ⟨fun _ => rfl, fun h => h, fun p => .refl p⟩

theorem throw (e : Failure) : s.Steady (MonadExcept.throw e : Planning α) :=
  ⟨fun _ => rfl, fun h => h, fun p => .refl p⟩

theorem check (x : Except Failure α) : s.Steady (Planning.check x) :=
  ⟨fun _ => rfl, fun h => h, fun p => .refl p⟩

theorem note (event : Event) : s.Steady (Planning.note event) :=
  ⟨fun _ => rfl, fun h => h, fun _ => ⟨rfl, rfl, rfl, rfl⟩⟩

theorem within (place : Place) {x : Planning α} (hx : s.Steady x) :
    s.Steady (Planning.within place x) := by
  constructor
  · intro p sound
    rw [Planning.runFrom_within, Planning.outcome_within, hx.result sound]
  · intro p sound
    exact hx.sound sound
  · intro p
    exact hx.tables p

/-- From sound progress a steady step has its outcome and leaves sound progress. -/
theorem runFrom_eq {x : Planning α} (hx : s.Steady x) {p : Progress} (sound : s.Sound p) :
    ∃ p', x.runFrom p = (x.outcome, p') ∧ s.Sound p' ∧ p.SameTables p' :=
  ⟨(x.runFrom p).2, Prod.ext (hx.result sound) rfl, hx.sound sound, hx.tables p⟩

/-- The outcome of two steps is that of the second after that of the first. -/
theorem outcome_bind {x : Planning α} {f : α → Planning β} (hx : s.Steady x)
    (hf : ∀ a, s.Steady (f a)) :
    (x >>= f).outcome = x.outcome >>= fun a => (f a).outcome := by
  obtain ⟨p', first, sound, -⟩ := hx.runFrom_eq s.sound_empty
  cases h : x.outcome with
  | error e =>
    rw [h] at first
    rw [Planning.outcome, ExceptT.runFrom_bind_error first]
    rfl
  | ok a =>
    rw [h] at first
    rw [Planning.outcome, ExceptT.runFrom_bind_ok first, (hf a).result sound]
    rfl

theorem outcome_bind_eq_ok_iff {x : Planning α} {f : α → Planning β} (hx : s.Steady x)
    (hf : ∀ a, s.Steady (f a)) {b : β} :
    (x >>= f).outcome = .ok b ↔ ∃ a, x.outcome = .ok a ∧ (f a).outcome = .ok b := by
  rw [outcome_bind hx hf, except_bind_eq_ok_iff]

theorem bind {x : Planning α} {f : α → Planning β} (hx : s.Steady x) (hf : ∀ a, s.Steady (f a)) :
    s.Steady (x >>= f) := by
  have step : ∀ {p}, s.Sound p → ((x >>= f).runFrom p).1 = (x >>= f).outcome ∧
      s.Sound ((x >>= f).runFrom p).2 := by
    intro p sound
    obtain ⟨p', first, sound', -⟩ := hx.runFrom_eq sound
    rw [outcome_bind hx hf]
    cases h : x.outcome with
    | error e =>
      rw [h] at first
      rw [ExceptT.runFrom_bind_error first]
      exact ⟨rfl, sound'⟩
    | ok a =>
      rw [h] at first
      rw [ExceptT.runFrom_bind_ok first]
      exact ⟨(hf a).result sound', (hf a).sound sound'⟩
  refine ⟨fun sound => (step sound).1, fun sound => (step sound).2, ?_⟩
  intro p
  have first := hx.tables p
  rw [ExceptT.runFrom_bind]
  rcases h : x.runFrom p with ⟨e | a, p'⟩
  · rw [h] at first
    exact first
  · rw [h] at first
    exact first.trans ((hf a).tables p')

theorem guard {c : Prop} [Decidable c] {e : Failure} {k : PUnit → Planning α}
    (hk : s.Steady (k ⟨⟩)) : s.Steady (if c then MonadExcept.throw e >>= k else k ⟨⟩) := by
  split
  · exact (Steady.throw e).bind fun _ => hk
  · exact hk

theorem foldlM {f : β → α → Planning β} (hf : ∀ b a, s.Steady (f b a)) (items : List α) (b : β) :
    s.Steady (items.foldlM f b) := by
  induction items generalizing b with
  | nil => exact .pure b
  | cons a rest ih =>
    rw [List.foldlM_cons]
    exact (hf b a).bind ih

theorem outcome_foldlM {f : β → α → Planning β} (hf : ∀ b a, s.Steady (f b a)) (items : List α)
    (b : β) : (items.foldlM f b).outcome = items.foldlM (fun b a => (f b a).outcome) b := by
  induction items generalizing b with
  | nil => rfl
  | cons a rest ih =>
    rw [List.foldlM_cons, outcome_bind (hf b a) (foldlM hf rest), List.foldlM_cons]
    simp only [ih]

theorem mapM {f : α → Planning β} (hf : ∀ a, s.Steady (f a)) (items : List α) :
    s.Steady (items.mapM f) := by
  induction items with
  | nil => exact .pure []
  | cons a rest ih =>
    rw [List.mapM_cons]
    exact (hf a).bind fun _ => ih.bind fun _ => .pure _

theorem outcome_mapM {f : α → Planning β} (hf : ∀ a, s.Steady (f a)) (items : List α) :
    (items.mapM f).outcome = items.mapM fun a => (f a).outcome := by
  induction items with
  | nil => rfl
  | cons a rest ih =>
    rw [List.mapM_cons, List.mapM_cons,
      outcome_bind (hf a) fun _ => (mapM hf rest).bind fun _ => .pure _]
    congr
    funext b
    rw [outcome_bind (mapM hf rest) fun _ => .pure _, ih]
    rfl

theorem forM {f : α → Planning Unit} (hf : ∀ a, s.Steady (f a)) (items : List α) :
    s.Steady (items.forM f) := by
  induction items with
  | nil => exact .pure ()
  | cons a rest ih =>
    change s.Steady (f a >>= fun _ => rest.forM f)
    exact (hf a).bind fun _ => ih

theorem outcome_forM {f : α → Planning Unit} (hf : ∀ a, s.Steady (f a))
    (quiet : ∀ a, (f a).outcome = .ok ()) (items : List α) : (items.forM f).outcome = .ok () := by
  induction items with
  | nil => rfl
  | cons a rest ih =>
    change (f a >>= fun _ => rest.forM f).outcome = .ok ()
    rw [outcome_bind (hf a) fun _ => forM hf rest, quiet a]
    exact ih

end Steady

/-- Resolving a type finds its meaning. -/
theorem runFrom_resolve (e : TypeExpr) (flags : Flags) {p : Progress} (sound : s.Sound p) :
    ((s.resolve e flags).runFrom p).1 = (s.scope.meaning e flags).mapError .unresolvable ∧
      s.Sound ((s.resolve e flags).runFrom p).2 := by
  obtain ⟨found, sound'⟩ : (s.scope.resolve e flags p.memo).1 = s.scope.meaning e flags ∧
      Memo.Sound s.scope (s.scope.resolve e flags p.memo).2 := Scope.resolve_spec sound.1
  exact ⟨congrArg (·.mapError Failure.unresolvable) found, sound', sound.2⟩

theorem outcome_resolve (e : TypeExpr) (flags : Flags) :
    (s.resolve e flags).outcome = (s.scope.meaning e flags).mapError .unresolvable :=
  (runFrom_resolve e flags s.sound_empty).1

theorem steady_resolve (e : TypeExpr) (flags : Flags) : s.Steady (s.resolve e flags) := by
  constructor
  · intro p sound
    rw [(runFrom_resolve e flags sound).1, outcome_resolve]
  · intro p sound
    exact (runFrom_resolve e flags sound).2
  · intro p
    exact ⟨rfl, rfl, rfl, rfl⟩

/-! ## Marshalings that are kept -/

/-- A kept marshaling is taken as it is; one that is found is kept, and a failure leaves nothing. -/
theorem runFrom_marshalingOf (d : Descriptor) (p : Progress) :
    (s.marshalingOf (some d)).runFrom p =
      match p.marshalings.lookup d, s.classify (some d) with
      | some m, _ => (.ok m, p)
      | none, .ok m => (.ok m, { p with marshalings := p.marshalings ++ [(d, m)] })
      | none, .error failure => (.error failure, p) := by
  rw [marshalingOf, ExceptT.runFrom_bind_ok (ExceptT.runFrom_get p), Option.bind_some]
  cases p.marshalings.lookup d with
  | some m => rfl
  | none => cases s.classify (some d) <;> rfl

/-- From sound progress the marshaling that is found is the one that the type has, whether or not it
was kept before, and what is kept afterwards is sound. -/
theorem marshalingOf_spec (d : Option Descriptor) {p : Progress} (sound : s.Sound p) :
    ((s.marshalingOf d).runFrom p).1 = s.classify d ∧
      s.Sound ((s.marshalingOf d).runFrom p).2 := by
  cases d with
  | none => exact ⟨rfl, sound⟩
  | some d =>
    rw [runFrom_marshalingOf]
    cases kept : p.marshalings.lookup d with
    | some m =>
      obtain ⟨before, after, split, -⟩ := List.lookup_eq_some_iff.1 kept
      have member : (d, m) ∈ p.marshalings := by simp [split]
      exact ⟨(sound.2 _ member).symm, sound⟩
    | none =>
      cases classified : s.classify (some d) with
      | error failure => exact ⟨rfl, sound⟩
      | ok m =>
        refine ⟨rfl, sound.1, ?_⟩
        intro entry member
        obtain earlier | now := List.mem_append.1 member
        · exact sound.2 entry earlier
        · rw [List.mem_singleton.1 now]
          exact classified

/-- Keeping marshalings changes no outcome. -/
@[simp] theorem outcome_marshalingOf (d : Option Descriptor) :
    (s.marshalingOf d).outcome = s.classify d :=
  (marshalingOf_spec d s.sound_empty).1

theorem steady_marshalingOf (d : Option Descriptor) : s.Steady (s.marshalingOf d) := by
  constructor
  · intro p sound
    rw [(marshalingOf_spec d sound).1, outcome_marshalingOf]
  · intro p sound
    exact (marshalingOf_spec d sound).2
  · intro p
    cases d with
    | none => exact .refl p
    | some d =>
      rw [runFrom_marshalingOf]
      cases p.marshalings.lookup d with
      | some m => exact .refl p
      | none => cases s.classify (some d) <;> exact ⟨rfl, rfl, rfl, rfl⟩

theorem steady_resultOf (d : Option Descriptor) : s.Steady (s.resultOf d) := by
  cases d with
  | none => exact .pure none
  | some d => exact (steady_marshalingOf (some d)).bind fun m => .check m.returned

@[simp] theorem outcome_resultOf (d : Option Descriptor) :
    (s.resultOf d).outcome = s.result d := by
  cases d with
  | none => rfl
  | some d =>
    rw [resultOf, (steady_marshalingOf (some d)).outcome_bind fun m => .check m.returned,
      outcome_marshalingOf]
    rfl

end Session

end NativeBridge
