import NativeBridge.Proofs.Checks

/-!
# Steps that change a state and may fail

Planning and writing are steps of one kind: a step starts from a state, fails or gives a result, and
leaves a state either way. These are the facts about running such steps one after another.
-/
namespace ExceptT

open NativeBridge

variable {ε σ α β : Type}

/-- How a step ends from a given state, and the state that it leaves. -/
def runFrom (x : ExceptT ε (StateM σ) α) (p : σ) : Except ε α × σ := x.run.run p

@[simp] theorem runFrom_pure (a : α) (p : σ) :
    runFrom (pure a : ExceptT ε (StateM σ) α) p = (.ok a, p) := rfl
@[simp] theorem runFrom_throw (e : ε) (p : σ) :
    runFrom (throw e : ExceptT ε (StateM σ) α) p = (.error e, p) := rfl
@[simp] theorem runFrom_get (p : σ) : runFrom (get : ExceptT ε (StateM σ) σ) p = (.ok p, p) := rfl
@[simp] theorem runFrom_set (q p : σ) :
    runFrom (set q : ExceptT ε (StateM σ) PUnit) p = (.ok ⟨⟩, q) := rfl
@[simp] theorem runFrom_modify (f : σ → σ) (p : σ) :
    runFrom (modify f : ExceptT ε (StateM σ) PUnit) p = (.ok ⟨⟩, f p) := rfl

theorem runFrom_bind (x : ExceptT ε (StateM σ) α) (f : α → ExceptT ε (StateM σ) β) (p : σ) :
    runFrom (x >>= f) p =
      match x.runFrom p with
      | (.ok a, p') => (f a).runFrom p'
      | (.error e, p') => (.error e, p') := by
  have unfolded : runFrom (x >>= f) p =
      StateT.run (ExceptT.bindCont f (runFrom x p).1) (runFrom x p).2 := rfl
  rw [unfolded]
  rcases runFrom x p with ⟨_ | _, _⟩ <;> rfl

theorem runFrom_bind_ok {x : ExceptT ε (StateM σ) α} {f : α → ExceptT ε (StateM σ) β}
    {p p' : σ} {a : α} (h : x.runFrom p = (.ok a, p')) :
    runFrom (x >>= f) p = (f a).runFrom p' := by
  rw [runFrom_bind, h]

theorem runFrom_bind_error {x : ExceptT ε (StateM σ) α} {f : α → ExceptT ε (StateM σ) β}
    {p p' : σ} {e : ε} (h : x.runFrom p = (.error e, p')) :
    runFrom (x >>= f) p = (.error e, p') := by
  rw [runFrom_bind, h]

theorem runFrom_tryCatch (x : ExceptT ε (StateM σ) α) (f : ε → ExceptT ε (StateM σ) α) (p : σ) :
    runFrom (tryCatch x f) p =
      match x.runFrom p with
      | (.ok a, p') => (.ok a, p')
      | (.error e, p') => (f e).runFrom p' := by
  have unfolded : runFrom (tryCatch x f) p = StateT.run
      (match (runFrom x p).1 with
        | .ok a => (pure (.ok a) : StateM σ (Except ε α))
        | .error e => (f e).run) (runFrom x p).2 := rfl
  rw [unfolded]
  rcases runFrom x p with ⟨_ | _, _⟩ <;> rfl

theorem runFrom_tryCatch_ok {x : ExceptT ε (StateM σ) α} {f : ε → ExceptT ε (StateM σ) α} {p p' : σ}
    {a : α} (h : x.runFrom p = (.ok a, p')) : runFrom (tryCatch x f) p = (.ok a, p') := by
  rw [runFrom_tryCatch, h]

theorem runFrom_tryCatch_error {x : ExceptT ε (StateM σ) α} {f : ε → ExceptT ε (StateM σ) α}
    {p p' : σ} {e : ε} (h : x.runFrom p = (.error e, p')) :
    runFrom (tryCatch x f) p = (f e).runFrom p' := by
  rw [runFrom_tryCatch, h]

/-- A step made of two succeeds when both do, one after the other. -/
theorem runFrom_bind_eq_ok_iff {x : ExceptT ε (StateM σ) α} {f : α → ExceptT ε (StateM σ) β}
    {p p' : σ} {b : β} :
    runFrom (x >>= f) p = (.ok b, p') ↔
      ∃ a p₁, x.runFrom p = (.ok a, p₁) ∧ (f a).runFrom p₁ = (.ok b, p') := by
  rw [runFrom_bind]
  rcases h : x.runFrom p with ⟨e | a, p₁⟩
  · simp
  · simp only [Prod.mk.injEq, Except.ok.injEq]
    constructor
    · intro second
      exact ⟨a, p₁, ⟨rfl, rfl⟩, second⟩
    · rintro ⟨_, _, ⟨rfl, rfl⟩, second⟩
      exact second

theorem exists_runFrom_of_isSome {x : ExceptT ε (StateM σ) α} {p : σ}
    (h : (x.runFrom p).1.toOption.isSome = true) : ∃ a p', x.runFrom p = (.ok a, p') := by
  rcases ran : x.runFrom p with ⟨e | a, p'⟩
  · simp [ran, Except.toOption] at h
  · exact ⟨a, p', rfl⟩

theorem discard_eq_bind (x : ExceptT ε (StateM σ) α) : discard x = x >>= fun _ => pure () := rfl

theorem runFrom_discard_eq_ok_iff {x : ExceptT ε (StateM σ) α} {p p' : σ} :
    runFrom (discard x) p = (.ok (), p') ↔ ∃ a, x.runFrom p = (.ok a, p') := by
  rw [discard_eq_bind, runFrom_bind_eq_ok_iff]
  constructor
  · rintro ⟨a, p₁, ran, done⟩
    cases done
    exact ⟨a, ran⟩
  · rintro ⟨a, ran⟩
    exact ⟨a, p', ran, rfl⟩

theorem snd_runFrom_discard (x : ExceptT ε (StateM σ) α) (p : σ) :
    (runFrom (discard x) p).2 = (runFrom x p).2 := by
  rw [discard_eq_bind, runFrom_bind]
  rcases x.runFrom p with ⟨_ | _, _⟩ <;> rfl

/-- One step of a fold as a check on what is gathered together with the progress. -/
def advance (f : β → α → ExceptT ε (StateM σ) β) (state : β × σ) (a : α) :
    Except ε (β × σ) :=
  match (f state.1 a).runFrom state.2 with
  | (.ok b, p) => .ok (b, p)
  | (.error e, _) => .error e

theorem advance_eq_ok_iff {f : β → α → ExceptT ε (StateM σ) β} {state next : β × σ} {a : α} :
    advance f state a = .ok next ↔ (f state.1 a).runFrom state.2 = (.ok next.1, next.2) := by
  simp only [advance]
  rcases (f state.1 a).runFrom state.2 with ⟨e | b, p⟩ <;> simp [Prod.ext_iff]

theorem runFrom_foldlM_eq_ok_iff {f : β → α → ExceptT ε (StateM σ) β} {items : List α} {b b' : β}
    {p p' : σ} :
    (items.foldlM f b).runFrom p = (.ok b', p') ↔
      items.foldlM (advance f) (b, p) = .ok (b', p') := by
  induction items generalizing b p with
  | nil =>
    rw [List.foldlM_nil, List.foldlM_nil, runFrom_pure]
    simp [pure, Except.pure]
  | cons a rest ih =>
    rw [List.foldlM_cons, List.foldlM_cons, runFrom_bind_eq_ok_iff, except_bind_eq_ok_iff]
    simp only [ih, advance_eq_ok_iff, Prod.exists]

theorem forM_eq_foldlM (f : α → ExceptT ε (StateM σ) Unit) (items : List α) :
    items.forM f = items.foldlM (fun _ a => f a) () := by
  induction items with
  | nil => rfl
  | cons a rest ih =>
    change (f a >>= fun _ => rest.forM f) = _
    rw [List.foldlM_cons, ih]

/-- A step for each item succeeds when each item is good, if `Inv` says what the items done have
left behind and this decides the next step. -/
theorem forM_runFrom_iff {f : α → ExceptT ε (StateM σ) Unit} (Inv : List α → σ → Prop)
    {Good : α → Prop} {items : List α}
    (step : ∀ done a rest p, items = done ++ a :: rest → Inv done p →
      ((∃ p', (f a).runFrom p = (.ok (), p')) ↔ Good a))
    (keep : ∀ done a rest p p', items = done ++ a :: rest → Inv done p →
      (f a).runFrom p = (.ok (), p') → Inv (done ++ [a]) p')
    {p : σ} (start : Inv [] p) :
    ((∃ p', (items.forM f).runFrom p = (.ok (), p')) ↔ ∀ a ∈ items, Good a) ∧
      ∀ p', (items.forM f).runFrom p = (.ok (), p') → Inv items p' := by
  let InvState (done : List α) (state : Unit × σ) : Prop := Inv done state.2
  have keepState : ∀ done a rest (state next : Unit × σ), items = done ++ a :: rest →
      InvState done state → advance (fun _ a => f a) state a = .ok next →
      InvState (done ++ [a]) next := by
    intro done a rest state next split here taken
    exact keep done a rest state.2 next.2 split here (advance_eq_ok_iff.1 taken)
  have stepState : ∀ done a rest (state : Unit × σ), items = done ++ a :: rest →
      InvState done state →
      ((∃ next, advance (fun _ a => f a) state a = .ok next) ↔ Good a) := by
    intro done a rest state split here
    simp [← step done a rest state.2 split here, advance_eq_ok_iff, Unique.exists_iff]
  have folded := foldlM_ok_iff_forall InvState stepState keepState (b := ((), p)) start
  simp only [forM_eq_foldlM, runFrom_foldlM_eq_ok_iff]
  constructor
  · simpa [Unique.exists_iff] using folded
  · intro p' finished
    exact foldlM_invariant InvState keepState (b := ((), p)) start finished

/-- A refusal ahead of a step leaves the step to the other case. -/
theorem runFrom_guard_eq_ok_iff {c : Prop} [Decidable c] {e : ε}
    {k : PUnit → ExceptT ε (StateM σ) α} {a : α} {p p' : σ} :
    (if c then throw e >>= k else k ⟨⟩).runFrom p = (.ok a, p') ↔
      ¬ c ∧ (k ⟨⟩).runFrom p = (.ok a, p') := by
  by_cases h : c
  · simp only [h, if_true, not_true_eq_false, false_and, iff_false]
    intro thrown
    cases thrown
  · simp [h]

/-! ## What a step leaves behind -/

/-- From `p`, a step establishes `ok` where it succeeds and `failed` where it fails. -/
def Ensures (x : ExceptT ε (StateM σ) α) (p : σ) (ok : α → σ → Prop) (failed : σ → Prop) : Prop :=
  match x.runFrom p with
  | (.ok a, q) => ok a q
  | (.error _, q) => failed q

namespace Ensures

variable {x : ExceptT ε (StateM σ) α} {p : σ} {ok : α → σ → Prop} {failed : σ → Prop}

theorem bind {f : α → ExceptT ε (StateM σ) β} {ok' : β → σ → Prop} (first : Ensures x p ok failed)
    (next : ∀ a q, ok a q → Ensures (f a) q ok' failed) : Ensures (x >>= f) p ok' failed := by
  rw [Ensures, runFrom_bind]
  rw [Ensures] at first
  rcases ran : x.runFrom p with ⟨_ | a, q⟩ <;> rw [ran] at first
  · exact first
  · exact next a q first

theorem mono {ok' : α → σ → Prop} {failed' : σ → Prop} (h : Ensures x p ok failed)
    (good : ∀ a q, ok a q → ok' a q) (bad : ∀ q, failed q → failed' q) :
    Ensures x p ok' failed' := by
  rw [Ensures] at h ⊢
  rcases ran : x.runFrom p with ⟨_ | a, q⟩ <;> rw [ran] at h
  · exact bad q h
  · exact good a q h

theorem leaves {P : σ → Prop} (h : Ensures x p (fun _ => P) P) : P (x.runFrom p).2 := by
  rw [Ensures] at h
  rcases ran : x.runFrom p with ⟨_ | a, q⟩ <;> rw [ran] at h <;> exact h

theorem of_leaves {P : σ → Prop} (h : P (x.runFrom p).2) : Ensures x p (fun _ => P) P := by
  rw [Ensures]
  rcases ran : x.runFrom p with ⟨_ | a, q⟩ <;> rw [ran] at h <;> exact h

/-- What both of two steps keep, they keep one after the other. -/
theorem leaves_bind {f : α → ExceptT ε (StateM σ) β} {P : σ → Prop} (first : P (x.runFrom p).2)
    (next : ∀ a q, P q → P ((f a).runFrom q).2) : P ((x >>= f).runFrom p).2 :=
  ((of_leaves first).bind fun a q kept => of_leaves (next a q kept)).leaves

/-- What each step of a fold keeps, the whole fold keeps. -/
theorem foldlM {f : β → α → ExceptT ε (StateM σ) β} (Inv : β → σ → Prop) (items : List α)
    (step : ∀ a ∈ items, ∀ b q, Inv b q → Ensures (f b a) q Inv failed) {b : β} (start : Inv b p) :
    Ensures (items.foldlM f b) p Inv failed := by
  induction items generalizing b p with
  | nil => exact start
  | cons a rest ih =>
    rw [List.foldlM_cons]
    refine (step a List.mem_cons_self b p start).bind fun b' q kept => ?_
    exact ih (fun a' later => step a' (List.mem_cons_of_mem a later)) kept

end Ensures

end ExceptT
