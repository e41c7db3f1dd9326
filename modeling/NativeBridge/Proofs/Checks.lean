import Mathlib.Data.List.Forall2

/-!
# Checks one after another

A run of checks ends at the first that fails, so it succeeds when every one of them does. Where a
check looks at what came before it, success is a condition on each item and one on each pair.
-/
namespace NativeBridge

variable {ε α β : Type}

theorem except_isOk_iff {x : Except ε α} : x.isOk = true ↔ ∃ a, x = .ok a := by
  cases x <;> simp [Except.isOk, Except.toBool]

theorem except_bind_eq_ok_iff {x : Except ε α} {f : α → Except ε β} {b : β} :
    (x >>= f) = .ok b ↔ ∃ a, x = .ok a ∧ f a = .ok b := by
  cases x with
  | error e => simp [bind, Except.bind]
  | ok a => simp [bind, Except.bind]

theorem except_bind_eq_error_iff {x : Except ε α} {f : α → Except ε β} {e : ε} :
    x >>= f = .error e ↔ x = .error e ∨ ∃ a, x = .ok a ∧ f a = .error e := by
  cases x <;> simp [bind, Except.bind]

theorem except_toOption_eq_some_iff {x : Except ε α} {a : α} : x.toOption = some a ↔ x = .ok a := by
  cases x with
  | error e => simp [Except.toOption]
  | ok b => simp [Except.toOption]

theorem except_mapError_eq_ok_iff {ε' : Type} {x : Except ε α} {f : ε → ε'} {a : α} :
    x.mapError f = .ok a ↔ x = .ok a := by
  cases x with
  | error e => exact ⟨nofun, nofun⟩
  | ok b =>
    constructor
    · rintro ⟨⟩
      rfl
    · rintro ⟨⟩
      rfl

theorem except_mapM_eq_ok_iff {f : α → Except ε β} {items : List α} {found : List β} :
    items.mapM f = .ok found ↔ List.Forall₂ (fun a b => f a = .ok b) items found := by
  induction items generalizing found with
  | nil =>
    rw [List.mapM_nil, List.forall₂_nil_left_iff]
    constructor
    · intro h
      cases h
      rfl
    · rintro rfl
      rfl
  | cons a rest ih =>
    rw [List.mapM_cons, except_bind_eq_ok_iff]
    simp only [except_bind_eq_ok_iff, ih, List.forall₂_cons_left_iff]
    constructor
    · rintro ⟨b, first, more, others, same⟩
      cases same
      exact ⟨b, more, first, others, rfl⟩
    · rintro ⟨b, more, first, others, rfl⟩
      exact ⟨b, first, more, others, rfl⟩

theorem except_mapM_attach (f : α → Except ε β) (items : List α) :
    items.attach.mapM (fun a => f a.val) = items.mapM f := by
  change items.attach.mapM (f ∘ Subtype.val) = _
  rw [← List.mapM_map, List.attach_map_subtype_val]

/-- Where two checks and what follows them carry over, so do both together. -/
theorem except_bind_mono {x y : Except ε α} {f g : α → Except ε β}
    (first : ∀ a, x = .ok a → y = .ok a) (next : ∀ a b, f a = .ok b → g a = .ok b) (b : β)
    (h : (x >>= f) = .ok b) : (y >>= g) = .ok b := by
  obtain ⟨a, found, rest⟩ := except_bind_eq_ok_iff.1 h
  exact except_bind_eq_ok_iff.2 ⟨a, first a found, next a b rest⟩

theorem except_mapM_mono {f g : α → Except ε β} (h : ∀ a b, f a = .ok b → g a = .ok b)
    {items : List α} (found : List β) (all : items.mapM f = .ok found) : items.mapM g = .ok found :=
  except_mapM_eq_ok_iff.2 ((except_mapM_eq_ok_iff.1 all).imp h)

theorem exists_forall₂_iff {R : α → β → Prop} {items : List α} :
    (∃ found, List.Forall₂ R items found) ↔ ∀ a ∈ items, ∃ b, R a b := by
  induction items with
  | nil => simp
  | cons a rest ih =>
    rw [List.forall_mem_cons, ← ih]
    constructor
    · rintro ⟨found, all⟩
      obtain ⟨b, more, first, others, rfl⟩ := List.forall₂_cons_left_iff.1 all
      exact ⟨⟨b, first⟩, more, others⟩
    · rintro ⟨⟨b, first⟩, more, others⟩
      exact ⟨b :: more, .cons first others⟩

theorem exists_of_forall₂ {R : α → β → Prop} {items : List α} {found : List β}
    (h : List.Forall₂ R items found) {b : β} (member : b ∈ found) : ∃ a ∈ items, R a b := by
  induction h with
  | nil => cases member
  | cons first _ ih =>
    rcases List.mem_cons.1 member with rfl | later
    · exact ⟨_, List.mem_cons_self, first⟩
    · obtain ⟨a, there, related⟩ := ih later
      exact ⟨a, List.mem_cons_of_mem _ there, related⟩

theorem forall₂_compose {γ : Type} {R : α → β → Prop} {S : β → γ → Prop} {T : α → γ → Prop}
    (compose : ∀ a b c, R a b → S b c → T a c) {first : List α} {middle : List β} {last : List γ}
    (h : List.Forall₂ R first middle) (h' : List.Forall₂ S middle last) :
    List.Forall₂ T first last := by
  induction h generalizing last with
  | nil =>
    cases h'
    exact .nil
  | cons here _ ih =>
    cases h' with
    | cons there others => exact .cons (compose _ _ _ here there) (ih others)

theorem map_eq_of_forall₂ {γ : Type} {R : α → β → Prop} {f : α → γ} {g : β → γ}
    {items : List α} {found : List β} (h : List.Forall₂ R items found)
    (same : ∀ a b, R a b → f a = g b) : items.map f = found.map g := by
  induction h with
  | nil => rfl
  | cons first _ ih => rw [List.map_cons, List.map_cons, same _ _ first, ih]

theorem flatMap_eq_of_forall₂ {γ : Type} {R : α → β → Prop} {f : α → List γ} {g : β → List γ}
    {items : List α} {found : List β} (h : List.Forall₂ R items found)
    (same : ∀ a b, R a b → f a = g b) : items.flatMap f = found.flatMap g := by
  rw [List.flatMap_def, List.flatMap_def, map_eq_of_forall₂ h same]

/-- A fold that fails does so at one of its items. -/
theorem exists_of_foldlM_eq_error {f : β → α → Except ε β} {items : List α} {b : β} {e : ε}
    (failed : items.foldlM f b = .error e) : ∃ b, ∃ a ∈ items, f b a = .error e := by
  induction items generalizing b with
  | nil => cases failed
  | cons a rest ih =>
    rw [List.foldlM_cons] at failed
    obtain here | ⟨b', -, later⟩ := except_bind_eq_error_iff.1 failed
    · exact ⟨b, a, List.mem_cons_self, here⟩
    · obtain ⟨b, c, member, found⟩ := ih later
      exact ⟨b, c, List.mem_cons_of_mem a member, found⟩

/-- What a fold has gathered at its end, if each step gathers one more item. -/
theorem foldlM_invariant {f : β → α → Except ε β} (Inv : List α → β → Prop) {items : List α}
    (keep : ∀ done a rest b b', items = done ++ a :: rest → Inv done b → f b a = .ok b' →
      Inv (done ++ [a]) b')
    {b final : β} (start : Inv [] b) (h : items.foldlM f b = .ok final) : Inv items final := by
  suffices general :
    ∀ rest done b, items = done ++ rest → Inv done b → rest.foldlM f b = .ok final →
      Inv items final from general items [] b rfl start h
  intro rest
  induction rest with
  | nil =>
    intro done b split here finished
    cases finished
    simpa [split] using here
  | cons a rest ih =>
    intro done b split here finished
    rw [List.foldlM_cons, except_bind_eq_ok_iff] at finished
    obtain ⟨b', taken, finished⟩ := finished
    exact ih (done ++ [a]) b'
      (by simpa using split) (keep done a rest b b' split here taken) finished

/-- If an item is taken when it is good by itself and goes with each item done, then a fold succeeds
when all items are good and go together. -/
theorem foldlM_ok_iff_pairwise {f : β → α → Except ε β} (Inv : List α → β → Prop)
    {Good : α → Prop} {Fits : α → α → Prop} {items : List α}
    (step : ∀ done a rest b, items = done ++ a :: rest → Inv done b →
      ((∃ b', f b a = .ok b') ↔ Good a ∧ ∀ c ∈ done, Fits c a))
    (keep : ∀ done a rest b b', items = done ++ a :: rest → Inv done b → f b a = .ok b' →
      Inv (done ++ [a]) b')
    {b : β} (start : Inv [] b) :
    (∃ b', items.foldlM f b = .ok b') ↔ (∀ a ∈ items, Good a) ∧ items.Pairwise Fits := by
  suffices general : ∀ rest done b, items = done ++ rest → Inv done b →
      ((∃ b', rest.foldlM f b = .ok b') ↔
        (∀ a ∈ rest, Good a) ∧ (∀ c ∈ done, ∀ a ∈ rest, Fits c a) ∧ rest.Pairwise Fits) by
    simpa using general items [] b rfl start
  intro rest
  induction rest with
  | nil => simp [pure, Except.pure]
  | cons a rest ih =>
    intro done b split here
    have split' : items = (done ++ [a]) ++ rest := by simpa using split
    simp only [List.foldlM_cons, except_bind_eq_ok_iff]
    constructor
    · rintro ⟨final, b', taken, finished⟩
      obtain ⟨good, fits⟩ := (step done a rest b split here).1 ⟨b', taken⟩
      obtain ⟨goodRest, fitsRest, together⟩ :=
        (ih (done ++ [a]) b' split' (keep done a rest b b' split here taken)).1 ⟨final, finished⟩
      simp only [List.mem_append, List.mem_singleton] at fitsRest
      refine ⟨List.forall_mem_cons.2 ⟨good, goodRest⟩, ?_, List.pairwise_cons.2 ⟨?_, together⟩⟩
      · intro c member
        exact List.forall_mem_cons.2 ⟨fits c member, fitsRest c (.inl member)⟩
      · exact fitsRest a (.inr rfl)
    · rintro ⟨good, fits, together⟩
      rw [List.forall_mem_cons] at good
      rw [List.pairwise_cons] at together
      obtain ⟨b', taken⟩ := (step done a rest b split here).2
        ⟨good.1, fun c member => fits c member a List.mem_cons_self⟩
      have fitsRest : ∀ c ∈ done ++ [a], ∀ x ∈ rest, Fits c x := by
        intro c member x inside
        rcases List.mem_append.1 member with old | new
        · exact fits c old x (List.mem_cons_of_mem a inside)
        · rw [List.mem_singleton.1 new]
          exact together.1 x inside
      obtain ⟨final, finished⟩ := (ih (done ++ [a]) b' split'
        (keep done a rest b b' split here taken)).2 ⟨good.2, fitsRest, together.2⟩
      exact ⟨final, b', taken, finished⟩

theorem foldlM_ok_iff_forall {f : β → α → Except ε β} (Inv : List α → β → Prop)
    {Good : α → Prop} {items : List α}
    (step : ∀ done a rest b, items = done ++ a :: rest → Inv done b →
      ((∃ b', f b a = .ok b') ↔ Good a))
    (keep : ∀ done a rest b b', items = done ++ a :: rest → Inv done b → f b a = .ok b' →
      Inv (done ++ [a]) b')
    {b : β} (start : Inv [] b) : (∃ b', items.foldlM f b = .ok b') ↔ ∀ a ∈ items, Good a := by
  have alone : ∀ done a rest b, items = done ++ a :: rest → Inv done b →
      ((∃ b', f b a = .ok b') ↔ Good a ∧ ∀ c ∈ done, True) := by
    intro done a rest b split here
    simp [step done a rest b split here]
  simpa [List.pairwise_of_forall] using foldlM_ok_iff_pairwise Inv alone keep start

end NativeBridge
