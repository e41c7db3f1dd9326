import NativeBridge.Proofs.Verdicts

/-!
# What holds after any requests

Slots, layouts and planned callbacks change where a value type is registered or a callback planned,
and nowhere else. What these two steps keep therefore holds after any requests. So every layout is
of a declared value type that can be registered, and every planned callback is planned as its
declaration says. Once a session is prepared, all that is declared is there.
-/
namespace NativeBridge.Session

variable {s : Session} {α β : Type}

/-! ## Invariants of a session -/

/-- A property of the slots, layouts and planned callbacks of a session that holds at first and that
registering a value type and planning a callback keep. -/
structure Invariant (s : Session) (Inv : Progress → Prop) : Prop where
  empty : Inv {}
  tables : ∀ {p q : Progress}, Inv p → q.slots = p.slots → q.layouts = p.layouts →
    q.callbacks = p.callbacks → Inv q
  register : ∀ {v p}, v ∈ s.declarations.valueTypes → s.Sound p → Inv p →
    Inv ((discard (s.register v)).runFrom p).2
  planCallback : ∀ {c p}, c ∈ s.declarations.callbacks → s.Sound p → Inv p →
    Inv ((discard (s.planCallback c)).runFrom p).2

/-- A step that leaves sound progress sound and keeps a property of it, whether it succeeds or
not. -/
def Keeps (s : Session) (Inv : Progress → Prop) (x : Planning α) : Prop :=
  ∀ p, s.Sound p → Inv p → s.Sound (x.runFrom p).2 ∧ Inv (x.runFrom p).2

theorem Uniform.sound {x : Planning α} (hx : s.Uniform x) {p : Progress} (sound : s.Sound p) :
    s.Sound (x.runFrom p).2 :=
  (hx p p ⟨sound, sound, .refl p⟩).2.left

theorem Uniform.discard {x : Planning α} (hx : s.Uniform x) : s.Uniform (discard x) :=
  hx.bind fun _ => (Steady.pure ()).uniform

namespace Keeps

variable {Inv : Progress → Prop}

theorem bind {x : Planning α} {f : α → Planning β} (hx : s.Keeps Inv x)
    (hf : ∀ a, s.Keeps Inv (f a)) : s.Keeps Inv (x >>= f) := by
  intro p sound inv
  exact ExceptT.Ensures.leaves_bind (P := fun q => s.Sound q ∧ Inv q) (hx p sound inv)
    fun a q kept => hf a q kept.1 kept.2

theorem forM {f : α → Planning Unit} {items : List α} (hf : ∀ a ∈ items, s.Keeps Inv (f a)) :
    s.Keeps Inv (items.forM f) := by
  induction items with
  | nil => exact fun p sound inv => ⟨sound, inv⟩
  | cons a rest ih =>
    rw [List.forall_mem_cons] at hf
    exact hf.1.bind fun _ => ih hf.2

end Keeps

namespace Invariant

variable {Inv : Progress → Prop}

theorem sameTables (h : s.Invariant Inv) {p q : Progress} (inv : Inv p) (same : p.SameTables q) :
    Inv q :=
  h.tables inv same.slots same.layouts same.callbacks

theorem steady (h : s.Invariant Inv) {x : Planning α} (hx : s.Steady x) : s.Keeps Inv x :=
  fun p sound inv => ⟨hx.sound sound, h.sameTables inv (hx.tables p)⟩

theorem keeps_register (h : s.Invariant Inv) {v : ValueType}
    (declared : v ∈ s.declarations.valueTypes) : s.Keeps Inv (discard (s.register v)) :=
  fun _ sound inv => ⟨(uniform_register v).discard.sound sound, h.register declared sound inv⟩

theorem keeps_planCallback (h : s.Invariant Inv) {c : Callback}
    (declared : c ∈ s.declarations.callbacks) : s.Keeps Inv (discard (s.planCallback c)) :=
  fun _ sound inv =>
    ⟨(uniform_planCallback c).discard.sound sound, h.planCallback declared sound inv⟩

theorem prepare (h : s.Invariant Inv) : s.Keeps Inv s.prepare := by
  refine (h.steady (.check _)).bind fun ordered => ?_
  refine (Keeps.forM fun v declared => h.keeps_register declared).bind fun _ => ?_
  refine (Keeps.forM fun c declared => h.keeps_planCallback declared).bind fun _ => ?_
  refine (h.steady (.mapM steady_planInterface ordered)).bind fun plans => ?_
  exact fun p sound inv => ⟨sound, h.tables inv rfl rfl rfl⟩

theorem generate (h : s.Invariant Inv) : s.Keeps Inv s.generate := by
  refine h.prepare.bind fun plans => ?_
  intro p sound inv
  rw [ExceptT.runFrom_bind_ok (ExceptT.runFrom_get p)]
  refine h.steady ((Steady.check _).bind fun script => ?_) p sound inv
  exact (Steady.check _).bind fun native => .pure _

theorem perform (h : s.Invariant Inv) (request : Request) : s.Keeps Inv (s.perform request) := by
  have ignored : ∀ {α : Type} {x : Planning α}, s.Keeps Inv x → s.Keeps Inv (discard x) :=
    fun kept => kept.bind fun _ => h.steady (.pure ())
  cases request with
  | query q =>
    refine ignored fun p sound inv => ⟨(uniform_ask q).sound sound, ?_⟩
    exact h.sameTables inv (sameTables_ask q p)
  | register name =>
    rw [Session.perform]
    cases found : s.valueType? name with
    | none => exact h.steady (.throw _)
    | some v => exact h.keeps_register (valueType?_eq_some_iff.1 found).1
  | planCallback name =>
    rw [Session.perform]
    cases found : s.callback? name with
    | none => exact h.steady (.throw _)
    | some c => exact h.keeps_planCallback (List.mem_of_find?_eq_some found)
  | prepare => exact ignored h.prepare
  | generate => exact ignored h.generate
  | look view =>
    intro p sound inv
    rw [Session.perform, ExceptT.runFrom_bind_ok (ExceptT.runFrom_get p)]
    exact h.steady (.check _) p sound inv

/-- An invariant holds after any requests. -/
theorem after (h : s.Invariant Inv) (requests : List Request) :
    s.Sound (s.after requests) ∧ Inv (s.after requests) := by
  suffices general : ∀ p, s.Sound p → Inv p →
      s.Sound (requests.foldl (fun p request => ((s.perform request).runFrom p).2) p) ∧
        Inv (requests.foldl (fun p request => ((s.perform request).runFrom p).2) p) from
    general {} s.sound_empty h.empty
  induction requests with
  | nil => exact fun p sound inv => ⟨sound, inv⟩
  | cons request rest ih =>
    intro p sound inv
    obtain ⟨kept, inv⟩ := h.perform request p sound inv
    exact ih _ kept inv

end Invariant

/-! ## What tables say -/

/-- Layouts are of declared value types that can be registered, and callbacks are planned as their
declarations say. -/
structure Accurate (s : Session) (p : Progress) : Prop where
  records : ∀ v ∈ registeredTypes p, v ∈ s.declarations.valueTypes ∧ s.recordVerdict v = .ok ()
  callbacks : ∀ plan ∈ p.callbacks, plan.callback ∈ s.declarations.callbacks ∧
    (s.callbackPlan plan.callback).outcome = .ok plan

theorem Accurate.register {v : ValueType} {p : Progress} (declared : v ∈ s.declarations.valueTypes)
    (sound : s.Sound p) (h : s.Accurate p) : s.Accurate ((discard (s.register v)).runFrom p).2 := by
  by_cases known : v.name ∈ (registeredTypes p).map ValueType.name
  · rw [fills_registeredTypes.known known]
    exact h
  · obtain ⟨q, ran, -, same, grown⟩ := fills_registeredTypes.fresh sound known
    rw [ran]
    refine ⟨?_, same ▸ h.callbacks⟩
    rw [grown]
    cases verdict : s.recordVerdict v with
    | error failure => simpa [Except.isOk, Except.toBool] using h.records
    | ok =>
      have all := h.records
      simpa [Except.isOk, Except.toBool, or_imp, forall_and, declared, verdict] using all

/-- Planning a callback adds at most the plan that its declaration asks for, and nothing else. -/
theorem planCallback_leaves {c : Callback} {p q : Progress} (sound : s.Sound p)
    (left : ((discard (s.planCallback c)).runFrom p).2 = q) :
    q.slots = p.slots ∧ q.layouts = p.layouts ∧ (q.callbacks = p.callbacks ∨
      ∃ plan, (s.callbackPlan c).outcome = .ok plan ∧ q.callbacks = p.callbacks ++ [plan]) := by
  rw [ExceptT.snd_runFrom_discard] at left
  cases known : p.callbacks.find? (·.callback.name = c.name) with
  | some plan =>
    rw [planCallback, ExceptT.runFrom_bind_ok (ExceptT.runFrom_get p), known] at left
    cases left
    exact ⟨rfl, rfl, .inl rfl⟩
  | none =>
    obtain ⟨p₁, -, same, effect⟩ := runFrom_planCallback sound known
    rw [effect] at left
    cases found : (s.callbackPlan c).outcome with
    | error failure =>
      rw [found] at left
      cases left
      exact ⟨same.slots, same.layouts, .inl same.callbacks⟩
    | ok plan =>
      rw [found] at left
      cases left
      exact ⟨same.slots, same.layouts, .inr ⟨plan, rfl, congrArg (· ++ [plan]) same.callbacks⟩⟩

theorem Accurate.planCallback {c : Callback} {p : Progress}
    (declared : c ∈ s.declarations.callbacks)
    (sound : s.Sound p) (h : s.Accurate p) :
    s.Accurate ((discard (s.planCallback c)).runFrom p).2 := by
  obtain ⟨-, layouts, callbacks⟩ := planCallback_leaves (c := c) sound rfl
  refine ⟨registeredTypes_congr layouts ▸ h.records, ?_⟩
  rcases callbacks with same | ⟨plan, found, added⟩
  · rw [same]
    exact h.callbacks
  · rw [added]
    intro other member
    rcases List.mem_append.1 member with old | new
    · exact h.callbacks other old
    · rw [List.mem_singleton.1 new, (outcome_callbackPlan_eq_ok_iff.1 found).1]
      exact ⟨declared, found⟩

theorem invariant_accurate : s.Invariant s.Accurate where
  empty := ⟨nofun, nofun⟩
  tables h _ layouts callbacks :=
    ⟨registeredTypes_congr layouts ▸ h.records, callbacks.symm ▸ h.callbacks⟩
  register := Accurate.register
  planCallback := Accurate.planCallback

/-- The plan of a callback is what looking its name up finds. -/
theorem Accurate.find?_callback {p : Progress} (h : s.Accurate p) {plan : CallbackPlan}
    (member : plan ∈ p.callbacks) :
    p.callbacks.find? (·.callback.name = plan.callback.name) = some plan := by
  cases found : p.callbacks.find? (·.callback.name = plan.callback.name) with
  | none =>
    exact absurd (List.mem_map.2 ⟨plan, member, rfl⟩) (find?_name_eq_none_iff.1 found)
  | some other =>
    have named : other.callback.name = plan.callback.name := by simpa using List.find?_some found
    obtain ⟨declared, planned⟩ := h.callbacks plan member
    obtain ⟨declared', planned'⟩ := h.callbacks other (List.mem_of_find?_eq_some found)
    have same : other.callback = plan.callback :=
      List.inj_on_of_nodup_map s.callback_names_nodup declared' declared named
    rw [same, planned] at planned'
    rw [Except.ok.inj planned']

/-! ## Prepared sessions -/

/-- Tables that hold all that is declared, and no interface planned otherwise than it is
declared. -/
structure Complete (s : Session) (plans : List InterfacePlan) (p : Progress) : Prop where
  accurate : s.Accurate p
  records : ∀ v ∈ s.declarations.valueTypes, v ∈ registeredTypes p
  callbacks : ∀ c ∈ s.declarations.callbacks, c ∈ plannedCallbacks p
  interfaces : ∀ i ∈ s.declarations.interfaces, ∃ plan ∈ plans, plan.interface = i
  plans : ∀ plan ∈ plans, plan.interface ∈ s.declarations.interfaces ∧
    (s.planInterface plan.interface).outcome = .ok plan

/-- With distinct names, a declaration is in a table of declarations if its name is. -/
theorem mem_of_name_mem {name : α → String} {declared table : List α} {a : α}
    (distinct : (declared.map name).Nodup) (member : a ∈ declared)
    (subset : ∀ b ∈ table, b ∈ declared) (named : name a ∈ table.map name) : a ∈ table := by
  obtain ⟨b, there, same⟩ := List.mem_map.1 named
  rwa [List.inj_on_of_nodup_map distinct member (subset b there) same.symm]

/-- Whatever was asked before, a session that can be prepared has complete tables then. -/
theorem complete_of_prepare {requests : List Request} {plans : List InterfacePlan} {p : Progress}
    (prepared : s.prepare.runFrom (s.after requests) = (.ok plans, p)) : s.Complete plans p := by
  obtain ⟨sound, accurate⟩ := (invariant_accurate (s := s)).after requests
  have kept := (invariant_accurate.prepare _ sound accurate).2
  rw [prepared] at kept
  obtain ⟨ordered, p₁, p₂, p₃, found, registered, planned, mapped, rfl⟩ :=
    runFrom_prepare_eq_ok_iff.1 prepared
  obtain ⟨sound₁, -, -, records⟩ := fills_registeredTypes.of_forM sound registered
  obtain ⟨sound₂, same₂, -, callbacks⟩ := fills_plannedCallbacks.of_forM sound₁ planned
  have same₃ := (Steady.mapM (s := s) steady_planInterface ordered).tables p₂
  rw [mapped] at same₃
  have all := (runFrom_planInterfaces sound₂).1 ⟨p₃, mapped⟩
  refine ⟨kept, ?_, ?_, ?_, ?_⟩
  · intro v declared
    refine mem_of_name_mem s.valueType_names_nodup declared
      (fun u there => (kept.records u there).1) ?_
    change v.name ∈ (registeredTypes p₃).map ValueType.name
    rw [registeredTypes_congr (same₃.layouts.trans same₂)]
    exact records v declared
  · intro c declared
    refine mem_of_name_mem s.callback_names_nodup declared ?_ ?_
    · intro b there
      obtain ⟨plan, member, rfl⟩ := List.mem_map.1 there
      exact (kept.callbacks plan member).1
    · change c.name ∈ (plannedCallbacks p₃).map Callback.name
      rw [plannedCallbacks_congr same₃.callbacks]
      exact callbacks c declared
  · intro i declared
    obtain ⟨plan, member, planned⟩ :=
      exists_of_forall₂ all.flip ((mem_orderInterfaces found).2 declared)
    exact ⟨plan, member, (outcome_planInterface_eq_ok_iff.1 planned).1⟩
  · intro plan member
    obtain ⟨i, ordered, planned⟩ := exists_of_forall₂ all member
    have named := (outcome_planInterface_eq_ok_iff.1 planned).1
    exact ⟨named ▸ (mem_orderInterfaces found).1 ordered, named ▸ planned⟩

end NativeBridge.Session
