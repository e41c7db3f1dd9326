import NativeBridge.Proofs.Preparation

/-!
# Sessions within sessions

When every declaration of one session is also one of another, what the first finds out about its
declarations the second finds out too: a name that is declared has one meaning, wherever it stands
and whatever stands beside it. So a plan made in the first session is made in the second as well.
-/
namespace NativeBridge

namespace Session

/-- Every declaration of one session is one of another, with the same options. -/
structure Within (s t : Session) : Prop where
  options : t.options = s.options
  interfaces : s.declarations.interfaces ⊆ t.declarations.interfaces
  valueTypes : s.declarations.valueTypes ⊆ t.declarations.valueTypes
  callbacks : s.declarations.callbacks ⊆ t.declarations.callbacks
  typedefs : s.declarations.typedefs ⊆ t.declarations.typedefs

variable {s t : Session}

theorem target?_eq_none_iff {n : String} :
    s.scope.target? n = none ↔ n ∉ s.scope.typedefNames := by
  simp [Scope.target?, Scope.typedefNames]

theorem exists_label_of_declared {n : String} {flags : Flags} {d : Option Descriptor}
    (h : s.scope.declared n flags = .ok d) : ∃ kind, (kind, n) ∈ s.declarations.labels := by
  simp only [Scope.declared] at h
  split at h
  · exact ⟨.interface, Declarations.interface_label.2 ‹_›⟩
  · split at h
    · exact ⟨.valueType, Declarations.valueType_label.2 ‹_›⟩
    · split at h
      · exact ⟨.callback, Declarations.callback_label.2 ‹_›⟩
      · cases h

theorem lineageFrom_derived {visited : List String} {v p : ValueType} {name : String}
    (parent : v.parent = some name) (found : s.valueType? name = some p) (fresh : name ∉ visited) :
    s.lineageFrom visited v = do return v :: (← s.lineageFrom (name :: visited) p) := by
  rw [lineageFrom, parent]
  simp only
  split
  · simp_all
  · rename_i other found'
    obtain rfl : other = p := by
      rw [found] at found'
      exact (Option.some.inj found').symm
    rw [dif_neg fresh]

theorem destroyableFrom_declared {visited : List String} {name : String} {p : Interface}
    (named : name ≠ "") (found : s.interface? name = some p) :
    s.destroyableFrom visited (some name) =
      if !p.nonDestructible then true
      else if p.name ∈ visited then false
      else s.destroyableFrom (p.name :: visited) p.parent := by
  rw [destroyableFrom, if_neg named]
  split
  · simp_all
  · rename_i other found'
    obtain rfl : other = p := by
      rw [found] at found'
      exact (Option.some.inj found').symm
    rfl

namespace Within

theorem interface? (h : s.Within t) {name : String} {i : Interface}
    (found : s.interface? name = some i) : t.interface? name = some i := by
  obtain ⟨declared, named⟩ := interface?_eq_some_iff.1 found
  exact interface?_eq_some_iff.2 ⟨h.interfaces declared, named⟩

theorem valueType? (h : s.Within t) {name : String} {v : ValueType}
    (found : s.valueType? name = some v) : t.valueType? name = some v := by
  obtain ⟨declared, named⟩ := valueType?_eq_some_iff.1 found
  exact valueType?_eq_some_iff.2 ⟨h.valueTypes declared, named⟩

theorem mangle (h : s.Within t) : t.mangle = s.mangle := by
  funext owner member arity
  simp only [Session.mangle, h.options]

/-! ## Meanings -/

theorem labels (h : s.Within t) : s.declarations.labels ⊆ t.declarations.labels := by
  rintro ⟨kind, n⟩ label
  cases kind with
  | interface =>
    exact Declarations.interface_label.2
      (List.map_subset _ h.interfaces (Declarations.interface_label.1 label))
  | valueType =>
    exact Declarations.valueType_label.2
      (List.map_subset _ h.valueTypes (Declarations.valueType_label.1 label))
  | callback =>
    exact Declarations.callback_label.2
      (List.map_subset _ h.callbacks (Declarations.callback_label.1 label))
  | typedef =>
    exact Declarations.typedef_label.2
      (List.map_subset _ h.typedefs (Declarations.typedef_label.1 label))

/-- A declared name is of the same kind in the larger session. -/
theorem label_iff (h : s.Within t) {kind other : DeclarationKind} {n : String}
    (label : (kind, n) ∈ s.declarations.labels) :
    (other, n) ∈ t.declarations.labels ↔ (other, n) ∈ s.declarations.labels := by
  constructor
  · intro label'
    exact kind_unique (h.labels label) label' ▸ label
  · intro label'
    exact h.labels label'

/-- The scope of the larger session gives declared names the same meanings. -/
theorem scope (h : s.Within t) : Scope.Within s.scope t.scope := by
  refine ⟨fun n target found => ?_, fun n flags d free found => ?_⟩
  · obtain ⟨typedef, declared, facts⟩ := target?_eq_some_iff.1 found
    exact target?_eq_some_iff.2 ⟨typedef, h.typedefs declared, facts⟩
  · obtain ⟨kind, label⟩ := exists_label_of_declared found
    have interfaces : n ∈ t.scope.interfaces ↔ n ∈ s.scope.interfaces :=
      Declarations.interface_label.symm.trans
        ((h.label_iff label).trans Declarations.interface_label)
    have valueTypes : n ∈ t.scope.valueTypes ↔ n ∈ s.scope.valueTypes :=
      Declarations.valueType_label.symm.trans
        ((h.label_iff label).trans Declarations.valueType_label)
    have callbacks : n ∈ t.scope.callbacks ↔ n ∈ s.scope.callbacks :=
      Declarations.callback_label.symm.trans ((h.label_iff label).trans Declarations.callback_label)
    have typedefs : n ∈ t.scope.typedefNames ↔ n ∈ s.scope.typedefNames :=
      Declarations.typedef_label.symm.trans ((h.label_iff label).trans Declarations.typedef_label)
    constructor
    · rw [target?_eq_none_iff] at free ⊢
      rwa [typedefs]
    · rw [← found]
      simp only [Scope.declared, interfaces, valueTypes, callbacks]

theorem meaning (h : s.Within t) {e : TypeExpr} {flags : Flags} {d : Option Descriptor}
    (found : s.scope.meaning e flags = .ok d) : t.scope.meaning e flags = .ok d :=
  h.scope.meaningIn found

theorem slotName (h : s.Within t) (v : ValueType) : t.slotName v = s.slotName v := by
  simp only [Session.slotName, h.options]

/-- The marshaling of a type is that in the larger session. -/
theorem classify (h : s.Within t) {d : Option Descriptor} {m : Marshaling}
    (found : s.classify d = .ok m) : t.classify d = .ok m := by
  cases d with
  | none => cases found
  | some d =>
    obtain ⟨base, nullable, flags⟩ := d
    cases base with
    | scalar kind => exact found
    | string => exact found
    | sequence kind => exact found
    | callback name => exact found
    | interface name =>
      simp only [Session.classify] at found ⊢
      cases declared : s.interface? name with
      | none => simp [declared] at found
      | some i =>
        rw [declared] at found
        rw [h.interface? declared]
        exact found
    | valueType name =>
      simp only [Session.classify] at found ⊢
      split at found
      · cases found
      · rename_i plain
        rw [if_neg plain]
        cases declared : s.valueType? name with
        | none => simp [declared] at found
        | some v =>
          rw [declared] at found
          rw [h.valueType? declared]
          simpa only [h.slotName] using found

end Within

/-! ## Steps -/

/-- Two steady steps of two sessions: what the first finds, the second finds. -/
structure Carries (s t : Session) {α : Type} (x y : Planning α) : Prop where
  steady : s.Steady x
  steady' : t.Steady y
  result : ∀ {a}, x.outcome = .ok a → y.outcome = .ok a

namespace Carries

variable {α β : Type}

theorem pure (a : α) : Carries s t (Pure.pure a) (Pure.pure a) := ⟨.pure a, .pure a, fun h => h⟩

theorem check {x y : Except Failure α} (h : ∀ {a}, x = .ok a → y = .ok a) :
    Carries s t (Planning.check x) (Planning.check y) := ⟨.check x, .check y, h⟩

theorem throw (failure : Failure) (y : Planning α) (steady : t.Steady y) :
    Carries s t (MonadExcept.throw failure) y := ⟨.throw failure, steady, fun h => by cases h⟩

theorem note (event : Event) : Carries s t (Planning.note event) (Planning.note event) :=
  ⟨.note event, .note event, fun h => h⟩

theorem within (place : Place) {x y : Planning α} (h : Carries s t x y) :
    Carries s t (Planning.within place x) (Planning.within place y) := by
  refine ⟨h.steady.within place, h.steady'.within place, fun {a} found => ?_⟩
  rw [Planning.outcome_within, except_mapError_eq_ok_iff] at found ⊢
  exact h.result found

theorem bind {x y : Planning α} {f g : α → Planning β} (first : Carries s t x y)
    (next : ∀ a, Carries s t (f a) (g a)) : Carries s t (x >>= f) (y >>= g) := by
  have steadyF := fun a => (next a).steady
  have steadyG := fun a => (next a).steady'
  refine ⟨first.steady.bind steadyF, first.steady'.bind steadyG, fun {b} found => ?_⟩
  rw [first.steady.outcome_bind_eq_ok_iff steadyF] at found
  rw [first.steady'.outcome_bind_eq_ok_iff steadyG]
  obtain ⟨a, ran, rest⟩ := found
  exact ⟨a, first.result ran, (next a).result rest⟩

theorem guard {c : Prop} [Decidable c] {failure : Failure} {k l : PUnit → Planning α}
    (h : Carries s t (k ⟨⟩) (l ⟨⟩)) :
    Carries s t (if c then MonadExcept.throw failure >>= k else k ⟨⟩)
      (if c then MonadExcept.throw failure >>= l else l ⟨⟩) := by
  refine ⟨.guard h.steady, .guard h.steady', fun {a} found => ?_⟩
  rw [Planning.outcome_guard_eq_ok_iff] at found ⊢
  exact ⟨found.1, h.result found.2⟩

theorem foldlM {f g : β → α → Planning β} (h : ∀ b a, Carries s t (f b a) (g b a))
    (items : List α) (b : β) : Carries s t (items.foldlM f b) (items.foldlM g b) := by
  induction items generalizing b with
  | nil => exact .pure b
  | cons a rest ih =>
    rw [List.foldlM_cons, List.foldlM_cons]
    exact (h b a).bind ih

theorem mapM {f g : α → Planning β} (h : ∀ a, Carries s t (f a) (g a)) (items : List α) :
    Carries s t (items.mapM f) (items.mapM g) := by
  induction items with
  | nil => exact .pure []
  | cons a rest ih =>
    rw [List.mapM_cons, List.mapM_cons]
    exact (h a).bind fun _ => ih.bind fun _ => .pure _

theorem forM {f g : α → Planning Unit} (h : ∀ a, Carries s t (f a) (g a)) (items : List α) :
    Carries s t (items.forM f) (items.forM g) := by
  rw [ExceptT.forM_eq_foldlM, ExceptT.forM_eq_foldlM]
  exact .foldlM (fun _ a => h a) items ()

end Carries

/-! ## Plans -/

namespace Within

variable (h : s.Within t)
include h

theorem result {d : Option Descriptor} {r : Option Marshaling} (found : s.result d = .ok r) :
    t.result d = .ok r := by
  cases d with
  | none => exact found
  | some d =>
    obtain ⟨m, classified, facts⟩ := result_some_eq_ok_iff.1 found
    exact result_some_eq_ok_iff.2 ⟨m, h.classify classified, facts⟩

theorem resolve (e : TypeExpr) (flags : Flags) :
    Carries s t (s.resolve e flags) (t.resolve e flags) := by
  refine ⟨steady_resolve e flags, steady_resolve e flags, fun {d} found => ?_⟩
  rw [outcome_resolve, except_mapError_eq_ok_iff] at found ⊢
  exact h.meaning found

theorem marshalingOf (d : Option Descriptor) :
    Carries s t (s.marshalingOf d) (t.marshalingOf d) := by
  refine ⟨steady_marshalingOf d, steady_marshalingOf d, fun {m} found => ?_⟩
  rw [outcome_marshalingOf] at found ⊢
  exact h.classify found

theorem resultOf (d : Option Descriptor) : Carries s t (s.resultOf d) (t.resultOf d) := by
  cases d with
  | none => exact .pure none
  | some d => exact (h.marshalingOf (some d)).bind fun m => .check fun found => found

theorem argument (e : TypeExpr) (flags : Flags) :
    Carries s t (s.argument e flags) (t.argument e flags) := by
  refine (h.resolve e flags).bind fun d => ?_
  cases d with
  | none => exact .throw _ _ (.throw _)
  | some d => exact h.marshalingOf (some d)

theorem addVariants (callable : Callable) (nativeName : String) (group : OverloadGroup)
    (arguments : List Argument) :
    Carries s t (s.addVariants callable nativeName group arguments)
      (t.addVariants callable nativeName group arguments) := by
  refine .foldlM (fun group variant => ?_) (expandOptional arguments) group
  refine (Carries.mapM (fun a => ?_) variant).bind fun planned => .check fun found => found
  exact ((h.argument a.type a.flags).within _).bind fun m => .pure _

theorem planConstructors (i : Interface) :
    Carries s t (s.planConstructors i) (t.planConstructors i) := by
  refine (Carries.foldlM (h.addVariants _ _) i.constructors _).bind fun group => ?_
  exact (Carries.note _).bind fun _ => .pure group

theorem planOperation (i : Interface) (groups : List OverloadGroup) (op : Operation) :
    Carries s t (s.planOperation i groups op) (t.planOperation i groups op) := by
  rw [Session.planOperation, Session.planOperation]
  apply Carries.guard
  refine (Carries.within _ ?_).bind fun returned => ?_
  · refine (h.resolve op.returnType op.flags).bind fun d => ?_
    exact (h.resultOf d).bind fun r => .pure (d, r)
  · apply Carries.guard
    apply Carries.guard
    exact (h.addVariants _ _ _ _).bind fun group => .pure _

theorem planOperations (i : Interface) : Carries s t (s.planOperations i) (t.planOperations i) := by
  refine (Carries.foldlM (h.planOperation i) i.operations []).bind fun groups => ?_
  exact (Carries.forM (fun group => .note _) groups).bind fun _ => .pure groups

theorem planAttribute (i : Interface) (plans : List AttributePlan) (a : Attribute) :
    Carries s t (s.planAttribute i plans a) (t.planAttribute i plans a) := by
  rw [Session.planAttribute, Session.planAttribute]
  apply Carries.guard
  refine (Carries.within _ ?_).bind fun plan => .pure _
  refine (h.resolve a.type a.flags).bind fun d => (h.resultOf d).bind fun getter => ?_
  refine Carries.bind ?_ fun setter => .pure _
  rw [planSetter, planSetter]
  split
  · exact .pure none
  · exact (h.argument a.type a.flags).bind fun m => .pure (some m)

theorem callbackResult {d : Descriptor} {r : Option Marshaling}
    (found : s.callbackResult d = .ok r) : t.callbackResult d = .ok r := by
  obtain ⟨m, classified, facts⟩ := callbackResult_eq_ok_iff.1 found
  exact callbackResult_eq_ok_iff.2 ⟨m, h.classify classified, facts⟩

theorem callbackPlan (c : Callback) : Carries s t (s.callbackPlan c) (t.callbackPlan c) := by
  rw [Session.callbackPlan, Session.callbackPlan, h.mangle]
  refine (Carries.mapM (fun a => ?_) c.arguments).bind fun arguments => ?_
  · refine .within _ ((h.argument a.type a.flags).bind fun m => ?_)
    exact (Carries.check fun found => found).bind fun _ => .pure _
  · refine (Carries.within _ ((h.resolve c.returnType {}).bind fun d => ?_)).bind fun _ => .pure _
    cases d with
    | none => exact .pure none
    | some d => exact (h.marshalingOf (some d)).bind fun m => .check fun found => found

/-- Looking up the line of parents, which are all declared, finds the same line. -/
theorem destroyableFrom (parents : ∀ i ∈ s.declarations.interfaces, s.LegalParent i)
    (visited : List String) (parent : Option String)
    (declared : ∀ name, parent = some name → ∃ p ∈ s.declarations.interfaces, p.name = name) :
    t.destroyableFrom visited parent = s.destroyableFrom visited parent := by
  fun_induction s.destroyableFrom visited parent with
  | case1 visited => rw [Session.destroyableFrom]
  | case2 visited => rw [Session.destroyableFrom, if_pos rfl]
  | case3 visited name named missing =>
    obtain ⟨p, member, same⟩ := declared name rfl
    rw [interface?_eq_some_iff.2 ⟨member, same⟩] at missing
    cases missing
  | case4 visited name named p found destructible =>
    rw [destroyableFrom_declared named (h.interface? found), if_pos destructible]
  | case5 visited name named p found kept again =>
    rw [destroyableFrom_declared named (h.interface? found), if_neg kept, if_pos again]
  | case6 visited name named p found kept fresh ih =>
    rw [destroyableFrom_declared named (h.interface? found), if_neg kept, if_neg fresh]
    apply ih
    intro grandparent above
    obtain ⟨q, member, same, -⟩ :=
      parents p (interface?_eq_some_iff.1 found).1 grandparent above
    exact ⟨q, member, same⟩

theorem planInterface (parents : ∀ i ∈ s.declarations.interfaces, s.LegalParent i) {i : Interface}
    (declared : i ∈ s.declarations.interfaces) :
    Carries s t (s.planInterface i) (t.planInterface i) := by
  have destroyable := h.destroyableFrom parents [] i.parent fun name parent => by
    obtain ⟨p, member, same, -⟩ := parents i declared name parent
    exact ⟨p, member, same⟩
  rw [Session.planInterface, Session.planInterface, destroyable]
  refine (h.planConstructors i).bind fun constructors => ?_
  refine (h.planOperations i).bind fun methods => ?_
  exact (Carries.foldlM (h.planAttribute i) i.attributes []).bind fun attributes => .pure _

/-! ## Legal declarations -/

theorem legalParent {i : Interface} (legal : s.LegalParent i) : t.LegalParent i := by
  intro name parent
  obtain ⟨p, declared, facts⟩ := legal name parent
  exact ⟨p, h.interfaces declared, facts⟩

theorem lineageFrom {visited : List String} {v : ValueType} {chain : List ValueType}
    (found : s.lineageFrom visited v = .ok chain) : t.lineageFrom visited v = .ok chain := by
  fun_induction Session.lineageFrom s visited v generalizing chain with
  | case1 visited v top =>
    cases found
    rw [Session.lineageFrom, top]
  | case2 => cases found
  | case3 => cases found
  | case4 visited v name parent p above fresh ih =>
    obtain ⟨rest, walked, same⟩ := except_bind_eq_ok_iff.1 found
    cases same
    rw [lineageFrom_derived parent (h.valueType? above) fresh, ih walked]
    rfl

theorem legalRecord {v : ValueType} (legal : s.LegalRecord v) : t.LegalRecord v := by
  obtain ⟨owners, walked, fields, names⟩ := legal
  refine ⟨owners, h.lineageFrom walked, fun o owner f field => ?_, names⟩
  obtain ⟨kind, writable, perObject, ⟨flags, scalar⟩, narrow⟩ := fields o owner f field
  exact ⟨kind, writable, perObject, ⟨flags, h.meaning scalar⟩, narrow⟩

theorem legalCallback {c : Callback} (legal : s.LegalCallback c) : t.LegalCallback c := by
  obtain ⟨plan, planned⟩ := exists_callbackPlan_iff.2 legal
  exact exists_callbackPlan_iff.1 ⟨plan, (h.callbackPlan c).result planned⟩

theorem legalInterface (parents : ∀ i ∈ s.declarations.interfaces, s.LegalParent i)
    {i : Interface} (declared : i ∈ s.declarations.interfaces) (legal : s.LegalInterface i) :
    t.LegalInterface i := by
  obtain ⟨plan, planned⟩ := exists_planInterface_iff.2 legal
  exact exists_planInterface_iff.1 ⟨plan, (h.planInterface parents declared).result planned⟩

/-- Sessions with the same declarations are plannable together. -/
theorem plannable (back : t.Within s) (plannable : s.Plannable) : t.Plannable := by
  obtain ⟨order, records, callbacks, interfaces⟩ := plannable
  obtain ⟨parents, acyclic⟩ := exists_orderInterfaces_iff.1 order
  refine ⟨exists_orderInterfaces_iff.2 ⟨?_, ?_⟩, ?_, ?_, ?_⟩
  · intro i declared
    exact h.legalParent (parents i (back.interfaces declared))
  · intro i cycle
    have narrower : ∀ j p, t.Extends j p → s.Extends j p :=
      fun j p step => ⟨back.interfaces step.1, step.2⟩
    exact acyclic i (Relation.TransGen.mono narrower i i cycle)
  · intro v declared
    exact h.legalRecord (records v (back.valueTypes declared))
  · intro c declared
    exact h.legalCallback (callbacks c (back.callbacks declared))
  · intro i declared
    have here := back.interfaces declared
    exact h.legalInterface parents here (interfaces i here)

end Within

end Session

/-- The same declarations, each list in an order of its own. -/
structure Declarations.Permuted (ds ds' : Declarations) : Prop where
  interfaces : ds.interfaces.Perm ds'.interfaces
  valueTypes : ds.valueTypes.Perm ds'.valueTypes
  callbacks : ds.callbacks.Perm ds'.callbacks
  typedefs : ds.typedefs.Perm ds'.typedefs

namespace Declarations.Permuted

variable {ds ds' : Declarations}

theorem symm (h : ds.Permuted ds') : ds'.Permuted ds :=
  ⟨h.interfaces.symm, h.valueTypes.symm, h.callbacks.symm, h.typedefs.symm⟩

theorem names (h : ds.Permuted ds') : ds.names.Perm ds'.names := by
  rw [names_eq, names_eq]
  exact ((((h.interfaces.map _).append (h.valueTypes.map _)).append (h.callbacks.map _)).append
    (h.typedefs.map _))

theorem within {s t : Session} (h : s.declarations.Permuted t.declarations)
    (options : t.options = s.options) : s.Within t :=
  ⟨options, h.interfaces.subset, h.valueTypes.subset, h.callbacks.subset, h.typedefs.subset⟩

/-- Declarations that a session can be created and prepared from keep this in any order. -/
theorem prepared (h : ds.Permuted ds') {options : Options}
    (found : ∃ s plans, Session.create ds options = .ok s ∧ s.prepare.outcome = .ok plans) :
    ∃ s plans, Session.create ds' options = .ok s ∧ s.prepare.outcome = .ok plans := by
  obtain ⟨s, plans, created, prepared⟩ := found
  have distinct : ds'.names.Nodup :=
    h.names.nodup_iff.1 (Session.exists_create_iff.1 ⟨s, created⟩)
  obtain ⟨t, created'⟩ : ∃ t, Session.create ds' options = .ok t :=
    Session.exists_create_iff.2 distinct
  obtain ⟨rfl, rfl⟩ := Session.create_eq_ok_iff.1 created
  obtain ⟨rfl, same⟩ := Session.create_eq_ok_iff.1 created'
  have plannable := (h.within same).plannable (h.symm.within same.symm)
    (Session.exists_prepare_iff.1 ⟨plans, prepared⟩)
  obtain ⟨plans', prepared'⟩ := Session.exists_prepare_iff.2 plannable
  exact ⟨t, plans', created', prepared'⟩

end Declarations.Permuted

end NativeBridge
