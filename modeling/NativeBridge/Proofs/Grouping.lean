import NativeBridge.Proofs.History

/-!
# What groups of overloads hold

Every declared argument list stands for one overload at each number of arguments that a caller may
give. Planning puts these overloads into the group of their name, in the order of their arities. It
adds none, drops none, and keeps each with the native name that it was declared with.
-/
namespace NativeBridge

/-- What a declaration lets a caller call: a list of arguments, and a native function. -/
structure Callee where
  arguments : List Argument
  nativeName : String

def Operation.callee (op : Operation) : Callee := ⟨op.arguments, op.nativeName⟩

def Interface.constructorCallees (i : Interface) : List Callee :=
  i.constructors.map (⟨·, i.nativeName⟩)

/-- The variants of an argument list are the beginnings of it that a caller may give. -/
theorem mem_expandOptional {arguments variant : List Argument}
    (member : variant ∈ expandOptional arguments) :
    variant.length ∈ arityRange arguments ∧ variant = arguments.take variant.length := by
  refine ⟨mem_map_length_expandOptional.1 (List.mem_map_of_mem member), ?_⟩
  obtain ⟨n, -, rfl⟩ := List.mem_map.1 member
  rw [List.length_take, List.take_eq_take_iff]
  simp

/-! ## Order -/

theorem Overload.mem_insert {o p : Overload} {overloads : List Overload} :
    p ∈ o.insert overloads ↔ p = o ∨ p ∈ overloads := by
  rw [(o.insert_perm overloads).mem_iff, List.mem_cons]

/-- An overload of a new arity is inserted in its place. -/
theorem Overload.pairwise_insert {o : Overload} {overloads : List Overload}
    (ascending : overloads.Pairwise fun p q => p.arity < q.arity)
    (fresh : ∀ p ∈ overloads, p.arity ≠ o.arity) :
    (o.insert overloads).Pairwise fun p q => p.arity < q.arity := by
  induction overloads with
  | nil => exact List.pairwise_singleton _ o
  | cons first rest ih =>
    obtain ⟨least, later⟩ := List.pairwise_cons.1 ascending
    rw [Overload.insert]
    split
    · rename_i below
      refine List.pairwise_cons.2 ⟨?_, ascending⟩
      intro p member
      rcases List.mem_cons.1 member with rfl | inRest
      · exact below
      · exact below.trans (least p inRest)
    · rename_i above
      have apart := fresh first List.mem_cons_self
      refine List.pairwise_cons.2
        ⟨?_, ih later fun p member => fresh p (List.mem_cons_of_mem _ member)⟩
      intro p member
      rcases Overload.mem_insert.1 member with rfl | inRest
      · omega
      · exact least p inRest

namespace Session

variable {s : Session}

/-! ## One group -/

/-- A group holds what some callees stand for: the arities of all of them, which do not overlap, in
ascending order, and at each arity as many first arguments of the callee that allows it, with its
native name. -/
structure Gathers (s : Session) (callees : List Callee) (g : OverloadGroup) : Prop where
  ascending : g.overloads.Pairwise fun o p => o.arity < p.arity
  disjoint : callees.Pairwise fun a b => Disjoint (arityRange a.arguments) (arityRange b.arguments)
  arities : ∀ n, n ∈ g.arities ↔ ∃ c ∈ callees, n ∈ arityRange c.arguments
  carries : ∀ o ∈ g.overloads, ∀ c ∈ callees, o.arity ∈ arityRange c.arguments →
    List.Forall₂ s.Plans (c.arguments.take o.arity) o.arguments ∧ o.nativeName = c.nativeName

theorem gathers_nil {g : OverloadGroup} (empty : g.overloads = []) : s.Gathers [] g where
  ascending := by simp [empty]
  disjoint := .nil
  arities := by simp [OverloadGroup.arities, empty]
  carries := by simp [empty]

/-- What adding some variants of an argument list leaves in a group: its overloads in order, each
one either there before or one of the variants. -/
structure Widens (s : Session) (nativeName : String) (g : OverloadGroup)
    (done : List (List Argument)) (h : OverloadGroup) : Prop where
  ascending : h.overloads.Pairwise fun o p => o.arity < p.arity
  origin : ∀ o ∈ h.overloads, o ∈ g.overloads ∨
    ∃ variant ∈ done, List.Forall₂ s.Plans variant o.arguments ∧ o.nativeName = nativeName

theorem Widens.add {callable : Callable} {nativeName : String} {g b b' : OverloadGroup}
    {done : List (List Argument)} {variant : List Argument} (before : s.Widens nativeName g done b)
    (added : (s.addVariant callable nativeName b variant).outcome = .ok b') :
    s.Widens nativeName g (done ++ [variant]) b' := by
  obtain ⟨planned, all, fresh, rfl⟩ := outcome_addVariant_eq_ok_iff.1 added
  constructor
  · refine Overload.pairwise_insert before.ascending fun p member same => fresh ?_
    rw [all.length_eq]
    exact List.mem_map.2 ⟨p, member, same⟩
  · intro o member
    rcases Overload.mem_insert.1 member with rfl | old
    · exact .inr ⟨variant, by simp, all, rfl⟩
    · refine (before.origin o old).imp_right ?_
      rintro ⟨earlier, inDone, facts⟩
      exact ⟨earlier, List.mem_append_left _ inDone, facts⟩

theorem widens_addVariants {callable : Callable} {nativeName : String} {g h : OverloadGroup}
    {arguments : List Argument} (ascending : g.overloads.Pairwise fun o p => o.arity < p.arity)
    (added : (s.addVariants callable nativeName g arguments).outcome = .ok h) :
    s.Widens nativeName g (expandOptional arguments) h := by
  rw [addVariants, Steady.outcome_foldlM (steady_addVariant callable nativeName)] at added
  exact foldlM_invariant (s.Widens nativeName g) (fun _ _ _ _ _ _ => Widens.add)
    ⟨ascending, fun o member => .inl member⟩ added

/-- A group gathers one more callee when the overloads of that one are added. -/
theorem Gathers.add {callable : Callable} {callees : List Callee} {c : Callee} {g h : OverloadGroup}
    (before : s.Gathers callees g)
    (added : (s.addVariants callable c.nativeName g c.arguments).outcome = .ok h) :
    s.Gathers (callees ++ [c]) h := by
  obtain ⟨ascending, origin⟩ := widens_addVariants before.ascending added
  have fresh := (exists_addVariants_iff.1 ⟨h, added⟩).2
  constructor
  · exact ascending
  · refine List.pairwise_append.2 ⟨before.disjoint, List.pairwise_singleton _ c, ?_⟩
    intro a member b single
    rw [List.mem_singleton.1 single, Finset.disjoint_left]
    exact fun n inOld inNew => fresh n inNew ((before.arities n).2 ⟨a, member, inOld⟩)
  · intro n
    rw [(addVariants_gained added).arities, before.arities]
    simp [or_and_right, exists_or]
  · intro o member a inCallees allowed
    rcases origin o member with old | ⟨variant, expanded, planned, native⟩
    · rcases List.mem_append.1 inCallees with inOld | single
      · exact before.carries o old a inOld allowed
      · rw [List.mem_singleton.1 single] at allowed
        exact absurd (List.mem_map_of_mem old) (fresh _ allowed)
    · obtain ⟨inNew, whole⟩ := mem_expandOptional expanded
      rw [planned.length_eq, ← Overload.arity] at inNew whole
      rcases List.mem_append.1 inCallees with inOld | single
      · exact absurd ((before.arities _).2 ⟨a, inOld, allowed⟩) (fresh _ inNew)
      · rw [List.mem_singleton.1 single, ← whole]
        exact ⟨planned, native⟩

/-! ## Constructors -/

theorem gathers_planConstructors {i : Interface} {g : OverloadGroup}
    (planned : (s.planConstructors i).outcome = .ok g) :
    s.Gathers i.constructorCallees g ∧ g.name = i.name ∧ g.isStatic = true ∧
      g.returnType = none := by
  have folded := outcome_planConstructors_eq_ok_iff.1 planned
  constructor
  · refine foldlM_invariant (fun done g => s.Gathers (done.map (⟨·, i.nativeName⟩)) g)
      (fun done arguments _ b b' _ before added => ?_) (gathers_nil rfl) folded
    rw [List.map_append]
    exact Gathers.add (c := ⟨arguments, i.nativeName⟩) before added
  · have gained := foldlM_invariant (AddedLists _) (fun _ _ _ _ _ _ => AddedLists.add)
      ⟨.refl _, by simp⟩ folded
    exact ⟨gained.head.name, gained.head.isStatic, gained.head.returnType⟩

/-! ## Operations -/

theorem map_name_putGroup (g : OverloadGroup) (groups : List OverloadGroup) :
    (putGroup g groups).map (·.name) =
      if g.name ∈ groups.map (·.name) then groups.map (·.name)
      else groups.map (·.name) ++ [g.name] := by
  induction groups with
  | nil => rfl
  | cons first rest ih =>
    by_cases same : first.name = g.name
    · simp [putGroup, same]
    · simp only [putGroup, if_neg same, List.map_cons, ih, List.mem_cons, Ne.symm same, false_or]
      split <;> rfl

/-- The operations of one name. -/
def namesakes (name : String) (ops : List Operation) : List Operation := ops.filter (·.name = name)

/-- Groups in the order in which their names came up, each with what the operations of its name
say. -/
structure Grouped (s : Session) (done : List Operation) (groups : List OverloadGroup) : Prop where
  names : groups.map (·.name) = (done.map (·.name)).eraseDups
  gathers : ∀ g ∈ groups, s.Gathers ((namesakes g.name done).map Operation.callee) g
  agree : ∀ g ∈ groups, ∀ op ∈ done, op.name = g.name → op.isStatic = g.isStatic ∧
    (s.resolve op.returnType op.flags).outcome = .ok g.returnType

theorem grouped_nil : s.Grouped [] [] := ⟨by simp, by simp, by simp⟩

theorem namesakes_concat (name : String) (done : List Operation) (op : Operation) :
    namesakes name (done ++ [op]) =
      if op.name = name then namesakes name done ++ [op] else namesakes name done := by
  rw [namesakes, List.filter_append, ← namesakes]
  split <;> simp_all

/-- Distinct names tell groups apart, so a group that is put in stands for its name alone. -/
theorem mem_putGroup_cases {g h : OverloadGroup} {groups : List OverloadGroup}
    (distinct : (groups.map (·.name)).Nodup) (member : h ∈ putGroup g groups) :
    h = g ∨ h ∈ groups ∧ h.name ≠ g.name := by
  have found := (find?_name_iff (nodup_putGroup (g := g) distinct)).2 ⟨member, rfl⟩
  rw [find?_putGroup] at found
  split at found
  · exact .inl (Option.some.inj found).symm
  · rename_i other
    exact .inr ⟨List.mem_of_find?_eq_some found, Ne.symm other⟩

/-- The group that an operation joins gathers the earlier operations of its name. -/
theorem Grouped.groupFor {done : List Operation} {groups : List OverloadGroup}
    (before : s.Grouped done groups) (op : Operation) (d : Option Descriptor)
    (r : Option Marshaling) :
    s.Gathers ((namesakes op.name done).map Operation.callee) (groupFor groups op d r) ∧
      ∀ other ∈ done, other.name = op.name →
        other.isStatic = (groupFor groups op d r).isStatic ∧
        (s.resolve other.returnType other.flags).outcome =
          .ok (groupFor groups op d r).returnType := by
  cases found : groups.find? (·.name = op.name) with
  | none =>
    have joined : Session.groupFor groups op d r =
        { name := op.name, returnType := d, returns := r, isStatic := op.isStatic } := by
      simp [Session.groupFor, found]
    have new : ∀ other ∈ done, other.name ≠ op.name := by
      intro other member named
      have absent := find?_name_eq_none_iff.1 found
      rw [before.names, List.mem_eraseDups] at absent
      exact absent (named ▸ List.mem_map_of_mem member)
    rw [joined]
    constructor
    · have alone : namesakes op.name done = [] := by simpa [namesakes] using new
      rw [alone]
      exact gathers_nil rfl
    · intro other member named
      exact absurd named (new other member)
  | some g =>
    have joined : Session.groupFor groups op d r = g := by simp [Session.groupFor, found]
    have member := List.mem_of_find?_eq_some found
    have named : g.name = op.name := by simpa using List.find?_some found
    rw [joined, ← named]
    exact ⟨before.gathers g member, before.agree g member⟩

theorem Grouped.add {i : Interface} {done : List Operation} {groups groups' : List OverloadGroup}
    {op : Operation} (before : s.Grouped done groups) (distinct : (groups.map (·.name)).Nodup)
    (planned : (s.planOperation i groups op).outcome = .ok groups') :
    s.Grouped (done ++ [op]) groups' := by
  obtain ⟨-, d, r, ⟨resolved, -⟩, static, type, g, added, rfl⟩ :=
    outcome_planOperation_eq_ok_iff.1 planned
  obtain ⟨gathers, agree⟩ := before.groupFor op d r
  have head := (addVariants_gained added).head
  have named : g.name = op.name := head.name.trans (groupFor_name groups op d r)
  constructor
  · rw [map_name_putGroup, named, before.names, List.map_append, List.eraseDups_append]
    simp only [List.mem_eraseDups]
    split <;> simp_all [List.removeAll, List.eraseDups_cons]
  · intro h member
    rw [namesakes_concat]
    rcases mem_putGroup_cases distinct member with rfl | ⟨old, other⟩
    · rw [named, if_pos rfl, List.map_append]
      exact Gathers.add (c := op.callee) gathers added
    · rw [if_neg fun same => other (same.symm.trans named.symm)]
      exact before.gathers h old
  · intro h member last inside same
    rcases mem_putGroup_cases distinct member with rfl | ⟨old, other⟩
    · rw [head.isStatic, head.returnType]
      rcases List.mem_append.1 inside with earlier | single
      · exact agree last earlier (same.trans named)
      · rw [List.mem_singleton.1 single, static, type, outcome_resolve, resolved]
        exact ⟨rfl, rfl⟩
    · rcases List.mem_append.1 inside with earlier | single
      · exact before.agree h old last earlier same
      · rw [List.mem_singleton.1 single] at same
        exact absurd (same.symm.trans named.symm) other

theorem grouped_planOperations {i : Interface} {groups : List OverloadGroup}
    (planned : (s.planOperations i).outcome = .ok groups) : s.Grouped i.operations groups := by
  have folded := outcome_planOperations_eq_ok_iff.1 planned
  have both := foldlM_invariant (fun done groups => s.Grouped done groups ∧ GroupsDistinct groups)
    (fun _ _ _ _ _ _ before planned => ⟨before.1.add before.2.names planned, before.2.add planned⟩)
    ⟨grouped_nil, List.nodup_nil, by simp⟩ folded
  exact both.1

/-! ## After any requests -/

theorem sound_after (s : Session) (requests : List Request) : s.Sound (s.after requests) :=
  ((invariant_accurate (s := s)).after requests).1

/-- A steady step that succeeds after some requests succeeds the same way from the start. -/
theorem Steady.outcome_of_after {α : Type} {x : Planning α} (hx : s.Steady x)
    {requests : List Request}
    {a : α} {p : Progress} (ran : x.runFrom (s.after requests) = (.ok a, p)) :
    x.outcome = .ok a := by
  rw [← hx.result (s.sound_after requests), ran]

/-- Whatever was asked before, planning the operations of an interface gives one group for each
name, in the order in which the names first come up, and planning its constructors gives one group.
Each group holds every overload that its declarations stand for and nothing else, and its staticness
and its return type are those of each of them. -/
theorem overloads_neither_lost_nor_invented (s : Session) (requests : List Request)
    (i : Interface) :
    (∀ groups p, (s.planOperations i).runFrom (s.after requests) = (.ok groups, p) →
      groups.map (·.name) = (i.operations.map (·.name)).eraseDups ∧
      ∀ g ∈ groups, s.Gathers ((namesakes g.name i.operations).map Operation.callee) g ∧
        ∀ op ∈ i.operations, op.name = g.name → op.isStatic = g.isStatic ∧
          (s.resolve op.returnType op.flags).outcome = .ok g.returnType) ∧
    ∀ g p, (s.planConstructors i).runFrom (s.after requests) = (.ok g, p) →
      s.Gathers i.constructorCallees g ∧ g.name = i.name ∧ g.isStatic = true ∧
        g.returnType = none := by
  constructor
  · intro groups p ran
    have grouped := grouped_planOperations ((steady_planOperations i).outcome_of_after ran)
    exact ⟨grouped.names, fun g member => ⟨grouped.gathers g member, grouped.agree g member⟩⟩
  · intro g p ran
    exact gathers_planConstructors ((steady_planConstructors i).outcome_of_after ran)

/-- Two operations of one name with another between them, of which one has an optional argument, and
two constructors. -/
def canvas : Interface where
  name := "Canvas"
  constructors :=
    [[], [{ name := "width", type := { name := "long" } },
          { name := "height", type := { name := "long" }, optional := true }]]
  operations :=
    [{ name := "draw", returnType := { name := "Pixels" }, cppName := some "drawAt"
       arguments := [{ name := "x", type := { name := "long" } },
         { name := "y", type := { name := "Pixels" }, optional := true }] },
     { name := "clear", returnType := { name := "void" }, isStatic := true },
     { name := "draw", returnType := { name := "long" } }]

def canvases : Session where
  declarations :=
    { interfaces := [canvas], typedefs := [{ name := "Pixels", type := { name := "long" } }] }
  options := {}
  distinct := by decide

theorem canvas_overloads_neither_lost_nor_invented :
    ∃ groups p g q,
      (canvases.planOperations canvas).runFrom (canvases.after [.generate]) = (.ok groups, p) ∧
      (canvases.planConstructors canvas).runFrom (canvases.after [.generate]) = (.ok g, q) ∧
      groups.map (·.name) = ["draw", "clear"] ∧
      (∀ group ∈ groups,
        canvases.Gathers ((namesakes group.name canvas.operations).map Operation.callee) group) ∧
      canvases.Gathers canvas.constructorCallees g := by
  obtain ⟨groups, p, operations⟩ := ExceptT.exists_runFrom_of_isSome
    (x := canvases.planOperations canvas) (p := canvases.after [.generate]) (by decide +kernel)
  obtain ⟨g, q, constructors⟩ := ExceptT.exists_runFrom_of_isSome
    (x := canvases.planConstructors canvas) (p := canvases.after [.generate]) (by decide +kernel)
  have planned := overloads_neither_lost_nor_invented canvases [.generate] canvas
  obtain ⟨names, gathered⟩ := planned.1 groups p operations
  exact ⟨groups, p, g, q, operations, constructors, names.trans (by decide +kernel),
    fun group member => (gathered group member).1, (planned.2 g q constructors).1⟩

end Session

end NativeBridge
