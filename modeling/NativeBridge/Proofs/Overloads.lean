import Mathlib.Order.Interval.Finset.Nat
import NativeBridge.Proofs.Crossing

/-!
# When overloads can be planned

A call is dispatched by the number of its arguments. An argument list allows every number from its
required arguments to all of them, and overloads can stand in one group when these ranges are
disjoint.
-/
namespace NativeBridge

/-- The numbers of arguments that a caller may give. -/
def arityRange (arguments : List Argument) : Finset ℕ :=
  Finset.Icc (arguments.countP (!·.optional)) arguments.length

theorem map_length_expandOptional (arguments : List Argument) :
    (expandOptional arguments).map List.length =
      List.range' (arguments.countP (!·.optional))
        (arguments.length + 1 - arguments.countP (!·.optional)) := by
  simp only [expandOptional, List.map_map]
  conv_rhs => rw [← List.map_id (List.range' _ _)]
  apply List.map_congr_left
  intro n member
  rw [List.mem_range'_1] at member
  simp only [Function.comp_apply, List.length_take, id_eq]
  omega

theorem mem_map_length_expandOptional {arguments : List Argument} {n : ℕ} :
    n ∈ (expandOptional arguments).map List.length ↔ n ∈ arityRange arguments := by
  have required := arguments.countP_le_length (p := (!·.optional))
  rw [map_length_expandOptional, List.mem_range'_1, arityRange, Finset.mem_Icc]
  omega

theorem nodup_map_length_expandOptional (arguments : List Argument) :
    ((expandOptional arguments).map List.length).Nodup := by
  rw [map_length_expandOptional]
  exact List.nodup_range'

theorem take_mem_expandOptional {arguments : List Argument} {n : ℕ}
    (given : n ∈ arityRange arguments) :
    arguments.take n ∈ expandOptional arguments := by
  obtain ⟨least, most⟩ := Finset.mem_Icc.1 given
  refine List.mem_map_of_mem (List.mem_range'_1.2 ?_)
  omega

/-- The variants of an argument list are parts of it, and one is all of it. -/
theorem forall_expandOptional_iff {arguments : List Argument} {P : Argument → Prop} :
    (∀ variant ∈ expandOptional arguments, ∀ a ∈ variant, P a) ↔ ∀ a ∈ arguments, P a := by
  constructor
  · intro h
    have whole := take_mem_expandOptional (Finset.right_mem_Icc.2 arguments.countP_le_length)
    rw [List.take_length] at whole
    exact h arguments whole
  · intro h variant member a inside
    obtain ⟨n, -, rfl⟩ := List.mem_map.1 member
    exact h a (List.mem_of_mem_take inside)

theorem Overload.insert_perm (o : Overload) (overloads : List Overload) :
    (o.insert overloads).Perm (o :: overloads) := by
  induction overloads with
  | nil => exact .refl _
  | cons p rest ih =>
    simp only [Overload.insert]
    split
    · exact .refl _
    · exact (ih.cons p).trans (.swap o p rest)

namespace OverloadGroup

def arities (g : OverloadGroup) : List ℕ := g.overloads.map Overload.arity

/-- Two groups are the same but for their overloads. -/
structure SameHead (g h : OverloadGroup) : Prop where
  name : h.name = g.name
  returnType : h.returnType = g.returnType
  returns : h.returns = g.returns
  isStatic : h.isStatic = g.isStatic

theorem SameHead.refl (g : OverloadGroup) : g.SameHead g := ⟨rfl, rfl, rfl, rfl⟩

theorem SameHead.trans {g h k : OverloadGroup} (gh : g.SameHead h) (hk : h.SameHead k) :
    g.SameHead k :=
  ⟨hk.name.trans gh.name, hk.returnType.trans gh.returnType, hk.returns.trans gh.returns,
    hk.isStatic.trans gh.isStatic⟩

theorem add_eq_ok_iff {callable : Callable} {g h : OverloadGroup} {o : Overload} :
    g.add callable o = .ok h ↔
      o.arity ∉ g.arities ∧ h = { g with overloads := o.insert g.overloads } := by
  have taken : g.overloads.any (·.arity = o.arity) = true ↔ o.arity ∈ g.arities := by
    simp [arities]
  simp only [add]
  split
  · rename_i clash
    simp [taken.1 clash]
  · rename_i free
    have fresh : o.arity ∉ g.arities := fun member => free (taken.2 member)
    simp [fresh, eq_comm]

theorem mem_arities_insert {g : OverloadGroup} {o : Overload} {n : ℕ} :
    n ∈ { g with overloads := o.insert g.overloads : OverloadGroup }.arities ↔
      n = o.arity ∨ n ∈ g.arities := by
  have perm := (o.insert_perm g.overloads).map Overload.arity
  rw [arities, perm.mem_iff]
  simp [arities]

/-- A group with further arities, and the same otherwise. -/
structure Gained (g h : OverloadGroup) (gained : ℕ → Prop) : Prop where
  head : g.SameHead h
  arities : ∀ n, n ∈ h.arities ↔ n ∈ g.arities ∨ gained n

theorem Gained.trans {g h k : OverloadGroup} {a b : ℕ → Prop} (gh : g.Gained h a)
    (hk : h.Gained k b) : g.Gained k fun n => a n ∨ b n :=
  ⟨gh.head.trans hk.head, fun n => by rw [hk.arities, gh.arities, or_assoc]⟩

end OverloadGroup

namespace Session

variable {s : Session}

/-- An argument is planned as what its type says. -/
def Plans (s : Session) (a : Argument) (planned : PlannedArgument) : Prop :=
  planned.name = a.name ∧ (s.argument a.type a.flags).outcome = .ok planned.marshaling

theorem steady_planArgument (callable : Callable) (a : Argument) :
    s.Steady (s.planArgument callable a) := by
  refine ((steady_argument a.type a.flags).within _).bind fun m => ?_
  exact .pure _

theorem outcome_planArgument_eq_ok_iff {callable : Callable} {a : Argument}
    {planned : PlannedArgument} :
    (s.planArgument callable a).outcome = .ok planned ↔ s.Plans a planned := by
  refine (((steady_argument a.type a.flags).within _).outcome_bind_eq_ok_iff
    fun m => .pure _).trans ?_
  simp only [Planning.outcome_within, except_mapError_eq_ok_iff, Planning.outcome_pure,
    Except.ok.injEq, Plans]
  constructor
  · rintro ⟨m, passed, rfl⟩
    exact ⟨rfl, passed⟩
  · rintro ⟨named, passed⟩
    exact ⟨planned.marshaling, passed, by rw [← named]⟩

theorem steady_planArguments (callable : Callable) (arguments : List Argument) :
    s.Steady (s.planArguments callable arguments) :=
  .mapM (steady_planArgument callable) arguments

theorem outcome_planArguments_eq_ok_iff {callable : Callable} {arguments : List Argument}
    {planned : List PlannedArgument} :
    (s.planArguments callable arguments).outcome = .ok planned ↔
      List.Forall₂ s.Plans arguments planned := by
  rw [planArguments, Steady.outcome_mapM (steady_planArgument callable), except_mapM_eq_ok_iff]
  simp only [outcome_planArgument_eq_ok_iff]

theorem exists_planned_iff {arguments : List Argument} :
    (∃ planned, List.Forall₂ s.Plans arguments planned) ↔
      ∀ a ∈ arguments, s.LegalArgument a.type a.flags := by
  rw [exists_forall₂_iff]
  refine forall₂_congr fun a _ => ?_
  rw [← exists_argument_iff]
  constructor
  · rintro ⟨planned, -, passed⟩
    exact ⟨_, passed⟩
  · rintro ⟨m, passed⟩
    exact ⟨⟨a.name, m⟩, rfl, passed⟩

theorem steady_addVariant (callable : Callable) (nativeName : String) (g : OverloadGroup)
    (variant : List Argument) : s.Steady (s.addVariant callable nativeName g variant) := by
  refine (steady_planArguments callable variant).bind fun planned => ?_
  exact .check _

theorem outcome_addVariant_eq_ok_iff {callable : Callable} {nativeName : String}
    {g h : OverloadGroup} {variant : List Argument} :
    (s.addVariant callable nativeName g variant).outcome = .ok h ↔
      ∃ planned, List.Forall₂ s.Plans variant planned ∧ variant.length ∉ g.arities ∧
        h = { g with overloads := Overload.insert ⟨planned, nativeName⟩ g.overloads } := by
  refine ((steady_planArguments callable variant).outcome_bind_eq_ok_iff fun _ => .check _).trans ?_
  simp only [outcome_planArguments_eq_ok_iff, Planning.outcome_check, OverloadGroup.add_eq_ok_iff]
  refine exists_congr fun planned => and_congr_right fun all => ?_
  rw [Overload.arity, all.length_eq]

theorem exists_addVariant_iff {callable : Callable} {nativeName : String} {g : OverloadGroup}
    {variant : List Argument} :
    (∃ h, (s.addVariant callable nativeName g variant).outcome = .ok h) ↔
      (∀ a ∈ variant, s.LegalArgument a.type a.flags) ∧ variant.length ∉ g.arities := by
  simp only [outcome_addVariant_eq_ok_iff, ← exists_planned_iff]
  constructor
  · rintro ⟨h, planned, all, fresh, -⟩
    exact ⟨⟨planned, all⟩, fresh⟩
  · rintro ⟨⟨planned, all⟩, fresh⟩
    exact ⟨_, planned, all, fresh, rfl⟩

theorem addVariant_gained {callable : Callable} {nativeName : String} {g h : OverloadGroup}
    {variant : List Argument}
    (added : (s.addVariant callable nativeName g variant).outcome = .ok h) :
    g.Gained h (· = variant.length) := by
  obtain ⟨planned, all, -, rfl⟩ := outcome_addVariant_eq_ok_iff.1 added
  refine ⟨⟨rfl, rfl, rfl, rfl⟩, fun n => ?_⟩
  rw [OverloadGroup.mem_arities_insert, Overload.arity, all.length_eq, or_comm]

theorem steady_addVariants (callable : Callable) (nativeName : String) (g : OverloadGroup)
    (arguments : List Argument) : s.Steady (s.addVariants callable nativeName g arguments) :=
  .foldlM (steady_addVariant callable nativeName) _ g

/-- What adding some variants does to a group. -/
def AddedVariants (g : OverloadGroup) (done : List (List Argument)) (h : OverloadGroup) : Prop :=
  g.Gained h (· ∈ done.map List.length)

theorem AddedVariants.nil (g : OverloadGroup) : AddedVariants g [] g := ⟨.refl g, by simp⟩

theorem AddedVariants.add {callable : Callable} {nativeName : String} {g b b' : OverloadGroup}
    {done : List (List Argument)} {variant : List Argument} (before : AddedVariants g done b)
    (added : (s.addVariant callable nativeName b variant).outcome = .ok b') :
    AddedVariants g (done ++ [variant]) b' := by
  simpa [AddedVariants] using before.trans (addVariant_gained added)

theorem addVariants_gained {callable : Callable} {nativeName : String} {g h : OverloadGroup}
    {arguments : List Argument}
    (added : (s.addVariants callable nativeName g arguments).outcome = .ok h) :
    g.Gained h (· ∈ arityRange arguments) := by
  rw [addVariants, Steady.outcome_foldlM (steady_addVariant callable nativeName)] at added
  have gained := foldlM_invariant (AddedVariants g) (fun _ _ _ _ _ _ => AddedVariants.add)
    (.nil g) added
  simpa only [AddedVariants, mem_map_length_expandOptional] using gained

/-- The overloads of an argument list can be added when its types are legal and none of its arities
is taken. -/
theorem exists_addVariants_iff {callable : Callable} {nativeName : String} {g : OverloadGroup}
    {arguments : List Argument} :
    (∃ h, (s.addVariants callable nativeName g arguments).outcome = .ok h) ↔
      (∀ a ∈ arguments, s.LegalArgument a.type a.flags) ∧
        ∀ n ∈ arityRange arguments, n ∉ g.arities := by
  have step : ∀ done b variant, AddedVariants g done b →
      ((∃ b', (s.addVariant callable nativeName b variant).outcome = .ok b') ↔
        ((∀ a ∈ variant, s.LegalArgument a.type a.flags) ∧ variant.length ∉ g.arities) ∧
          ∀ other ∈ done, List.length other ≠ variant.length) := by
    intro done b variant before
    rw [exists_addVariant_iff, before.arities, not_or, and_assoc]
    simp
  rw [addVariants, Steady.outcome_foldlM (steady_addVariant callable nativeName),
    foldlM_ok_iff_pairwise (AddedVariants g) (fun done a _ b _ => step done b a)
      (fun _ _ _ _ _ _ => AddedVariants.add) (.nil g)]
  have distinct := nodup_map_length_expandOptional arguments
  rw [List.Nodup, List.pairwise_map] at distinct
  simp only [distinct, and_true, forall_and, forall_expandOptional_iff,
    ← mem_map_length_expandOptional, List.forall_mem_map]

/-! ## Constructors -/

/-- What the constructors done so far have put into their group. -/
def AddedLists (g : OverloadGroup) (done : List (List Argument)) (h : OverloadGroup) : Prop :=
  g.Gained h fun n => ∃ arguments ∈ done, n ∈ arityRange arguments

theorem AddedLists.add {callable : Callable} {nativeName : String} {g b b' : OverloadGroup}
    {done : List (List Argument)} {arguments : List Argument} (before : AddedLists g done b)
    (added : (s.addVariants callable nativeName b arguments).outcome = .ok b') :
    AddedLists g (done ++ [arguments]) b' := by
  simpa [AddedLists, or_and_right, exists_or] using before.trans (addVariants_gained added)

theorem steady_planConstructors (i : Interface) : s.Steady (s.planConstructors i) := by
  refine (Steady.foldlM (steady_addVariants _ _) i.constructors _).bind fun g => ?_
  refine (Steady.note _).bind fun _ => ?_
  exact .pure g

theorem outcome_planConstructors_eq_ok_iff {i : Interface} {g : OverloadGroup} :
    (s.planConstructors i).outcome = .ok g ↔
      i.constructors.foldlM
        (fun g arguments => (s.addVariants (.constructor i.name) i.nativeName g arguments).outcome)
        { name := i.name, returnType := none, returns := none, isStatic := true } = .ok g := by
  refine ((Steady.foldlM (steady_addVariants _ _) i.constructors _).outcome_bind_eq_ok_iff
    fun g => (Steady.note _).bind fun _ => .pure g).trans ?_
  rw [Steady.outcome_foldlM (steady_addVariants _ _)]
  constructor
  · rintro ⟨found, gathered, same⟩
    cases same
    exact gathered
  · intro gathered
    exact ⟨g, gathered, rfl⟩

/-- Constructors can be planned when their types are legal and no two share an arity. -/
theorem exists_planConstructors_iff {i : Interface} :
    (∃ g, (s.planConstructors i).outcome = .ok g) ↔
      (∀ arguments ∈ i.constructors, ∀ a ∈ arguments, s.LegalArgument a.type a.flags) ∧
        i.constructors.Pairwise fun a b => Disjoint (arityRange a) (arityRange b) := by
  let empty : OverloadGroup :=
    { name := i.name, returnType := none, returns := none, isStatic := true }
  have step : ∀ done b arguments, AddedLists empty done b →
      ((∃ b', (s.addVariants (.constructor i.name) i.nativeName b arguments).outcome = .ok b') ↔
        (∀ a ∈ arguments, s.LegalArgument a.type a.flags) ∧
          ∀ other ∈ done, Disjoint (arityRange other) (arityRange arguments)) := by
    intro done b arguments before
    rw [exists_addVariants_iff]
    refine and_congr_right fun _ => ?_
    simp only [before.arities, Finset.disjoint_left]
    constructor
    · intro fresh other member n inOther here
      exact fresh n here (.inr ⟨other, member, inOther⟩)
    · rintro apart n here (old | ⟨other, member, inOther⟩)
      · cases old
      · exact apart other member inOther here
  have start : AddedLists empty [] empty := ⟨.refl empty, by simp⟩
  simp only [outcome_planConstructors_eq_ok_iff]
  exact foldlM_ok_iff_pairwise (AddedLists empty) (fun done a _ b _ => step done b a)
    (fun _ _ _ _ _ _ => AddedLists.add) start

theorem addVariant_nodup {callable : Callable} {nativeName : String} {g h : OverloadGroup}
    {variant : List Argument} (added : (s.addVariant callable nativeName g variant).outcome = .ok h)
    (distinct : g.arities.Nodup) : h.arities.Nodup := by
  obtain ⟨planned, all, fresh, rfl⟩ := outcome_addVariant_eq_ok_iff.1 added
  have perm := (Overload.insert_perm ⟨planned, nativeName⟩ g.overloads).map Overload.arity
  rw [OverloadGroup.arities, perm.nodup_iff, List.map_cons, List.nodup_cons]
  refine ⟨?_, distinct⟩
  rw [Overload.arity, ← all.length_eq]
  exact fresh

theorem addVariants_nodup {callable : Callable} {nativeName : String} {g h : OverloadGroup}
    {arguments : List Argument}
    (added : (s.addVariants callable nativeName g arguments).outcome = .ok h)
    (distinct : g.arities.Nodup) : h.arities.Nodup := by
  rw [addVariants, Steady.outcome_foldlM (steady_addVariant callable nativeName)] at added
  exact foldlM_invariant (fun _ h => h.arities.Nodup)
    (fun _ _ _ _ _ _ before added => addVariant_nodup added before) distinct added

/-- Constructors are planned once for each arity that a list of arguments allows. -/
theorem arities_planConstructors {i : Interface} {g : OverloadGroup}
    (planned : (s.planConstructors i).outcome = .ok g) :
    g.arities.Nodup ∧
      ∀ n, n ∈ g.arities ↔ ∃ arguments ∈ i.constructors, n ∈ arityRange arguments := by
  have folded := outcome_planConstructors_eq_ok_iff.1 planned
  constructor
  · exact foldlM_invariant (fun _ g => g.arities.Nodup)
      (fun _ _ _ _ _ _ before added => addVariants_nodup added before) List.nodup_nil folded
  · intro n
    have gained := foldlM_invariant (AddedLists _) (fun _ _ _ _ _ _ => AddedLists.add)
      ⟨.refl _, by simp⟩ folded
    rw [gained.arities]
    simp [OverloadGroup.arities]

/-! ## Operations -/

theorem find?_putGroup (g : OverloadGroup) (groups : List OverloadGroup) (name : String) :
    (putGroup g groups).find? (·.name = name) =
      if g.name = name then some g else groups.find? (·.name = name) := by
  induction groups with
  | nil => by_cases h : g.name = name <;> simp [putGroup, h]
  | cons first rest ih =>
    by_cases same : first.name = g.name
    · by_cases h : g.name = name <;> simp [putGroup, same, h]
    · by_cases h : g.name = name
      · have other : first.name ≠ name := fun named => same (named.trans h.symm)
        rw [putGroup, if_neg same, List.find?_cons_of_neg (by simpa using other), ih, if_pos h,
          if_pos h]
      · by_cases named : first.name = name
        · rw [putGroup, if_neg same, List.find?_cons_of_pos (by simpa using named), if_neg h,
            List.find?_cons_of_pos (by simpa using named)]
        · rw [putGroup, if_neg same, List.find?_cons_of_neg (by simpa using named), ih, if_neg h,
            if_neg h, List.find?_cons_of_neg (by simpa using named)]

/-- The group that an operation joins: the one of its name, or a new one. -/
def groupFor (groups : List OverloadGroup) (op : Operation) (returnType : Option Descriptor)
    (returns : Option Marshaling) : OverloadGroup :=
  (groups.find? (·.name = op.name)).getD
    { name := op.name, returnType, returns, isStatic := op.isStatic }

theorem groupFor_name (groups : List OverloadGroup) (op : Operation)
    (returnType : Option Descriptor) (returns : Option Marshaling) :
    (groupFor groups op returnType returns).name = op.name := by
  simp only [groupFor]
  cases found : groups.find? (·.name = op.name) with
  | none => rfl
  | some g => simpa using List.find?_some found

/-- The type of a result and its marshaling. -/
theorem steady_returned (place : Place) (e : TypeExpr) (flags : Flags) :
    s.Steady (Planning.within place do
      let d ← s.resolve e flags
      return (d, ← s.resultOf d)) :=
  .within place ((steady_resolve e flags).bind fun d =>
    (steady_resultOf d).bind fun r => .pure (d, r))

theorem outcome_returned_eq_ok_iff {place : Place} {e : TypeExpr} {flags : Flags}
    {d : Option Descriptor} {r : Option Marshaling} :
    (Planning.within place do
      let d ← s.resolve e flags
      return (d, ← s.resultOf d) : Planning _).outcome = .ok (d, r) ↔
      s.scope.meaning e flags = .ok d ∧ s.result d = .ok r := by
  rw [Planning.outcome_within, except_mapError_eq_ok_iff]
  refine ((steady_resolve e flags).outcome_bind_eq_ok_iff fun d =>
    (steady_resultOf d).bind fun r => .pure (d, r)).trans ?_
  simp only [outcome_resolve, except_mapError_eq_ok_iff]
  constructor
  · rintro ⟨d', resolved, returned⟩
    obtain ⟨r', found, same⟩ :=
      ((steady_resultOf d').outcome_bind_eq_ok_iff fun r => .pure (d', r)).1 returned
    cases same
    exact ⟨resolved, (outcome_resultOf d).symm.trans found⟩
  · rintro ⟨resolved, found⟩
    exact ⟨d, resolved, ((steady_resultOf d).outcome_bind_eq_ok_iff fun r => .pure (d, r)).2
      ⟨r, (outcome_resultOf d).trans found, rfl⟩⟩

theorem steady_planOperation (i : Interface) (groups : List OverloadGroup) (op : Operation) :
    s.Steady (s.planOperation i groups op) := by
  rw [planOperation]
  apply Steady.guard
  refine (steady_returned _ _ _).bind fun (returnType, returns) => ?_
  apply Steady.guard
  apply Steady.guard
  exact (steady_addVariants _ _ _ _).bind fun g => .pure _

theorem outcome_planOperation_eq_ok_iff {i : Interface} {groups groups' : List OverloadGroup}
    {op : Operation} :
    (s.planOperation i groups op).outcome = .ok groups' ↔
      (∀ a ∈ i.attributes, a.name ≠ op.name) ∧
      ∃ d r, (s.scope.meaning op.returnType op.flags = .ok d ∧ s.result d = .ok r) ∧
        (groupFor groups op d r).isStatic = op.isStatic ∧
        (groupFor groups op d r).returnType = d ∧
        ∃ g, (s.addVariants (.operation i.name op.name) op.nativeName (groupFor groups op d r)
          op.arguments).outcome = .ok g ∧ groups' = putGroup g groups := by
  rw [planOperation]
  refine Planning.outcome_guard_eq_ok_iff.trans (and_congr (by simp) ?_)
  refine ((steady_returned _ _ _).outcome_bind_eq_ok_iff fun (d, r) => ?_).trans ?_
  · apply Steady.guard
    apply Steady.guard
    exact (steady_addVariants _ _ _ _).bind fun g => .pure _
  · rw [Prod.exists]
    refine exists_congr fun d => exists_congr fun r => and_congr outcome_returned_eq_ok_iff ?_
    refine Planning.outcome_guard_eq_ok_iff.trans (and_congr not_not ?_)
    refine Planning.outcome_guard_eq_ok_iff.trans (and_congr not_not ?_)
    refine ((steady_addVariants _ _ _ _).outcome_bind_eq_ok_iff fun g => .pure _).trans ?_
    refine exists_congr fun g => and_congr_right fun _ => ?_
    rw [Planning.outcome_pure, Except.ok.injEq, eq_comm]

/-- Operations of one name have the same staticness and the same return type, and share no arity. -/
def OperationsFit (s : Session) (a b : Operation) : Prop :=
  a.name = b.name → a.isStatic = b.isStatic ∧
    s.scope.meaning a.returnType a.flags = s.scope.meaning b.returnType b.flags ∧
    Disjoint (arityRange a.arguments) (arityRange b.arguments)

/-- An operation that can be planned by itself. -/
structure LegalOperation (s : Session) (i : Interface) (op : Operation) : Prop where
  noAttribute : ∀ a ∈ i.attributes, a.name ≠ op.name
  result : s.LegalResult op.returnType op.flags
  arguments : ∀ a ∈ op.arguments, s.LegalArgument a.type a.flags

/-- A group is what its operations say. -/
structure GroupOf (s : Session) (ops : List Operation) (name : String) (g : OverloadGroup) :
    Prop where
  inhabited : ∃ op ∈ ops, op.name = name
  agree : ∀ op ∈ ops, op.name = name →
    op.isStatic = g.isStatic ∧ s.scope.meaning op.returnType op.flags = .ok g.returnType
  arities : ∀ n, n ∈ g.arities ↔ ∃ op ∈ ops, op.name = name ∧ n ∈ arityRange op.arguments

/-- What the operations done so far have put into groups. -/
def Gathered (s : Session) (done : List Operation) (groups : List OverloadGroup) : Prop :=
  ∀ name, match groups.find? (·.name = name) with
    | none => ∀ op ∈ done, op.name ≠ name
    | some g => s.GroupOf done name g

/-- The group that an operation joins is what the operations of its name say. -/
theorem Gathered.groupFor {done : List Operation} {groups : List OverloadGroup}
    (before : s.Gathered done groups) (op : Operation) (d : Option Descriptor)
    (r : Option Marshaling) :
    (∀ other ∈ done, other.name = op.name →
      other.isStatic = (groupFor groups op d r).isStatic ∧
        s.scope.meaning other.returnType other.flags = .ok (groupFor groups op d r).returnType) ∧
      ∀ n, n ∈ (groupFor groups op d r).arities ↔
        ∃ other ∈ done, other.name = op.name ∧ n ∈ arityRange other.arguments := by
  have here := before op.name
  cases found : groups.find? (·.name = op.name) with
  | none =>
    simp only [found] at here
    have joined : Session.groupFor groups op d r =
        { name := op.name, returnType := d, returns := r, isStatic := op.isStatic } := by
      simp [Session.groupFor, found]
    rw [joined]
    constructor
    · intro other member named
      exact absurd named (here other member)
    · intro n
      simp only [OverloadGroup.arities, List.map_nil, List.not_mem_nil, false_iff,
        not_exists, not_and]
      intro other member named
      exact absurd named (here other member)
  | some g =>
    simp only [found] at here
    have joined : Session.groupFor groups op d r = g := by simp [Session.groupFor, found]
    rw [joined]
    exact ⟨here.agree, here.arities⟩

theorem Gathered.step {i : Interface} {done : List Operation} {groups : List OverloadGroup}
    {op : Operation} (before : s.Gathered done groups) :
    (∃ groups', (s.planOperation i groups op).outcome = .ok groups') ↔
      s.LegalOperation i op ∧ ∀ other ∈ done, s.OperationsFit other op := by
  simp only [outcome_planOperation_eq_ok_iff]
  constructor
  · rintro ⟨_, noAttribute, d, r, ⟨resolved, returned⟩, static, type, g, added, -⟩
    obtain ⟨legal, fresh⟩ := exists_addVariants_iff.1 ⟨g, added⟩
    obtain ⟨agree, arities⟩ := before.groupFor op d r
    refine ⟨⟨noAttribute, exists_result_iff.1 ⟨d, r, resolved, returned⟩, legal⟩, ?_⟩
    intro other member named
    obtain ⟨sameStatic, sameType⟩ := agree other member named
    refine ⟨sameStatic.trans static, by rw [sameType, type, resolved], ?_⟩
    rw [Finset.disjoint_left]
    intro n inOther here
    exact fresh n here ((arities n).2 ⟨other, member, named, inOther⟩)
  · rintro ⟨legal, fits⟩
    obtain ⟨d, r, resolved, returned⟩ := exists_result_iff.2 legal.result
    obtain ⟨agree, arities⟩ := before.groupFor op d r
    have joins : (Session.groupFor groups op d r).isStatic = op.isStatic ∧
        (Session.groupFor groups op d r).returnType = d := by
      have here := before op.name
      cases found : groups.find? (·.name = op.name) with
      | none => simp [Session.groupFor, found]
      | some g =>
        -- the operations that made the group agree with it and with this one
        simp only [found] at here
        obtain ⟨other, member, named⟩ := here.inhabited
        obtain ⟨sameStatic, sameType⟩ := agree other member named
        obtain ⟨fitStatic, fitType, -⟩ := fits other member named
        rw [sameType, resolved] at fitType
        exact ⟨sameStatic.symm.trans fitStatic, Except.ok.inj fitType⟩
    have fresh : ∀ n ∈ arityRange op.arguments, n ∉ (Session.groupFor groups op d r).arities := by
      intro n here taken
      obtain ⟨other, member, named, inOther⟩ := (arities n).1 taken
      exact Finset.disjoint_left.1 (fits other member named).2.2 inOther here
    obtain ⟨g, added⟩ := exists_addVariants_iff.2 ⟨legal.arguments, fresh⟩
    exact ⟨_, legal.noAttribute, d, r, ⟨resolved, returned⟩, joins.1, joins.2, g, added, rfl⟩

theorem Gathered.add {i : Interface} {done : List Operation} {groups groups' : List OverloadGroup}
    {op : Operation} (before : s.Gathered done groups)
    (planned : (s.planOperation i groups op).outcome = .ok groups') :
    s.Gathered (done ++ [op]) groups' := by
  obtain ⟨-, d, r, ⟨resolved, -⟩, static, type, g, added, rfl⟩ :=
    outcome_planOperation_eq_ok_iff.1 planned
  obtain ⟨head, gained⟩ := addVariants_gained added
  obtain ⟨agree, arities⟩ := before.groupFor op d r
  intro name
  rw [find?_putGroup, head.name, groupFor_name]
  by_cases named : op.name = name
  · subst named
    rw [if_pos rfl]
    refine ⟨⟨op, by simp, rfl⟩, ?_, ?_⟩
    · intro other member named
      rw [head.isStatic, head.returnType]
      rcases List.mem_append.1 member with old | new
      · exact agree other old named
      · rw [List.mem_singleton.1 new]
        exact ⟨static.symm, by rw [type, resolved]⟩
    · intro n
      rw [gained, arities]
      simp [or_and_right, exists_or]
  · rw [if_neg named]
    have here := before name
    cases found : groups.find? (·.name = name) with
    | none =>
      simp only [found] at here
      intro other member
      rcases List.mem_append.1 member with old | new
      · exact here other old
      · rw [List.mem_singleton.1 new]
        exact named
    | some g =>
      simp only [found] at here
      obtain ⟨other, member, namedOther⟩ := here.inhabited
      refine ⟨⟨other, List.mem_append_left _ member, namedOther⟩, ?_, ?_⟩
      · intro other member namedOther
        rcases List.mem_append.1 member with old | new
        · exact here.agree other old namedOther
        · rw [List.mem_singleton.1 new] at namedOther
          exact absurd namedOther named
      · intro n
        rw [here.arities]
        simp [or_and_right, exists_or, named]

theorem steady_planOperations (i : Interface) : s.Steady (s.planOperations i) := by
  refine (Steady.foldlM (steady_planOperation i) i.operations []).bind fun groups => ?_
  refine (Steady.forM (fun g => .note _) groups).bind fun _ => ?_
  exact .pure groups

theorem outcome_planOperations_eq_ok_iff {i : Interface} {groups : List OverloadGroup} :
    (s.planOperations i).outcome = .ok groups ↔
      i.operations.foldlM (fun groups op => (s.planOperation i groups op).outcome) [] =
        .ok groups := by
  refine ((Steady.foldlM (steady_planOperation i) i.operations []).outcome_bind_eq_ok_iff
    fun groups => (Steady.forM (fun g => .note _) groups).bind fun _ => .pure groups).trans ?_
  rw [Steady.outcome_foldlM (steady_planOperation i)]
  have reported : ∀ found : List OverloadGroup, (do
      found.forM fun g => Planning.note (.operations i.name g.name (g.overloads.map Overload.arity))
      return found : Planning (List OverloadGroup)).outcome = .ok found := by
    intro found
    rw [Steady.outcome_bind (s := s) (.forM (fun g => .note _) found) fun _ => .pure found,
      Steady.outcome_forM (s := s) (fun g => .note _) (fun g => rfl)]
    rfl
  constructor
  · rintro ⟨found, gathered, same⟩
    rw [reported] at same
    cases same
    exact gathered
  · intro gathered
    exact ⟨groups, gathered, reported groups⟩

theorem nodup_putGroup {g : OverloadGroup} {groups : List OverloadGroup}
    (distinct : (groups.map (·.name)).Nodup) : ((putGroup g groups).map (·.name)).Nodup := by
  induction groups with
  | nil => exact List.nodup_singleton _
  | cons first rest ih =>
    obtain ⟨fresh, distinct⟩ := List.nodup_cons.1 distinct
    rw [putGroup]
    split
    · rename_i same
      rw [List.map_cons, ← same]
      exact List.nodup_cons.2 ⟨fresh, distinct⟩
    · rename_i other
      refine List.nodup_cons.2 ⟨?_, ih distinct⟩
      intro member
      obtain ⟨h, there, named⟩ := List.mem_map.1 member
      have found := find?_putGroup g rest first.name
      rw [if_neg (Ne.symm other), (find?_name_iff (ih distinct)).2 ⟨there, named⟩] at found
      exact fresh (List.mem_map.2 ⟨h, List.mem_of_find?_eq_some found.symm, named⟩)

theorem mem_putGroup {g h : OverloadGroup} {groups : List OverloadGroup}
    (member : h ∈ putGroup g groups) : h = g ∨ h ∈ groups := by
  induction groups with
  | nil => exact .inl (List.mem_singleton.1 member)
  | cons first rest ih =>
    rw [putGroup] at member
    split at member
    · rcases List.mem_cons.1 member with new | old
      · exact .inl new
      · exact .inr (List.mem_cons_of_mem _ old)
    · rcases List.mem_cons.1 member with same | later
      · exact .inr (same ▸ List.mem_cons_self)
      · exact (ih later).imp_right (List.mem_cons_of_mem _)

/-- Groups with different names, each without two overloads of one arity. -/
structure GroupsDistinct (groups : List OverloadGroup) : Prop where
  names : (groups.map (·.name)).Nodup
  arities : ∀ g ∈ groups, g.arities.Nodup

theorem GroupsDistinct.add {i : Interface} {groups groups' : List OverloadGroup} {op : Operation}
    (before : GroupsDistinct groups)
    (planned : (s.planOperation i groups op).outcome = .ok groups') : GroupsDistinct groups' := by
  obtain ⟨-, d, r, -, -, -, g, added, rfl⟩ := outcome_planOperation_eq_ok_iff.1 planned
  refine ⟨nodup_putGroup before.names, ?_⟩
  intro h member
  rcases mem_putGroup member with rfl | old
  · refine addVariants_nodup added ?_
    rw [groupFor]
    cases found : groups.find? (·.name = op.name) with
    | none => exact List.nodup_nil
    | some g => exact before.arities g (List.mem_of_find?_eq_some found)
  · exact before.arities h old

/-- Operations are planned once for each name and each arity that a list of arguments allows. -/
theorem groups_planOperations {i : Interface} {groups : List OverloadGroup}
    (planned : (s.planOperations i).outcome = .ok groups) :
    GroupsDistinct groups ∧ ∀ name n, (∃ g ∈ groups, g.name = name ∧ n ∈ g.arities) ↔
      ∃ op ∈ i.operations, op.name = name ∧ n ∈ arityRange op.arguments := by
  have folded := outcome_planOperations_eq_ok_iff.1 planned
  have none : GroupsDistinct [] := ⟨List.nodup_nil, by simp⟩
  have distinct : GroupsDistinct groups := foldlM_invariant (fun _ groups => GroupsDistinct groups)
    (fun _ _ _ _ _ _ before planned => before.add planned) none folded
  have gathered : s.Gathered i.operations groups := by
    refine foldlM_invariant s.Gathered (fun _ _ _ _ _ _ before => before.add) ?_ folded
    intro name op member
    cases member
  refine ⟨distinct, fun name n => ?_⟩
  have here := gathered name
  cases found : groups.find? (·.name = name) with
  | none =>
    simp only [found] at here
    constructor
    · rintro ⟨g, member, rfl, -⟩
      exact absurd (List.mem_map_of_mem member) (find?_name_eq_none_iff.1 found)
    · rintro ⟨op, member, named, -⟩
      exact absurd named (here op member)
  | some g =>
    simp only [found] at here
    rw [← here.arities]
    constructor
    · rintro ⟨g', member, named, arity⟩
      have same := (find?_name_iff distinct.names).2 ⟨member, named⟩
      rw [found] at same
      cases same
      exact arity
    · intro arity
      obtain ⟨member, named⟩ := (find?_name_iff distinct.names).1 found
      exact ⟨g, member, named, arity⟩

/-- Operations can be planned when each is legal and those of one name fit together. -/
theorem exists_planOperations_iff {i : Interface} :
    (∃ groups, (s.planOperations i).outcome = .ok groups) ↔
      (∀ op ∈ i.operations, s.LegalOperation i op) ∧ i.operations.Pairwise s.OperationsFit := by
  have start : s.Gathered [] [] := by
    intro name op member
    cases member
  have step : ∀ done groups op, s.Gathered done groups →
      ((∃ groups', (s.planOperation i groups op).outcome = .ok groups') ↔
        s.LegalOperation i op ∧ ∀ other ∈ done, s.OperationsFit other op) :=
    fun _ _ _ before => before.step
  simp only [outcome_planOperations_eq_ok_iff]
  exact foldlM_ok_iff_pairwise s.Gathered (fun done a _ b _ => step done b a)
    (fun _ _ _ _ _ _ before => before.add) start

end Session

end NativeBridge
