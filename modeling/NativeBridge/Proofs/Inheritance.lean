import NativeBridge.Proofs.Checks
import NativeBridge.Proofs.Meaning
import NativeBridge.Proofs.Names

/-!
# Inheritance

Interfaces extend interfaces and value types extend value types. A session can put its interfaces
into an order, and find the ancestors of its value types, when every parent is declared and no
declaration is an ancestor of itself. What the walks up have visited are descendants of where they
are, so that a parent visited before is an ancestor of itself.
-/
namespace NativeBridge.Session

open Relation (TransGen ReflTransGen)

variable {s : Session}

/-! ## Value types -/

/-- One value type is the parent of another. -/
def Derives (s : Session) (v p : ValueType) : Prop :=
  p ∈ s.declarations.valueTypes ∧ v.parent = some p.name

/-- A value type, its parent, and so on up to one without a parent. -/
inductive Ancestry (s : Session) : ValueType → List ValueType → Prop
  | root {v : ValueType} (top : v.parent = none) : Ancestry s v [v]
  | derived {v p : ValueType} {chain : List ValueType} (parent : s.Derives v p)
      (above : Ancestry s p chain) : Ancestry s v (v :: chain)

/-- A value type without a parent or with a declared one. -/
def HasParent (s : Session) (v : ValueType) : Prop :=
  ∀ name, v.parent = some name → ∃ p ∈ s.declarations.valueTypes, p.name = name

theorem Derives.unique {v p q : ValueType} (hp : s.Derives v p) (hq : s.Derives v q) : p = q := by
  have named : p.name = q.name := Option.some.inj (hp.2.symm.trans hq.2)
  exact List.inj_on_of_nodup_map s.valueType_names_nodup hp.1 hq.1 named

theorem Derives.ne_root {v p : ValueType} (parent : s.Derives v p) : v.parent ≠ none := by
  simp [parent.2]

theorem Ancestry.unique {v : ValueType} {chain other : List ValueType} (h : s.Ancestry v chain)
    (h' : s.Ancestry v other) : chain = other := by
  induction h generalizing other with
  | root top =>
    cases h' with
    | root => rfl
    | derived parent _ => exact absurd top parent.ne_root
  | derived parent _ ih =>
    cases h' with
    | root top => exact absurd top parent.ne_root
    | derived parent' above' =>
      cases parent.unique parent'
      rw [ih above']

/-- Walks up from a value type with ancestors end. -/
theorem Ancestry.acc {v : ValueType} {chain : List ValueType} (h : s.Ancestry v chain) :
    Acc (fun p v => s.Derives v p) v := by
  induction h with
  | root top => exact ⟨_, fun p parent => absurd top parent.ne_root⟩
  | derived parent _ ih =>
    refine ⟨_, fun q parent' => ?_⟩
    cases parent.unique parent'
    exact ih

theorem Ancestry.declared {v : ValueType} {chain : List ValueType} (h : s.Ancestry v chain)
    (declared : v ∈ s.declarations.valueTypes) : ∀ u ∈ chain, u ∈ s.declarations.valueTypes := by
  induction h with
  | root => simpa using declared
  | derived parent _ ih => exact List.forall_mem_cons.2 ⟨declared, ih parent.1⟩

theorem derives_iff {v p : ValueType} :
    s.Derives v p ↔ ∃ name, v.parent = some name ∧ s.valueType? name = some p := by
  simp only [Derives, valueType?_eq_some_iff]
  constructor
  · rintro ⟨declared, parent⟩
    exact ⟨p.name, parent, declared, rfl⟩
  · rintro ⟨name, parent, declared, named⟩
    exact ⟨declared, named ▸ parent⟩

theorem ancestry_of_lineageFrom {visited : List String} {v : ValueType} {chain : List ValueType}
    (h : s.lineageFrom visited v = .ok chain) : s.Ancestry v chain := by
  fun_induction lineageFrom s visited v generalizing chain with
  | case1 visited v top =>
    cases h
    exact .root top
  | case2 => cases h
  | case3 => cases h
  | case4 visited v name parent p found fresh ih =>
    obtain ⟨above, walked, same⟩ := except_bind_eq_ok_iff.1 h
    cases same
    exact .derived (derives_iff.2 ⟨name, parent, found⟩) (ih walked)

/-- Where parents are declared and none is an ancestor of itself, a walk up finds the top. -/
theorem exists_lineageFrom (parents : ∀ v ∈ s.declarations.valueTypes, s.HasParent v)
    (acyclic : ∀ v, ¬ TransGen s.Derives v v) (visited : List String) (v : ValueType)
    (declared : v ∈ s.declarations.valueTypes)
    (trail : ∀ n ∈ visited, ∃ u ∈ s.declarations.valueTypes, u.name = n ∧
      ReflTransGen s.Derives u v) :
    ∃ chain, s.lineageFrom visited v = .ok chain := by
  fun_induction lineageFrom s visited v with
  | case1 => exact ⟨_, rfl⟩
  | case2 visited v name parent missing =>
    obtain ⟨p, member, named⟩ := parents v declared name parent
    rw [valueType?_eq_some_iff.2 ⟨member, named⟩] at missing
    cases missing
  | case3 visited v name parent p found again =>
    have step : s.Derives v p := derives_iff.2 ⟨name, parent, found⟩
    obtain ⟨u, member, named, below⟩ := trail name again
    have same : u = p := by
      rw [← Option.some_inj, ← found]
      exact (valueType?_eq_some_iff.2 ⟨member, named⟩).symm
    exact absurd (TransGen.tail' (same ▸ below) step) (acyclic p)
  | case4 visited v name parent p found fresh ih =>
    have step : s.Derives v p := derives_iff.2 ⟨name, parent, found⟩
    obtain ⟨chain, walked⟩ := ih step.1 (by
      intro n member
      rcases List.mem_cons.1 member with rfl | old
      · exact ⟨p, step.1, (valueType?_eq_some_iff.1 found).2, .refl⟩
      · obtain ⟨u, member, named, below⟩ := trail n old
        exact ⟨u, member, named, below.tail step⟩)
    exact ⟨v :: chain, by rw [walked]; rfl⟩

theorem exists_lineage {v : ValueType} (parents : ∀ v ∈ s.declarations.valueTypes, s.HasParent v)
    (acyclic : ∀ v, ¬ TransGen s.Derives v v) (declared : v ∈ s.declarations.valueTypes) :
    ∃ chain, s.lineage v = .ok chain := by
  apply exists_lineageFrom parents acyclic [v.name] v declared
  intro n member
  exact ⟨v, declared, (List.mem_singleton.1 member).symm, .refl⟩

theorem ancestry_of_lineage {v : ValueType} {chain : List ValueType}
    (h : s.lineage v = .ok chain) : s.Ancestry v chain := ancestry_of_lineageFrom h

/-- Every value type has a line of ancestors when every parent is declared and none is an ancestor
of itself. -/
theorem forall_exists_lineage_iff :
    (∀ v ∈ s.declarations.valueTypes, ∃ chain, s.lineage v = .ok chain) ↔
      (∀ v ∈ s.declarations.valueTypes, s.HasParent v) ∧ ∀ v, ¬ TransGen s.Derives v v := by
  constructor
  · intro lines
    constructor
    · intro v declared name parent
      obtain ⟨chain, walked⟩ := lines v declared
      cases ancestry_of_lineage walked with
      | root top => rw [top] at parent; cases parent
      | @derived _ p _ step _ => exact ⟨p, step.1, Option.some.inj (step.2.symm.trans parent)⟩
    · intro v cycle
      obtain ⟨u, -, last⟩ := TransGen.tail'_iff.1 cycle
      obtain ⟨chain, walked⟩ := lines v last.1
      exact not_cyclic_of_acc (ancestry_of_lineage walked).acc cycle
  · rintro ⟨parents, acyclic⟩ v declared
    exact exists_lineage parents acyclic declared

/-! ## Interfaces -/

/-- One interface is the parent of another. -/
def Extends (s : Session) (i p : Interface) : Prop :=
  p ∈ s.declarations.interfaces ∧ i.parent = some p.name

/-- An interface without a parent or with a declared one of its ownership. -/
def LegalParent (s : Session) (i : Interface) : Prop :=
  ∀ name, i.parent = some name →
    ∃ p ∈ s.declarations.interfaces, p.name = name ∧ p.ownership = i.ownership

theorem parentOf_eq_none_iff {i : Interface} : s.parentOf i = .ok none ↔ i.parent = none := by
  cases parent : i.parent with
  | none => simp [parentOf, parent]
  | some name =>
    simp only [parentOf, parent, reduceCtorEq, iff_false]
    split_ifs
    · simp
    · cases s.interface? name with
      | none => simp
      | some p => by_cases h : p.ownership = i.ownership <;> simp [h]

theorem parentOf_eq_some_iff {i p : Interface} :
    s.parentOf i = .ok (some p) ↔ s.Extends i p ∧ p.ownership = i.ownership := by
  simp only [Extends]
  cases parent : i.parent with
  | none => simp [parentOf, parent]
  | some name =>
    simp only [parentOf, parent, Option.some_inj]
    by_cases record : (s.valueType? name).isSome
    · -- no interface has the name of a value type
      simp only [record, if_true, reduceCtorEq, false_iff]
      rintro ⟨⟨declared, named⟩, -⟩
      obtain ⟨v, found⟩ := Option.isSome_iff_exists.1 record
      obtain ⟨member, same⟩ := valueType?_eq_some_iff.1 found
      exact not_interface_and_valueType declared member (named.symm.trans same.symm)
    · rw [@eq_comm _ name, ← interface?_eq_some_iff, if_neg record]
      cases s.interface? name with
      | none => simp
      | some q =>
        by_cases h : q.ownership = i.ownership
        · simp only [h, if_true, Except.ok.injEq, Option.some_inj]
          exact ⟨fun same => ⟨same, same ▸ h⟩, And.left⟩
        · simp only [h, if_false, reduceCtorEq, Option.some_inj, false_iff]
          rintro ⟨rfl, same⟩
          exact h same

theorem exists_parentOf_iff {i : Interface} :
    (∃ parent, s.parentOf i = .ok parent) ↔ s.LegalParent i := by
  constructor
  · rintro ⟨_ | p, found⟩ name parent
    · rw [parentOf_eq_none_iff.1 found] at parent
      cases parent
    · obtain ⟨step, owned⟩ := parentOf_eq_some_iff.1 found
      exact ⟨p, step.1, Option.some.inj (step.2.symm.trans parent), owned⟩
  · intro legal
    cases parent : i.parent with
    | none => exact ⟨none, parentOf_eq_none_iff.2 parent⟩
    | some name =>
      obtain ⟨p, declared, named, owned⟩ := legal name parent
      exact ⟨some p, parentOf_eq_some_iff.2 ⟨⟨declared, named ▸ parent⟩, owned⟩⟩

/-- The parent that is found is the one that the interface extends. -/
theorem parentOf_eq_of_extends {i q : Interface} {parent : Option Interface}
    (found : s.parentOf i = .ok parent) (step : s.Extends i q) : parent = some q := by
  cases parent with
  | none => exact absurd step.2 (by simp [parentOf_eq_none_iff.1 found])
  | some p =>
    have other := (parentOf_eq_some_iff.1 found).1
    have named : p.name = q.name := Option.some.inj (other.2.symm.trans step.2)
    rw [List.inj_on_of_nodup_map s.interface_names_nodup other.1 step.1 named]

/-- Where parents are legal, a climb fails only at an interface that is an ancestor of itself. -/
theorem cycle_of_climb (parents : ∀ i ∈ s.declarations.interfaces, s.LegalParent i)
    {placed visited : List String} {i : Interface} {failure : Failure}
    (declared : i ∈ s.declarations.interfaces)
    (trail : ∀ n ∈ visited, ∃ u ∈ s.declarations.interfaces, u.name = n ∧
      ReflTransGen s.Extends u i) (failed : s.climb placed visited i = .error failure) :
    ∃ p, TransGen s.Extends p p ∧ failure = .invalid (.interfaceCycle p.name) := by
  fun_induction climb s placed visited i with
  | case1 visited i failure' found =>
    obtain ⟨parent, legal⟩ := exists_parentOf_iff.2 (parents i declared)
    rw [legal] at found
    cases found
  | case2 => cases failed
  | case3 => cases failed
  | case4 visited i p found _ again =>
    cases failed
    have step := (parentOf_eq_some_iff.1 found).1
    obtain ⟨u, member, named, below⟩ := trail p.name again
    have same : u = p := List.inj_on_of_nodup_map s.interface_names_nodup member step.1 named
    exact ⟨p, TransGen.tail' (same ▸ below) step, rfl⟩
  | case5 visited i p found _ fresh ih =>
    have step := (parentOf_eq_some_iff.1 found).1
    have further : ∀ n ∈ p.name :: visited, ∃ u ∈ s.declarations.interfaces, u.name = n ∧
        ReflTransGen s.Extends u p := by
      intro n member
      rcases List.mem_cons.1 member with rfl | old
      · exact ⟨p, step.1, rfl, .refl⟩
      · obtain ⟨u, member, named, below⟩ := trail n old
        exact ⟨u, member, named, below.tail step⟩
    cases climbed : s.climb placed (p.name :: visited) p with
    | error failure' =>
      rw [climbed] at failed
      cases failed
      exact ih step.1 further climbed
    | ok chain =>
      rw [climbed] at failed
      cases failed

/-- Where parents are legal and none is an ancestor of itself, a climb ends. -/
theorem exists_climb (parents : ∀ i ∈ s.declarations.interfaces, s.LegalParent i)
    (acyclic : ∀ i, ¬ TransGen s.Extends i i) (placed visited : List String) (i : Interface)
    (declared : i ∈ s.declarations.interfaces)
    (trail : ∀ n ∈ visited, ∃ u ∈ s.declarations.interfaces, u.name = n ∧
      ReflTransGen s.Extends u i) :
    ∃ chain, s.climb placed visited i = .ok chain := by
  cases climbed : s.climb placed visited i with
  | ok chain => exact ⟨chain, rfl⟩
  | error failure =>
    obtain ⟨p, cycle, -⟩ := cycle_of_climb parents declared trail climbed
    exact absurd cycle (acyclic p)

theorem exists_place (parents : ∀ i ∈ s.declarations.interfaces, s.LegalParent i)
    (acyclic : ∀ i, ¬ TransGen s.Extends i i) {i : Interface}
    (declared : i ∈ s.declarations.interfaces) (ordered : List Interface) :
    ∃ next, s.place ordered i = .ok next := by
  simp only [place]
  split_ifs
  · exact ⟨ordered, rfl⟩
  · obtain ⟨chain, climbed⟩ :=
      exists_climb parents acyclic (ordered.map (·.name)) [i.name] i declared (by
        intro n member
        exact ⟨i, declared, (List.mem_singleton.1 member).symm, .refl⟩)
    exact ⟨ordered ++ chain.reverse, by rw [climbed]; rfl⟩

/-- Interfaces with every parent ahead of its children. -/
inductive ParentsFirst (s : Session) : List Interface → Prop
  | nil : ParentsFirst s []
  | add {ordered : List Interface} {i : Interface} {parent : Option Interface}
      (before : ParentsFirst s ordered) (found : s.parentOf i = .ok parent)
      (above : ∀ p, parent = some p → p ∈ ordered) : ParentsFirst s (ordered ++ [i])

/-- What passes from parents to children holds of all interfaces in order. -/
theorem ParentsFirst.of_parents {P : Interface → Prop} {ordered : List Interface}
    (h : s.ParentsFirst ordered)
    (step : ∀ i parent, s.parentOf i = .ok parent → (∀ p, parent = some p → P p) → P i) :
    ∀ i ∈ ordered, P i := by
  induction h with
  | nil =>
    intro i member
    cases member
  | @add ordered i parent _ found above ih =>
    intro j member
    rcases List.mem_append.1 member with old | new
    · exact ih j old
    · rw [List.mem_singleton.1 new]
      exact step i parent found fun p same => ih p (above p same)

/-- Walks up from interfaces in order end. -/
theorem ParentsFirst.acc {ordered : List Interface} (h : s.ParentsFirst ordered) :
    ∀ i ∈ ordered, Acc (fun p i => s.Extends i p) i := by
  refine h.of_parents fun i parent found ends => ?_
  exact ⟨_, fun p step => ends p (parentOf_eq_of_extends found step)⟩

theorem ParentsFirst.legalParent {ordered : List Interface} (h : s.ParentsFirst ordered) :
    ∀ i ∈ ordered, s.LegalParent i := by
  exact h.of_parents fun i parent found _ => exists_parentOf_iff.1 ⟨parent, found⟩

/-- What a climb finds can be placed behind what was placed. -/
theorem ParentsFirst.climb {ordered chain : List Interface} {visited : List String} {i : Interface}
    (h : s.ParentsFirst ordered) (placed : ∀ j ∈ ordered, j ∈ s.declarations.interfaces)
    (declared : i ∈ s.declarations.interfaces)
    (climbed : s.climb (ordered.map (·.name)) visited i = .ok chain) :
    s.ParentsFirst (ordered ++ chain.reverse) ∧ i ∈ chain ∧
      ∀ j ∈ chain, j ∈ s.declarations.interfaces := by
  generalize names : ordered.map (·.name) = taken at climbed
  fun_induction Session.climb s taken visited i generalizing chain with
  | case1 => cases climbed
  | case2 visited i found =>
    cases climbed
    exact ⟨h.add found (by simp), by simp, by simpa using declared⟩
  | case3 visited i p found there =>
    cases climbed
    subst names
    obtain ⟨q, member, named⟩ := List.mem_map.1 there
    have step := (parentOf_eq_some_iff.1 found).1
    have same : q = p :=
      List.inj_on_of_nodup_map s.interface_names_nodup (placed q member) step.1 named
    refine ⟨h.add found ?_, by simp, by simpa using declared⟩
    intro r above
    cases above
    exact same ▸ member
  | case4 => cases climbed
  | case5 visited i p found _ _ ih =>
    obtain ⟨above, walked, same⟩ := except_bind_eq_ok_iff.1 climbed
    cases same
    obtain ⟨before, first, all⟩ := ih (parentOf_eq_some_iff.1 found).1.1 walked
    refine ⟨?_, by simp, List.forall_mem_cons.2 ⟨declared, all⟩⟩
    rw [List.reverse_cons, ← List.append_assoc]
    refine before.add found ?_
    intro r same
    cases same
    simp [first]

/-! ## The order of interfaces -/

/-- What holds of the order while interfaces are placed. -/
structure Placed (s : Session) (done ordered : List Interface) : Prop where
  first : s.ParentsFirst ordered
  declared : ∀ i ∈ ordered, i ∈ s.declarations.interfaces
  all : ∀ i ∈ done, i ∈ ordered

theorem Placed.start : s.Placed [] [] := ⟨.nil, by simp, by simp⟩

theorem Placed.add {done ordered ordered' : List Interface} {i : Interface}
    (h : s.Placed done ordered) (declared : i ∈ s.declarations.interfaces)
    (placed : s.place ordered i = .ok ordered') : s.Placed (done ++ [i]) ordered' := by
  simp only [place] at placed
  split_ifs at placed with there
  · cases placed
    obtain ⟨j, member, named⟩ := List.mem_map.1 there
    have same :=
      List.inj_on_of_nodup_map s.interface_names_nodup (h.declared j member) declared named
    refine ⟨h.first, h.declared, ?_⟩
    simpa [or_imp, forall_and] using ⟨h.all, same ▸ member⟩
  · obtain ⟨chain, climbed, same⟩ := except_bind_eq_ok_iff.1 placed
    cases same
    obtain ⟨first, here, all⟩ := h.first.climb h.declared declared climbed
    refine ⟨first, ?_, ?_⟩
    · simpa [or_imp, forall_and] using ⟨h.declared, all⟩
    · intro j member
      rcases List.mem_append.1 member with old | new
      · exact List.mem_append_left _ (h.all j old)
      · rw [List.mem_singleton.1 new]
        simp [here]

theorem placed_of_orderInterfaces {ordered : List Interface}
    (h : s.orderInterfaces = .ok ordered) : s.Placed s.declarations.interfaces ordered := by
  refine foldlM_invariant s.Placed ?_ .start h
  intro done i rest before after split placed
  exact placed.add (by simp [split])

theorem mem_orderInterfaces {ordered : List Interface} (h : s.orderInterfaces = .ok ordered)
    {i : Interface} : i ∈ ordered ↔ i ∈ s.declarations.interfaces :=
  ⟨(placed_of_orderInterfaces h).declared i, (placed_of_orderInterfaces h).all i⟩

/-- A climb meets no name twice, and none that is placed. -/
theorem nodup_climb {placed visited : List String} {i : Interface} {chain : List Interface}
    (climbed : s.climb placed visited i = .ok chain) (here : i.name ∈ visited)
    (fresh : i.name ∉ placed) :
    (chain.map (·.name)).Nodup ∧
      ∀ n ∈ chain.map (·.name), n ∉ placed ∧ (n ∈ visited → n = i.name) := by
  have alone : ([i].map (·.name)).Nodup ∧
      ∀ n ∈ [i].map (·.name), n ∉ placed ∧ (n ∈ visited → n = i.name) := by
    simp [fresh]
  fun_induction Session.climb s placed visited i generalizing chain with
  | case1 => cases climbed
  | case2 =>
    cases climbed
    exact alone
  | case3 =>
    cases climbed
    exact alone
  | case4 => cases climbed
  | case5 visited i p found there unseen ih =>
    obtain ⟨above, walked, same⟩ := except_bind_eq_ok_iff.1 climbed
    cases same
    obtain ⟨distinct, all⟩ := ih walked List.mem_cons_self there (by simp [there])
    constructor
    · refine List.nodup_cons.2 ⟨?_, distinct⟩
      -- a name on the way comes back only as the parent, which is not on the way
      intro again
      have parent := (all i.name again).2 (List.mem_cons_of_mem _ here)
      exact unseen (parent ▸ here)
    · intro n member
      rcases List.mem_cons.1 member with rfl | later
      · exact ⟨fresh, fun _ => rfl⟩
      · refine ⟨(all n later).1, fun seen => ?_⟩
        have parent := (all n later).2 (List.mem_cons_of_mem _ seen)
        exact absurd (parent ▸ seen) unseen

/-- No interface is placed twice. -/
theorem nodup_orderInterfaces {ordered : List Interface} (h : s.orderInterfaces = .ok ordered) :
    (ordered.map (·.name)).Nodup := by
  refine foldlM_invariant (fun _ ordered => (ordered.map (·.name)).Nodup) ?_ List.nodup_nil h
  intro done i rest before after _ distinct placed
  simp only [place] at placed
  split_ifs at placed with there
  · cases placed
    exact distinct
  · obtain ⟨chain, climbed, same⟩ := except_bind_eq_ok_iff.1 placed
    cases same
    obtain ⟨chainDistinct, all⟩ := nodup_climb climbed (List.mem_singleton_self _) there
    rw [List.map_append, List.map_reverse, List.nodup_append]
    refine ⟨distinct, List.nodup_reverse.2 chainDistinct, ?_⟩
    rintro n old _ new rfl
    exact (all n (List.mem_reverse.1 new)).1 old

/-- Interfaces can be put into an order when every parent is legal and none is an ancestor of
itself. -/
theorem exists_orderInterfaces_iff :
    (∃ ordered, s.orderInterfaces = .ok ordered) ↔
      (∀ i ∈ s.declarations.interfaces, s.LegalParent i) ∧ ∀ i, ¬ TransGen s.Extends i i := by
  constructor
  · rintro ⟨ordered, h⟩
    have placed := placed_of_orderInterfaces h
    constructor
    · intro i declared
      exact placed.first.legalParent i (placed.all i declared)
    · intro i cycle
      obtain ⟨j, -, last⟩ := TransGen.tail'_iff.1 cycle
      exact not_cyclic_of_acc (placed.first.acc i (placed.all i last.1)) cycle
  · rintro ⟨parents, acyclic⟩
    have step : ∀ done i rest ordered, s.declarations.interfaces = done ++ i :: rest →
        s.Placed done ordered → ((∃ next, s.place ordered i = .ok next) ↔ s.LegalParent i) := by
      intro done i rest ordered split _
      have declared : i ∈ s.declarations.interfaces := by simp [split]
      exact iff_of_true (exists_place parents acyclic declared ordered) (parents i declared)
    refine (foldlM_ok_iff_forall s.Placed step ?_ .start).2 parents
    intro done i rest before after split placed
    exact placed.add (by simp [split])

end NativeBridge.Session
