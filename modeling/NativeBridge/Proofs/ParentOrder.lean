import NativeBridge.Proofs.Inheritance

/-!
# The order of interfaces is stable

Interfaces are ordered by climbing from each of them, in the order of declaration, to an ancestor
that is placed already, and by placing what was passed on the way. The result has the same
interfaces with every ancestor ahead of its descendants, and an order that is right already is kept.
No climb is longer than there are interfaces, so that ordering ends, also where interfaces go round
in a cycle.
-/
namespace NativeBridge.Session

open Relation (TransGen ReflTransGen)

variable {s t : Session} {i p : Interface} {ordered : List Interface}

/-! ## Ancestors -/

theorem declared_of_transGen (above : TransGen s.Extends i p) : p ∈ s.declarations.interfaces := by
  obtain ⟨_, -, last⟩ := TransGen.tail'_iff.1 above
  exact last.1

theorem Extends.ownership (step : s.Extends i p) (legal : s.LegalParent i) :
    p.ownership = i.ownership := by
  obtain ⟨parent, found⟩ := exists_parentOf_iff.2 legal
  rw [parentOf_eq_of_extends found step] at found
  exact (parentOf_eq_some_iff.1 found).2

/-- All ancestors of an interface have its ownership. -/
theorem ownership_of_transGen (parents : ∀ i ∈ s.declarations.interfaces, s.LegalParent i)
    (declared : i ∈ s.declarations.interfaces) (above : TransGen s.Extends i p) :
    p.ownership = i.ownership := by
  induction above with
  | single step => exact step.ownership (parents i declared)
  | tail before step ih =>
    exact (step.ownership (parents _ (declared_of_transGen before))).trans ih

/-- Where parents come first, all ancestors do. -/
theorem ParentsFirst.ancestor_ahead (h : s.ParentsFirst ordered) :
    ∀ i ∈ ordered, ∀ p, TransGen s.Extends i p → [p, i].Sublist ordered := by
  induction h with
  | nil => simp
  | @add ordered i parent _ found above ih =>
    intro j member p ancestor
    rcases List.mem_append.1 member with old | new
    · exact (ih j old p ancestor).trans (List.sublist_append_left _ _)
    · rw [List.mem_singleton.1 new] at ancestor ⊢
      obtain ⟨q, step, further⟩ := TransGen.head'_iff.1 ancestor
      have placed : q ∈ ordered := above q (parentOf_eq_of_extends found step)
      have there : p ∈ ordered := by
        rcases Relation.reflTransGen_iff_eq_or_transGen.1 further with rfl | higher
        · exact placed
        · exact (ih q placed p higher).subset List.mem_cons_self
      exact (List.singleton_sublist.2 there).append (List.Sublist.refl [i])

/-! ## Orders that are kept -/

/-- The interfaces are declared with every parent ahead of its children. -/
def DeclaredInOrder (s : Session) : Prop :=
  ∀ i ∈ s.declarations.interfaces, ∀ p, s.Extends i p → [p, i].Sublist s.declarations.interfaces

/-- A climb ends at once below an interface that is placed. -/
theorem climb_of_placed {placed visited : List String} {parent : Option Interface}
    (found : s.parentOf i = .ok parent) (above : ∀ p, parent = some p → p.name ∈ placed) :
    s.climb placed visited i = .ok [i] := by
  fun_cases climb s placed visited i with
  | case1 failure failed => rw [found] at failed; cases failed
  | case2 => rfl
  | case3 => rfl
  | case4 p other apart | case5 p other apart =>
    rw [found] at other
    cases other
    exact absurd (above p rfl) apart

theorem mem_of_ahead {α : Type} {a b : α} {done rest : List α}
    (distinct : (done ++ b :: rest).Nodup)
    (ahead : [a, b].Sublist (done ++ b :: rest)) : a ∈ done := by
  obtain ⟨front, back, split, inFront, inBack⟩ := List.cons_sublist_iff.1 ahead
  rw [List.singleton_sublist] at inBack
  rcases List.append_eq_append_iff.1 split with ⟨more, rfl, later⟩ | ⟨more, rfl, -⟩
  · cases more with
    | nil => simpa using inFront
    | cons c more =>
      -- the item would be on both sides of the split
      obtain ⟨rfl, -⟩ := List.cons.inj later
      rw [split] at distinct
      exact absurd rfl (List.nodup_append.1 distinct |>.2.2 b (by simp) b inBack)
  · exact List.mem_append_left _ inFront

theorem interfaces_nodup (s : Session) : s.declarations.interfaces.Nodup :=
  .of_map _ s.interface_names_nodup

/-- Interfaces that are declared in order stay in their order. -/
theorem orderInterfaces_of_declaredInOrder (h : s.orderInterfaces = .ok ordered)
    (sorted : s.DeclaredInOrder) : ordered = s.declarations.interfaces := by
  have legal := (exists_orderInterfaces_iff.1 ⟨ordered, h⟩).1
  refine foldlM_invariant (fun done ordered => ordered = done) ?_ rfl h
  rintro done i rest before after split rfl placed
  have declared : i ∈ s.declarations.interfaces := by simp [split]
  obtain ⟨parent, found⟩ := exists_parentOf_iff.2 (legal i declared)
  have above : ∀ p, parent = some p → p.name ∈ before.map (·.name) := by
    rintro p rfl
    have ahead := sorted i declared p (parentOf_eq_some_iff.1 found).1
    rw [split] at ahead
    exact List.mem_map_of_mem (mem_of_ahead (split ▸ s.interfaces_nodup) ahead)
  have fresh : i.name ∉ before.map (·.name) := by
    have distinct := s.interface_names_nodup
    rw [split, List.map_append, List.map_cons, List.nodup_middle, List.nodup_cons] at distinct
    exact fun again => distinct.1 (List.mem_append_left _ again)
  simp only [place, if_neg fresh, climb_of_placed found above] at placed
  cases placed
  rfl

/-! ## Ordering twice -/

theorem extends_congr
    (same : ∀ i, i ∈ t.declarations.interfaces ↔ i ∈ s.declarations.interfaces) :
    t.Extends = s.Extends := by
  funext i p
  simp only [Extends, same]

theorem orderInterfaces_perm (h : s.orderInterfaces = .ok ordered) :
    ordered.Perm s.declarations.interfaces := by
  refine (List.perm_ext_iff_of_nodup (.of_map _ (nodup_orderInterfaces h)) s.interfaces_nodup).2 ?_
  exact fun i => mem_orderInterfaces h

theorem ancestors_ahead (h : s.orderInterfaces = .ok ordered)
    (declared : i ∈ s.declarations.interfaces)
    (above : TransGen s.Extends i p) : [p, i].Sublist ordered :=
  (placed_of_orderInterfaces h).first.ancestor_ahead i ((mem_orderInterfaces h).2 declared) p above

/-- A session whose interfaces are declared as another one has ordered them keeps them so. -/
theorem orderInterfaces_again (h : s.orderInterfaces = .ok ordered)
    (reordered : t.declarations.interfaces = ordered) : t.orderInterfaces = .ok ordered := by
  have same : ∀ i, i ∈ t.declarations.interfaces ↔ i ∈ s.declarations.interfaces := by
    rw [reordered]
    exact fun i => mem_orderInterfaces h
  obtain ⟨parents, acyclic⟩ := exists_orderInterfaces_iff.1 ⟨ordered, h⟩
  obtain ⟨again, found⟩ : ∃ again, t.orderInterfaces = .ok again := by
    rw [exists_orderInterfaces_iff, extends_congr same]
    simp only [LegalParent, same]
    exact ⟨parents, acyclic⟩
  rw [found, orderInterfaces_of_declaredInOrder found, reordered]
  intro i declared p step
  rw [reordered]
  exact ancestors_ahead h ((same i).1 declared) (.single (extends_congr same ▸ step))

theorem exists_reordered (h : s.orderInterfaces = .ok ordered) :
    ∃ t, create { s.declarations with interfaces := ordered } s.options = .ok t := by
  rw [exists_create_iff]
  refine (List.Perm.nodup_iff ?_).2 s.names_nodup
  rw [Declarations.names_eq, Declarations.names_eq]
  exact (((orderInterfaces_perm h).map _).append_right _).append_right _ |>.append_right _

/-! ## Ordering with a bound on its rounds -/

/-- Climbing round by round, and giving up after some rounds: `chain` is what was passed, and the
climb goes on from the interface that is given, if any. -/
def climbWithin (s : Session) (placed : List String) :
    ℕ → List Interface → Option Interface → Option (Except Failure (List Interface))
  | 0, _, _ => none
  | _ + 1, chain, none => some (.ok chain)
  | rounds + 1, chain, some i =>
    if i.name ∈ placed then some (.ok chain)
    else if i ∈ chain then some (.error (.invalid (.interfaceCycle i.name)))
    else
      match s.parentOf i with
      | .error failure => some (.error failure)
      | .ok parent => s.climbWithin placed rounds (chain ++ [i]) parent

def placeWithin (s : Session) (rounds : ℕ) (ordered : List Interface) (i : Interface) :
    ExceptT Failure Option (List Interface) :=
  (ordered ++ ·.reverse) <$> ExceptT.mk (s.climbWithin (ordered.map (·.name)) rounds [] (some i))

/-- Ordering that gives up when a climb takes more than some rounds. -/
def orderWithin (s : Session) (rounds : ℕ) : Option (Except Failure (List Interface)) :=
  (s.declarations.interfaces.foldlM (s.placeWithin rounds) []).run

theorem climbWithin_succ {placed : List String} {rounds : ℕ} {chain : List Interface}
    (fresh : i.name ∉ placed) (new : i ∉ chain) :
    s.climbWithin placed (rounds + 1) chain (some i) =
      match s.parentOf i with
      | .error failure => some (.error failure)
      | .ok parent => s.climbWithin placed rounds (chain ++ [i]) parent := by
  rw [climbWithin, if_neg fresh, if_neg new]

/-- With more rounds than there are names left to visit, a climb comes to its end. What it has
passed is told apart by names. -/
theorem climbWithin_eq {placed visited : List String} {rounds : ℕ} {chain : List Interface}
    (enough : unvisited s.interfaceNames visited < rounds) (fresh : i.name ∉ placed)
    (new : i ∉ chain) (declared : ∀ j ∈ chain ++ [i], j ∈ s.declarations.interfaces)
    (passed : ∀ n, n ∈ visited ↔ n ∈ (chain ++ [i]).map (·.name)) :
    s.climbWithin placed (rounds + 1) chain (some i) =
      some ((s.climb placed visited i).map (chain ++ ·)) := by
  obtain ⟨rounds, rfl⟩ : ∃ n, rounds = n + 1 := ⟨rounds - 1, by omega⟩
  fun_induction climb s placed visited i generalizing chain rounds with
  | case1 visited i failure found =>
    simp only [climbWithin_succ fresh new, found]
    rfl
  | case2 visited i found =>
    simp only [climbWithin_succ fresh new, found]
    rfl
  | case3 visited i p found there =>
    rw [climbWithin_succ fresh new, found]
    simp only [climbWithin, if_pos there]
    rfl
  | case4 visited i p found apart again =>
    have inChain : p ∈ chain ++ [i] := by
      obtain ⟨q, member, named⟩ := List.mem_map.1 ((passed p.name).1 again)
      have step := (parentOf_eq_some_iff.1 found).1
      rwa [List.inj_on_of_nodup_map s.interface_names_nodup step.1 (declared q member) named.symm]
    rw [climbWithin_succ fresh new, found]
    simp only [climbWithin, if_neg apart, if_pos inChain]
    rfl
  | case5 visited i p found apart unseen ih =>
    have shorter := unvisited_lt (s.parentOf_declared found) unseen
    obtain ⟨rounds, rfl⟩ : ∃ n, rounds = n + 1 := ⟨rounds - 1, by omega⟩
    have notYet : p ∉ chain ++ [i] := fun inside =>
      unseen ((passed p.name).2 (List.mem_map_of_mem inside))
    have onward : ∀ j ∈ chain ++ [i] ++ [p], j ∈ s.declarations.interfaces :=
      List.forall_mem_append.2 ⟨declared, by simpa using (parentOf_eq_some_iff.1 found).1.1⟩
    have further : ∀ n, n ∈ p.name :: visited ↔ n ∈ (chain ++ [i] ++ [p]).map (·.name) := by
      intro n
      simp only [List.mem_cons, passed n, List.map_append, List.map_cons, List.map_nil,
        List.mem_append, List.not_mem_nil, or_false]
      exact or_comm
    rw [climbWithin_succ fresh new, found]
    simp only [ih apart notYet onward further rounds (by omega)]
    cases s.climb placed (p.name :: visited) p with
    | error failure => rfl
    | ok above =>
      change some (Except.ok (chain ++ [i] ++ above)) = some (Except.ok (chain ++ i :: above))
      rw [List.append_assoc, List.singleton_append]

theorem placeWithin_eq {rounds : ℕ} (enough : s.declarations.interfaces.length < rounds)
    (ordered : List Interface) (declared : i ∈ s.declarations.interfaces) :
    (s.placeWithin rounds ordered i).run = some (s.place ordered i) := by
  obtain ⟨rounds, rfl⟩ : ∃ n, rounds = n + 1 := ⟨rounds - 1, by omega⟩
  rw [place]
  by_cases there : i.name ∈ ordered.map (·.name)
  · simp only [if_pos there, placeWithin, climbWithin]
    change some (Except.ok (ordered ++ [])) = some (Except.ok ordered)
    rw [List.append_nil]
  · have fewer : unvisited s.interfaceNames [i.name] < rounds := by
      have step : unvisited s.interfaceNames [i.name] < unvisited s.interfaceNames [] :=
        unvisited_lt (List.mem_map_of_mem declared) List.not_mem_nil
      rw [unvisited_nil, interfaceNames, List.length_map] at step
      rw [interfaceNames]
      omega
    have climbed := climbWithin_eq fewer there List.not_mem_nil (by simpa using declared) (by simp)
    simp only [if_neg there, placeWithin, climbed]
    cases s.climb (ordered.map (·.name)) [i.name] i <;> rfl

theorem run_foldlM_eq {ε α β : Type} {f : β → α → ExceptT ε Option β} {g : β → α → Except ε β}
    {items : List α} (same : ∀ b, ∀ a ∈ items, (f b a).run = some (g b a)) (b : β) :
    (items.foldlM f b).run = some (items.foldlM g b) := by
  induction items generalizing b with
  | nil => rfl
  | cons a rest ih =>
    have first := same b a List.mem_cons_self
    have later := ih fun b c member => same b c (List.mem_cons_of_mem a member)
    rw [List.foldlM_cons, List.foldlM_cons, ExceptT.run_bind, first]
    cases g b a with
    | error e => rfl
    | ok b' => exact later b'

/-- Ordering ends: no climb takes more rounds than there are interfaces, and one to see that it is
over. -/
theorem orderWithin_eq {rounds : ℕ} (enough : s.declarations.interfaces.length < rounds) :
    s.orderWithin rounds = some s.orderInterfaces :=
  run_foldlM_eq (fun ordered _ declared => placeWithin_eq enough ordered declared) []

/-! ## Interfaces that cannot be ordered -/

theorem invalid_of_parentOf {failure : Failure} (failed : s.parentOf i = .error failure) :
    ∃ cause, failure = .invalid cause := by
  simp only [parentOf] at failed
  split at failed
  · cases failed
  · split_ifs at failed
    · cases failed
      exact ⟨_, rfl⟩
    · split at failed
      · cases failed
        exact ⟨_, rfl⟩
      · split_ifs at failed
        cases failed
        exact ⟨_, rfl⟩

theorem invalid_of_climb {placed visited : List String} {failure : Failure}
    (failed : s.climb placed visited i = .error failure) : ∃ cause, failure = .invalid cause := by
  fun_induction climb s placed visited i with
  | case1 visited i _ found =>
    cases failed
    exact invalid_of_parentOf found
  | case2 => cases failed
  | case3 => cases failed
  | case4 =>
    cases failed
    exact ⟨_, rfl⟩
  | case5 visited i p _ _ _ ih =>
    obtain above | ⟨chain, -, done⟩ := except_bind_eq_error_iff.1 failed
    · exact ih above
    · cases done

/-- Where ordering fails, a climb from one of the interfaces does. -/
theorem climb_of_orderInterfaces {failure : Failure} (failed : s.orderInterfaces = .error failure) :
    ∃ i ∈ s.declarations.interfaces, ∃ placed, s.climb placed [i.name] i = .error failure := by
  obtain ⟨ordered, i, declared, failed⟩ := exists_of_foldlM_eq_error failed
  refine ⟨i, declared, ordered.map (·.name), ?_⟩
  simp only [place] at failed
  split_ifs at failed
  obtain climbed | ⟨chain, -, done⟩ := except_bind_eq_error_iff.1 failed
  · exact climbed
  · cases done

/-! ## The order -/

/-- An order of the interfaces of a session: it has each of them once and every ancestor ahead of
its descendants, which have its ownership. It is the order of declaration if that was right already,
so it stays when interfaces are declared in it. -/
structure StablyOrdered (s : Session) (ordered : List Interface) : Prop where
  perm : ordered.Perm s.declarations.interfaces
  ahead : ∀ i ∈ s.declarations.interfaces, ∀ p, TransGen s.Extends i p → [p, i].Sublist ordered
  ownership :
    ∀ i ∈ s.declarations.interfaces, ∀ p, TransGen s.Extends i p → p.ownership = i.ownership
  kept : s.DeclaredInOrder → ordered = s.declarations.interfaces
  again : ∃ t, create { s.declarations with interfaces := ordered } s.options = .ok t ∧
    t.orderInterfaces = .ok ordered

/-- Ordering the interfaces of a session ends, within a number of rounds for each climb that is
bounded by the number of interfaces. The order that it finds is stable. Where an interface is an
ancestor of itself it finds none and refuses the declarations, and if all parents are legal then it
names such an interface. -/
theorem interfaces_ordered_stably (s : Session) :
    (∀ ordered, s.orderInterfaces = .ok ordered → s.StablyOrdered ordered) ∧
      (∀ rounds, s.declarations.interfaces.length < rounds →
        s.orderWithin rounds = some s.orderInterfaces) ∧
      ((∃ i, TransGen s.Extends i i) → ∃ cause, s.orderInterfaces = .error (.invalid cause)) ∧
      ((∀ i ∈ s.declarations.interfaces, s.LegalParent i) →
        ∀ failure, s.orderInterfaces = .error failure →
          ∃ p, TransGen s.Extends p p ∧ failure = .invalid (.interfaceCycle p.name)) := by
  refine ⟨fun ordered h => ?_, fun rounds => orderWithin_eq, ?_, ?_⟩
  · obtain ⟨parents, -⟩ := exists_orderInterfaces_iff.1 ⟨ordered, h⟩
    obtain ⟨t, created⟩ := exists_reordered h
    have reordered : t.declarations.interfaces = ordered := by rw [(create_eq_ok_iff.1 created).1]
    exact ⟨orderInterfaces_perm h, fun i declared p => ancestors_ahead h declared,
      fun i declared p => ownership_of_transGen parents declared,
      orderInterfaces_of_declaredInOrder h, t, created, orderInterfaces_again h reordered⟩
  · rintro ⟨i, cycle⟩
    cases h : s.orderInterfaces with
    | ok ordered => exact absurd cycle ((exists_orderInterfaces_iff.1 ⟨ordered, h⟩).2 i)
    | error failure =>
      obtain ⟨i, -, placed, failed⟩ := climb_of_orderInterfaces h
      obtain ⟨cause, rfl⟩ := invalid_of_climb failed
      exact ⟨cause, rfl⟩
  · intro parents failure h
    obtain ⟨i, declared, placed, failed⟩ := climb_of_orderInterfaces h
    refine cycle_of_climb parents declared ?_ failed
    intro n member
    exact ⟨i, declared, (List.mem_singleton.1 member).symm, .refl⟩

/-- Animals, with children ahead of their parents and two lines that meet. -/
def kennel : Session where
  declarations :=
    { interfaces :=
        [{ name := "Puppy", parent := some "Dog" }, { name := "Cat", parent := some "Animal" },
         { name := "Dog", parent := some "Animal" }, { name := "Animal" }] }
  options := {}
  distinct := by decide

/-- Ladders of which one leads into a pair that lean on each other. -/
def ladders : Session where
  declarations :=
    { interfaces :=
        [{ name := "Step" }, { name := "Foot", parent := some "Left" },
         { name := "Left", parent := some "Right" }, { name := "Right", parent := some "Left" }] }
  options := {}
  distinct := by decide

theorem kennel_ordered_and_ladders_refused :
    (∃ ordered, kennel.orderInterfaces = .ok ordered ∧
      ordered.map (·.name) = ["Animal", "Dog", "Puppy", "Cat"] ∧ kennel.StablyOrdered ordered) ∧
    ∃ cause, ladders.orderInterfaces = .error (.invalid cause) := by
  constructor
  · have names : kennel.orderInterfaces.toOption.map (·.map (·.name)) =
        some ["Animal", "Dog", "Puppy", "Cat"] := by decide +kernel
    cases found : kennel.orderInterfaces with
    | error failure => simp [found, Except.toOption] at names
    | ok ordered =>
      rw [found] at names
      exact ⟨ordered, rfl, Option.some.inj names,
        (interfaces_ordered_stably kennel).1 ordered found⟩
  · have leftward : ladders.Extends { name := "Right", parent := some "Left" }
        { name := "Left", parent := some "Right" } := ⟨by decide, rfl⟩
    have rightward : ladders.Extends { name := "Left", parent := some "Right" }
        { name := "Right", parent := some "Left" } := ⟨by decide, rfl⟩
    exact (interfaces_ordered_stably ladders).2.2.1 ⟨_, .tail (.single leftward) rightward⟩

end NativeBridge.Session
