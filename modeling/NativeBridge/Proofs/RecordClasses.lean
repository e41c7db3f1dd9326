import NativeBridge.Proofs.Emission
import NativeBridge.Proofs.SlotOrder

/-!
# Record classes cover their layouts

A record class sets the fields that its value type declares itself and leaves the others to the
class that it extends. Its own fields are picked by name from a layout that holds those of all
ancestors. As no two fields along a line of ancestors share a name, a class and the classes above it
set each field of the layout once, and these are the fields that the class reads from the heap and
writes to it. Every class stands behind the class that it extends.
-/
namespace NativeBridge

namespace FieldLayout

/-- A statement of a constructor that sets a field to the value that it is given or to a default. -/
def Sets (name line : String) : Prop :=
  ∃ fallback ∈ ["false", "0"], line = "    this." ++ name ++ " = init." ++ name ++
    " === undefined ? " ++ fallback ++ " : init." ++ name ++ ";"

theorem sets_initLine (f : FieldLayout) : Sets f.name f.initLine := by
  refine ⟨if f.isBool then "false" else "0", ?_, f.initLine_eq⟩
  cases f.isBool <;> simp

/-- A statement sets one field only. -/
theorem Sets.unique {a b line : String} (first : Sets a line) (second : Sets b line) : a = b := by
  obtain ⟨x, known, rfl⟩ := first
  obtain ⟨y, known', same⟩ := second
  have chars := congrArg String.toList same
  simp only [String.toList_append, List.append_assoc] at chars
  -- the name stands there three times, and the defaults differ in length by four
  have lengths := congrArg List.length chars
  simp only [List.length_append] at lengths
  have equal : a.toList.length = b.toList.length := by
    simp only [List.mem_cons, List.not_mem_nil, or_false] at known known'
    rcases known with rfl | rfl <;> rcases known' with rfl | rfl <;> simp at lengths ⊢ <;> omega
  exact String.toList_inj.1 (List.append_inj (List.append_cancel_left chars) equal).1

theorem forall₂_sets_iff {fields : List FieldLayout} {names : List String} :
    List.Forall₂ Sets names (fields.map initLine) ↔ names = fields.map (·.name) := by
  rw [List.forall₂_map_right_iff]
  constructor
  · intro all
    have same := map_eq_of_forall₂ (f := id) all fun a f h => h.unique f.sets_initLine
    rwa [List.map_id] at same
  · rintro rfl
    rw [List.forall₂_map_left_iff, List.forall₂_same]
    exact fun f _ => f.sets_initLine

end FieldLayout

namespace RecordLayout

variable (l : RecordLayout) (v : ValueType)

/-- The body of the constructor of a record's class. -/
def initializing : List String :=
  (if extendsClause v.parent = "" then [] else ["    super(init);"]) ++
    "    init = init || \x7b\x7d;" :: (l.ownFields v).map FieldLayout.initLine

theorem methodBody_constructor :
    methodBody "  constructor(init) \x7b" (l.lines v) = l.initializing v := by
  have regroup : l.lines v = [s!"class {v.name}{extendsClause v.parent} \x7b"] ++
      "  constructor(init) \x7b" :: (l.initializing v ++ "  \x7d" :: "" ::
        "  static __fromNative(ptr) \x7b" :: (l.reading v ++ "  \x7d" :: "" ::
          "  static __toNative(obj) \x7b" :: (l.writing ++ "  \x7d" :: ["\x7d", ""]))) := by
    simp only [lines_eq, construction, initializing, List.append_assoc, List.cons_append,
      List.nil_append]
  rw [regroup]
  apply methodBody_append
  · intro line member same
    rw [List.mem_singleton.1 member, ← String.toList_inj] at same
    simp [toString] at same
  · rintro line member rfl
    simp only [initializing, List.mem_append, List.mem_cons, List.mem_map, List.mem_ite_nil_left,
      List.not_mem_nil, or_false] at member
    rcases member with ⟨-, same⟩ | same | ⟨f, -, same⟩
    · exact absurd same (by decide)
    · exact absurd same (by decide)
    · have chars := congrArg String.toList same
      rw [FieldLayout.initLine_eq] at chars
      simp at chars

theorem head?_lines :
    (l.lines v).head? = some ("class " ++ v.name ++ extendsClause v.parent ++ " \x7b") := by
  simp [lines_eq, construction, toString]

end RecordLayout

namespace Session

variable {s : Session} {p : Progress} {plans : List InterfacePlan}

/-! ## What layouts hold -/

/-- The layout of a value type has one field of a legal kind for each field on its line of
ancestors, in order, and no two of one name. -/
structure Laid (s : Session) (l : RecordLayout) (owners : List ValueType) : Prop where
  line : s.Ancestry l.valueType owners
  fields : List.Forall₂ (fun item (f : FieldLayout) => f.name = item.2.name ∧
    s.LegalField item.2 f.kind) (ownedFields owners) l.fields
  distinct : ((owners.flatMap (·.fields)).map (·.name)).Nodup

theorem Laid.names {l : RecordLayout} {owners : List ValueType} (h : s.Laid l owners) :
    l.fields.map (·.name) = (owners.flatMap (·.fields)).map (·.name) := by
  rw [← map_eq_of_forall₂ (f := fun item => item.2.name) h.fields fun _ _ same => same.1.symm]
  simp [ownedFields, List.map_flatMap, Function.comp_def]

/-- The fields that a value type declares are the first of its layout and found there by name. -/
theorem Laid.ownFields_names {l : RecordLayout} {owners : List ValueType} (h : s.Laid l owners) :
    (l.ownFields l.valueType).map (·.name) = l.valueType.fields.map (·.name) := by
  obtain ⟨rest, rfl⟩ := h.line.eq_cons
  have names := h.names
  have distinct := h.distinct
  rw [List.flatMap_cons, List.map_append] at names distinct
  have picked : (l.ownFields l.valueType).map (·.name) =
      (l.fields.map (·.name)).filter (· ∈ l.valueType.fields.map (·.name)) := by
    rw [List.filter_map, RecordLayout.ownFields]
    refine congrArg _ (List.filter_congr fun f _ => ?_)
    rw [Bool.eq_iff_iff]
    simp
  rw [picked, names, List.filter_append, List.filter_eq_self.2 (by simp), List.filter_eq_nil_iff.2,
    List.append_nil]
  intro name above
  simpa using fun f own same =>
    (List.nodup_append.1 distinct).2.2 _ (List.mem_map_of_mem own) _ above same

theorem laid_of_layOut {v : ValueType} {laid : Nat × List FieldLayout} {q : Progress}
    (sound : s.Sound p) (ran : (s.layOut v).runFrom p = (.ok laid, q)) :
    ∃ owners, s.Laid ⟨v, laid.1, laid.2⟩ owners := by
  obtain ⟨slot, _, reserved, ran⟩ := ExceptT.runFrom_bind_eq_ok_iff.1 ran
  cases reserved
  obtain ⟨owners, _, walked, ran⟩ := ExceptT.runFrom_bind_eq_ok_iff.1 ran
  obtain ⟨walked, rfl⟩ := Prod.ext_iff.1 walked
  obtain ⟨fields, q, added, ran⟩ := ExceptT.runFrom_bind_eq_ok_iff.1 ran
  cases ran
  have sound' : s.Sound (p.reserving v.name none) := sound
  exact ⟨owners, ancestry_of_lineage walked, (addFields_added sound' added).fields,
    ((exists_addFields_iff sound').1 ⟨_, _, added⟩).2⟩

/-- Layouts hold the fields of their lines of ancestors. -/
def Covering (s : Session) (p : Progress) : Prop := ∀ l ∈ p.layouts, ∃ owners, s.Laid l owners

theorem Covering.register {v : ValueType} (sound : s.Sound p) (h : s.Covering p) :
    s.Covering ((discard (s.register v)).runFrom p).2 := by
  cases fresh : p.layouts.find? (·.valueType.name = v.name) with
  | some layout =>
    rw [ExceptT.snd_runFrom_discard, Session.register,
      ExceptT.runFrom_bind_ok (ExceptT.runFrom_get p), fresh]
    exact h
  | none =>
    have same := (decides_layOut (s := s) v).layouts p
    rw [discard_register_fresh fresh, ExceptT.runFrom_bind]
    rcases ran : (s.layOut v).runFrom p with ⟨failure | laid, q⟩
    · rw [ran] at same
      exact fun l layout => h l (same ▸ layout)
    · rw [ran] at same
      intro l layout
      rcases List.mem_append.1 (show l ∈ q.layouts ++ [⟨v, laid.1, laid.2⟩] from layout) with
        old | new
      · exact h l (same ▸ old)
      · rw [List.mem_singleton.1 new]
        exact laid_of_layOut sound ran

theorem invariant_covering : s.Invariant s.Covering where
  empty := fun _ layout => absurd layout List.not_mem_nil
  tables h _ layouts _ := fun l layout => h l (layouts ▸ layout)
  register _ := Covering.register
  planCallback _ sound h := by
    obtain ⟨-, layouts, -⟩ := planCallback_leaves sound rfl
    exact fun l layout => h l (layouts ▸ layout)

/-! ## The order of records -/

/-- Declared value types, each once and behind its parent. -/
structure Arranged (s : Session) (ordered : List ValueType) : Prop where
  declared : ∀ v ∈ ordered, v ∈ s.declarations.valueTypes
  once : ordered.Nodup
  behind : ∀ v ∈ ordered, ∀ u, s.Derives v u → [u, v].Sublist ordered

theorem Arranged.appendNew_singleton {ordered : List ValueType} (h : s.Arranged ordered)
    {v : ValueType}
    (declared : v ∈ s.declarations.valueTypes) (above : ∀ u, s.Derives v u → u ∈ ordered) :
    s.Arranged (appendNew ordered [v]) := by
  rw [appendNew, List.foldl_cons, List.foldl_nil]
  split
  · exact h
  · rename_i fresh
    refine ⟨?_, ?_, ?_⟩
    · simpa [or_imp, forall_and] using ⟨h.declared, declared⟩
    · exact List.nodup_append.2 ⟨h.once, List.nodup_singleton v, by
        rintro u old _ new rfl
        exact fresh (List.mem_singleton.1 new ▸ old)⟩
    · intro w member u parent
      rcases List.mem_append.1 member with old | new
      · exact (h.behind w old u parent).trans (List.sublist_append_left _ _)
      · rw [List.mem_singleton.1 new] at parent ⊢
        exact (List.singleton_sublist.2 (above u parent)).append (List.Sublist.refl [v])

theorem mem_appendNew_singleton {ordered : List ValueType} {v u : ValueType} :
    u ∈ appendNew ordered [v] ↔ u ∈ ordered ∨ u = v := by
  rw [appendNew, List.foldl_cons, List.foldl_nil]
  split
  · rename_i there
    exact ⟨.inl, fun member => member.elim id fun same => same ▸ there⟩
  · simp

/-- Appending a line of ancestors from its top keeps parents ahead. -/
theorem Ancestry.arranged {v : ValueType} {chain : List ValueType} (line : s.Ancestry v chain)
    (declared : v ∈ s.declarations.valueTypes) {ordered : List ValueType} (h : s.Arranged ordered) :
    s.Arranged (appendNew ordered chain.reverse) ∧
      (∀ u ∈ ordered, u ∈ appendNew ordered chain.reverse) ∧
        v ∈ appendNew ordered chain.reverse := by
  induction line with
  | @root v top =>
    refine ⟨h.appendNew_singleton declared fun u parent => absurd top parent.ne_root, ?_, ?_⟩
    · exact fun u old => mem_appendNew_singleton.2 (.inl old)
    · exact mem_appendNew_singleton.2 (.inr rfl)
  | @derived v p chain parent above ih =>
    obtain ⟨arranged, kept, there⟩ := ih parent.1
    have split : appendNew ordered (v :: chain).reverse =
        appendNew (appendNew ordered chain.reverse) [v] := by
      rw [List.reverse_cons, appendNew, List.foldl_append, appendNew, appendNew]
    rw [split]
    refine ⟨arranged.appendNew_singleton declared fun u parent' => ?_, ?_, ?_⟩
    · rwa [parent'.unique parent]
    · exact fun u old => mem_appendNew_singleton.2 (.inl (kept u old))
    · exact mem_appendNew_singleton.2 (.inr rfl)

theorem arranged_of_recordsOrder {layouts : List RecordLayout} {order : List ValueType}
    (declared : ∀ l ∈ layouts, l.valueType ∈ s.declarations.valueTypes)
    (found : s.recordsOrder layouts = .ok order) :
    s.Arranged order ∧ ∀ l ∈ layouts, l.valueType ∈ order := by
  let Done (done : List RecordLayout) (ordered : List ValueType) : Prop :=
    s.Arranged ordered ∧ ∀ l ∈ done, l.valueType ∈ ordered
  have start : Done [] [] := ⟨⟨by simp, List.nodup_nil, by simp⟩, by simp⟩
  refine foldlM_invariant Done ?_ start found
  rintro done l rest ordered next split ⟨arranged, all⟩ taken
  obtain ⟨owners, walked, same⟩ := except_bind_eq_ok_iff.1 taken
  cases same
  obtain ⟨arranged', kept, there⟩ :=
    (ancestry_of_lineage walked).arranged (declared l (by simp [split])) arranged
  refine ⟨arranged', ?_⟩
  intro l' member
  rcases List.mem_append.1 member with old | new
  · exact kept _ (all l' old)
  · rwa [List.mem_singleton.1 new]

/-! ## What constructors set -/

/-- The class of a value type and the classes that it extends set fields of the given names, those
furthest up first: read off the texts of the classes. -/
inductive Constructs (s : Session) (layouts : List RecordLayout) : ValueType → List String → Prop
  | base {v : ValueType} {lines sets own : List String} (text : scriptRecord layouts v = .ok lines)
      (head : lines.head? = some ("class " ++ v.name ++ " \x7b"))
      (body : methodBody "  constructor(init) \x7b" lines = "    init = init || \x7b\x7d;" :: sets)
      (set : List.Forall₂ FieldLayout.Sets own sets) : Constructs s layouts v own
  | derived {v u : ValueType} {lines sets own above : List String}
      (text : scriptRecord layouts v = .ok lines)
      (head : lines.head? = some ("class " ++ v.name ++ " extends " ++ u.name ++ " \x7b"))
      (found : s.valueType? u.name = some u)
      (body : methodBody "  constructor(init) \x7b" lines =
        "    super(init);" :: "    init = init || \x7b\x7d;" :: sets)
      (set : List.Forall₂ FieldLayout.Sets own sets) (inherited : Constructs s layouts u above) :
      Constructs s layouts v (above ++ own)

theorem constructs_root_iff {layouts : List RecordLayout} {l : RecordLayout} {names : List String}
    (text : scriptRecord layouts l.valueType = .ok (l.lines l.valueType))
    (top : l.valueType.parent = none) :
    s.Constructs layouts l.valueType names ↔
      names = (l.ownFields l.valueType).map (·.name) := by
  have alone : extendsClause l.valueType.parent = "" := by rw [top, extendsClause]
  have head := l.head?_lines l.valueType
  have body := l.methodBody_constructor l.valueType
  rw [RecordLayout.initializing, if_pos alone, List.nil_append] at body
  rw [alone, String.append_empty] at head
  constructor
  · intro set
    cases set with
    | base text' _ body' set =>
      cases text.symm.trans text'
      cases body.symm.trans body'
      exact FieldLayout.forall₂_sets_iff.1 set
    | derived text' head' =>
      cases text.symm.trans text'
      have same :=
        congrArg (fun t => (String.toList t).length) (Option.some.inj (head.symm.trans head'))
      simp at same
  · rintro rfl
    exact .base text head body (FieldLayout.forall₂_sets_iff.2 rfl)

theorem constructs_derived_iff {layouts : List RecordLayout} {l : RecordLayout} {u : ValueType}
    {names : List String} (text : scriptRecord layouts l.valueType = .ok (l.lines l.valueType))
    (parent : s.Derives l.valueType u) (named : u.name ≠ "") :
    s.Constructs layouts l.valueType names ↔ ∃ above, s.Constructs layouts u above ∧
      names = above ++ (l.ownFields l.valueType).map (·.name) := by
  have clause := extendsClause_eq_iff.2 ⟨parent.2, named⟩
  have head := l.head?_lines l.valueType
  have body := l.methodBody_constructor l.valueType
  have extending : extendsClause l.valueType.parent ≠ "" := by simp [clause]
  rw [RecordLayout.initializing, if_neg extending, List.singleton_append] at body
  rw [clause, ← String.append_assoc] at head
  constructor
  · intro set
    cases set with
    | base text' head' =>
      cases text.symm.trans text'
      have same :=
        congrArg (fun t => (String.toList t).length) (Option.some.inj (head.symm.trans head'))
      simp at same
    | @derived _ u' _ _ _ above text' head' found body' set inherited =>
      cases text.symm.trans text'
      cases body.symm.trans body'
      have same := congrArg String.toList (Option.some.inj (head.symm.trans head'))
      have name : u.name = u'.name := by
        simpa [← String.toList_inj] using same
      have known : s.valueType? u.name = some u := valueType?_eq_some_iff.2 ⟨parent.1, rfl⟩
      rw [name, found] at known
      cases known
      exact ⟨above, inherited, by rw [FieldLayout.forall₂_sets_iff.1 set]⟩
  · rintro ⟨above, inherited, rfl⟩
    exact .derived text head (valueType?_eq_some_iff.2 ⟨parent.1, rfl⟩) body
      (FieldLayout.forall₂_sets_iff.2 rfl) inherited

/-- A class and those that it extends set the fields of the line of ancestors from its top, and no
others. -/
theorem Ancestry.constructs_iff {v : ValueType} {chain : List ValueType} (line : s.Ancestry v chain)
    (declared : v ∈ s.declarations.valueTypes) (fits : s.TableFits p) (covering : s.Covering p)
    (all : ∀ v ∈ s.declarations.valueTypes, v ∈ registeredTypes p)
    (named : ∀ v ∈ s.declarations.valueTypes, v.name ≠ "") {names : List String} :
    s.Constructs p.layouts v names ↔ names = (chain.reverse.flatMap (·.fields)).map (·.name) := by
  induction line generalizing names with
  | @root v top =>
    obtain ⟨l, layout, rfl⟩ := List.mem_map.1 (all v declared)
    obtain ⟨owners, laid⟩ := covering l layout
    rw [constructs_root_iff (fits.scriptRecord_eq layout) top, laid.ownFields_names]
    simp
  | @derived v u chain parent above ih =>
    obtain ⟨l, layout, rfl⟩ := List.mem_map.1 (all v declared)
    obtain ⟨owners, laid⟩ := covering l layout
    rw [constructs_derived_iff (fits.scriptRecord_eq layout) parent (named u parent.1),
      laid.ownFields_names]
    simp only [ih parent.1, exists_eq_left, List.reverse_cons, List.flatMap_append,
      List.flatMap_singleton, List.map_append]

/-! ## Prepared sessions -/

/-- The class of a record sets, reads and writes each field of its layout once. -/
structure Covers (s : Session) (p : Progress) (l : RecordLayout) (lines : List String) : Prop where
  /-- The fields of the layout are those of the value type and its ancestors. -/
  laid : l.fields.map (·.name) =
    ((ancestors s.declarations.valueTypes l.valueType).flatMap (·.fields)).map (·.name)
  once : (l.fields.map (·.name)).Nodup
  /-- There is one list of the fields that the class sets together with those above it. -/
  sets : ∃ names, (∀ found, s.Constructs p.layouts l.valueType found ↔ found = names) ∧
    names.Perm (l.fields.map (·.name))
  reads : methodBody "  static __fromNative(ptr) \x7b" lines =
    ["    let obj = Object.create(" ++ l.valueType.name ++ ".prototype);"] ++
      l.fields.map (fun f => f.reads f.place) ++ ["    return obj;"]
  writes : methodBody "  static __toNative(obj) \x7b" lines =
    ["    let ptr = ensureCache.allocBytes(__jsbind_layout[" ++ toString l.sizeSlot ++ "]);"] ++
      l.fields.map (fun f => f.writes f.place) ++ ["    return ptr;"]

theorem covers_of_laid (fits : s.TableFits p) (covering : s.Covering p)
    (all : ∀ v ∈ s.declarations.valueTypes, v ∈ registeredTypes p)
    (named : ∀ v ∈ s.declarations.valueTypes, v.name ≠ "") {l : RecordLayout}
    (layout : l ∈ p.layouts) : s.Covers p l (l.lines l.valueType) := by
  obtain ⟨owners, laid⟩ := covering l layout
  have declared := (valueType?_eq_some_iff.1 (fits.declared l layout)).1
  have line : ancestors s.declarations.valueTypes l.valueType = owners :=
    laid.line.ancestors_eq_of_subset declared fun u member => member
  refine ⟨?_, ?_, ?_, l.methodBody_fromNative _, l.methodBody_toNative _⟩
  · rw [laid.names, line]
  · rw [laid.names]
    exact laid.distinct
  · refine ⟨_, fun found => laid.line.constructs_iff declared fits covering all named, ?_⟩
    rw [laid.names]
    exact ((List.reverse_perm owners).flatMap_right _).map _

theorem lines_infix_of_scriptParts {order : List ValueType} {records : List (List String)}
    {parts : List ScriptPart} (found : s.recordsOrder p.layouts = .ok order)
    (made : order.mapM (scriptRecord p.layouts) = .ok records)
    (emitted : s.scriptParts p plans = .ok parts) :
    records.flatten.map ScriptPart.line <:+: parts := by
  obtain ⟨_, found', emitted⟩ := except_bind_eq_ok_iff.1 emitted
  cases found.symm.trans found'
  obtain ⟨_, made', emitted⟩ := except_bind_eq_ok_iff.1 emitted
  cases made.symm.trans made'
  obtain ⟨classes, -, same⟩ := except_bind_eq_ok_iff.1 emitted
  cases same
  rw [List.map_append]
  simp only [List.append_assoc]
  rw [← List.append_assoc]
  exact ⟨_, _, List.append_assoc _ _ _⟩

/-- Once a session is prepared, whatever was asked before, its records come each once and behind
their parents, and every record class covers its layout. -/
theorem records_ordered_and_covered {requests : List Request} {plans : List InterfacePlan}
    {p : Progress} (prepared : s.prepare.runFrom (s.after requests) = (.ok plans, p))
    (named : ∀ v ∈ s.declarations.valueTypes, v.name ≠ "") :
    ∃ order records, s.recordsOrder p.layouts = .ok order ∧
      order.Perm s.declarations.valueTypes ∧
      (∀ v ∈ order, ∀ u, s.Derives v u → [u, v].Sublist order) ∧
      List.Forall₂ (fun v lines => scriptRecord p.layouts v = .ok lines ∧
        ∃ l ∈ p.layouts, l.valueType = v ∧ s.Covers p l lines) order records ∧
      ∀ parts, s.scriptParts p plans = .ok parts →
        records.flatten.map ScriptPart.line <:+: parts := by
  have complete := complete_of_prepare prepared
  obtain ⟨sound, before⟩ := (invariant_covering (s := s)).after requests
  have covering := (invariant_covering.prepare _ sound before).2
  have fits := (invariant_tableFits.prepare _ sound (tableFits_after requests)).2
  rw [prepared] at covering fits
  obtain ⟨order, records, found, made⟩ := complete.exists_records
  have declared : ∀ l ∈ p.layouts, l.valueType ∈ s.declarations.valueTypes :=
    fun l layout => (valueType?_eq_some_iff.1 (fits.declared l layout)).1
  obtain ⟨arranged, all⟩ := arranged_of_recordsOrder declared found
  refine ⟨order, records, found, ?_, arranged.behind, ?_,
    fun parts => lines_infix_of_scriptParts found made⟩
  · refine
      (List.perm_ext_iff_of_nodup arranged.once (.of_map _ s.valueType_names_nodup)).2 fun v => ?_
    refine ⟨arranged.declared v, fun member => ?_⟩
    obtain ⟨l, layout, rfl⟩ := List.mem_map.1 (complete.records v member)
    exact all l layout
  · have each :=
      (List.forall₂_and_left order records).2 ⟨fun v h => h, except_mapM_eq_ok_iff.1 made⟩
    refine each.imp ?_
    rintro v lines ⟨member, text⟩
    obtain ⟨l, layout, rfl⟩ := List.mem_map.1 (complete.records v (arranged.declared v member))
    refine ⟨text, l, layout, rfl, ?_⟩
    cases (fits.scriptRecord_eq layout).symm.trans text
    exact covers_of_laid fits covering complete.records named layout

/-- Rings are registered first, yet their class stands behind those of round shapes and of shapes,
and the class of discs sets what these leave. -/
theorem rings_records_ordered_and_covered :
    ∃ plans p order records,
      rings.prepare.runFrom (rings.after [.register "Ring"]) = (.ok plans, p) ∧
      (∀ v ∈ rings.declarations.valueTypes, v.name ≠ "") ∧
      rings.recordsOrder p.layouts = .ok order ∧
      order.map (·.name) = ["Shape", "Round", "Ring", "Disc"] ∧
      List.Forall₂ (fun v lines => scriptRecord p.layouts v = .ok lines ∧
        ∃ l ∈ p.layouts, l.valueType = v ∧ rings.Covers p l lines) order records := by
  obtain ⟨plans, p, prepared⟩ := ExceptT.exists_runFrom_of_isSome (x := rings.prepare)
    (p := rings.after [.register "Ring"]) (by decide +kernel)
  have named : ∀ v ∈ rings.declarations.valueTypes, v.name ≠ "" := by decide +kernel
  obtain ⟨order, records, found, -, -, covered, -⟩ := records_ordered_and_covered prepared named
  have computed : (rings.recordsOrder
      (rings.prepare.runFrom (rings.after [.register "Ring"])).2.layouts).toOption.map
        (List.map ValueType.name) = some ["Shape", "Round", "Ring", "Disc"] := by
    decide +kernel
  rw [prepared, found] at computed
  exact ⟨plans, p, order, records, prepared, named, found, Option.some.inj computed, covered⟩

end Session

end NativeBridge
