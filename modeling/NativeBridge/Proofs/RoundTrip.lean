import NativeBridge.Proofs.Reading

/-!
# Reading what was written

A source that holds well-formed declarations in their written form is read as exactly these
declarations, whatever the order in which the kinds are mixed.
-/
namespace NativeBridge.Idl

open Text

variable {s w : List Char}

/-! ## Statements -/

theorem parts_of_sequenced {texts : List (List Char)} (h : Sequenced texts w)
    (each : ∀ t ∈ texts, Between ';' t) :
    ∃ parts last, w = join [';'] (parts ++ [last]) ∧ List.Forall₂ Led parts texts ∧
      Blank last ∧ ∀ p ∈ parts ++ [last], Between ';' p := by
  have blanks : ∀ b, Blank b → Between ';' b := fun b blank =>
    blank.flat.between (blank.not_mem (by decide))
  induction h with
  | @done last blank => exact ⟨[], last, rfl, .nil, blank, by simpa using blanks last blank⟩
  | @next b t _ _ blank _ ih =>
    obtain ⟨first, others⟩ := List.forall_mem_cons.1 each
    obtain ⟨parts, last, rfl, led, final, between⟩ := ih others
    refine ⟨(b ++ t) :: parts, last, ?_, .cons ⟨b, blank, rfl⟩ led, final, ?_⟩
    · rw [List.cons_append, join_cons (by simp)]
      simp
    · exact List.forall_mem_cons.2 ⟨(blanks b blank).append first, between⟩

theorem statements_of_sequenced {texts : List (List Char)} (h : Sequenced texts w)
    (each : ∀ t ∈ texts, Solid t ∧ Between ';' t) :
    ∃ parts, statements w = .ok parts ∧ List.Forall₂ Led parts texts := by
  obtain ⟨parts, last, rfl, led, blank, between⟩ := parts_of_sequenced h fun t member =>
    (each t member).2
  have divided := (split_eq_ok_iff (by decide)).2 ⟨divides_of_between (by simp) between, rfl⟩
  have kept : ∀ p ∈ parts, trim p ≠ [] := by
    intro p member
    obtain ⟨t, there, led⟩ := exists_of_forall₂ (R := fun t p => Led p t) led.flip member
    rw [led.trim (each t there).1]
    exact (each t there).1.ne_nil
  have filtered : (parts ++ [last]).filter (trim · ≠ []) = parts := by
    rw [List.filter_append, List.filter_eq_self.2 (by simpa using kept)]
    simp [trim_blanks blank]
  refine ⟨parts, ?_, led⟩
  rw [statements, TypeExpr.splitText_eq_ok_iff.2 divided]
  exact congrArg Except.ok filtered

/-! ## Interfaces -/

def interfaceAttrs (i : Interface) : List ExtAttr :=
  i.constructors.map (.call "Constructor") ++ aliasAttrs i.cppName ++
    (if i.ownership = .shared then [.bare "Shared"] else []) ++
    if i.nonDestructible then [.bare "NoDestroy"] else []

theorem readsAs_constructors {constructors : List (List Argument)}
    (h : ∀ args ∈ constructors, ArgumentsWellFormed args) :
    List.Forall₂ ReadsAs (constructors.map constructorItem)
      (constructors.map (.call "Constructor")) := by
  refine List.forall₂_map_left_iff.2 (List.forall₂_map_right_iff.2 (List.forall₂_same.2 ?_))
  intro args member
  have read :=
    readAttr_call (u := "Constructor".toList) (by decide) (readArguments_render (h args member))
  rw [String.ofList_toList] at read
  exact read

theorem readsAs_interfaceAttrs {i : Interface} (h : i.WellFormed) :
    List.Forall₂ ReadsAs i.items (interfaceAttrs i) :=
  List.rel_append (List.rel_append (List.rel_append (readsAs_constructors h.constructors)
    (readsAs_aliasAttrs h.cppName)) (readsAs_if (by decide))) (readsAs_if (by decide))

theorem hasAttr_if {p : Prop} [Decidable p] (attr name : String) :
    hasAttr (if p then [.bare attr] else []) name = (decide p && decide (attr = name)) := by
  split
  · rename_i holds
    rw [decide_eq_true holds, Bool.true_and]
    exact Bool.or_false _
  · rename_i fails
    simp [hasAttr, fails]

theorem hasAttr_constructors {name : String} (other : name ≠ "Constructor")
    (constructors : List (List Argument)) :
    hasAttr (constructors.map (.call "Constructor")) name = false := by
  simp [hasAttr, ExtAttr.name, other.symm]

theorem hasAttr_interfaceAttrs (i : Interface) {name : String} (constructor : name ≠ "Constructor")
    (other : name ≠ "CppName") :
    hasAttr (interfaceAttrs i) name = (decide (i.ownership = .shared) && decide ("Shared" = name) ||
      i.nonDestructible && decide ("NoDestroy" = name)) := by
  simp only [interfaceAttrs, hasAttr_append, hasAttr_constructors constructor, hasAttr_if,
    hasAttr_aliasAttrs other, Bool.false_or, Bool.decide_eq_true]

theorem attrValue_interfaceAttrs (i : Interface) :
    attrValue (interfaceAttrs i) "CppName" = i.cppName := by
  rw [interfaceAttrs, List.append_assoc, List.append_assoc,
    attrValue_append (by simp [ExtAttr.name])]
  refine attrValue_alias i.cppName _ ?_
  intro a member
  rcases List.mem_append.1 member with inside | inside
  · split at inside <;> simp_all [ExtAttr.name]
  · split at inside <;> simp_all [ExtAttr.name]

theorem constructorLists_append (attrs more : List ExtAttr) :
    constructorLists (attrs ++ more) = constructorLists attrs ++ constructorLists more := by
  simp [constructorLists]

theorem constructorLists_interfaceAttrs (i : Interface) :
    constructorLists (interfaceAttrs i) = i.constructors := by
  have calls : constructorLists (i.constructors.map (.call "Constructor")) = i.constructors := by
    simp [constructorLists, List.filter_map, Function.comp_def, ExtAttr.name, ExtAttr.arguments?]
  have bare : ∀ {p : Prop} [Decidable p] (attr : String), attr ≠ "Constructor" →
      constructorLists (if p then [.bare attr] else []) = [] := by
    intro p _ attr other
    split <;> simp [constructorLists, ExtAttr.name, other]
  have named : constructorLists (aliasAttrs i.cppName) = [] := by
    cases i.cppName <;> simp [constructorLists, aliasAttrs, ExtAttr.name]
  simp only [interfaceAttrs, constructorLists_append, calls, named, bare "Shared" (by decide),
    bare "NoDestroy" (by decide), List.append_nil]

theorem readInterface_text {attrs : List ExtAttr} {name : String} {parent : Option String}
    (named : Word name.toList) (words : ∀ n ∈ parent, Word n.toList) {members : List Char}
    {parts : List (List Char)} (divided : statements members = .ok parts) :
    readInterface attrs ("interface".toList ++ ' ' :: (name.toList ++ (parentText parent ++
        ' ' :: '{' :: (members ++ ['}'])))) =
      if hasAttr attrs "ValueType" then do
        let fields ← parts.mapM (readField name)
        return .valueType { name, parent, fields, cppName := attrValue attrs "CppName" }
      else do
        let members ← liftMalformed (parts.mapM readMember)
        return .interface
          { name, parent, ownership := if hasAttr attrs "Shared" then .shared else .raw,
            cppName := attrValue attrs "CppName", constructors := constructorLists attrs,
            operations := operationsOf members, attributes := attributesOf members,
            nonDestructible := hasAttr attrs "NoDestroy" } := by
  have same : (parent.map String.toList).map String.ofList = parent := by
    cases parent <;> simp
  rw [readInterface, interfaceShape_text named words]
  simp only [divided, same, String.ofList_toList]
  rfl

/-! ## Declarations -/

def Member.WellFormed : Member → Prop
  | .attribute a => a.WellFormed
  | .operation o => o.WellFormed

theorem Member.WellFormed.text {m : Member} (h : m.WellFormed) :
    Solid m.render ∧ Piece ';' m.render := by
  rcases m with a | o
  · exact ⟨Attribute.WellFormed.solid h, Attribute.WellFormed.piece h⟩
  · exact ⟨Operation.WellFormed.solid h, Operation.WellFormed.piece h⟩

theorem Member.WellFormed.read {m : Member} (h : m.WellFormed) (led : Led s m.render) :
    readMember s = .ok m := by
  rcases m with a | o
  · exact readMember_attribute h led
  · exact readMember_operation h led

theorem wellFormed_members {i : Interface} {order : List Member} (h : i.WellFormed)
    (operations : operationsOf order = i.operations)
    (attributes : attributesOf order = i.attributes) :
    ∀ m ∈ order, m.WellFormed := by
  rintro (a | o) member
  · refine h.attributes a ?_
    rw [← attributes]
    exact List.mem_filterMap.2 ⟨_, member, rfl⟩
  · refine h.operations o ?_
    rw [← operations]
    exact List.mem_filterMap.2 ⟨_, member, rfl⟩

end NativeBridge.Idl

namespace NativeBridge

open Text Idl

def Declaration.WellFormed : Declaration → Prop
  | .interface i => i.WellFormed
  | .valueType v => v.WellFormed
  | .callback c => c.WellFormed
  | .typedef t => t.WellFormed

section Declarations

variable {d : Declaration} {s w : List Char}

theorem Interface.WellFormed.item_of_mem {i : Interface} (h : i.WellFormed) :
    ∀ j ∈ i.items, Item j := by
  have bare : ∀ {p : Prop} [Decidable p] {n : String}, Word n.toList →
      ∀ j ∈ if p then [n.toList] else [], Item j := by
    intro p _ n word j member
    split at member
    · rw [List.mem_singleton.1 member]
      exact item_word word
    · cases member
  simp only [Interface.items, List.forall_mem_append]
  refine ⟨⟨⟨fun j member => ?_, item_of_mem_aliasItems h.cppName⟩, bare (by decide)⟩,
    bare (by decide)⟩
  obtain ⟨args, there, rfl⟩ := List.mem_map.1 member
  exact (h.constructors args there).item (by decide)

theorem ValueType.WellFormed.item_of_mem {v : ValueType} (h : v.WellFormed) :
    ∀ j ∈ v.items, Item j :=
  List.forall_mem_append.2 ⟨item_of_mem_aliasItems h.cppName, by
    simpa using item_word (by decide : Word "ValueType".toList)⟩

theorem Declaration.Rendered.text (h : d.Rendered w) (wellFormed : d.WellFormed) :
    Solid w ∧ Piece ';' w := by
  cases h with
  | typedef t => exact ⟨Typedef.WellFormed.solid wellFormed, Typedef.WellFormed.piece wellFormed⟩
  | callback c => exact ⟨Callback.WellFormed.solid wellFormed, Callback.WellFormed.piece wellFormed⟩
  | valueType v members =>
    have h : v.WellFormed := wellFormed
    refine ⟨solid_interfaceText h.name, piece_interfaceText h.item_of_mem h.name h.parent ?_⟩
    exact members.inner (List.forall_mem_map.2 fun a there => (h.fields a there).piece)
  | interface i operations attributes members =>
    have h : i.WellFormed := wellFormed
    refine ⟨solid_interfaceText h.name, piece_interfaceText h.item_of_mem h.name h.parent ?_⟩
    exact members.inner (List.forall_mem_map.2 fun m there =>
      (wellFormed_members h operations attributes m there).text.2)

theorem takeAttrs_plain (solid : Solid w) (first : w.head? ≠ some '[') (led : Led s w) :
    takeAttrs s = .ok ([], w) := by
  have none : ∀ i ∈ ([] : List (List Char)), Item i := by simp
  exact takeAttrs_attrList none .nil solid first led

theorem readDeclaration_eq {attrs : List ExtAttr} (taken : takeAttrs s = .ok (attrs, w)) :
    readDeclaration s =
      if "typedef".toList.isPrefixOf w then do return .typedef (← liftMalformed (readTypedef w))
      else if "callback".toList.isPrefixOf w then do
        return .callback (← liftMalformed (readCallback w))
      else if "interface".toList.isPrefixOf w then readInterface attrs w
      else .error (.malformed (.declaration (excerpt w))) := by
  rw [readDeclaration, taken]
  rfl

theorem readDeclaration_typedef {t : Typedef} (h : t.WellFormed) (led : Led s t.render) :
    readDeclaration s = .ok (.typedef t) := by
  have taken :=
    takeAttrs_plain h.solid (head?_ne (u := "typedef".toList) (by simp) (by decide) _) led
  have keyword : "typedef".toList.isPrefixOf t.render = true :=
    List.isPrefixOf_iff_prefix.2 (List.prefix_append _ _)
  have read : readTypedef t.render = .ok t := by
    rw [readTypedef, typedefShape_render h]
    simp only [h.type.written.parse_print, bind, Except.bind, pure, Except.pure,
      String.ofList_toList]
  rw [readDeclaration_eq taken, if_pos keyword, read]
  rfl

theorem readDeclaration_callback {c : Callback} (h : c.WellFormed) (led : Led s c.render) :
    readDeclaration s = .ok (.callback c) := by
  have taken :=
    takeAttrs_plain h.solid (head?_ne (u := "callback".toList) (by simp) (by decide) _) led
  have keyword : "callback".toList.isPrefixOf c.render = true :=
    List.isPrefixOf_iff_prefix.2 (List.prefix_append _ _)
  have other : "typedef".toList.isPrefixOf c.render = false := rfl
  have read : readCallback c.render = .ok c := by
    rw [readCallback, callbackShape_render h]
    simp only [h.returnType.written.parse_print, readArguments_render h.arguments, bind,
      Except.bind, pure, Except.pure, String.ofList_toList]
  rw [readDeclaration_eq taken, if_neg (ne_true_of_eq_false other), if_pos keyword, read]
  rfl

theorem readDeclaration_interfaceText {items : List (List Char)} {attrs : List ExtAttr}
    {name : String}
    {parent : Option String} (each : ∀ i ∈ items, Item i) (read : List.Forall₂ ReadsAs items attrs)
    (named : Word name.toList) (led : Led s (interfaceText items name parent w)) :
    readDeclaration s = readInterface attrs ("interface".toList ++ ' ' :: (name.toList ++
      (parentText parent ++ ' ' :: '{' :: (w ++ ['}'])))) := by
  have solid : Solid (interfaceText [] name parent w) := solid_interfaceText named
  have taken := takeAttrs_attrList each read solid
    (head?_ne (u := "interface".toList) (by simp) (by decide) _) led
  rw [readDeclaration_eq taken]
  rfl

theorem readField_attribute {a : Attribute} (h : a.WellFormed) (name : String)
    (led : Led s a.render) :
    readField name s = .ok a := by
  rw [readField, readMember_attribute h led]
  rfl

theorem readDeclaration_valueType {v : ValueType} (h : v.WellFormed)
    (members : Sequenced (v.fields.map Attribute.render) w)
    (led : Led s (interfaceText v.items v.name v.parent w)) :
    readDeclaration s = .ok (.valueType v) := by
  have read : List.Forall₂ ReadsAs v.items (aliasAttrs v.cppName ++ [.bare "ValueType"]) :=
    List.rel_append (readsAs_aliasAttrs h.cppName)
      (.cons (by simpa [ReadsAs] using readAttr_bare (w := "ValueType".toList) (by decide)) .nil)
  have texts : ∀ t ∈ v.fields.map Attribute.render, Solid t ∧ Between ';' t :=
    List.forall_mem_map.2 fun a there =>
      ⟨(h.fields a there).solid, (h.fields a there).piece.between⟩
  obtain ⟨parts, divided, partsLed⟩ := statements_of_sequenced members texts
  have fields : parts.mapM (readField v.name) = .ok v.fields :=
    mapM_of_led_map partsLed fun a there p led => readField_attribute (h.fields a there) v.name led
  have marked : hasAttr (aliasAttrs v.cppName ++ [.bare "ValueType"]) "ValueType" = true := by
    simp [hasAttr, ExtAttr.name]
  rw [readDeclaration_interfaceText h.item_of_mem read h.name led,
    readInterface_text h.name h.parent divided, if_pos marked, fields,
    attrValue_alias v.cppName _ (by simp [ExtAttr.name])]
  rfl

theorem readDeclaration_interface {i : Interface} (h : i.WellFormed) {order : List Member}
    (operations : operationsOf order = i.operations)
    (attributes : attributesOf order = i.attributes)
    (members : Sequenced (order.map Member.render) w)
    (led : Led s (interfaceText i.items i.name i.parent w)) :
    readDeclaration s = .ok (.interface i) := by
  have each := wellFormed_members h operations attributes
  have texts : ∀ t ∈ order.map Member.render, Solid t ∧ Between ';' t :=
    List.forall_mem_map.2 fun m there => ⟨(each m there).text.1, (each m there).text.2.between⟩
  obtain ⟨parts, divided, partsLed⟩ := statements_of_sequenced members texts
  have all : parts.mapM readMember = .ok order :=
    mapM_of_led_map partsLed fun m there p led => (each m there).read led
  have plain : hasAttr (interfaceAttrs i) "ValueType" = false := by
    rw [hasAttr_interfaceAttrs i (by decide) (by decide)]
    simp
  have shared :
      (if hasAttr (interfaceAttrs i) "Shared" then Ownership.shared else .raw) = i.ownership := by
    rw [hasAttr_interfaceAttrs i (by decide) (by decide)]
    cases i.ownership <;> simp
  have kept : hasAttr (interfaceAttrs i) "NoDestroy" = i.nonDestructible := by
    rw [hasAttr_interfaceAttrs i (by decide) (by decide)]
    simp
  rw [readDeclaration_interfaceText h.item_of_mem (readsAs_interfaceAttrs h) h.name led,
    readInterface_text h.name h.parent divided, if_neg (ne_true_of_eq_false plain),
    all, shared, kept, attrValue_interfaceAttrs, constructorLists_interfaceAttrs]
  refine except_bind_eq_ok_iff.2 ⟨order, rfl, ?_⟩
  rw [operations, attributes]
  rfl

theorem Declaration.Rendered.read (h : d.Rendered w) (wellFormed : d.WellFormed) (led : Led s w) :
    readDeclaration s = .ok d := by
  cases h with
  | typedef t => exact readDeclaration_typedef wellFormed led
  | callback c => exact readDeclaration_callback wellFormed led
  | valueType v members => exact readDeclaration_valueType wellFormed members led
  | interface i operations attributes members =>
    exact readDeclaration_interface wellFormed operations attributes members led

theorem exists_sequenced (texts : List (List Char)) : ∃ w, Sequenced texts w := by
  induction texts with
  | nil => exact ⟨[], .done (by decide)⟩
  | cons t texts ih =>
    obtain ⟨w, rest⟩ := ih
    exact ⟨[] ++ (t ++ ';' :: w), .next (by decide) rest⟩

/-- Every declaration has a written form. -/
theorem exists_rendered (d : Declaration) : ∃ w, d.Rendered w := by
  cases d with
  | typedef t => exact ⟨_, .typedef t⟩
  | callback c => exact ⟨_, .callback c⟩
  | valueType v =>
    obtain ⟨w, members⟩ := exists_sequenced (v.fields.map Attribute.render)
    exact ⟨_, .valueType v members⟩
  | interface i =>
    let order : List Member := i.operations.map .operation ++ i.attributes.map .attribute
    have operations : operationsOf order = i.operations := by
      simp [order, operationsOf, List.filterMap_append, List.filterMap_map]
    have attributes : attributesOf order = i.attributes := by
      simp [order, attributesOf, List.filterMap_append, List.filterMap_map]
    obtain ⟨w, members⟩ := exists_sequenced (order.map Member.render)
    exact ⟨_, .interface i operations attributes members⟩

end Declarations

/-! ## Sources -/

namespace Declarations

/-- Whether declarations hold one, among those of its kind. -/
def Holds (ds : Declarations) : Declaration → Prop
  | .interface i => i ∈ ds.interfaces
  | .valueType v => v ∈ ds.valueTypes
  | .callback c => c ∈ ds.callbacks
  | .typedef t => t ∈ ds.typedefs

theorem holds_add {ds : Declarations} {d e : Declaration} :
    (ds.add e).Holds d ↔ ds.Holds d ∨ d = e := by
  cases d <;> cases e <;> simp [add, Holds]

theorem holds_foldl {ds : Declarations} {order : List Declaration} {d : Declaration} :
    (order.foldl add ds).Holds d ↔ ds.Holds d ∨ d ∈ order := by
  induction order generalizing ds with
  | nil => simp
  | cons e order ih => rw [List.foldl_cons, ih, holds_add, List.mem_cons, or_assoc]

theorem WellFormed.of_holds {ds : Declarations} (h : ds.WellFormed) {d : Declaration}
    (held : ds.Holds d) :
    d.WellFormed := by
  cases d with
  | interface i => exact h.interfaces i held
  | valueType v => exact h.valueTypes v held
  | callback c => exact h.callbacks c held
  | typedef t => exact h.typedefs t held

theorem foldl_add_map {α : Type} (wrap : α → Declaration) (put : List α → Declarations)
    (step : ∀ xs x, (put xs).add (wrap x) = put (xs ++ [x])) (xs ys : List α) :
    (ys.map wrap).foldl add (put xs) = put (xs ++ ys) := by
  induction ys generalizing xs with
  | nil => simp
  | cons y ys ih =>
    rw [List.map_cons, List.foldl_cons, step, ih, List.append_assoc, List.singleton_append]

theorem exists_order (ds : Declarations) : ∃ order, ofList order = ds := by
  obtain ⟨is, vs, cs, ts⟩ := ds
  refine ⟨is.map .interface ++ (vs.map .valueType ++ (cs.map .callback ++ ts.map .typedef)), ?_⟩
  have interfaces := foldl_add_map .interface (fun xs => ⟨xs, [], [], []⟩) (fun _ _ => rfl) [] is
  have valueTypes := foldl_add_map .valueType (fun xs => ⟨is, xs, [], []⟩) (fun _ _ => rfl) [] vs
  have callbacks := foldl_add_map .callback (fun xs => ⟨is, vs, xs, []⟩) (fun _ _ => rfl) [] cs
  have typedefs := foldl_add_map .typedef (fun xs => ⟨is, vs, cs, xs⟩) (fun _ _ => rfl) [] ts
  rw [ofList, List.foldl_append, List.foldl_append, List.foldl_append, interfaces]
  simp only [List.nil_append] at valueTypes callbacks typedefs ⊢
  rw [valueTypes, callbacks, typedefs]

theorem exists_rendered_source (ds : Declarations) : ∃ source, ds.Rendered source := by
  obtain ⟨order, same⟩ := exists_order ds
  obtain ⟨texts, rendered⟩ := exists_forall₂_iff.2 fun d (_ : d ∈ order) => exists_rendered d
  obtain ⟨w, sequenced⟩ := exists_sequenced texts
  exact ⟨String.ofList w, order, texts, same, rendered, by rwa [String.toList_ofList]⟩

section Sources

variable {source : String} {order : List Declaration} {texts : List (List Char)}

theorem solid_of_rendered (wellFormed : ∀ d ∈ order, d.WellFormed)
    (rendered : List.Forall₂ Declaration.Rendered order texts) :
    ∀ t ∈ texts, Solid t ∧ Piece ';' t := by
  intro t member
  obtain ⟨d, declared, written⟩ := exists_of_forall₂ rendered member
  exact written.text (wellFormed d declared)

/-- A source that without its comments holds written forms is read as what they are of. -/
theorem parse_of_sequenced (wellFormed : ∀ d ∈ order, d.WellFormed)
    (rendered : List.Forall₂ Declaration.Rendered order texts)
    (sequenced : Sequenced texts (stripComments source.toList)) :
    Idl.parse source = .ok (ofList order) := by
  have each := solid_of_rendered wellFormed rendered
  obtain ⟨parts, divided, led⟩ := statements_of_sequenced sequenced fun t member =>
    ⟨(each t member).1, (each t member).2.between⟩
  have both := (List.forall₂_and_left order texts).2 ⟨wellFormed, rendered⟩
  have read : parts.mapM readDeclaration = .ok order := by
    refine mapM_of_led led (List.Forall₂.flip (both.imp ?_))
    rintro d t ⟨wellFormed, written⟩ p led
    exact written.read wellFormed led
  rw [Idl.parse, divided]
  exact except_bind_eq_ok_iff.2 ⟨parts, rfl, except_bind_eq_ok_iff.2 ⟨order, read, rfl⟩⟩

end Sources

/-- Well-formed declarations have written forms, and each of them is read as these declarations. -/
theorem parse_rendered (ds : Declarations) (h : ds.WellFormed) :
    (∃ source, ds.Rendered source) ∧ ∀ source, ds.Rendered source → Idl.parse source = .ok ds := by
  refine ⟨exists_rendered_source ds, ?_⟩
  rintro source ⟨order, texts, rfl, rendered, sequenced⟩
  have wellFormed : ∀ d ∈ order, d.WellFormed :=
    fun d member => h.of_holds (holds_foldl.2 (.inr member))
  have each := solid_of_rendered wellFormed rendered
  have plain := (sequenced.inner fun t member => (each t member).2).plain
  rw [← stripComments_eq plain] at sequenced
  exact parse_of_sequenced wellFormed rendered sequenced

def key : Typedef where
  name := "Key"
  type := { union := [{ name := "long" }, { name := "DOMString" }], nullable := true }

def view : Interface where
  name := "View"
  parent := some "Node"
  ownership := .shared
  constructors := [[{ name := "origin", type := { name := "Point" }, flags := { byRef := true } },
    { name := "depth", type := { name := "unsigned long" }, optional := true }]]
  operations :=
    [{ name := "sizes", returnType := { element := some { name := "long" } }, isStatic := true }]
  attributes := [{ name := "key", type := { name := "Key" }, readOnly := true }]

def gallery : Declarations where
  interfaces := [view]
  typedefs := [key]

def galleryText : String := String.ofList <| List.flatMap String.toList
  ["typedef (long or DOMString)? Key;\n", "[Constructor([Ref] Point origin, ",
    "optional unsigned long depth), Shared] ", "interface View : Node \x7b",
    " readonly attribute Key key;", " static sequence<long> sizes(); \x7d;\n"]

theorem wellFormed_gallery : gallery.WellFormed := by
  have named : ∀ n ∈ ["Point", "unsigned long", "long", "DOMString", "Key"],
      TypeExpr.Written { name := n } := by
    intro n member
    have names : ∀ n ∈ ["Point", "unsigned long", "long", "DOMString", "Key"],
        TypeExpr.isName n.toList = true := by decide
    simpa using TypeExpr.Written.name false (names n member)
  have sequence := TypeExpr.Written.sequence false (named "long" (by decide))
  have union : key.type.Written := by
    have last : passes " or ".toList [] 0 "DOMString".toList = some 0 := by decide
    refine .union true (by decide) ?_ ⟨by decide, last⟩
    simpa using ⟨named "long" (by decide), named "DOMString" (by decide)⟩
  refine ⟨?_, by simp [gallery], by simp [gallery], ?_⟩
  · simp only [gallery, view, List.mem_singleton, forall_eq]
    refine ⟨by decide, by decide, by decide, ?_, ?_, ?_⟩
    · simp only [List.mem_singleton, forall_eq]
      refine ⟨?_, by decide⟩
      simp only [List.mem_cons, List.not_mem_nil, or_false, forall_eq_or_imp, forall_eq]
      exact ⟨⟨by decide, (named _ (by decide)).readable, by decide⟩,
        ⟨by decide, (named _ (by decide)).readable, by decide⟩⟩
    · simp only [List.mem_singleton, forall_eq]
      exact ⟨by decide, sequence.readable, by decide, by decide, ⟨by simp, by simp⟩, by simp⟩
    · simp only [List.mem_singleton, forall_eq]
      exact ⟨by decide, (named _ (by decide)).readable⟩
  · simp only [gallery, List.mem_singleton, forall_eq]
    exact ⟨by decide, union.readable⟩

theorem rendered_gallery : gallery.Rendered galleryText := by
  let order : List Member := view.attributes.map .attribute ++ view.operations.map .operation
  let inside := " readonly attribute Key key;".toList ++ " static sequence<long> sizes(); ".toList
  have members : Sequenced (order.map Member.render) inside :=
    @Sequenced.next [' '] _ _ _ (by decide)
      (@Sequenced.next [' '] _ [' '] _ (by decide) (.done (by decide)))
  have text : galleryText.toList = [] ++ (key.render ++ ';' :: (['\n'] ++
      (interfaceText view.items "View" (some "Node") inside ++ ';' :: ['\n']))) :=
    String.toList_ofList.trans (by decide +kernel)
  have sequenced : Sequenced [key.render, interfaceText view.items "View" (some "Node") inside]
      galleryText.toList := by
    rw [text]
    exact .next (by decide) (.next (by decide) (.done (by decide)))
  have rendered : List.Forall₂ Declaration.Rendered [.typedef key, .interface view]
      [key.render, interfaceText view.items "View" (some "Node") inside] :=
    .cons (.typedef key) (.cons (.interface view rfl rfl members) .nil)
  exact ⟨_, _, rfl, rendered, sequenced⟩

theorem gallery_read_back :
    gallery.WellFormed ∧ gallery.Rendered galleryText ∧ Idl.parse galleryText = .ok gallery :=
  ⟨wellFormed_gallery, rendered_gallery,
    (parse_rendered gallery wellFormed_gallery).2 galleryText rendered_gallery⟩

end Declarations

end NativeBridge
