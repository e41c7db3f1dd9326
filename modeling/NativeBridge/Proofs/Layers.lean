import Mathlib.Data.List.Nodup
import NativeBridge.Proofs.Checks
import NativeBridge.Proofs.TypedefCycles

/-!
# Descriptors layer by layer

A descriptor is put together from the inside out, and nothing keeps a layer from having flags of its
own or from holding any other. Here resolution is followed with such layers, each made where an
expression, a typedef or the memo gives rise to it, and with a table in which equal descriptors are
one object. It never makes more than a base, a nullable mark and one set of flags, and the objects
are told apart by their keys.
-/
namespace NativeBridge

/-- A type in layers. Every layer has flags, and any layer may be in a sequence or a nullable
one. -/
inductive Layered where
  | scalar (kind : ScalarKind) (flags : Flags)
  | string (flags : Flags)
  | sequence (element : Layered) (flags : Flags)
  | nullable (inner : Layered) (flags : Flags)
  | interface (name : String) (flags : Flags)
  | valueType (name : String) (flags : Flags)
  | callback (name : String) (flags : Flags)
  deriving DecidableEq, Repr

namespace Layered

def flags : Layered → Flags
  | scalar _ f | string f | sequence _ f | nullable _ f | interface _ f | valueType _ f |
    callback _ f => f

def withFlags (f : Flags) : Layered → Layered
  | scalar kind _ => scalar kind f
  | string _ => string f
  | sequence element _ => sequence element f
  | nullable inner _ => nullable inner f
  | interface name _ => interface name f
  | valueType name _ => valueType name f
  | callback name _ => callback name f

def describe : Layered → String
  | scalar kind _ => kind.idlName
  | string _ => "DOMString"
  | sequence element _ => "sequence<" ++ element.describe ++ ">"
  | nullable inner _ => inner.describe ++ "?"
  | interface name _ | valueType name _ | callback name _ => name

/-- The structural key: the variant of a layer, its flags, and the key of what it holds. -/
def key : Layered → TypeKey
  | scalar kind f => .leaf "Scalar" f (some kind.idlName)
  | string f => .leaf "StringType" f none
  | sequence element f => .layer "SequenceOf" f element.key
  | nullable inner f => .layer "Nullable" f inner.key
  | interface name f => .leaf "InterfaceRef" f (some name)
  | valueType name f => .leaf "ValueTypeRef" f (some name)
  | callback name f => .leaf "CallbackRef" f (some name)

/-- All layers, the outermost first. -/
def layers : Layered → List Layered
  | sequence element f => sequence element f :: element.layers
  | nullable inner f => nullable inner f :: inner.layers
  | d => [d]

/-- The layers within the outermost one. -/
def inside (d : Layered) : List Layered := d.layers.tail

/-- Only the outermost layer has flags, a sequence holds a scalar, a nullable layer holds no
nullable one, and names are declared as what the layer says. -/
structure Canonical (scope : Scope) (d : Layered) : Prop where
  bare : ∀ layer ∈ d.inside, layer.flags = {}
  elements : ∀ element f, sequence element f ∈ d.layers → ∃ kind g, element = scalar kind g
  once : ∀ inner f, nullable inner f ∈ d.layers → ∀ inner' g, inner ≠ nullable inner' g
  interfaces : ∀ name f, interface name f ∈ d.layers → name ∈ scope.interfaces
  valueTypes : ∀ name f, valueType name f ∈ d.layers → name ∈ scope.valueTypes
  callbacks : ∀ name f, callback name f ∈ d.layers → name ∈ scope.callbacks

theorem layers_eq (d : Layered) : d.layers = d :: d.inside := by
  cases d <;> rfl

theorem Canonical.nullable {scope : Scope} {d : Layered} (h : d.Canonical scope)
    (bare : d.flags = {}) (other : ∀ inner f, d ≠ .nullable inner f) (f : Flags) :
    (Layered.nullable d f).Canonical scope where
  bare := by
    change ∀ layer ∈ d.layers, layer.flags = {}
    rw [d.layers_eq]
    exact List.forall_mem_cons.2 ⟨bare, h.bare⟩
  elements := by simpa [layers] using h.elements
  once := by
    intro inner g member
    rcases List.mem_cons.1 member with same | within
    · cases same
      exact other
    · exact h.once inner g within
  interfaces := by simpa [layers] using h.interfaces
  valueTypes := by simpa [layers] using h.valueTypes
  callbacks := by simpa [layers] using h.callbacks

end Layered

/-- The key of a type, which may be `void`. -/
def layeredKey : Option Layered → TypeKey
  | none => .void
  | some d => d.key

theorem ScalarKind.ofName?_idlName (kind : ScalarKind) : ofName? kind.idlName = some kind := by
  cases kind <;> decide

theorem Layered.key_injective : Function.Injective Layered.key := by
  intro a
  induction a with
  | scalar kind f =>
    intro b same
    cases b with
    | scalar kind' f' =>
      simp only [key, TypeKey.leaf.injEq, Option.some.injEq, true_and] at same
      have kinds := kind.ofName?_idlName
      rw [same.2, kind'.ofName?_idlName] at kinds
      rw [same.1, Option.some.inj kinds]
    | _ => simp [key] at same
  | string f | interface name f | valueType name f | callback name f =>
    intro b same
    cases b <;> simp_all [key]
  | sequence element f ih | nullable inner f ih =>
    intro b same
    cases b <;> simp [key] at same
    rw [same.1, ih same.2]

theorem layeredKey_injective : Function.Injective layeredKey := by
  rintro (_ | a) (_ | b) same
  · rfl
  · cases b <;> cases same
  · cases a <;> cases same
  · rw [Layered.key_injective same]

/-! ## The layers of a descriptor -/

namespace Base

def layered (f : Flags) : Base → Layered
  | scalar kind => .scalar kind f
  | string => .string f
  | sequence kind => .sequence (.scalar kind {}) f
  | interface name => .interface name f
  | valueType name => .valueType name f
  | callback name => .callback name f

theorem key_layered (f : Flags) (b : Base) : (b.layered f).key = b.key f := by
  cases b <;> rfl

theorem describe_layered (f : Flags) (b : Base) : (b.layered f).describe = b.describe := by
  cases b <;> rfl

theorem flags_layered (f : Flags) (b : Base) : (b.layered f).flags = f := by
  cases b <;> rfl

theorem layered_ne_nullable (f : Flags) (b : Base) (inner : Layered) (g : Flags) :
    b.layered f ≠ .nullable inner g := by
  cases b <;> simp [layered]

theorem layered_inj {f g : Flags} {a b : Base} (same : a.layered f = b.layered g) :
    a = b ∧ f = g := by
  cases a <;> cases b <;> simp_all [layered]

theorem withFlags_layered (f g : Flags) (b : Base) : (b.layered f).withFlags g = b.layered g := by
  cases b <;> rfl

theorem canonical_layered {scope : Scope} {b : Base} (declares : scope.Declares b) (f : Flags) :
    (b.layered f).Canonical scope := by
  cases b with
  | scalar kind | string =>
    constructor <;> simp [layered, Layered.inside, Layered.layers]
  | sequence kind =>
    constructor <;> simp [layered, Layered.inside, Layered.layers, Layered.flags]
  | interface name | valueType name | callback name =>
    constructor <;> simp [layered, Layered.inside, Layered.layers]
    exact declares

end Base

namespace Descriptor

def layered (d : Descriptor) : Layered :=
  if d.nullable then .nullable (d.base.layered {}) d.flags else d.base.layered d.flags

theorem flags_layered (d : Descriptor) : d.layered.flags = d.flags := by
  obtain ⟨b, nullable, f⟩ := d
  cases nullable
  · exact b.flags_layered f
  · rfl

theorem key_layered (d : Descriptor) : d.layered.key = d.key := by
  obtain ⟨b, nullable, f⟩ := d
  cases nullable
  · exact b.key_layered f
  · exact congrArg (TypeKey.layer "Nullable" f) (b.key_layered {})

theorem describe_layered (d : Descriptor) : d.layered.describe = d.describe := by
  obtain ⟨b, nullable, f⟩ := d
  cases nullable
  · exact b.describe_layered f
  · exact congrArg (· ++ "?") (b.describe_layered {})

theorem withFlags_layered (d : Descriptor) (f : Flags) :
    d.layered.withFlags f = layered { d with flags := f } := by
  obtain ⟨b, nullable, g⟩ := d
  cases nullable
  · exact b.withFlags_layered g f
  · rfl

theorem layered_injective : Function.Injective layered := by
  rintro ⟨a, nullable, f⟩ ⟨b, nullable', g⟩ same
  cases nullable with
  | false =>
    cases nullable' with
    | false =>
      obtain ⟨rfl, rfl⟩ := Base.layered_inj same
      rfl
    | true => exact absurd same (a.layered_ne_nullable f _ g)
  | true =>
    cases nullable' with
    | false => exact absurd same.symm (b.layered_ne_nullable g _ f)
    | true =>
      obtain ⟨within, rfl⟩ := Layered.nullable.inj same
      obtain ⟨rfl, -⟩ := Base.layered_inj within
      rfl

theorem canonical_layered {scope : Scope} {d : Descriptor} (declares : scope.Declares d.base) :
    d.layered.Canonical scope := by
  obtain ⟨b, nullable, f⟩ := d
  have base := b.canonical_layered declares
  cases nullable with
  | false => exact base f
  | true =>
    exact (base {}).nullable (b.flags_layered {}) (b.layered_ne_nullable {}) f

end Descriptor

theorem layeredKey_layered (d : Option Descriptor) :
    layeredKey (d.map Descriptor.layered) = typeKey d := by
  cases d with
  | none => rfl
  | some d => exact d.key_layered

theorem typeKey_injective : Function.Injective typeKey := by
  intro a b same
  rw [← layeredKey_layered a, ← layeredKey_layered b] at same
  exact Option.map_injective Descriptor.layered_injective (layeredKey_injective same)

/-! ## Making layers -/

namespace Layered

/-- The text for a sequence whose element is no scalar. -/
def elementMessage (found : String) : String := s!"sequence element type {found} is not a scalar"

/-- A nullable layer around a type, or in the place of its nullable layer. -/
def asNullable (f : Flags) : Option Layered → Except String (Option Layered)
  | none => .error Unresolvable.nullableVoid.message
  | some (nullable inner _) => .ok (some (nullable inner f))
  | some d => .ok (some (nullable d f))

/-- A sequence layer around a scalar, which keeps the flags that it has. -/
def asSequence (f : Flags) : Option Layered → Except String (Option Layered)
  | some (scalar kind own) => .ok (some (sequence (scalar kind own) f))
  | found => .error (elementMessage (found.elim "void" describe))

/-- A type under the name of a typedef: other flags replace those that it has. -/
def asTypedef (f : Flags) : Option Layered → Except String (Option Layered)
  | none => .ok none
  | some d => .ok (some (if f = {} then d else d.withFlags f))

/-- What a name means without any declaration. -/
def builtin? (name : String) (f : Flags) : Option (Except String (Option Layered)) :=
  if name = "void" then some (.ok none)
  else if name = "int" || name = "unsigned int" then
    some (.error (Unresolvable.notWebIdl name).message)
  else
    match ScalarKind.ofName? name with
    | some kind => some (.ok (some (scalar kind f)))
    | none => if name ∈ stringNames then some (.ok (some (string f))) else none

/-- What stands at one point of the path of an expression. -/
inductive Point where
  | answer (result : Except String (Option Layered))
  | inner (type : TypeExpr) (pending : List String)
      (finish : Option Layered → Except String (Option Layered))

end Layered

open Layered (Point)

namespace Scope

def nameLayer (scope : Scope) (name : String) (f : Flags) : Except String (Option Layered) :=
  if name ∈ scope.interfaces then .ok (some (.interface name f))
  else if name ∈ scope.valueTypes then .ok (some (.valueType name f))
  else if name ∈ scope.callbacks then .ok (some (.callback name f))
  else .error (Unresolvable.unknown name).message

def pointName (scope : Scope) (pending : List String) (name : String) (f : Flags) : Point :=
  match Layered.builtin? name f with
  | some result => .answer result
  | none =>
    match scope.target? name with
    | some target =>
      if name ∈ pending then .answer (.error (Unresolvable.cycle name).message)
      else .inner target (name :: pending) (Layered.asTypedef f)
    | none => .answer (scope.nameLayer name f)

def point (scope : Scope) (pending : List String) (e : TypeExpr) (f : Flags) : Point :=
  if e.union ≠ [] then .answer (.error (Unresolvable.union e).message)
  else if e.nullable then
    .inner { name := e.name, element := e.element } pending (Layered.asNullable f)
  else
    match e.element with
    | some element => .inner element pending (Layered.asSequence f)
    | none => scope.pointName pending e.name f

end Scope

/-- An answer in layers, and a refusal by its text. -/
def Resolved.layered (result : Resolved) : Except String (Option Layered) :=
  (result.mapError Unresolvable.message).map (Option.map Descriptor.layered)

theorem asNullable_layered (f : Flags) {d : Option Descriptor} (bare : ∀ x ∈ d, x.flags = {}) :
    Layered.asNullable f (d.map Descriptor.layered) = (nullableOf f d).layered := by
  cases d with
  | none => rfl
  | some d =>
    obtain ⟨b, nullable, g⟩ := d
    obtain rfl : g = {} := bare _ rfl
    cases nullable with
    | true => rfl
    | false => cases b <;> rfl

theorem elementMessage_layered (d : Descriptor) :
    Layered.elementMessage d.layered.describe = (Unresolvable.element (some d)).message :=
  congrArg Layered.elementMessage d.describe_layered

theorem asSequence_layered (f : Flags) {d : Option Descriptor} (bare : ∀ x ∈ d, x.flags = {}) :
    Layered.asSequence f (d.map Descriptor.layered) = (sequenceOf f d).layered := by
  cases d with
  | none => rfl
  | some d =>
    obtain ⟨b, nullable, g⟩ := d
    obtain rfl : g = {} := bare _ rfl
    have refused := congrArg (Except.error (α := Option Layered))
      (elementMessage_layered ⟨b, nullable, {}⟩)
    cases nullable with
    | true => cases b <;> exact refused
    | false =>
      cases b with
      | scalar kind => rfl
      | _ => exact refused

theorem asTypedef_layered (f : Flags) {d : Option Descriptor} (bare : ∀ x ∈ d, x.flags = {}) :
    Layered.asTypedef f (d.map Descriptor.layered) = (flagged f d).layered := by
  cases d with
  | none => rfl
  | some d =>
    have same : (if f = {} then d.layered else d.layered.withFlags f) =
        Descriptor.layered { d with flags := f } := by
      split
      · rename_i plain
        rw [plain, ← bare d rfl]
      · exact d.withFlags_layered f
    exact congrArg (fun l => Except.ok (some l)) same

theorem builtin?_layered (name : String) (f : Flags) :
    Layered.builtin? name f = (builtin? name f).map Resolved.layered := by
  simp only [Layered.builtin?, builtin?]
  split_ifs
  · rfl
  · rfl
  · cases ScalarKind.ofName? name <;> rfl
  · cases ScalarKind.ofName? name <;> rfl

namespace Scope

variable {scope : Scope} {pending pending' : List String} {e inner : TypeExpr} {flags : Flags}

theorem nameLayer_eq (scope : Scope) (name : String) (f : Flags) :
    scope.nameLayer name f = (scope.declared name f).layered := by
  simp only [nameLayer, declared]
  repeat' split
  all_goals rfl

/-- A point answers where the step does, and as it does. Otherwise both lead on to the same
expression and make the same of an answer without flags. -/
theorem point_of_step (scope : Scope) (pending : List String) (e : TypeExpr) (flags : Flags) :
    match scope.step pending e flags with
    | .answer result => scope.point pending e flags = .answer result.layered
    | .inner inner pending' finish =>
      ∃ finish', scope.point pending e flags = .inner inner pending' finish' ∧
        ∀ d : Option Descriptor, (∀ x ∈ d, x.flags = {}) →
          finish' (d.map Descriptor.layered) = (finish d).layered := by
  simp only [step, point]
  split_ifs with several null
  · rfl
  · exact ⟨_, rfl, fun d => asNullable_layered flags⟩
  · cases e.element with
    | some element => exact ⟨_, rfl, fun d => asSequence_layered flags⟩
    | none =>
      simp only [stepName, pointName, builtin?_layered]
      cases builtin? e.name flags with
      | some result => rfl
      | none =>
        cases scope.target? e.name with
        | none => exact congrArg Point.answer (scope.nameLayer_eq e.name flags)
        | some target =>
          simp only [Option.map_none]
          split_ifs
          · rfl
          · exact ⟨_, rfl, fun d => asTypedef_layered flags⟩

theorem point_answer {result : Resolved} (h : scope.step pending e flags = .answer result) :
    scope.point pending e flags = .answer result.layered := by
  have same := scope.point_of_step pending e flags
  rwa [h] at same

theorem point_inner {finish : Option Descriptor → Resolved}
    (h : scope.step pending e flags = .inner inner pending' finish) :
    ∃ finish', scope.point pending e flags = .inner inner pending' finish' ∧
      ∀ d : Option Descriptor, (∀ x ∈ d, x.flags = {}) →
        finish' (d.map Descriptor.layered) = (finish d).layered := by
  have same := scope.point_of_step pending e flags
  rwa [h] at same

end Scope

/-! ## Objects -/

/-- What has been resolved so far. A descriptor is an object, known by its place among the objects,
and equal descriptors are one object. The memo holds places. -/
structure Registry where
  memo : List (TypeExpr × Flags × Option ℕ) := []
  objects : List Layered := []

namespace Registry

def find? (r : Registry) (e : TypeExpr) (flags : Flags) : Option (Option ℕ) :=
  (r.memo.find? fun k => k.1 = e && k.2.1 = flags).map (·.2.2)

def object (r : Registry) (place : Option ℕ) : Option Layered := place.bind (r.objects[·]?)

/-- The object that is equal to a descriptor, which is a new one if there is none yet. -/
def intern (r : Registry) : Option Layered → Option ℕ × Registry
  | none => (none, r)
  | some d =>
    if d ∈ r.objects then (some (r.objects.idxOf d), r)
    else (some r.objects.length, { r with objects := r.objects ++ [d] })

/-- Interns and remembers a success. -/
def settle (r : Registry) (e : TypeExpr) (flags : Flags) :
    Except String (Option Layered) → Except String (Option ℕ) × Registry
  | .ok d =>
    let (place, r) := r.intern d
    (.ok place, { r with memo := r.memo ++ [(e, flags, place)] })
  | .error message => (.error message, r)

end Registry

theorem Scope.point_decreases {scope : Scope} {pending pending' : List String} {e inner : TypeExpr}
    {flags : Flags} {finish : Option Layered → Except String (Option Layered)}
    (h : scope.point pending e flags = .inner inner pending' finish) :
    scope.stepsLeft pending' inner < scope.stepsLeft pending e := by
  cases step : scope.step pending e flags with
  | answer result => cases (point_answer step).symm.trans h
  | inner inner' pending'' finish' =>
    obtain ⟨finish'', same, -⟩ := point_inner step
    cases same.symm.trans h
    exact step_decreases step

/-- Resolution in layers, while the typedefs in `pending` are being resolved. -/
def Scope.lookUp (scope : Scope) (pending : List String) (e : TypeExpr) (flags : Flags)
    (r : Registry) : Except String (Option ℕ) × Registry :=
  match r.find? e flags with
  | some place => (.ok place, r)
  | none =>
    match _point : scope.point pending e flags with
    | .answer result => r.settle e flags result
    | .inner inner pending' finish =>
      match scope.lookUp pending' inner {} r with
      | (.ok place, r) => r.settle e flags (finish (r.object place))
      | (.error message, r) => (.error message, r)
termination_by scope.stepsLeft pending e
decreasing_by exact point_decreases _point

/-- A query with its answer, which is the place of an object, no place for `void`, or a refusal. -/
structure Inquiry where
  type : TypeExpr
  flags : Flags
  answer : Except String (Option ℕ)

/-- The answers to queries one after another, and what is known in the end. -/
def Scope.inquire (scope : Scope) : List (TypeExpr × Flags) → Registry → List Inquiry × Registry
  | [], r => ([], r)
  | (e, flags) :: queries, r =>
    let (answer, r) := scope.lookUp [] e flags r
    let (others, r) := scope.inquire queries r
    ({ type := e, flags, answer } :: others, r)

/-- The answers that resolution gives to the same queries. -/
def Scope.resolveAll (scope : Scope) : List (TypeExpr × Flags) → Memo → List Resolved
  | [], _ => []
  | (e, flags) :: queries, memo =>
    (scope.resolve e flags memo).1 :: scope.resolveAll queries (scope.resolve e flags memo).2

/-! ## Objects show descriptors -/

/-- The object at a place is a descriptor in layers. -/
def Shows (objects : List Layered) (place : Option ℕ) (d : Option Descriptor) : Prop :=
  place.map (objects[·]?) = d.map fun d => some d.layered

theorem Shows.object {r : Registry} {place : Option ℕ} {d : Option Descriptor}
    (h : Shows r.objects place d) : r.object place = d.map Descriptor.layered := by
  cases place <;> cases d <;> simp_all [Shows, Registry.object]

theorem Shows.lt_length {objects : List Layered} {i : ℕ} {d : Option Descriptor}
    (h : Shows objects (some i) d) : i < objects.length := by
  cases d with
  | none => simp [Shows] at h
  | some d =>
    have found : objects[i]? = some d.layered := by simpa [Shows] using h
    exact (List.getElem?_eq_some_iff.1 found).1

theorem Shows.mono {objects more : List Layered} {place : Option ℕ} {d : Option Descriptor}
    (h : Shows objects place d) (grown : objects <+: more) : Shows more place d := by
  obtain ⟨new, rfl⟩ := grown
  cases place with
  | none => exact h
  | some i =>
    have kept : (objects ++ new)[i]? = objects[i]? := List.getElem?_append_left h.lt_length
    rw [Shows, Option.map_some, kept]
    exact h

/-- An answer in places shows what a resolution has found, or has the text of its refusal. -/
inductive Tells (objects : List Layered) : Except String (Option ℕ) → Resolved → Prop
  | found {place : Option ℕ} {d : Option Descriptor} (shows : Shows objects place d) :
    Tells objects (.ok place) (.ok d)
  | refused (cause : Unresolvable) : Tells objects (.error cause.message) (.error cause)

theorem Tells.mono {objects more : List Layered} {answer : Except String (Option ℕ)}
    {result : Resolved}
    (h : Tells objects answer result) (grown : objects <+: more) : Tells more answer result := by
  cases h with
  | found shows => exact .found (shows.mono grown)
  | refused cause => exact .refused cause

/-- What is at a place: a descriptor in layers, and its key. -/
def Registry.shown (r : Registry) (place : Option ℕ) : Option Layered × TypeKey :=
  (r.object place, layeredKey (r.object place))

/-- What a resolution has found: a descriptor, and its key. -/
def Resolved.shown (result : Resolved) : Except String (Option Layered × TypeKey) :=
  (result.mapError Unresolvable.message).map fun d => (d.map Descriptor.layered, typeKey d)

theorem Tells.shown {r : Registry} {answer : Except String (Option ℕ)} {result : Resolved}
    (h : Tells r.objects answer result) : answer.map r.shown = result.shown := by
  cases h with
  | refused cause => rfl
  | @found place d shows =>
    have same : r.shown place = (d.map Descriptor.layered, typeKey d) := by
      rw [Registry.shown, shows.object, layeredKey_layered]
    exact congrArg Except.ok same

/-- A registry has every object once, and remembers what a memo does. -/
structure Registry.Reflects (r : Registry) (memo : Memo) : Prop where
  distinct : r.objects.Nodup
  same : List.Forall₂ (fun k m => k.1 = m.type ∧ k.2.1 = m.flags ∧ Shows r.objects k.2.2 m.result)
    r.memo memo

namespace Registry

theorem reflects_nil : Reflects {} [] := ⟨List.nodup_nil, .nil⟩

variable {r : Registry} {memo : Memo} {e : TypeExpr} {flags : Flags}

/-- A registry knows what the memo holds, and nothing else. -/
theorem Reflects.find? (h : r.Reflects memo) (e : TypeExpr) (flags : Flags) :
    match memo.find? e flags with
    | none => r.find? e flags = none
    | some d => ∃ place, r.find? e flags = some place ∧ Shows r.objects place d := by
  obtain ⟨known, objects⟩ := r
  have same := h.same
  rw [Registry.find?, Memo.find?]
  dsimp only at same ⊢
  clear h
  induction same with
  | nil => rfl
  | @cons k m ks ms first _ ih =>
    obtain ⟨type, flags', shows⟩ := first
    rw [List.find?_cons, List.find?_cons, type, flags']
    cases hit : decide (m.type = e) && decide (m.flags = flags) with
    | true => exact ⟨_, rfl, shows⟩
    | false => exact ih

theorem intern_spec (h : r.objects.Nodup) (d : Option Descriptor) :
    let result := r.intern (d.map Descriptor.layered)
    result.2.objects.Nodup ∧ r.objects <+: result.2.objects ∧ result.2.memo = r.memo ∧
      Shows result.2.objects result.1 d := by
  intro result
  cases d with
  | none => exact ⟨h, List.prefix_refl _, rfl, rfl⟩
  | some d =>
    by_cases known : d.layered ∈ r.objects
    · have same : result = (some (r.objects.idxOf d.layered), r) := if_pos known
      rw [same]
      refine ⟨h, List.prefix_refl _, rfl, ?_⟩
      simp [Shows, List.getElem?_idxOf known]
    · have same :
          result = (some r.objects.length, { r with objects := r.objects ++ [d.layered] }) :=
        if_neg known
      rw [same]
      refine ⟨?_, List.prefix_append _ _, rfl, ?_⟩
      · exact List.concat_eq_append ▸ h.concat known
      · simp [Shows]

theorem Reflects.settle (h : r.Reflects memo) (result : Resolved) :
    let settled := r.settle e flags result.layered
    settled.2.Reflects (NativeBridge.settle memo e flags result).2 ∧
      r.objects <+: settled.2.objects ∧
      Tells settled.2.objects settled.1 result := by
  cases result with
  | error cause => exact ⟨h, List.prefix_refl _, .refused cause⟩
  | ok d =>
    obtain ⟨distinct, grown, kept, shows⟩ := intern_spec h.distinct d
    have earlier := h.same.imp fun k m known =>
      And.imp_right (And.imp_right fun shown => Shows.mono shown grown) known
    rw [← kept] at earlier
    exact ⟨⟨distinct, List.rel_append earlier (.cons ⟨rfl, rfl, shows⟩ .nil)⟩, grown, .found shows⟩

end Registry

namespace Scope

variable {scope : Scope} {pending pending' : List String} {e inner : TypeExpr} {flags : Flags}
  {r : Registry}

theorem lookUp_hit {place : Option ℕ} (hit : r.find? e flags = some place) :
    scope.lookUp pending e flags r = (.ok place, r) := by
  rw [lookUp, hit]

theorem lookUp_answer {result : Except String (Option Layered)} (miss : r.find? e flags = none)
    (h : scope.point pending e flags = .answer result) :
    scope.lookUp pending e flags r = r.settle e flags result := by
  rw [lookUp, miss]
  dsimp only
  split
  · rename_i found
    cases found.symm.trans h
    rfl
  · rename_i found
    cases found.symm.trans h

theorem lookUp_inner {finish : Option Layered → Except String (Option Layered)}
    (miss : r.find? e flags = none)
    (h : scope.point pending e flags = .inner inner pending' finish) :
    scope.lookUp pending e flags r =
      match scope.lookUp pending' inner {} r with
      | (.ok place, r) => r.settle e flags (finish (r.object place))
      | (.error message, r) => (.error message, r) := by
  rw [lookUp, miss]
  dsimp only
  split
  · rename_i found
    cases found.symm.trans h
  · rename_i found
    cases found.symm.trans h
    rfl

theorem resolveIn_some {memo : Memo} (sound : Memo.Sound scope memo) (trail : scope.Trail pending e)
    {d : Descriptor} (found : (scope.resolveIn pending e flags memo).1 = .ok (some d)) :
    d.flags = flags ∧ scope.Declares d.base :=
  meaningIn_some ((resolveIn_spec sound trail).1.symm.trans found)

/-- Resolution in layers keeps step with resolution: the registry reflects the memo, objects stay
where they are, and the answer tells the same. -/
theorem lookUp_reflects {memo : Memo} (reflects : r.Reflects memo) (sound : Memo.Sound scope memo)
    (trail : scope.Trail pending e) (flags : Flags) :
    let found := scope.lookUp pending e flags r
    found.2.Reflects (scope.resolveIn pending e flags memo).2 ∧ r.objects <+: found.2.objects ∧
      Tells found.2.objects found.1 (scope.resolveIn pending e flags memo).1 := by
  fun_induction scope.resolveIn pending e flags memo generalizing r with
  | case1 pending e flags d hit =>
    have known := reflects.find? e flags
    rw [hit] at known
    obtain ⟨place, known, shows⟩ := known
    rw [lookUp_hit known]
    exact ⟨reflects, List.prefix_refl _, .found shows⟩
  | case2 pending e flags miss result step =>
    have unknown := reflects.find? e flags
    rw [miss] at unknown
    rw [lookUp_answer unknown (point_answer step), settle_fst]
    exact reflects.settle result
  | case3 pending e flags miss inner pending' finish step d memo' found ih =>
    have unknown := reflects.find? e flags
    rw [miss] at unknown
    obtain ⟨finish', point, same⟩ := point_inner step
    obtain ⟨reflects', grown, tells⟩ := ih reflects (trail.inner step)
    -- the inner expression is resolved without flags
    have bare : ∀ x ∈ d, x.flags = {} := by
      rintro x rfl
      exact (resolveIn_some sound (trail.inner step) (by rw [found])).1
    rw [found] at reflects' tells
    rw [lookUp_inner unknown point, settle_fst]
    generalize scope.lookUp pending' inner {} r = answered at reflects' grown tells
    obtain ⟨answer, r'⟩ := answered
    cases tells with
    | @found place _ shows =>
      obtain ⟨reflects'', grown', tells⟩ := reflects'.settle (e := e) (finish d)
      dsimp only
      rw [shows.object, same d bare]
      exact ⟨reflects'', grown.trans grown', tells⟩
  | case4 pending e flags miss inner pending' finish step cause memo' found ih =>
    have unknown := reflects.find? e flags
    rw [miss] at unknown
    obtain ⟨finish', point, -⟩ := point_inner step
    obtain ⟨reflects', grown, tells⟩ := ih reflects (trail.inner step)
    rw [found] at reflects' tells
    rw [lookUp_inner unknown point]
    generalize scope.lookUp pending' inner {} r = answered at reflects' grown tells
    obtain ⟨answer, r'⟩ := answered
    cases tells with
    | refused => exact ⟨reflects', grown, .refused cause⟩

/-- What each of some queries was told, with the objects that there are in the end. -/
theorem inquire_reflects {memo : Memo} (reflects : r.Reflects memo) (sound : Memo.Sound scope memo)
    (queries : List (TypeExpr × Flags)) :
    let run := scope.inquire queries r
    run.2.objects.Nodup ∧ r.objects <+: run.2.objects ∧
      run.1.map (fun asked => (asked.type, asked.flags)) = queries ∧
      List.Forall₂ (fun asked result => Tells run.2.objects asked.answer result ∧
        ∀ d, result = .ok (some d) → d.flags = asked.flags ∧ scope.Declares d.base)
        run.1 (scope.resolveAll queries memo) := by
  induction queries generalizing r memo with
  | nil => exact ⟨reflects.distinct, List.prefix_refl _, rfl, .nil⟩
  | cons query queries ih =>
    obtain ⟨e, flags⟩ := query
    obtain ⟨reflects', grown, tells⟩ := lookUp_reflects reflects sound (trail_nil e) flags
    obtain ⟨distinct, grown', asked, others⟩ := ih reflects' (resolve_spec sound).2
    refine ⟨distinct, grown.trans grown', congrArg _ asked, .cons ⟨tells.mono grown', ?_⟩ others⟩
    exact fun d found => resolveIn_some sound (trail_nil e) found

end Scope

/-- Places are told apart by what is there, and that by its key. -/
theorem Shows.place_eq_iff {r : Registry} (distinct : r.objects.Nodup) {place place' : Option ℕ}
    {d d' : Option Descriptor} (h : Shows r.objects place d) (h' : Shows r.objects place' d') :
    place = place' ↔ r.object place = r.object place' := by
  refine ⟨fun same => by rw [same], fun same => ?_⟩
  cases place with
  | none =>
    cases place' with
    | none => rfl
    | some j => simp [Registry.object, h'.lt_length] at same
  | some i =>
    cases place' with
    | none => simp [Registry.object, h.lt_length] at same
    | some j => exact congrArg some ((List.getElem?_inj h.lt_length distinct).1 same)

/-- Resolved descriptors are canonical. Every query of a run that finds a descriptor finds one with
the flags that were asked for, with no flags further inside, only scalars in sequences, no nullable
layer right inside another, and only declared names. Two successes are equal if and only if they
have one key.

The same queries answered in layers, where none of this is built in, find the same and refuse with
the same texts. There each descriptor is an object, and two successes are one object if and only if
they have one key. -/
theorem resolved_descriptors_canonical (scope : Scope) (queries : List (TypeExpr × Flags)) :
    let results := scope.resolveAll queries []
    let asked := (scope.inquire queries {}).1
    let registry := (scope.inquire queries {}).2
    List.Forall₂ (fun query result => ∀ d, result = .ok (some d) →
      d.flags = query.2 ∧ d.layered.Canonical scope) queries results ∧
    (∀ a b, .ok a ∈ results → .ok b ∈ results → (a = b ↔ typeKey a = typeKey b)) ∧
    asked.map (fun query => (query.type, query.flags)) = queries ∧
    asked.map (fun query => query.answer.map registry.shown) = results.map Resolved.shown ∧
    (∀ query ∈ asked, ∀ place, query.answer = .ok (some place) →
      ∃ d, registry.objects[place]? = some d ∧ d.flags = query.flags ∧ d.Canonical scope) ∧
    ∀ query ∈ asked, ∀ other ∈ asked, ∀ place place',
      query.answer = .ok place → other.answer = .ok place' →
      (place = place' ↔ layeredKey (registry.object place) = layeredKey (registry.object place')) ∧
      (registry.object place = registry.object place' ↔
        layeredKey (registry.object place) = layeredKey (registry.object place')) := by
  intro results asked registry
  obtain ⟨distinct, -, same, told⟩ :=
    scope.inquire_reflects Registry.reflects_nil (.nil scope) queries
  have shown :
      ∀ query ∈ asked, ∀ place, query.answer = .ok place → ∃ d, Shows registry.objects place d ∧
      ∀ x ∈ d, x.flags = query.flags ∧ scope.Declares x.base := by
    intro query member place answer
    obtain ⟨result, -, tells, facts⟩ := exists_of_forall₂ told.flip member
    rw [answer] at tells
    cases tells with
    | found shows => exact ⟨_, shows, fun x inside => facts x (congrArg Except.ok inside)⟩
  refine ⟨?_, fun a b _ _ => typeKey_injective.eq_iff.symm, same,
    map_eq_of_forall₂ told fun query result h => h.1.shown, ?_, ?_⟩
  · rw [← same]
    refine List.forall₂_map_left_iff.2 (told.imp fun query result facts d found => ?_)
    obtain ⟨flags, declares⟩ := facts.2 d found
    exact ⟨flags, d.canonical_layered declares⟩
  · intro query member place answer
    obtain ⟨d, shows, facts⟩ := shown query member (some place) answer
    cases d with
    | none => simp [Shows] at shows
    | some d =>
      obtain ⟨flags, declares⟩ := facts d rfl
      exact ⟨d.layered, by simpa [Shows] using shows, d.flags_layered.trans flags,
        d.canonical_layered declares⟩
  · intro query member other member' place place' answer answer'
    obtain ⟨d, shows, -⟩ := shown query member place answer
    obtain ⟨d', shows', -⟩ := shown other member' place' answer'
    have keys :=
      layeredKey_injective.eq_iff (a := registry.object place) (b := registry.object place')
    exact ⟨(shows.place_eq_iff distinct shows').trans keys.symm, keys.symm⟩

end NativeBridge
