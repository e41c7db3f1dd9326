import NativeBridge.Proofs.History

/-!
# The callback bridge

Native code reaches a script function through three texts: a callable that holds the token of the
function, a shim that the callable calls, and a script function that the shim calls. They are
written apart from each other, in two languages. A bridge is all that they have to agree on: the
names, the arguments with the types on both sides of the shim, and the reply. Each of the three
texts is shown to be what the bridge of the callback says.
-/
namespace NativeBridge

/-! ## Arguments -/

/-- One argument on its way to the script function: the type by which the callable takes it, what
the callable hands to the shim in place of its parameter, the type by which the shim takes that, and
what the script function reads out of it. -/
structure Passage where
  taken : String
  handed : String → String
  received : String
  read : String → String

namespace Passage

/-- What a script function makes of an argument. -/
inductive Reads : (String → String) → Prop where
  | plain : Reads fun x => x
  | truth : Reads fun x => s!"!!({x})"
  | text : Reads fun x => s!"UTF8ToString({x})"
  | optionalText : Reads fun x => s!"({x} ? UTF8ToString({x}) : null)"
  | object (name : String) : Reads fun x => s!"({x} ? {name}.__wrap({x}) : null)"
  | record (name : String) : Reads fun x => s!"{name}.__fromNative({x})"

def constMark (isConst : Bool) : String := if isConst then "const " else ""

/-- The address of a referenced value, as a pointer that may be written through. -/
def address (cpp x : String) : String := s!"const_cast<{cpp}*>(&{x})"

/-- Types on both sides of the shim that fit together. A value goes on unchanged and has one type.
Of a reference the address goes on, and a pointer to the same native type receives it. -/
inductive Fits : Passage → Prop where
  | unchanged (type : String) {read : String → String} (reads : Reads read) :
      Fits ⟨type, fun x => x, type, read⟩
  | object (isConst : Bool) (cpp : String) {read : String → String} (reads : Reads read) :
      Fits ⟨constMark isConst ++ cpp ++ "&", address cpp, constMark isConst ++ cpp ++ "*", read⟩
  | record (cpp : String) {read : String → String} (reads : Reads read) :
      Fits ⟨"const " ++ cpp ++ "&", address cpp, cpp ++ "*", read⟩

/-- A passage by which values of a marshaling reach a script function. -/
structure Carries (x : Passage) (m : Marshaling) : Prop where
  fits : x.Fits
  taken : m.callableParam = .ok x.taken
  handed : ∀ var, m.forwarded var = x.handed var
  received : m.paramType = x.received
  read : ∀ var, m.scriptArgument var = x.read var

/-- What can come from native code has a passage. -/
theorem exists_carries {m : Marshaling} (back : m.base.twoWay = true) :
    ∃ x : Passage, x.Carries m := by
  cases m with
  | scalar kind flags =>
    by_cases truth : kind = .boolean
    · subst truth
      exact ⟨_, .unchanged "bool" .truth, rfl, fun _ => rfl, rfl, fun _ => rfl⟩
    · refine ⟨_, .unchanged kind.cppType .plain, rfl, fun _ => rfl, rfl, fun var => ?_⟩
      cases kind with
      | boolean => exact absurd rfl truth
      | _ => rfl
  | string flags nullable =>
    cases nullable with
    | false => exact ⟨_, .unchanged "const char*" .text, rfl, fun _ => rfl, rfl, fun _ => rfl⟩
    | true =>
      exact ⟨_, .unchanged "const char*" .optionalText, rfl, fun _ => rfl, rfl, fun _ => rfl⟩
  | interface name cpp flags nullable =>
    cases indirect : flags.indirect with
    | false =>
      refine ⟨_, .unchanged (flags.const ++ cpp ++ "*") (.object name), ?_, fun var => ?_, rfl,
        fun _ => rfl⟩
      · simp [Marshaling.callableParam, indirect]
      · change (if flags.indirect then address cpp var else var) = var
        simp [indirect]
    | true =>
      refine ⟨_, .object flags.isConst cpp (.object name), ?_, fun var => ?_, rfl, fun _ => rfl⟩
      · simp [Marshaling.callableParam, indirect, Flags.const, constMark]
      · change (if flags.indirect then address cpp var else var) = address cpp var
        simp [indirect]
  | sharedInterface name cpp flags nullable =>
    exact ⟨_, .unchanged (sharedCell cpp ++ "*") (.object name), rfl, fun _ => rfl,
      rfl, fun _ => rfl⟩
  | valueType name cpp slot flags =>
    exact ⟨_, .record cpp (.record name), rfl, fun _ => rfl, rfl, fun _ => rfl⟩
  | sequence | callback => cases back

end Passage

/-! ## Replies -/

/-- What a script function gives back: nothing, a number, a truth value, a pointer of some type, or
the cell of a shared object. -/
inductive Reply where
  | nothing
  | number (type : String)
  | truth
  | pointer (type : String)
  | shared (cpp : String)
  deriving DecidableEq, Repr

namespace Reply

/-- The type in which the shim gives a reply. -/
def shimType : Reply → String
  | nothing => "void"
  | number type | pointer type => type
  | truth => "bool"
  | shared cpp => sharedCell cpp ++ "*"

/-- The type in which the callable gives a reply: of a cell, what it holds. -/
def callableType : Reply → String
  | nothing => "void"
  | number type | pointer type => type
  | truth => "bool"
  | shared cpp => sharedCell cpp

/-- What a callable does about its call of the shim. -/
def callableBody (call : String) : Reply → String
  | nothing => s!"{call};"
  | number _ | pointer _ | truth => s!"return {call};"
  | shared cpp =>
    s!"{sharedCell cpp}* cell = {call}; return (cell ? *cell : {sharedCell cpp}());"

/-- What the script function does about its call of the function behind the token. -/
def scriptBody (call : String) : Reply → List String
  | nothing => [s!"    {call};"]
  | number _ => [s!"    let ret = {call};", "    return ret;"]
  | truth => [s!"    let ret = {call};", "    return ((ret) ? 1 : 0);"]
  | pointer _ | shared _ => [s!"    let ret = {call};", "    return (ret ? ret.ptr : 0);"]

/-- The reply of a planned result. -/
inductive Of : Option Marshaling → Reply → Prop where
  | nothing : Of none nothing
  | number {kind : ScalarKind} (plain : kind ≠ .boolean) (flags : Flags) :
      Of (some (.scalar kind flags)) (number kind.cppType)
  | truth (flags : Flags) : Of (some (.scalar .boolean flags)) truth
  | pointer (name cpp : String) (flags : Flags) (nullable : Bool) :
      Of (some (.interface name cpp flags nullable)) (pointer (flags.const ++ cpp ++ "*"))
  | shared (name cpp : String) (flags : Flags) (nullable : Bool) :
      Of (some (.sharedInterface name cpp flags nullable)) (shared cpp)

end Reply

/-! ## Bridges -/

structure Bridge where
  callback : String
  shim : String
  passages : List Passage
  reply : Reply

namespace Bridge

variable (b : Bridge)

def invoker : String := "__jsbind_invoke_" ++ b.callback

/-- The token and the arguments, as the shim and the script function name them. -/
def names : List String := "token" :: (List.range b.passages.length).map argumentName

def shimParameters : List String :=
  "int token" :: b.passages.zipIdx.map fun (x, i) => x.received ++ " " ++ argumentName i

/-- The shim, which passes all that it takes to the script function. -/
def shimLines : List String :=
  [s!"EM_JS({b.reply.shimType}, {b.shim}, ({commaSeparated b.shimParameters}), \x7b",
   s!"  return {b.invoker}({commaSeparated b.names});",
   "\x7d);",
   ""]

/-- The arguments of the function behind the token. -/
def readArguments : List String := b.passages.zipIdx.map fun (x, i) => x.read (argumentName i)

/-- The registry of the callback, and the script function that the shim calls. -/
def scriptLines : List String :=
  [s!"var {registryName b.callback} = new CallbackRegistry(\"{b.callback}\");",
   s!"function {b.invoker}({commaSeparated b.names}) \x7b",
   s!"  let fn = {registryName b.callback}.lookup(token);",
   "  ensureCache.depth++;",
   "  try \x7b"] ++ b.reply.scriptBody s!"fn({commaSeparated b.readArguments})" ++
  ["  \x7d finally \x7b",
   "    ensureCache.depth--;",
   "  \x7d",
   "\x7d",
   ""]

def callableParameters : List String := b.passages.zipIdx.map fun (x, i) => s!"{x.taken} cb{i}"

/-- What a callable hands to the shim. -/
def handedArguments (token : String) : List String :=
  token :: b.passages.zipIdx.map fun (x, i) => x.handed s!"cb{i}"

def shimCall (token : String) : String := s!"{b.shim}({commaSeparated (b.handedArguments token)})"

def lambda (token : String) : String :=
  s!"[{token}]({commaSeparated b.callableParameters}) -> {b.reply.callableType} \x7b " ++
    b.reply.callableBody (b.shimCall token) ++ " \x7d"

def signature : String :=
  s!"{b.reply.callableType}({commaSeparated (b.passages.map Passage.taken)})"

/-- A callable that can be missing is a function object of the signature, which is empty for the
token that stands for no function. -/
def callable (token : String) (nullable : Bool) : String :=
  let function := s!"std::function<{b.signature}>"
  if nullable then s!"({token} ? {function}({b.lambda token}) : {function}())" else b.lambda token

/-- The bridge of a callback plan. -/
structure Of (plan : CallbackPlan) : Prop where
  callback : b.callback = plan.callback.name
  shim : b.shim = plan.shim
  passages : List.Forall₂ (fun a x => Passage.Carries x a.marshaling) plan.arguments b.passages
  reply : Reply.Of plan.returns b.reply

end Bridge

theorem map_zipIdx_eq_of_forall₂ {α β γ : Type} {R : α → β → Prop} {f : α → Nat → γ}
    {g : β → Nat → γ} {items : List α} {found : List β} (h : List.Forall₂ R items found)
    (same : ∀ a b i, R a b → f a i = g b i) (start : Nat) :
    (items.zipIdx start).map (fun t => f t.1 t.2) =
      (found.zipIdx start).map fun t => g t.1 t.2 := by
  induction h generalizing start with
  | nil => rfl
  | cons first _ ih => simp only [List.zipIdx_cons, List.map_cons, same _ _ start first, ih]

namespace Bridge.Of

variable {b : Bridge} {plan : CallbackPlan}

theorem callableParams (h : b.Of plan) :
    plan.arguments.mapM (·.marshaling.callableParam) = .ok (b.passages.map Passage.taken) := by
  rw [except_mapM_eq_ok_iff, List.forall₂_map_right_iff]
  exact h.passages.imp fun _ _ carried => carried.taken

theorem names_eq (h : b.Of plan) : plan.passedNames = b.names := by
  rw [CallbackPlan.passedNames, h.passages.length_eq]
  rfl

theorem shimReturn (h : b.Of plan) : plan.shimReturn = .ok b.reply.shimType := by
  have reply := h.reply
  rw [CallbackPlan.shimReturn]
  generalize plan.returns = returns, b.reply = given at reply ⊢
  cases reply <;> rfl

theorem callableReturn (h : b.Of plan) : plan.callableReturn = .ok b.reply.callableType := by
  have reply := h.reply
  rw [CallbackPlan.callableReturn]
  generalize plan.returns = returns, b.reply = given at reply ⊢
  cases reply <;> rfl

theorem callableBody (h : b.Of plan) (call : String) :
    plan.callableBody call = .ok (b.reply.callableBody call) := by
  have reply := h.reply
  have type := h.shimReturn
  rw [CallbackPlan.callableBody, type]
  generalize plan.returns = returns, b.reply = given at reply ⊢
  cases reply with
  | nothing | number | truth | pointer => rfl
  | shared name cpp flags nullable =>
    refine congrArg Except.ok ?_
    simp [Reply.callableBody, Reply.shimType, Marshaling.callableResult,
      ← String.toList_inj, toString]

theorem invokerName (h : b.Of plan) : plan.invokerName = b.invoker := by
  change "__jsbind_invoke_" ++ plan.callback.name = "__jsbind_invoke_" ++ b.callback
  rw [h.callback]

theorem nativeLines (h : b.Of plan) : plan.nativeLines = .ok b.shimLines := by
  have parameters : plan.arguments.zipIdx.map (fun t => t.1.marshaling.paramType ++ " " ++
      argumentName t.2) = b.passages.zipIdx.map fun t => t.1.received ++ " " ++ argumentName t.2 :=
    map_zipIdx_eq_of_forall₂ (f := fun a i => a.marshaling.paramType ++ " " ++ argumentName i)
      (g := fun x i => x.received ++ " " ++ argumentName i) h.passages
      (fun a x i carried => congrArg (· ++ " " ++ argumentName i) carried.received) 0
  simp only [CallbackPlan.nativeLines, h.shimReturn, h.names_eq, h.invokerName,
    ← h.shim, parameters, shimLines, shimParameters]
  rfl

theorem scriptLines (h : b.Of plan) : plan.scriptLines = b.scriptLines := by
  have arguments : plan.arguments.zipIdx.map (fun t => t.1.marshaling.scriptArgument
      (argumentName t.2)) = b.readArguments :=
    map_zipIdx_eq_of_forall₂ (f := fun a i => a.marshaling.scriptArgument (argumentName i))
      (g := fun x i => x.read (argumentName i)) h.passages (fun a x i carried => carried.read _) 0
  have reply := h.reply
  simp only [CallbackPlan.scriptLines, Bridge.scriptLines, h.names_eq, h.invokerName, ← h.callback,
    arguments]
  generalize plan.returns = returns, b.reply = given at reply ⊢
  cases reply with
  | nothing => rfl
  | @number kind plain flags =>
    have sent : Marshaling.nativeResult "ret" (.scalar kind flags) = "ret" := by
      cases kind with
      | boolean => exact absurd rfl plain
      | _ => rfl
    simp [Reply.scriptBody, sent]
  | truth | pointer | shared => simp [Reply.scriptBody, Marshaling.nativeResult, toString]

theorem signature (h : b.Of plan) : plan.signature = .ok b.signature := by
  rw [CallbackPlan.signature, h.callableParams, h.callableReturn]
  rfl

theorem nativeCallable (h : b.Of plan) (token : String) (nullable : Bool) :
    plan.nativeCallable token nullable = .ok (b.callable token nullable) := by
  have handed : plan.arguments.zipIdx.map (fun t => t.1.marshaling.forwarded s!"cb{t.2}") =
      b.passages.zipIdx.map fun t => t.1.handed s!"cb{t.2}" :=
    map_zipIdx_eq_of_forall₂ (f := fun a i => a.marshaling.forwarded s!"cb{i}")
      (g := fun x i => x.handed s!"cb{i}") h.passages (fun a x i carried => carried.handed _) 0
  have parameters : (b.passages.map Passage.taken).zipIdx.map (fun t => s!"{t.1} cb{t.2}") =
      b.callableParameters := by
    rw [List.zipIdx_map, List.map_map]
    rfl
  have called : plan.shim ++ "(" ++ ", ".intercalate (token :: plan.arguments.zipIdx.map
      fun t => t.1.marshaling.forwarded s!"cb{t.2}") ++ ")" = b.shimCall token := by
    rw [handed, ← h.shim]
    rfl
  simp only [CallbackPlan.nativeCallable, h.callableParams, h.callableReturn, h.signature, called,
    h.callableBody, callable, lambda, ← parameters]
  cases nullable <;> rfl

end Bridge.Of

namespace Session

variable {s : Session}

/-! ## Planned callbacks -/

/-- The shared interfaces are those whose values are marshaled in cells. -/
theorem classify_eq_sharedInterface_iff {d : Descriptor} {name cpp : String} {flags : Flags}
    {nullable : Bool} :
    s.classify (some d) = .ok (.sharedInterface name cpp flags nullable) ↔
      d = ⟨.interface name, nullable, flags⟩ ∧
        ∃ i ∈ s.declarations.interfaces,
          i.name = name ∧ i.ownership = .shared ∧ i.nativeName = cpp := by
  constructor
  · intro found
    have base : d.base = .interface name := (classify_base found).symm
    obtain ⟨_, null, written⟩ := d
    subst base
    simp only [classify] at found
    cases known : s.interface? name with
    | none =>
      rw [known] at found
      cases found
    | some i =>
      obtain ⟨member, named⟩ := interface?_eq_some_iff.1 known
      rw [known] at found
      cases owned : i.ownership with
      | shared =>
        simp only [owned] at found
        cases found
        exact ⟨rfl, i, member, named, owned, rfl⟩
      | raw =>
        simp only [owned] at found
        split at found <;> cases found
  · rintro ⟨rfl, i, member, rfl, owned, rfl⟩
    have known : s.interface? i.name = some i := interface?_eq_some_iff.2 ⟨member, rfl⟩
    simp only [classify, known, owned]

theorem exists_reply {e : TypeExpr} {returns : Option Marshaling} (h : s.Returns e returns) :
    ∃ reply, Reply.Of returns reply := by
  obtain ⟨-, rfl⟩ | ⟨d, m, -, found, rfl, allowed⟩ := h
  · exact ⟨_, .nothing⟩
  · rw [← classify_base found] at allowed
    cases m with
    | scalar kind flags =>
      by_cases truth : kind = .boolean
      · subst truth
        exact ⟨_, .truth flags⟩
      · exact ⟨_, .number truth flags⟩
    | interface name cpp flags nullable => exact ⟨_, .pointer name cpp flags nullable⟩
    | sharedInterface name cpp flags nullable => exact ⟨_, .shared name cpp flags nullable⟩
    | string | sequence | valueType | callback => simp [Marshaling.base] at allowed

/-- A planned callback has a bridge. -/
theorem exists_bridge {c : Callback} {plan : CallbackPlan}
    (planned : (s.callbackPlan c).outcome = .ok plan) : ∃ b : Bridge, b.Of plan := by
  obtain ⟨-, -, arguments, returned⟩ := outcome_callbackPlan_eq_ok_iff.1 planned
  obtain ⟨passages, carried⟩ := exists_forall₂_iff.2 fun a (member : a ∈ plan.arguments) => by
    obtain ⟨argument, -, passed⟩ := exists_of_forall₂ arguments member
    exact Passage.exists_carries (outcome_planCallbackArgument_eq_ok_iff.1 passed).2.2
  obtain ⟨reply, replied⟩ := exists_reply returned
  exact ⟨⟨plan.callback.name, plan.shim, passages, reply⟩, rfl, rfl, carried, replied⟩

/-- An argument of a callback and the passage that its value takes. -/
structure Passes (s : Session) (a : Argument) (x : Passage) : Prop where
  fits : x.Fits
  received : ∃ m, (s.argument a.type a.flags).outcome = .ok m ∧ m.paramType = x.received

/-- The bridge of a declared callback: one passage for each of its arguments, in their order, and a
reply unless it returns nothing. The reply is a cell where it returns a shared interface. -/
structure Bridges (s : Session) (c : Callback) (b : Bridge) : Prop where
  callback : b.callback = c.name
  shim : b.shim = s.mangle c.name "__invoke__" c.arguments.length
  arguments : List.Forall₂ s.Passes c.arguments b.passages
  void : b.reply = .nothing ↔ s.scope.meaning c.returnType {} = .ok none
  shared : ∀ cpp, b.reply = .shared cpp ↔
    ∃ i ∈ s.declarations.interfaces, i.ownership = .shared ∧ i.nativeName = cpp ∧
      ∃ nullable, s.scope.meaning c.returnType {} = .ok (some ⟨.interface i.name, nullable, {}⟩)

theorem void_iff_of_returns {e : TypeExpr} {returns : Option Marshaling} {reply : Reply}
    (h : s.Returns e returns) (replied : Reply.Of returns reply) :
    reply = .nothing ↔ s.scope.meaning e {} = .ok none := by
  obtain ⟨resolved, rfl⟩ | ⟨d, m, resolved, -, rfl, -⟩ := h
  · cases replied
    simp [resolved]
  · rw [resolved]
    cases replied <;> simp

theorem shared_iff_of_returns {e : TypeExpr} {returns : Option Marshaling} {reply : Reply}
    (h : s.Returns e returns) (replied : Reply.Of returns reply) (cpp : String) :
    reply = .shared cpp ↔
      ∃ i ∈ s.declarations.interfaces, i.ownership = .shared ∧ i.nativeName = cpp ∧
        ∃ nullable, s.scope.meaning e {} = .ok (some ⟨.interface i.name, nullable, {}⟩) := by
  obtain ⟨resolved, rfl⟩ | ⟨d, m, resolved, found, rfl, -⟩ := h
  · cases replied
    simp [resolved]
  · constructor
    · rintro rfl
      cases replied with
      | shared name cpp flags nullable =>
        obtain ⟨rfl, i, member, rfl, owned, native⟩ := classify_eq_sharedInterface_iff.1 found
        have plain : flags = {} := (Scope.meaningIn_some resolved).1
        exact ⟨i, member, owned, native, nullable, plain ▸ resolved⟩
    · rintro ⟨i, member, owned, rfl, nullable, resolved'⟩
      rw [resolved] at resolved'
      cases resolved'
      rw [classify_eq_sharedInterface_iff.2 ⟨rfl, i, member, rfl, owned, rfl⟩] at found
      cases found
      cases replied
      rfl

theorem bridges_of_planned {c : Callback} {plan : CallbackPlan} {b : Bridge}
    (planned : (s.callbackPlan c).outcome = .ok plan) (h : b.Of plan) : s.Bridges c b := by
  obtain ⟨rfl, shim, arguments, returned⟩ := outcome_callbackPlan_eq_ok_iff.1 planned
  refine ⟨h.callback, h.shim.trans shim, ?_, void_iff_of_returns returned h.reply,
    shared_iff_of_returns returned h.reply⟩
  refine forall₂_compose ?_ arguments h.passages
  intro a m x passed carried
  obtain ⟨-, passed, -⟩ := outcome_planCallbackArgument_eq_ok_iff.1 passed
  exact ⟨carried.fits, m.marshaling, passed, carried.received⟩

/-- After any requests, the shim, the script function and all callables of a planned callback are
those of one bridge, and so is the signature that is planned for it. An entry point of any interface
that takes the callback hands such a callable to native code. -/
theorem callback_sides_agree {requests : List Request} {plan : CallbackPlan}
    (planned : plan ∈ (s.after requests).callbacks) :
    ∃ b : Bridge, s.Bridges plan.callback b ∧
      plan.nativeLines = .ok b.shimLines ∧ plan.scriptLines = b.scriptLines ∧
      plan.signature = .ok b.signature ∧
      (∀ token nullable, plan.nativeCallable token nullable = .ok (b.callable token nullable)) ∧
      ∀ m : Marshaling, m.base = .callback plan.callback.name → ∀ token,
        m.nativeArgument (s.after requests).callbacks token =
          .ok (b.callable token m.nullable) := by
  have accurate := ((invariant_accurate (s := s)).after requests).2
  obtain ⟨-, outcome⟩ := accurate.callbacks plan planned
  obtain ⟨b, h⟩ := exists_bridge outcome
  refine ⟨b, bridges_of_planned outcome h, h.nativeLines, h.scriptLines, h.signature,
    h.nativeCallable, ?_⟩
  intro m base token
  cases m with
  | callback name flags nullable =>
    cases base
    rw [Marshaling.nativeArgument, accurate.find?_callback planned]
    simp only [h.nativeCallable]
    rfl
  | scalar | string | sequence | interface | sharedInterface | valueType => cases base

/-- Objects of a scene are picked by a callback that gets a constant reference, a record and a truth
value, and gives back a shared scene. -/
def pickers : Session where
  declarations :=
    { interfaces :=
        [{ name := "Shape" },
         { name := "Scene", ownership := .shared
           operations :=
             [{ name := "search", returnType := { name := "void" }
                arguments :=
                  [{ name := "pick", type := { name := "Pick", nullable := true } }] }] }]
      valueTypes := [{ name := "Spot", fields := [{ name := "x", type := { name := "float" } }] }]
      callbacks :=
        [{ name := "Pick", returnType := { name := "Scene" }
           arguments :=
             [{ name := "shape", type := { name := "Shape" }
                flags := { byRef := true, isConst := true } },
              { name := "at", type := { name := "Spot" } },
              { name := "deep", type := { name := "boolean" } }] }] }
  options := {}
  distinct := by decide

theorem pickers_sides_agree :
    ∃ plan ∈ (pickers.after [.prepare]).callbacks, ∃ b : Bridge, pickers.Bridges plan.callback b ∧
      plan.nativeLines = .ok b.shimLines ∧ plan.scriptLines = b.scriptLines ∧
      plan.signature = .ok b.signature ∧
      (∀ token, (Marshaling.callback plan.callback.name {} true).nativeArgument
        (pickers.after [.prepare]).callbacks token = .ok (b.callable token true)) ∧
      b.callable "arg0" false =
        "[arg0](const Shape& cb0, const Spot& cb1, bool cb2) -> std::shared_ptr<Scene> \x7b " ++
        "std::shared_ptr<Scene>* cell = jsbind_Pick___invoke___3(arg0, const_cast<Shape*>(&cb0), " ++
        "const_cast<Spot*>(&cb1), cb2); return (cell ? *cell : std::shared_ptr<Scene>()); \x7d" := by
  have texts : (pickers.after [.prepare]).callbacks.map (·.nativeCallable "arg0" false) =
      [.ok ("[arg0](const Shape& cb0, const Spot& cb1, bool cb2) -> std::shared_ptr<Scene> \x7b " ++
        "std::shared_ptr<Scene>* cell = jsbind_Pick___invoke___3(arg0, const_cast<Shape*>(&cb0), " ++
        "const_cast<Spot*>(&cb1), cb2); return (cell ? *cell : std::shared_ptr<Scene>()); \x7d")] := by
    decide +kernel
  obtain ⟨plan, only, text⟩ := List.map_eq_singleton_iff.1 texts
  have planned : plan ∈ (pickers.after [.prepare]).callbacks := only ▸ List.mem_singleton_self plan
  obtain ⟨b, bridges, native, script, signature, callable, handed⟩ := callback_sides_agree planned
  refine ⟨plan, planned, b, bridges, native, script, signature, handed _ rfl, ?_⟩
  exact Except.ok.inj ((callable "arg0" false).symm.trans text)

end Session

end NativeBridge
