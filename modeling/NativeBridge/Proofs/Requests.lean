import NativeBridge.Proofs.Preparation

/-!
# What a session is asked to do

Between its creation and its end a session answers queries, registers and plans declarations by
name, and generates bindings, in any order. A request that fails leaves behind what it had found
out, and the next one goes on from there. What queries leave behind never shows: each is answered as
by a session that has just been created.
-/
namespace NativeBridge

/-- A question about types or members. A type is resolved at places, the outermost first.
Marshalings are asked for with a variable and a call, which stand in the texts of the answer. -/
inductive Query where
  | resolve (places : List Place) (e : TypeExpr) (flags : Flags)
  | argument (e : TypeExpr) (flags : Flags) (var call : String)
  | result (e : TypeExpr) (flags : Flags) (var call : String)
  | classify (e : TypeExpr) (flags : Flags) (var call : String)
  | constructors (i : Interface)
  | operations (i : Interface)
  | interface (i : Interface)
  deriving DecidableEq

/-- All that a marshaling says about a variable and a call. -/
structure MarshalingTexts where
  paramType : String
  nativeArgument : Except Failure String
  conversion : Option String
  returnType : Except Unmarshalable String
  returnStatements : List String
  scriptResult : String
  callableParam : Except Unmarshalable String
  forwarded : String
  scriptArgument : String
  nativeResult : String
  callableResult : String

/-- What a callback is handed to native code as depends on its plan. -/
def Marshaling.texts (m : Marshaling) (callbacks : List CallbackPlan) (var call : String) :
    MarshalingTexts where
  paramType := m.paramType
  nativeArgument := m.nativeArgument callbacks var
  conversion := m.conversion var
  returnType := m.returnType
  returnStatements := m.returnStatements call
  scriptResult := m.scriptResult var
  callableParam := m.callableParam
  forwarded := m.forwarded var
  scriptArgument := m.scriptArgument var
  nativeResult := m.nativeResult var
  callableResult := m.callableResult var

/-- The answer to a query. A result of type `void` has no marshaling. -/
inductive Answer where
  | type (d : Option Descriptor)
  | marshaling (m : Option (Marshaling × MarshalingTexts))
  | group (g : OverloadGroup)
  | groups (gs : List OverloadGroup)
  | plan (plan : InterfacePlan)

/-- A step of a session. Emission and other steps that only look at what is planned are given by
what they see in it. -/
inductive Request where
  | query (q : Query)
  | register (valueType : String)
  | planCallback (callback : String)
  | prepare
  | generate
  | look (view : Progress → Except Failure Unit)

namespace Session

variable (s : Session)

/-- A marshaling with its texts, as far as callbacks are planned. -/
def worded (var call : String) (m : Option Marshaling) : Planning Answer := do
  let p ← get
  return .marshaling (m.map fun m => (m, m.texts p.callbacks var call))

def ask : Query → Planning Answer
  | .resolve places e flags => do
    return .type (← places.foldr Planning.within (s.resolve e flags))
  | .argument e flags var call => do worded var call (some (← s.argument e flags))
  | .result e flags var call => do
    let d ← s.resolve e flags
    worded var call (← s.resultOf d)
  | .classify e flags var call => do
    let d ← s.resolve e flags
    worded var call (some (← s.marshalingOf d))
  | .constructors i => do return .group (← s.planConstructors i)
  | .operations i => do return .groups (← s.planOperations i)
  | .interface i => do return .plan (← s.planInterface i)

/-- The answers to queries that are asked one after another, and what they leave behind. -/
def askAll : List Query → Progress → List (Except Failure Answer) × Progress
  | [], p => ([], p)
  | q :: rest, p =>
    let asked := (s.ask q).runFrom p
    let others := askAll rest asked.2
    (asked.1 :: others.1, others.2)

def perform : Request → Planning Unit
  | .query q => discard (s.ask q)
  | .register name =>
    match s.valueType? name with
    | some v => discard (s.register v)
    | none => throw (.missing name)
  | .planCallback name =>
    match s.callback? name with
    | some c => discard (s.planCallback c)
    | none => throw (.missing name)
  | .prepare => discard s.prepare
  | .generate => discard s.generate
  | .look view => do Planning.check (view (← get))

/-- Progress after some requests, whether they succeed or not. -/
def after (requests : List Request) : Progress :=
  requests.foldl (fun p request => ((s.perform request).runFrom p).2) {}

end Session

/-! ## Steps that look at tables only -/

theorem Progress.SameTables.symm {p q : Progress} (h : p.SameTables q) : q.SameTables p :=
  ⟨h.slots.symm, h.layouts.symm, h.callbacks.symm, h.plans.symm⟩

namespace Session

variable {s : Session} {α β : Type}

/-- Sound progress with the same tables; what is remembered and reported may differ. -/
structure Alike (s : Session) (p q : Progress) : Prop where
  left : s.Sound p
  right : s.Sound q
  tables : p.SameTables q

/-- A step that ends the same way from progress that is alike, and leaves it alike. -/
def Uniform (s : Session) (x : Planning α) : Prop :=
  ∀ p q, s.Alike p q →
    (x.runFrom p).1 = (x.runFrom q).1 ∧ s.Alike (x.runFrom p).2 (x.runFrom q).2

theorem Steady.uniform {x : Planning α} (hx : s.Steady x) : s.Uniform x := by
  intro p q alike
  refine ⟨(hx.result alike.left).trans (hx.result alike.right).symm, ?_⟩
  refine ⟨hx.sound alike.left, hx.sound alike.right, ?_⟩
  exact ((hx.tables p).symm.trans alike.tables).trans (hx.tables q)

namespace Uniform

theorem bind {x : Planning α} {f : α → Planning β} (hx : s.Uniform x) (hf : ∀ a, s.Uniform (f a)) :
    s.Uniform (x >>= f) := by
  intro p q alike
  obtain ⟨same, alike'⟩ := hx p q alike
  rw [ExceptT.runFrom_bind, ExceptT.runFrom_bind]
  rcases ranP : x.runFrom p with ⟨_ | a, p'⟩ <;> rcases ranQ : x.runFrom q with ⟨_ | b, q'⟩ <;>
    rw [ranP, ranQ] at same alike'
  · exact ⟨by cases same; rfl, alike'⟩
  · cases same
  · cases same
  · cases same
    exact hf a _ _ alike'

theorem modify {f : Progress → Progress} (hf : ∀ {p q}, s.Alike p q → s.Alike (f p) (f q)) :
    s.Uniform (modify f : Planning PUnit) := fun _ _ alike => ⟨rfl, hf alike⟩

theorem foldlM {f : β → α → Planning β} (hf : ∀ b a, s.Uniform (f b a)) (items : List α) (b : β) :
    s.Uniform (items.foldlM f b) := by
  induction items generalizing b with
  | nil => exact (Steady.pure b).uniform
  | cons a rest ih =>
    rw [List.foldlM_cons]
    exact (hf b a).bind ih

theorem forM_discard {f : α → Planning β} (hf : ∀ a, s.Uniform (f a)) (items : List α) :
    s.Uniform (items.forM fun a => discard (f a)) := by
  rw [ExceptT.forM_eq_foldlM]
  exact foldlM (fun _ a => (hf a).bind fun _ => (Steady.pure ()).uniform) items ()

end Uniform

theorem uniform_reserve (valueType : String) (field : Option String) :
    s.Uniform (reserve valueType field) := by
  intro p q alike
  rw [runFrom_reserve, runFrom_reserve, alike.tables.slots]
  refine ⟨rfl, alike.left, alike.right, ?_, alike.tables.layouts, alike.tables.callbacks,
    alike.tables.plans⟩
  simp only [Progress.reserving, alike.tables.slots]

theorem uniform_addField (v : ValueType) (fields : List FieldLayout)
    (item : ValueType × Attribute) :
    s.Uniform (s.addField v fields item) := by
  obtain ⟨owner, field⟩ := item
  rw [addField]
  split
  · intro p q alike
    exact ⟨rfl, alike⟩
  · refine (steady_fieldKind owner field).uniform.bind fun kind => ?_
    exact (uniform_reserve v.name (some field.name)).bind fun slot => (Steady.pure _).uniform

/-- Registering gives the same layout from progress that is alike. -/
theorem uniform_register (v : ValueType) : s.Uniform (s.register v) := by
  intro p q alike
  rw [register, ExceptT.runFrom_bind_ok (ExceptT.runFrom_get p),
    ExceptT.runFrom_bind_ok (ExceptT.runFrom_get q), alike.tables.layouts]
  cases p.layouts.find? (·.valueType.name = v.name) with
  | some layout => exact ⟨rfl, alike⟩
  | none =>
    refine (uniform_reserve v.name none).bind (fun sizeSlot => ?_) p q alike
    refine (Steady.check (s.lineage v)).uniform.bind fun owners => ?_
    refine (Uniform.foldlM (uniform_addField v) (ownedFields owners) []).bind fun fields => ?_
    refine (Uniform.modify fun {p q} alike => ?_).bind fun _ =>
      (Steady.note _).uniform.bind fun _ => (Steady.pure _).uniform
    refine ⟨alike.left, alike.right, alike.tables.slots, ?_, alike.tables.callbacks,
      alike.tables.plans⟩
    simp only [alike.tables.layouts]

theorem uniform_planCallback (c : Callback) : s.Uniform (s.planCallback c) := by
  intro p q alike
  rw [planCallback, ExceptT.runFrom_bind_ok (ExceptT.runFrom_get p),
    ExceptT.runFrom_bind_ok (ExceptT.runFrom_get q), alike.tables.callbacks]
  cases p.callbacks.find? (·.callback.name = c.name) with
  | some plan => exact ⟨rfl, alike⟩
  | none =>
    refine (steady_callbackPlan c).uniform.bind (fun plan => ?_) p q alike
    refine (Uniform.modify fun {p q} alike => ?_).bind fun _ =>
      (Steady.note _).uniform.bind fun _ => (Steady.pure _).uniform
    refine ⟨alike.left, alike.right, alike.tables.slots, alike.tables.layouts, ?_,
      alike.tables.plans⟩
    simp only [alike.tables.callbacks]

theorem uniform_prepare : s.Uniform s.prepare := by
  refine (Steady.check s.orderInterfaces).uniform.bind fun ordered => ?_
  refine (Uniform.forM_discard uniform_register _).bind fun _ => ?_
  refine (Uniform.forM_discard uniform_planCallback _).bind fun _ => ?_
  refine (Steady.mapM steady_planInterface ordered).uniform.bind fun plans => ?_
  refine (Uniform.modify fun {p q} alike => ?_).bind fun _ => ?_
  · exact ⟨alike.left, alike.right, alike.tables.slots, alike.tables.layouts,
      alike.tables.callbacks, rfl⟩
  · -- the report counts entries of tables and goes to the log only
    intro p q alike
    exact ⟨rfl, alike.left, alike.right, alike.tables.slots, alike.tables.layouts,
      alike.tables.callbacks, alike.tables.plans⟩

/-- What is emitted depends on tables only. -/
theorem parts_of_sameTables {p q : Progress} (same : p.SameTables q) (plans : List InterfacePlan) :
    s.scriptParts q plans = s.scriptParts p plans ∧
      s.nativeParts q plans = s.nativeParts p plans := by
  constructor
  · simp only [scriptParts, same.slots, same.layouts, same.callbacks]
  · simp only [nativeParts, same.slots, same.layouts, same.callbacks]

theorem uniform_generate : s.Uniform s.generate := by
  refine uniform_prepare.bind fun plans => ?_
  intro p q alike
  obtain ⟨script, native⟩ := parts_of_sameTables (s := s) alike.tables plans
  rw [ExceptT.runFrom_bind_ok (ExceptT.runFrom_get p),
    ExceptT.runFrom_bind_ok (ExceptT.runFrom_get q), script, native]
  refine ((Steady.check _).bind fun script => ?_).uniform p q alike
  exact (Steady.check _).bind fun native => .pure _

/-! ## Queries -/

theorem uniform_worded (var call : String) (m : Option Marshaling) :
    s.Uniform (worded var call m) := by
  intro p q alike
  refine ⟨?_, alike⟩
  rw [worded, ExceptT.runFrom_bind_ok (ExceptT.runFrom_get p),
    ExceptT.runFrom_bind_ok (ExceptT.runFrom_get q), alike.tables.callbacks]
  rfl

theorem sameTables_bind_worded {x : Planning α} (hx : s.Steady x) (var call : String)
    (m : α → Option Marshaling) (p : Progress) :
    p.SameTables ((x >>= fun a => worded var call (m a)).runFrom p).2 := by
  have kept := hx.tables p
  rw [ExceptT.runFrom_bind]
  rcases ran : x.runFrom p with ⟨_ | a, p'⟩ <;> rw [ran] at kept <;> exact kept

/-- A query is a steady step, after which a marshaling is put into words. -/
theorem ask_cases (q : Query) :
    s.Steady (s.ask q) ∨
      ∃ (α : Type) (x : Planning α) (var call : String) (m : α → Option Marshaling),
      s.Steady x ∧ s.ask q = x >>= fun a => worded var call (m a) := by
  cases q with
  | resolve places e flags =>
    refine .inl (Steady.bind ?_ fun _ => .pure _)
    induction places with
    | nil => exact steady_resolve e flags
    | cons place rest ih => exact .within place ih
  | argument e flags var call =>
    exact .inr ⟨_, s.argument e flags, var, call, some, steady_argument e flags, rfl⟩
  | result e flags var call =>
    refine .inr ⟨_, s.resolve e flags >>= s.resultOf, var, call, id, ?_, ?_⟩
    · exact (steady_resolve e flags).bind steady_resultOf
    · simp only [ask, bind_assoc, id]
  | classify e flags var call =>
    refine .inr ⟨_, s.resolve e flags >>= s.marshalingOf, var, call, some, ?_, ?_⟩
    · exact (steady_resolve e flags).bind steady_marshalingOf
    · simp only [ask, bind_assoc]
  | constructors i => exact .inl ((steady_planConstructors i).bind fun _ => .pure _)
  | operations i => exact .inl ((steady_planOperations i).bind fun _ => .pure _)
  | interface i => exact .inl ((steady_planInterface i).bind fun _ => .pure _)

theorem uniform_ask (q : Query) : s.Uniform (s.ask q) := by
  obtain steady | ⟨α, x, var, call, m, steady, same⟩ := ask_cases (s := s) q
  · exact steady.uniform
  · rw [same]
    exact steady.uniform.bind fun a => uniform_worded var call (m a)

theorem sameTables_ask (q : Query) (p : Progress) : p.SameTables ((s.ask q).runFrom p).2 := by
  obtain steady | ⟨α, x, var, call, m, steady, same⟩ := ask_cases (s := s) q
  · exact steady.tables p
  · rw [same]
    exact sameTables_bind_worded steady var call m p

/-- One query answers as from a fresh start and leaves progress that is like a fresh start. -/
theorem ask_of_alike {p : Progress} (alike : s.Alike {} p) (q : Query) :
    ((s.ask q).runFrom p).1 = (s.ask q).outcome ∧ s.Alike {} ((s.ask q).runFrom p).2 := by
  obtain ⟨same, after⟩ := uniform_ask q {} p alike
  refine ⟨same.symm, sound_empty s, after.right, ?_⟩
  exact alike.tables.trans (sameTables_ask q p)

theorem askAll_of_alike {p : Progress} (alike : s.Alike {} p) (queries : List Query) :
    (s.askAll queries p).1 = queries.map (fun q => (s.ask q).outcome) ∧
      s.Alike {} (s.askAll queries p).2 := by
  induction queries generalizing p with
  | nil => exact ⟨rfl, alike⟩
  | cons q rest ih =>
    obtain ⟨answer, alike'⟩ := ask_of_alike alike q
    obtain ⟨answers, alike''⟩ := ih alike'
    refine ⟨?_, alike''⟩
    rw [askAll, List.map_cons, ← answer, ← answers]

/-- However many queries have been asked before and however they ended, each is answered as by a
fresh session, and bindings are generated as by a fresh session in the end. -/
theorem answers_independent_of_history (s : Session) (queries : List Query) :
    (s.askAll queries {}).1 = queries.map (fun q => (s.ask q).outcome) ∧
      (s.generate.runFrom (s.askAll queries {}).2).1 = s.generate.outcome := by
  have fresh : s.Alike {} {} := ⟨sound_empty s, sound_empty s, .refl {}⟩
  obtain ⟨answers, alike⟩ := askAll_of_alike fresh queries
  exact ⟨answers, (uniform_generate _ _ alike).1.symm⟩

end Session

end NativeBridge
