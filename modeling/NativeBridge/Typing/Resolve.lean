import NativeBridge.Typing.Scope

/-!
# Resolution with a memo

Every successful resolution, inner ones included, is remembered under its expression and flags and
answered from the memo from then on. Failures are not remembered. Descriptors are values here. That
equal ones are one object is no part of an answer, and is told of the objects behind it in
`Proofs.Layers`.
-/
namespace NativeBridge

structure Resolution where
  type : TypeExpr
  flags : Flags
  result : Option Descriptor
  deriving DecidableEq

/-- Resolutions in the order in which they succeeded. -/
abbrev Memo := List Resolution

def Memo.find? (memo : Memo) (e : TypeExpr) (flags : Flags) : Option (Option Descriptor) :=
  (List.find? (fun r => r.type = e && r.flags = flags) memo).map (·.result)

/-- Remembers a success. -/
def settle (memo : Memo) (e : TypeExpr) (flags : Flags) : Resolved → Resolved × Memo
  | .ok result => (.ok result, memo ++ [{ type := e, flags, result }])
  | .error cause => (.error cause, memo)

/-- Resolves an expression while the typedefs in `pending` are being resolved. -/
def Scope.resolveIn (scope : Scope) (pending : List String) (e : TypeExpr) (flags : Flags)
    (memo : Memo) : Resolved × Memo :=
  match memo.find? e flags with
  | some result => (.ok result, memo)
  | none =>
    match _step : scope.step pending e flags with
    | .answer result => settle memo e flags result
    | .inner inner pending' finish =>
      match scope.resolveIn pending' inner {} memo with
      | (.ok result, memo) => settle memo e flags (finish result)
      | (.error cause, memo) => (.error cause, memo)
termination_by scope.stepsLeft pending e
decreasing_by exact Scope.step_decreases _step

def Scope.resolve (scope : Scope) (e : TypeExpr) (flags : Flags) (memo : Memo) : Resolved × Memo :=
  scope.resolveIn [] e flags memo

end NativeBridge
