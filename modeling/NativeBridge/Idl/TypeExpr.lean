/-!
# Type expressions

A type as written in a declaration, before its names are looked up: a name, a sequence of an element
type, or a union of member types, possibly nullable. A value may carry several of these at once;
union members then stand before an element, and an element before a name.
-/
namespace NativeBridge

structure TypeExpr where
  name : String := ""
  element : Option TypeExpr := none
  union : List TypeExpr := []
  nullable : Bool := false
  deriving Repr, Inhabited

namespace TypeExpr

mutual

def decEq : (a b : TypeExpr) → Decidable (a = b)
  | ⟨n₁, e₁, u₁, q₁⟩, ⟨n₂, e₂, u₂, q₂⟩ =>
    match instDecidableEqString n₁ n₂, decEqElement e₁ e₂, decEqMembers u₁ u₂,
      instDecidableEqBool q₁ q₂ with
    | isTrue hn, isTrue he, isTrue hu, isTrue hq => isTrue (by subst hn he hu hq; rfl)
    | isFalse h, _, _, _ => isFalse (fun eq => h (by injection eq))
    | _, isFalse h, _, _ => isFalse (fun eq => h (by injection eq))
    | _, _, isFalse h, _ => isFalse (fun eq => h (by injection eq))
    | _, _, _, isFalse h => isFalse (fun eq => h (by injection eq))

def decEqElement : (a b : Option TypeExpr) → Decidable (a = b)
  | none, none => isTrue rfl
  | none, some _ => isFalse (fun eq => by cases eq)
  | some _, none => isFalse (fun eq => by cases eq)
  | some a, some b =>
    match decEq a b with
    | isTrue h => isTrue (by subst h; rfl)
    | isFalse h => isFalse (fun eq => h (by injection eq))

def decEqMembers : (as bs : List TypeExpr) → Decidable (as = bs)
  | [], [] => isTrue rfl
  | [], _ :: _ => isFalse (fun eq => by cases eq)
  | _ :: _, [] => isFalse (fun eq => by cases eq)
  | a :: as, b :: bs =>
    match decEq a b, decEqMembers as bs with
    | isTrue h₁, isTrue h₂ => isTrue (by subst h₁ h₂; rfl)
    | isFalse h, _ => isFalse (fun eq => h (by injection eq))
    | _, isFalse h => isFalse (fun eq => h (by injection eq))

end

instance : DecidableEq TypeExpr := decEq

def isSequence (e : TypeExpr) : Bool := e.element.isSome

mutual

/-- The written form: a union in parentheses, `sequence<…>`, or the name, and `?` when nullable. -/
def print : TypeExpr → List Char
  | ⟨name, element, union, nullable⟩ =>
    (match union with
    | m :: ms => '(' :: m.print ++ printMore ms ++ [')']
    | [] =>
      match element with
      | some e => "sequence<".toList ++ e.print ++ ['>']
      | none => name.toList) ++
    if nullable then ['?'] else []

def printMore : List TypeExpr → List Char
  | [] => []
  | m :: ms => " or ".toList ++ m.print ++ printMore ms

end

def text (e : TypeExpr) : String := String.ofList e.print

end TypeExpr

end NativeBridge
