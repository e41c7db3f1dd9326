/-!
# Scalar kinds

The numeric and boolean types, with what each is on the native side: its type, its width in bytes,
the heap view that holds it, and the helper that stages a sequence of it.
-/
namespace NativeBridge

inductive ScalarKind where
  | boolean
  | byte
  | octet
  | short
  | unsignedShort
  | long
  | unsignedLong
  | longLong
  | unsignedLongLong
  | float
  | double
  deriving DecidableEq, Repr

namespace ScalarKind

def all : List ScalarKind :=
  [boolean, byte, octet, short, unsignedShort, long, unsignedLong, longLong, unsignedLongLong,
   float, double]

def idlName : ScalarKind → String
  | boolean => "boolean"
  | byte => "byte"
  | octet => "octet"
  | short => "short"
  | unsignedShort => "unsigned short"
  | long => "long"
  | unsignedLong => "unsigned long"
  | longLong => "long long"
  | unsignedLongLong => "unsigned long long"
  | float => "float"
  | double => "double"

def cppType : ScalarKind → String
  | boolean => "bool"
  | byte => "char"
  | octet => "unsigned char"
  | short => "short"
  | unsignedShort => "unsigned short"
  | long => "int"
  | unsignedLong => "unsigned int"
  | longLong => "long long"
  | unsignedLongLong => "unsigned long long"
  | float => "float"
  | double => "double"

/-- The width is two to this power. -/
def shift : ScalarKind → Nat
  | boolean | byte | octet => 0
  | short | unsignedShort => 1
  | long | unsignedLong | float => 2
  | longLong | unsignedLongLong | double => 3

def heapView : ScalarKind → String
  | boolean => "HEAPU8"
  | byte => "HEAP8"
  | octet => "HEAPU8"
  | short => "HEAP16"
  | unsignedShort => "HEAPU16"
  | long => "HEAP32"
  | unsignedLong => "HEAPU32"
  | longLong => "HEAP64"
  | unsignedLongLong => "HEAPU64"
  | float => "HEAPF32"
  | double => "HEAPF64"

/-- The helper that stages a sequence; integers of eight bytes have none. -/
def stagingHelper : ScalarKind → Option String
  | boolean | byte | octet => some "ensureI8"
  | short | unsignedShort => some "ensureI16"
  | long | unsignedLong => some "ensureI32"
  | longLong | unsignedLongLong => none
  | float => some "ensureF32"
  | double => some "ensureF64"

def isWideInteger : ScalarKind → Bool
  | longLong | unsignedLongLong => true
  | _ => false

def ofName? (name : String) : Option ScalarKind := all.find? (·.idlName = name)

end ScalarKind

end NativeBridge
