import NativeBridge.Command.Arguments

/-!
# Usage

The texts that explain the command line.
-/
namespace NativeBridge.Command

def usageText : String :=
  "usage: generate_bindings.py [-h] [--idl IDL] [--output OUTPUT]\n" ++
  "                            [--module MODULE] [--prefix PREFIX] [--verbose]\n" ++
  "                            [idl_file] [output_base]\n"

def helpText : String :=
  usageText ++
  "\nGenerate Emscripten bindings from IDL\n" ++
  "\npositional arguments:\n" ++
  "  idl_file              Path to IDL file (positional)\n" ++
  "  output_base           Output base path, without extension\n" ++
  "\noptions:\n" ++
  "  -h, --help            show this help message and exit\n" ++
  "  --idl IDL             Path to IDL file (alternative)\n" ++
  "  --output OUTPUT, -o OUTPUT\n" ++
  "                        Output base path (alternative)\n" ++
  "  --module MODULE       Script module object the classes are published on\n" ++
  "  --prefix PREFIX       Prefix of the native entry points\n" ++
  "  --verbose, -v         Log type resolution and planning\n"

namespace Halt

def exitCode : Halt → Nat
  | help => 0
  | misuse _ => 2

/-- The text of the output stream. -/
def answer : Halt → String
  | help => helpText
  | misuse _ => ""

/-- The last line of the error stream. -/
def complaint : Halt → String
  | help => ""
  | misuse cause => "generate_bindings.py: error: " ++ cause.message

end Halt

end NativeBridge.Command
