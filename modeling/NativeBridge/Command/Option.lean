import NativeBridge.Text.Quoted

/-!
# Options

The options of the command line, how they are spelled, and how a command line can be misused.
-/
namespace NativeBridge.Command

inductive Opt where
  | help
  | idl
  | output
  | moduleName
  | entryPrefix
  | verbose
  deriving DecidableEq, Repr

namespace Opt

def takesValue : Opt → Bool
  | help | verbose => false
  | idl | output | moduleName | entryPrefix => true

def spellings : Opt → List String
  | help => ["-h", "--help"]
  | idl => ["--idl"]
  | output => ["--output", "-o"]
  | moduleName => ["--module"]
  | entryPrefix => ["--prefix"]
  | verbose => ["--verbose", "-v"]

def all : List Opt := [help, idl, output, moduleName, entryPrefix, verbose]

def label (o : Opt) : String := "/".intercalate o.spellings

/-- Every spelling with its option. -/
def table : List (String × Opt) := all.flatMap fun o => o.spellings.map (·, o)

def ofSpelling? (text : String) : Option Opt := table.lookup text

end Opt

inductive Misuse where
  | ambiguous (text : String) (candidates : List String)
  | ignoredValue (opt : Opt) (value : String)
  | missingValue (opt : Opt)
  | unrecognized (texts : List String)
  | noInput
  deriving DecidableEq, Repr

def Misuse.message : Misuse → String
  | .ambiguous text candidates =>
    let listed := ", ".intercalate candidates
    s!"ambiguous option: {text} could match {listed}"
  | .ignoredValue opt value =>
    s!"argument {opt.label}: ignored explicit argument {Text.quote value}"
  | .missingValue opt => s!"argument {opt.label}: expected one argument"
  | .unrecognized texts => "unrecognized arguments: " ++ " ".intercalate texts
  | .noInput => "IDL file is required (positional or --idl)"

end NativeBridge.Command
