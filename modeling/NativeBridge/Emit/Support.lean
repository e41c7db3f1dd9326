import NativeBridge.Emit.Native

/-!
# Support code

The text that stands ahead of all bindings. Staged arguments share one buffer, which a call made
outside any callback resets; a call made while a callback runs appends to it, since native code may
still read what the outer call staged.
-/
namespace NativeBridge

/-- The native unit is included after the declarations of the bound classes. -/
def nativePrologue : List String :=
  ["// AUTO-GENERATED - DO NOT EDIT",
   "// Include this file after the declarations of the bound classes.",
   "#include <emscripten.h>",
   "",
   "#include <cstddef>",
   "#include <functional>",
   "#include <memory>",
   "#include <string>",
   "#include <utility>",
   ""]

/-- A helper that copies a sequence into the staging buffer. The heap view is read after
allocating, because allocating may move it. -/
def stagingHelperLines (name : String) (width : Nat) (view shift : String) : List String :=
  [s!"function {name}(value) \x7b",
   "  if (value === null || value === undefined) return 0;",
   "  if (typeof value !== 'object') return value;",
   s!"  var ptr = ensureCache.allocBytes(value.length * {width});",
   s!"  {view}.set(value, ptr{shift});",
   "  return ptr;",
   "\x7d",
   ""]

def stagingBuffer (moduleName : String) : List String :=
  ["// AUTO-GENERATED - DO NOT EDIT",
   "",
   "// Temporary native storage for strings, sequences and value types",
   "var ensureCache = \x7b",
   "  buffer: 0,   // the main buffer of temporary storage",
   "  size: 0,     // the size of buffer",
   "  pos: 0,      // the next free offset in buffer",
   "  temps: [],   // extra allocations made when the buffer overflowed",
   "  needed: 0,   // how much to grow the buffer by next time",
   "  depth: 0,    // callbacks currently running inside a native call",
   "",
   "  prepare: function() \x7b",
   "    if (this.depth && this.buffer) return;",
   "    if (this.needed) \x7b",
   "      for (var i = 0; i < this.temps.length; i++) \x7b",
   s!"        {moduleName}['_free'](this.temps[i]);",
   "      \x7d",
   "      this.temps.length = 0;",
   s!"      {moduleName}['_free'](this.buffer);",
   "      this.buffer = 0;",
   "      this.size += this.needed;",
   "      this.needed = 0;",
   "    \x7d",
   "    if (!this.buffer) \x7b",
   "      this.size += 128;",
   s!"      this.buffer = {moduleName}['_malloc'](this.size);",
   "      assert(this.buffer);",
   "    \x7d",
   "    this.pos = 0;",
   "  \x7d,",
   "",
   "  allocBytes: function(len) \x7b",
   "    assert(this.buffer);",
   "    len = ((len || 1) + 7) & -8;  // 8-byte aligned",
   "    var ret;",
   "    if (this.pos + len >= this.size) \x7b",
   "      this.needed += len;",
   s!"      ret = {moduleName}['_malloc'](len);",
   "      this.temps.push(ret);",
   "    \x7d else \x7b",
   "      ret = this.buffer + this.pos;",
   "      this.pos += len;",
   "    \x7d",
   "    return ret;",
   "  \x7d,",
   "\x7d;",
   "",
   "function ensureString(value) \x7b",
   "  if (value === null || value === undefined) return 0;",
   "  if (typeof value !== 'string') return value;",
   "  var len = lengthBytesUTF8(value) + 1;",
   "  var ptr = ensureCache.allocBytes(len);",
   "  stringToUTF8(value, ptr, len);",
   "  return ptr;",
   "\x7d",
   ""]

def stagingHelpers : List String :=
  stagingHelperLines "ensureI8" 1 "HEAP8" "" ++
    stagingHelperLines "ensureI16" 2 "HEAP16" " >> 1" ++
    stagingHelperLines "ensureI32" 4 "HEAP32" " >> 2" ++
    stagingHelperLines "ensureF32" 4 "HEAPF32" " >> 2" ++
    stagingHelperLines "ensureF64" 8 "HEAPF64" " >> 3"

/-- The class that gives each script function one token for good. -/
def callbackRegistry : List String :=
  ["// Maps script functions to integer tokens native code can hold on to",
   "class CallbackRegistry \x7b",
   "  constructor(name) \x7b",
   "    this.name = name;",
   "    this.tokens = new Map();     // function -> token",
   "    this.functions = new Map();  // token -> function",
   "    this.next = 1;",
   "  \x7d",
   "",
   "  tokenFor(fn) \x7b",
   "    if (typeof fn !== 'function') \x7b",
   "      throw new TypeError(this.name + ': expected a function');",
   "    \x7d",
   "    let token = this.tokens.get(fn);",
   "    if (token === undefined) \x7b",
   "      token = this.next++;",
   "      this.tokens.set(fn, token);",
   "      this.functions.set(token, fn);",
   "    \x7d",
   "    return token;",
   "  \x7d",
   "",
   "  lookup(token) \x7b",
   "    let fn = this.functions.get(token);",
   "    if (fn === undefined) \x7b",
   "      throw new Error(this.name + ': no function registered for token ' + token);",
   "    \x7d",
   "    return fn;",
   "  \x7d",
   "\x7d",
   ""]

def scriptSupport (moduleName : String) : List String :=
  stagingBuffer moduleName ++ stagingHelpers ++ callbackRegistry

/-- Publishes classes on the module object. -/
def scriptExports (moduleName : String) (names : List String) : List String :=
  if names = [] then []
  else names.map (fun name => s!"{moduleName}['{name}'] = {name};") ++ [""]

end NativeBridge
