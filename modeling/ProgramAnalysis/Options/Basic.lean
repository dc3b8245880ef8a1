import ProgramAnalysis.Text.Basic

/-!
The options of an analysis session and their property form: one `key=value` pair a line, where blank
lines and lines that start with `#` are skipped.
-/

namespace ProgramAnalysis

/-- How a method gets contexts. -/
inductive ContextKind where
  | insensitive
  | callSite
  | object
  | copy
  deriving DecidableEq, Repr, Inhabited

namespace ContextKind

def code : ContextKind → String
  | insensitive => "ci"
  | callSite => "cs"
  | object => "co"
  | copy => "cc"

def ofCode? (code : String) : Option ContextKind :=
  [insensitive, callSite, object, copy].find? (·.code = code)

end ContextKind

/-- What can be wrong with an option. -/
inductive OptionCause where
  | unknownKind (text : String)
  | unknownOption
  | noPair
  | noBoolean (text : String)
  | numeral (fault : NumeralFault)
  | blockTooSmall (size : Nat)
  | zeroDepth
  | copyInstance
  | objectStatic
  | nothingToAnalyse
  | noTraceFile
  deriving DecidableEq, Repr

/-- The smallest trace block: one opcode and one operand. -/
def smallestBlock : Nat := 8

namespace OptionCause

def message : OptionCause → String
  | unknownKind text => "unknown context kind " ++ text
  | unknownOption => "unknown option"
  | noPair => "expected key=value"
  | noBoolean text => "expected a boolean, found " ++ text
  | numeral fault => fault.message
  | blockTooSmall size => toString size ++ " is smaller than " ++ toString smallestBlock
  | zeroDepth => "k must be at least 1"
  | copyInstance => "instance methods cannot copy contexts"
  | objectStatic => "static methods have no receiver object"
  | nothingToAnalyse => "no trace to analyse"
  | noTraceFile => "no trace file configured"

end OptionCause

/-- A fault, under the option it is about. -/
structure OptionFault where
  key : String
  cause : OptionCause
  deriving DecidableEq, Repr

namespace ContextKind

def parse (text : String) : Except OptionFault ContextKind :=
  match ofCode? text with
  | some kind => .ok kind
  | none => .error ⟨"ctxt.kind", .unknownKind text⟩

end ContextKind

/-- The options of a session. `objectDepth` and `callDepth` bound the contexts of object and
call-site sensitive methods, `maxIterations` the refinement rounds. -/
structure Options where
  maxIterations : Nat := 0
  instanceKind : ContextKind := .insensitive
  staticKind : ContextKind := .insensitive
  objectDepth : Nat := 1
  callDepth : Nat := 1
  traceBlockSize : Nat := 4096
  traceFile : Option String := none
  solverProgram : String := "bddbddb"
  solverArgs : List String := []
  solverMaxHeap : String := "1024m"
  verbose : Nat := 1
  workDir : String := "kestrel_output/bddbddb"
  outDir : String := "kestrel_output"
  datalogPath : List String := []
  remapFile : Option String := none
  flowInsensitiveEscape : Bool := false
  deriving DecidableEq, Repr, Inhabited

namespace Options

/-- Both context kinds at once. -/
def withKind (options : Options) (kind : ContextKind) : Options :=
  { options with instanceKind := kind, staticKind := kind }

/-- Checks what the types leave open: trace blocks hold an opcode and an operand, and contexts may
hold a site. -/
def validate (options : Options) : Except OptionFault Unit :=
  if options.traceBlockSize < smallestBlock then
    .error ⟨"trace.block.size", .blockTooSmall options.traceBlockSize⟩
  else if options.objectDepth = 0 || options.callDepth = 0 then
    .error ⟨"kobj.k/kcfa.k", .zeroDepth⟩
  else
    .ok ()

/-! ### Properties -/

/-- Reads a number below a limit, the value of an option. -/
def readNumber (limit : Nat) (key value : String) : Except OptionFault Nat :=
  match Numeral.read limit (Text.trim value) with
  | .ok n => .ok n
  | .error fault => .error ⟨key, .numeral fault⟩

/-- Reads a boolean in one of its three spellings. -/
def readBool (key value : String) : Except OptionFault Bool :=
  let text := Text.trim value
  if text ∈ ["true", "yes", "1"] then .ok true
  else if text ∈ ["false", "no", "0"] then .ok false
  else .error ⟨key, .noBoolean text⟩

/-- The parts of a list value that are not blank. -/
def readList (separator : Char) (value : String) : List String :=
  ((Text.splitAt separator value).map Text.trim).filter (· ≠ "")

/-- Gives a value to an option. -/
def set (options : Options) (key value : String) : Except OptionFault Options :=
  match key with
  | "max.iters" => do
    return { options with maxIterations := ← readNumber Numeral.sizeLimit key value }
  | "ctxt.kind" => do return options.withKind (← ContextKind.parse value)
  | "inst.ctxt.kind" => do return { options with instanceKind := ← ContextKind.parse value }
  | "stat.ctxt.kind" => do return { options with staticKind := ← ContextKind.parse value }
  | "kobj.k" => do
    return { options with objectDepth := ← readNumber Numeral.sizeLimit key value }
  | "kcfa.k" => do return { options with callDepth := ← readNumber Numeral.sizeLimit key value }
  | "trace.block.size" => do
    return { options with traceBlockSize := ← readNumber Numeral.sizeLimit key value }
  | "trace.file" => return { options with traceFile := some value }
  | "solver.program" => return { options with solverProgram := value }
  | "solver.args" => return { options with solverArgs := readList ' ' value }
  | "solver.max.heap" => return { options with solverMaxHeap := value }
  | "verbose" => do return { options with verbose := ← readNumber Numeral.wordLimit key value }
  | "work.dir" => return { options with workDir := value }
  | "out.dir" => return { options with outDir := value }
  | "dlog.path" => return { options with datalogPath := readList ':' value }
  | "method.remap.file" => return { options with remapFile := some value }
  | "escape.flowins" => do
    return { options with flowInsensitiveEscape := ← readBool key value }
  | _ => .error ⟨key, .unknownOption⟩

/-- Applies one line of an option file. Blank lines and comments change nothing. -/
def setLine (options : Options) (line : String) : Except OptionFault Options :=
  let line := Text.trim line
  if line = "" || (Text.dropStart? "#" line).isSome then .ok options
  else
    match Text.cutAt? '=' line with
    | none => .error ⟨line, .noPair⟩
    | some (key, value) => options.set (Text.trim key) (Text.trim value)

/-- The options a text of properties gives, the later of two lines for one key winning. -/
def ofProperties (text : String) : Except OptionFault Options := do
  let options ← (Text.lines text).foldlM setLine {}
  options.validate
  return options

end Options

end ProgramAnalysis
