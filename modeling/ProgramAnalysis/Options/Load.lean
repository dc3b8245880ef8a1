import ProgramAnalysis.Fault
import ProgramAnalysis.Json.Decode

/-!
Taking options in from JSON. `ofValue` accepts whatever has the form of options; `ofText` also
checks them.
-/

namespace ProgramAnalysis

/-- A kind is written as its code, or as an object whose only key is the code, with null. -/
def ContextKind.ofJson? : Json → Option ContextKind
  | .string code => ofCode? code
  | .object [(code, .null)] => ofCode? code
  | _ => none

namespace Options

/-- Reads options, leaving every one that is not mentioned at its default. -/
def ofJson? (value : Json) : Option Options := do
  let record ← value.record? ["max_iters", "inst_ctxt_kind", "stat_ctxt_kind", "kobj_k", "kcfa_k",
    "trace_block_size", "trace_file", "solver_program", "solver_args", "solver_max_heap",
    "verbose", "work_dir", "out_dir", "dlog_path", "method_remap_file", "escape_flow_insensitive"]
  let base : Options := {}
  return {
    maxIterations := ← record.withDefault? "max_iters" base.maxIterations Json.size?
    instanceKind := ← record.withDefault? "inst_ctxt_kind" base.instanceKind ContextKind.ofJson?
    staticKind := ← record.withDefault? "stat_ctxt_kind" base.staticKind ContextKind.ofJson?
    objectDepth := ← record.withDefault? "kobj_k" base.objectDepth Json.size?
    callDepth := ← record.withDefault? "kcfa_k" base.callDepth Json.size?
    traceBlockSize := ← record.withDefault? "trace_block_size" base.traceBlockSize Json.size?
    traceFile := ← record.withDefault? "trace_file" base.traceFile (Json.nullable? Json.string?)
    solverProgram := ← record.withDefault? "solver_program" base.solverProgram Json.string?
    solverArgs := ← record.withDefault? "solver_args" base.solverArgs (Json.list? Json.string?)
    solverMaxHeap := ← record.withDefault? "solver_max_heap" base.solverMaxHeap Json.string?
    verbose := ← record.withDefault? "verbose" base.verbose Json.word32?
    workDir := ← record.withDefault? "work_dir" base.workDir Json.string?
    outDir := ← record.withDefault? "out_dir" base.outDir Json.string?
    datalogPath := ← record.withDefault? "dlog_path" base.datalogPath (Json.list? Json.string?)
    remapFile :=
      ← record.withDefault? "method_remap_file" base.remapFile (Json.nullable? Json.string?)
    flowInsensitiveEscape :=
      ← record.withDefault? "escape_flow_insensitive" base.flowInsensitiveEscape Json.bool? }

def toJson (options : Options) : Json :=
  .object [
    ("max_iters", Json.ofNat options.maxIterations),
    ("inst_ctxt_kind", .string options.instanceKind.code),
    ("stat_ctxt_kind", .string options.staticKind.code),
    ("kobj_k", Json.ofNat options.objectDepth),
    ("kcfa_k", Json.ofNat options.callDepth),
    ("trace_block_size", Json.ofNat options.traceBlockSize),
    ("trace_file", Json.ofOption .string options.traceFile),
    ("solver_program", .string options.solverProgram),
    ("solver_args", Json.ofList .string options.solverArgs),
    ("solver_max_heap", .string options.solverMaxHeap),
    ("verbose", Json.ofNat options.verbose),
    ("work_dir", .string options.workDir),
    ("out_dir", .string options.outDir),
    ("dlog_path", Json.ofList .string options.datalogPath),
    ("method_remap_file", Json.ofOption .string options.remapFile),
    ("escape_flow_insensitive", .bool options.flowInsensitiveEscape)]

end Options

end ProgramAnalysis

namespace ProgramAnalysis.Options

/-- The options a JSON value describes, unchecked. -/
def ofValue (value : Json) : Except Fault Options :=
  match ofJson? value with
  | none => .error .json
  | some options => .ok options

/-- The options a text describes, checked. -/
def ofText (text : String) : Except Fault Options := do
  match Json.read? text with
  | none => throw .json
  | some value =>
    let options ← ofValue value
    (options.validate).mapError Fault.option
    return options

end ProgramAnalysis.Options
