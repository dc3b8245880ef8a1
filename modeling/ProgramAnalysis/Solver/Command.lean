import ProgramAnalysis.Shell.Run
import ProgramAnalysis.Solver.Basic

/-!
Running a command as a solver.
-/

namespace ProgramAnalysis

namespace Shell

/-- Whether a machine can hand a text to a program that it starts. -/
def isPassable (text : String) : Bool :=
  text.utf8ByteSize < 131072 && text.toList.all (· ≠ Char.ofNat 0)

def isStartable (line : CommandLine) : Bool :=
  (line.program :: line.arguments).all isPassable &&
    line.environment.entries.all fun (name, value) => isPassable (name ++ "=" ++ value)

/-- The machine on which the programs are those of a shell. -/
def machine : Machine where
  start? line disk := do
    guard (isStartable line)
    let outcome ← start?
      { program := ofText line.program
        arguments := line.arguments.map ofText
        environment := line.environment.entries.map fun (name, value) => (name, ofText value) }
      disk
    let code : Option Int := match outcome.ending with
      | .exited code => some code
      | _ => none
    return { disk := outcome.disk, code, errors := toText outcome.errors }

end Shell

/-- Makes the work directory and runs the command on a Datalog program. -/
def SolverCommand.run (command : SolverCommand) (file dir : String)
    (machine : Machine := Shell.machine) : Step Disk Unit := do
  Disk.createFolders dir
  match machine.start? (command.commandLine file dir) (← get) with
  | none => throw .file
  | some finish =>
    set finish.disk
    if finish.code ≠ some 0 then throw (.solverFailed finish.code finish.errors)

end ProgramAnalysis
