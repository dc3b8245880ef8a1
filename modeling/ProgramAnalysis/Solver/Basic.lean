import ProgramAnalysis.Disk

/-!
Solvers of Datalog programs.
-/

namespace ProgramAnalysis

/-- A command that is run as a solver, with what it is told about the session. -/
structure SolverCommand where
  program : String
  args : List String
  maxHeap : String := "1024m"
  verbose : Nat := 1
  deriving DecidableEq, Repr, Inhabited

/-- A prepared answer: files to leave in the work directory, and possibly a failure after that. -/
structure SolverAnswer where
  files : List (String × String) := []
  failure : Option (Option Int × String) := none
  deriving DecidableEq, Repr, Inhabited

/-- A program to start, with what it is given. -/
structure CommandLine where
  program : String
  arguments : List String
  environment : Table String String

/-- What a program leaves: the files, its exit code unless it was killed, and its complaints. -/
structure Finish where
  disk : Disk
  code : Option Int
  errors : String

/-- What runs programs, if it can start them. -/
structure Machine where
  start? : CommandLine → Disk → Option Finish

/-- Who solves Datalog programs: a command, or answers prepared for each call. -/
inductive Solver where
  | command (machine : Machine) (command : SolverCommand)
  /-- Answers by program, and how often each program has been given. -/
  | prepared (answers : Table String (List SolverAnswer)) (calls : Table String Nat)

namespace SolverAnswer

/-- Leaves the files, then fails if the answer says so. -/
def give (answer : SolverAnswer) (dir : String) : Step Disk Unit := do
  for (name, text) in answer.files do
    Disk.saveText dir name text
  if let some (code, errors) := answer.failure then
    throw (.solverFailed code errors)

end SolverAnswer

namespace SolverCommand

def ofOptions (options : Options) : SolverCommand where
  program := options.solverProgram
  args := options.solverArgs
  maxHeap := options.solverMaxHeap
  verbose := options.verbose

/-- What is started for a Datalog program: the command finds the work directory and the settings in
its environment. -/
def commandLine (command : SolverCommand) (file dir : String) : CommandLine where
  program := command.program
  arguments := command.args ++ [file]
  environment := .ofList [("BASEDIR", dir), ("SOLVER_MAX_HEAP", command.maxHeap),
    ("SOLVER_VERBOSE", toString command.verbose)]

end SolverCommand

end ProgramAnalysis
