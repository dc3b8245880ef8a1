import ProgramAnalysis.Shell.Builtin
import ProgramAnalysis.Shell.Utility.Awk.Run
import ProgramAnalysis.Shell.Utility.Numbers
import ProgramAnalysis.Shell.Utility.Search
import ProgramAnalysis.Shell.Utility.Sed
import ProgramAnalysis.Shell.Utility.Show
import ProgramAnalysis.Shell.Utility.Sorting

/-!
The machine a script runs on: the programs that are there, and how they are run.
-/

namespace ProgramAnalysis.Shell

namespace Standalone

def echo : Utility := fun args =>
  let isOpen := args.head? = some "-n"
  tell (" ".intercalate (if isOpen then args.tail else args) ++ if isOpen then "" else "\n")

def printf : Utility := fun args => do
  let format :: args := args | misuse "printf" "missing operand" 1
  let formatted := Shell.printf format args
  emit formatted.written
  for complaint in formatted.complaints do complain ("printf: " ++ complaint.message)
  return min 1 formatted.status

def faultText (words : List String) (fault : Condition.Fault) : String :=
  match words, fault with
  | [_, operator, _], .leftOver _ => quoted operator ++ ": binary operator expected"
  | _, .leftOver word => "extra argument " ++ quoted word
  | _, .noArgument _ => "missing argument after " ++ quoted (words.getLastD "")
  | _, .notNumber word => "invalid integer " ++ quoted word
  | _, .unclosed => quoted ")" ++ " expected"

def test (name : String) : Utility := fun args => do
  if name = "[" ∧ args.getLast? ≠ some "]" then refuse name ("missing " ++ quoted "]") 2
  let words := if name = "[" then args.dropLast else args
  if words.isEmpty then return 1
  match condition (← get) words with
  | .ok value => return (!value).toNat
  | .error fault => refuse name (faultText words fault) 2

def pwd : Utility := fun _ => do tell (absolutePath (← get).folder ++ "\n")

end Standalone

namespace Program

def utilities (launcher : Launcher) : List (String × Utility) :=
  [("basename", Paths.basename), ("chmod", Attributes.chmod), ("cp", Copying.cp), ("dd", Dd.dd),
    ("dirname", Paths.dirname), ("ln", Copying.ln), ("ls", Listing.ls), ("mkdir", Files.mkdir),
    ("mkfifo", Files.mkfifo), ("mv", Copying.mv), ("readlink", Paths.readlink),
    ("realpath", Paths.realpath), ("rm", Files.rm), ("rmdir", Files.rmdir),
    ("touch", Attributes.touch), ("base64", Checksums.base64), ("cat", Show.cat),
    ("cksum", Checksums.cksum), ("cmp", Compare.cmp), ("comm", Joining.comm), ("cut", Columns.cut),
    ("diff", Compare.diff), ("egrep", Grep.grepAs 'E'), ("expand", Show.expand),
    ("fgrep", Grep.grepAs 'F'), ("fmt", Paragraphs.fmt), ("fold", Show.fold),
    ("grep", Grep.grepAs 'G'), ("head", Show.head), ("join", Joining.join), ("nl", Show.nl),
    ("numfmt", Units.numfmt), ("od", Dump.od), ("paste", Columns.paste), ("rev", Show.rev),
    ("shuf", Sampling.shuf), ("sort", Sorting.sort), ("split", Split.split), ("tac", Show.tac),
    ("tail", Show.tail), ("tee", Show.tee), ("tr", Columns.tr), ("tsort", Precedence.tsort),
    ("unexpand", Show.unexpand), ("uniq", Sorting.uniq), ("wc", Show.wc), ("yes", Show.yes),
    ("md5sum", Checksums.digestProgram "md5sum" Digest.md5),
    ("sha1sum", Checksums.digestProgram "sha1sum" Digest.sha1), ("date", Surroundings.date),
    ("factor", Numbers.factor), ("false", fun _ => return 1),
    ("hostname", Surroundings.telling "hostname" "localhost"), ("id", Surroundings.id),
    ("printenv", Surroundings.printenv), ("seq", Numbers.seq), ("sleep", Surroundings.sleep),
    ("true", fun _ => return 0), ("uname", Surroundings.telling "uname" "Linux"),
    ("whoami", Surroundings.telling "whoami" "root"), ("echo", Standalone.echo),
    ("printf", Standalone.printf), ("test", Standalone.test "test"), ("[", Standalone.test "["),
    ("pwd", Standalone.pwd), ("kill", Builtin.kill), ("awk", Awk.awk), ("mawk", Awk.awk),
    ("nawk", Awk.awk), ("sed", Sed.sed), ("env", Launching.env launcher),
    ("find", Find.find launcher), ("nohup", Launching.nohup launcher),
    ("timeout", Launching.timeout launcher), ("xargs", Xargs.xargs launcher)]

def shells : List String := ["sh", "dash"]

def names : List String := (utilities fun _ => return .ended 0).map (·.1) ++ shells

def mark : String := "\x7fELF"

def home : Location := ["usr", "bin"]

def machine (time : Int) : FileTree :=
  let node (kind : Kind) (mode : Nat) : Node := { kind, mode, modified := time }
  let folders : List Location :=
    [[], ["dev"], ["etc"], ["home"], ["opt"], ["proc"], ["root"], ["run"], ["srv"], ["sys"],
      ["usr"], ["usr", "bin"], ["usr", "lib"], ["usr", "local"], ["usr", "local", "bin"],
      ["usr", "local", "sbin"], ["usr", "sbin"], ["usr", "share"], ["var"]]
  let entries : List (Location × Node) :=
    folders.map (·, node .folder 0o755) ++
      [(["tmp"], node .folder 0o1777), (["bin"], node (.link "usr/bin") 0o777),
        (["sbin"], node (.link "usr/sbin") 0o777), (["lib"], node (.link "usr/lib") 0o777)] ++
      (["null", "stdin", "stdout", "stderr", "tty", "zero", "full", "random", "urandom"].map
        fun name => (["dev", name], node .device 0o666)) ++
      names.map fun name => (home ++ [name], node (.file (mark ++ name)) 0o755)
  entries.foldl (fun tree (loc, node) => tree.put loc node) ⟨#[], {}⟩

structure Found where
  path : String
  name : String
  front : List String := []

def interpreter? (content : String) : Option (String × List String) :=
  match content.toList with
  | '#' :: '!' :: rest =>
    let line := (rest.takeWhile (· ≠ '\n')).dropWhile isBlank
    let (path, rest) := line.span (!isBlank ·)
    let left := ((rest.dropWhile isBlank).reverse.dropWhile isBlank).reverse
    some (String.ofList path, if left.isEmpty then [] else [String.ofList left])
  | _ => none

def atPath (p : Process) : Nat → String → Except Refusal Found
  | 0, _ => .error .looped
  | depth + 1, path => do
    match p.world.tree.node? (← p.locate path) with
    | none => throw .missing
    | some { kind := .file content, mode, .. } =>
      if mode &&& 0o111 = 0 then throw .denied
      match Text.dropStart? mark content, interpreter? content with
      | some name, _ => return { path, name }
      | none, none => return { path, name := "sh", front := [path] }
      | none, some (r, args) =>
        let found ← atPath p depth r
        return { found with path, front := found.front ++ args ++ [path] }
    | some _ => throw .denied

def search (p : Process) (standard name : String) : Except Refusal Found :=
  if name.toList.contains '/' then atPath p 5 name
  else
    let path := (p.value? "PATH").getD standard
    let tried := (Text.splitAt ':' path).map fun folder =>
      atPath p 5 (if folder = "" then name else Files.inside folder name)
    match tried.find? (·.toBool) with
    | some found => found
    | none => .error (if tried.any (· matches .error .denied) then .denied else .missing)

end Program

def Process.reachedFolder (p : Process) : Location :=
  match p.environment.lookup "PWD" with
  | some path =>
    let shown := Builtin.follow path []
    match Path.isAbsolute path, p.world.tree.walk true FileTree.mostLinks [] shown with
    | true, .ok loc => if loc = p.folder then shown else p.folder
    | _, _ => p.folder
  | none => p.folder

def standardPath : String := "/usr/local/sbin:/usr/local/bin:/usr/sbin:/usr/bin:/sbin:/bin"

def freshProcess (p : Process) (zero : String) (arguments : List String) (options : Chars) :
    Process :=
  let shownFolder := p.reachedFolder
  let known : Table String Variable := .ofList (p.environment.map fun (name, value) =>
    (name, { value := some value, exported := true }))
  let own (value : String) : Variable := { value := some value }
  let given : List (String × Variable) :=
    [("IFS", own " \t\n"), ("OPTIND", own "1"), ("PPID", own (toString (p.living.tail.headD 1))),
      ("PS1", own "# "), ("PS2", own "> "), ("PS4", own "+ "),
      ("PWD", { value := some (absolutePath shownFolder), exported := true })]
  let known := if known.contains "PATH" then known else known.insert "PATH" (own standardPath)
  let vars := given.foldl (fun table entry => table.insert entry.1 entry.2) known
  { world := p.world, folder := p.folder, shownFolder, vars, zero, arguments, options,
    number := p.realNumber, realNumber := p.realNumber, living := p.living,
    descriptors := p.descriptors,
    traps := ⟨p.traps.entries.filter (·.2 = "")⟩,
    umask := p.umask, isBackground := p.isBackground }

def refuseStart (zero message : String) : Run Unit := do
  complain (zero ++ ": 0: " ++ message)
  throw (.exited 2)

def runScript (r : Runner) (text : String) : Run Unit := do setStatus (← runText r {} text)

def runScriptFile (r : Runner) (zero path : String) : Run Unit := do
  match ← readFile path with
  | .ok text => runScript r text
  | .error .isFolder => return
  | .error why =>
    let reason := if why = .missing ∨ why = .notFolder then "No such file" else why.message
    refuseStart zero ("cannot open " ++ path ++ ": " ++ reason)

def shellProgram (r : Runner) (zero : String) : Nat → Chars → List String → Run Unit
  | 0, _, _ => return
  | fuel + 1, letters, args => do
    let start (zero : String) (arguments : List String) : Run Unit := do
      let options := (Builtin.optionNames.map (·.1)).reverse.filter letters.contains
      modify fun p => freshProcess p zero arguments options
    let operands (args : List String) : Run Unit := do
      if letters.contains 'c' then
        let script :: rest := args | refuseStart zero "-c requires an argument"
        start (rest.headD zero) rest.tail
        runScript r script
      else
        match args, letters.contains 's' with
        | path :: rest, false =>
          start path rest
          runScriptFile r zero path
        | arguments, _ =>
          start zero arguments
          if let .ok text ← readAll 0 then runScript r text
    match args with
    | [] => operands []
    | arg :: rest =>
      match arg.toList with
      | ['-'] | ['-', '-'] => operands rest
      | '-' :: flag :: flags =>
        let isKnown (c : Char) : Bool := c = 'c' || c = 'l' || Builtin.optionNames.any (·.1 = c)
        if let some bad := (flag :: flags).find? (!isKnown ·) then
          refuseStart zero ("Illegal option -" ++ String.singleton bad)
        shellProgram r zero fuel (letters ++ flag :: flags) rest
      | '+' :: _ :: _ => shellProgram r zero fuel letters rest
      | _ => operands args

def runProgram (r : Runner) : Nat → String → Program.Found → List String → Run Unit
  | 0, _, _, _ => return
  | depth + 1, called, found, args => do
    let args := found.front ++ args
    let launcher : Launcher := fun words => do
      let name :: args := words | return .refused .missing
      match Program.search (← get) "/bin:/usr/bin" name with
      | .error why => return .refused why
      | .ok found =>
        match ← subshell r (runProgram r depth name found args) with
        | .killed signal => return .killed signal
        | ending => return .ended ending.code
    if Program.shells.contains found.name then shellProgram r called (args.length + 2) [] args
    else
      let run := ((Program.utilities launcher).lookup found.name).getD fun _ => return 127
      setStatus (← run args)

def mostLaunches : Nat := 1000

def spawn (r : Runner) (replaces : Bool) (name : String) (args : List String) : Run Unit := do
  match Program.search (← get) "" name with
  | .error why =>
    let reason := if why = .missing ∨ why = .notFolder then "not found" else why.message
    warn (name ++ ": " ++ reason)
    setStatus (if why = .denied ∧ (replaces ∨ name.toList.contains '/') then 126 else 127)
  | .ok found =>
    let run : Run Unit := do
      modify Process.handingOn
      runProgram r mostLaunches name found args
    if replaces then
      advanceJobs r
      let ended ← nested (toTheEnd r run)
      throw (match ended with
        | .ok ending | .error ending => ending)
    else
      let ending ← subshell r do
        modify fun p => { p with number := p.realNumber }
        run
      setEnding ending

end ProgramAnalysis.Shell
