import SceneCompiler.Batch

/-!
The command line: its arguments, and a run over every input.
-/

namespace SceneCompiler.CommandLine

structure Arguments where
  inputs : List String := []
  output : String := "output/instantiators"
  className : Option String := none
  setComments : Bool := false
  verbose : Bool := false
deriving DecidableEq, Repr

inductive ArgumentError where
  | missingValue (option : String)
  | invalidClassName (name : String)
  | unknownOption (option : String)
deriving DecidableEq, Repr

def ArgumentError.message : ArgumentError → String
  | .missingValue option => "Missing value for " ++ option
  | .invalidClassName name => "Invalid class name: " ++ name
  | .unknownOption option => "Unknown option: " ++ option

inductive Command where
  | help
  | generate (arguments : Arguments)
deriving DecidableEq, Repr

def flag? (a : Arguments) : String → Option Arguments
  | "--set-comment-properties" => some { a with setComments := true }
  | "-v" => some { a with verbose := true }
  | "--verbose" => some { a with verbose := true }
  | _ => none

def valued? : String → Option String
  | "-i" => some "-i/--input"
  | "--input" => some "-i/--input"
  | "-o" => some "-o/--output"
  | "--output" => some "-o/--output"
  | "--class-name" => some "--class-name"
  | _ => none

def takeValue (a : Arguments) (option value : String) : Except ArgumentError Arguments :=
  if value.isEmpty then .error (.missingValue option)
  else
    match option with
    | "-i/--input" => .ok { a with inputs := a.inputs ++ [value] }
    | "-o/--output" => .ok { a with output := value }
    | _ =>
      if isClassName value then .ok { a with className := some value }
      else .error (.invalidClassName value)

def parse (a : Arguments) : List String → Except ArgumentError Command
  | [] => .ok (.generate a)
  | arg :: rest =>
    match valued? arg with
    | some option =>
      match rest with
      | [] => .error (.missingValue option)
      | value :: rest => (takeValue a option value).bind fun a => parse a rest
    | none =>
      match flag? a arg with
      | some a => parse a rest
      | none =>
        if arg == "-h" || arg == "--help" then .ok .help
        else if arg.toList.head? == some '-' then .error (.unknownOption arg)
        else parse { a with inputs := a.inputs ++ [arg] } rest

def help : String :=
  "Usage: composition-codegen -i <scene.json|dir> [options]

Options:
  -i, --input <path>          Scene file or directory of scenes (repeatable)
  -o, --output <dir>          Output directory (default: output/instantiators)
  --class-name <name>         Class name of a single generated scene
  --set-comment-properties    Emit Comment assignments
  -v, --verbose               Verbose logging
  -h, --help                  Show this help

Examples:
  composition-codegen -i scenes
  composition-codegen -i scenes/spinner.json --class-name Spinner -o out
"

def failureLine : BatchError → String
  | .failures failures => toString failures.length ++ " scene(s) failed"
  | error => error.message

def runInput (a : Arguments) (directory outDir : String) (state : Nat × Session) (input : String) :
    Nat × Session :=
  let (status, s) := state
  let source := Path.resolve directory input
  if !s.files.contains source then (1, s.say .error ("Input not found: " ++ source))
  else
    let s := if a.verbose then s.say .log ("Generating " ++ source ++ " -> " ++ outDir) else s
    let options : BatchOptions :=
      { source := source
        outputDir := outDir
        className := a.className
        setComments := a.setComments
        verbose := a.verbose }
    match Batch.run options s with
    | (.ok outputs, s) =>
      let lines := if a.verbose then outputs.map fun o => "Generated: " ++ o.outputPath else []
      (status, lines.foldl (fun s line => s.say .log line) s)
    | (.error error, s) =>
      (1, (s.say .error ("Error generating " ++ input ++ ":")).say .error (failureLine error))

def run (arguments : List String) (s : Session) : Nat × Session :=
  match parse {} arguments with
  | .error error => (1, s.say .error ("Error: " ++ error.message))
  | .ok .help => (0, s.say .log help)
  | .ok (.generate a) =>
    if a.inputs.isEmpty then (1, s.say .log help)
    else
      let directory := "/" ++ "/".intercalate s.files.current
      a.inputs.foldl (runInput a directory (Path.resolve directory a.output)) (0, s)

end SceneCompiler.CommandLine
