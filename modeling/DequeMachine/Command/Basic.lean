/-
  DequeMachine/Command/Basic.lean
  ===============================
  **The command line.**

  There are two commands.  One runs a program and shows its events, the steps on
  the error stream and everything else on the output stream; the other shows the
  listing of a program.  A command line that is neither is answered with a word
  on how to use them.

  The exit code is 0 if all went well, 1 if the command line or the file was no
  good, 2 if a label was defined twice and 3 for every other fault.
-/
import DequeMachine.Channel
import DequeMachine.Command.Directory
import DequeMachine.Command.Options
import DequeMachine.Listing

namespace DequeMachine

/-- What a command line asks for. -/
inductive Command where
  | help
  | run (options : Command.Options)
  | list (options : Command.Options)
deriving DecidableEq, Repr

namespace Command

/-! ### Reading the command line -/

def usage : String :=
  Listing.unlines
    ["Usage: deq <program> [options]",
     "       deq tokens <program> [--symmetric]",
     "",
     "Options:",
     "  --trace          Print each step (ip, token, deque) to stderr",
     "  --symmetric      Strip only '!' and a trailing ':' from tokens",
     "  --max-steps N    Abort after N executed instructions"]

/-- What can be wrong with a command line. -/
inductive Misuse where
  | nothing
  /-- There is an option where a path should be. -/
  | optionFirst (argument : String)
  | nothingToList
  | options (fault : OptionFault)
deriving DecidableEq, Repr

def errorLine (message : String) : String := "error: " ++ message ++ "\n"

def Misuse.text : Misuse → String
  | .nothing => usage
  | .optionFirst argument =>
    errorLine ("expected a program path before '" ++ argument ++ "'") ++ "\n" ++ usage
  | .nothingToList =>
    errorLine "tokens requires an input file" ++ "Usage: deq tokens <program> [--symmetric]\n"
  | .options fault => errorLine fault.message

/-- A command that takes options, or what is wrong with them. -/
def withOptions (command : Options → Command) (arguments : List String) : Except Misuse Command :=
  match Options.ofArguments arguments with
  | .ok options => .ok (command options)
  | .error fault => .error (.options fault)

/-- The command that a command line spells. -/
def ofArguments : List String → Except Misuse Command
  | [] => .error .nothing
  | first :: rest =>
    if first = "tokens" then
      if rest.isEmpty then .error .nothingToList else withOptions .list rest
    else if first = "--help" ∨ first = "-h" ∨ first = "help" then .ok .help
    else if first.toList.head? = some '-' then .error (.optionFirst first)
    else withOptions .run (first :: rest)

/-! ### Answering -/

/-- What a command leaves behind. -/
structure Response where
  code : Nat
  out : String
  err : String
deriving DecidableEq, Repr

def exitCode : Fault → Nat
  | .duplicateLabel .. => 2
  | _ => 3

def Misuse.response (m : Misuse) : Response := ⟨1, "", m.text⟩

def readFailure (path : String) (fault : ReadFault) : Response :=
  ⟨1, "", errorLine ("cannot read '" ++ path ++ "': " ++ fault.message)⟩

def helpResponse : Response := ⟨0, "", usage⟩

/-- The response with the listing of a program.  The tokens are listed even if the
    labels are no good. -/
def listResponse (config : Config) (source : String) : Response :=
  let program := Program.parse source
  let tokens := Listing.unlines (Listing.tokenLines config.rule program)
  match Labels.ofProgram program with
  | .ok labels => ⟨0, tokens ++ Listing.unlines (Listing.labelLines labels), ""⟩
  | .error fault => ⟨exitCode fault, tokens, errorLine fault.message⟩

/-- The exit code and the last words of a run. -/
def verdict : Except Fault Outcome → Nat × String
  | .ok _ => (0, "")
  | .error fault => (exitCode fault, errorLine fault.message)

def runResponse (result : Except Fault Outcome) (lines : Lines) : Response :=
  let (code, words) := verdict result
  ⟨code, lines.out.text, lines.debug.text ++ words⟩

def taskOf (config : Config) (source : String) : Task := ⟨Program.parse source, config⟩

/-- The response to a command, given what its path leads to, unless a run takes
    more than so many instructions. -/
def respond? (read : String → Except ReadFault String) (fuel : Nat) :
    Command → Option Response
  | .help => some helpResponse
  | .list options =>
    match read options.path with
    | .ok source => some (listResponse options.config source)
    | .error fault => some (readFailure options.path fault)
  | .run options =>
    match read options.path with
    | .ok source =>
      ((taskOf options.config source).execute? Lines.sink fuel .fresh .unlimited).map
        fun (result, _, lines) => runResponse result lines
    | .error fault => some (readFailure options.path fault)

/-- The response to a command line in a directory, unless a run takes more than so
    many instructions. -/
def answer? (d : Directory) (fuel : Nat) (arguments : List String) : Option Response :=
  match ofArguments arguments with
  | .ok command => command.respond? d.read fuel
  | .error misuse => some misuse.response

end Command

end DequeMachine
