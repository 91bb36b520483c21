/-
  DequeMachine/Main.lean
  ======================
  **The program itself.**

  Reads the file, shows the lines of a run as they come, and leaves everything
  else to the definitions of the library.
-/
import DequeMachine.Command.Basic

namespace DequeMachine.Command

/-- The reason for which the operating system did not hand over a file.  Its codes
    may come negated, depending on the call that failed. -/
def readFault : IO.Error → ReadFault
  | .noFileOrDirectory .. => .notFound
  | .permissionDenied .. => .denied
  | .inappropriateType _ code _ =>
    if code = 20 ∨ code = -20 then .notDirectory
    else .isDirectory
  | fault => .other (toString fault)

def readFile (path : String) : IO (Except ReadFault String) := do
  match ← (IO.FS.readBinFile path).toBaseIO with
  | .ok content => return textOfBytes content
  | .error fault => return .error (readFault fault)

def display (r : Response) : IO UInt32 := do
  (← IO.getStdout).putStr r.out
  (← IO.getStderr).putStr r.err
  return r.code.toUInt32

/-- Show the lines of a run after each instruction, until it ends. -/
partial def stream (task : Task) : Run Lines → IO UInt32
  | .ended result _ lines => Command.display (runResponse result lines)
  | .going m lines => do
    (← IO.getStdout).putStr lines.out.text
    (← IO.getStderr).putStr lines.debug.text
    stream task (task.next Lines.sink (.going m .unlimited))

def carryOut : Command → IO UInt32
  | .help => Command.display helpResponse
  | .list options => do
    match ← readFile options.path with
    | .ok source => Command.display (listResponse options.config source)
    | .error fault => Command.display (readFailure options.path fault)
  | .run options => do
    match ← readFile options.path with
    | .ok source =>
      let task := taskOf options.config source
      stream task (task.start .fresh .unlimited)
    | .error fault => Command.display (readFailure options.path fault)

end DequeMachine.Command

def main (arguments : List String) : IO UInt32 :=
  match DequeMachine.Command.ofArguments arguments with
  | .ok command => command.carryOut
  | .error misuse => DequeMachine.Command.display misuse.response
