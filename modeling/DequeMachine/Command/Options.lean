/-
  DequeMachine/Command/Options.lean
  =================================
  **The arguments behind a command.**

  Arguments are first sorted into items, from the left: the two flags, the limit
  on steps with the argument behind it as its value whatever that looks like,
  other arguments that begin with two dashes, and paths.  The items are then
  taken one after another, and the first that cannot be taken is the fault that
  is reported.  A missing path shows at the end only.
-/
import DequeMachine.Run

namespace DequeMachine.Command

/-! ### Items -/

/-- A piece of a list of arguments. -/
inductive Item where
  | trace
  /-- Strip tokens of marks only. -/
  | symmetric
  /-- Limit the steps; the value is missing if this is the last argument. -/
  | maxSteps (value : Option String)
  | unknown (argument : String)
  | path (argument : String)
deriving DecidableEq, Repr

/-- An argument that is neither of the known options. -/
def Item.other (argument : String) : Item :=
  if argument.toList.take 2 = ['-', '-'] then .unknown argument else .path argument

def Item.ofArguments : List String → List Item
  | [] => []
  | argument :: rest =>
    if argument = "--trace" then .trace :: ofArguments rest
    else if argument = "--symmetric" then .symmetric :: ofArguments rest
    else if argument = "--max-steps" then
      match rest with
      | [] => [.maxSteps none]
      | value :: rest => .maxSteps (some value) :: ofArguments rest
    else .other argument :: ofArguments rest

/-! ### Options -/

structure Options where
  path : String
  config : Config
deriving DecidableEq, Repr

/-- What can be wrong with the arguments. -/
inductive OptionFault where
  | missingLimit
  | invalidLimit (value : String)
  | unknownOption (argument : String)
  | unexpectedArgument (argument : String)
  | missingPath
deriving DecidableEq, Repr

def OptionFault.message : OptionFault → String
  | .missingLimit => "--max-steps requires a value"
  | .invalidLimit value => "invalid step limit '" ++ value ++ "'"
  | .unknownOption argument => "unknown option '" ++ argument ++ "'"
  | .unexpectedArgument argument => "unexpected argument '" ++ argument ++ "'"
  | .missingPath => "missing program file"

/-- Limits are numbers below this one. -/
abbrev limitBound : Nat := Nat.pow 2 64

/-- The digits of a limit, without the plus sign that may stand before them. -/
def limitDigits (value : String) : List Char := Text.dropLeading '+' value.toList

/-- The limit that a value spells: at least one digit, and nothing too large. -/
def limit? (value : String) : Option Nat :=
  let digits := limitDigits value
  if digits.isEmpty || !Literal.allDigits digits then none
  else some (Nat.ofDigitChars 10 digits 0) |>.filter (· < limitBound)

structure Draft where
  path : Option String := none
  config : Config := {}
deriving DecidableEq, Repr

def Draft.add (d : Draft) : Item → Except OptionFault Draft
  | .trace => .ok { d with config := { d.config with trace := true } }
  | .symmetric => .ok { d with config := { d.config with rule := .labelOnly } }
  | .maxSteps none => .error .missingLimit
  | .maxSteps (some value) =>
    match limit? value with
    | none => .error (.invalidLimit value)
    | some limit => .ok { d with config := { d.config with maxSteps := some limit } }
  | .unknown argument => .error (.unknownOption argument)
  | .path argument =>
    match d.path with
    | some _ => .error (.unexpectedArgument argument)
    | none => .ok { d with path := some argument }

def Draft.addAll (d : Draft) : List Item → Except OptionFault Draft
  | [] => .ok d
  | item :: rest =>
    match d.add item with
    | .ok d => d.addAll rest
    | .error fault => .error fault

/-- The options, once all items are taken. -/
def Draft.finish (d : Draft) : Except OptionFault Options :=
  match d.path with
  | some path => .ok ⟨path, d.config⟩
  | none => .error .missingPath

def Options.ofItems (items : List Item) : Except OptionFault Options :=
  match (Draft.addAll {} items) with
  | .ok d => d.finish
  | .error fault => .error fault

def Options.ofArguments (arguments : List String) : Except OptionFault Options :=
  ofItems (Item.ofArguments arguments)

end DequeMachine.Command
