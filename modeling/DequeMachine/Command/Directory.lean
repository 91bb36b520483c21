/-
  DequeMachine/Command/Directory.lean
  ===================================
  **Reading programs from files.**

  A command looks up a path and wants text.  `ReadFault` says what can be wrong
  with that, and `Directory` is the simplest place to look: some files side by
  side, named relative to where they are.
-/

namespace DequeMachine.Command

/-- The reason why no text could be read. -/
inductive ReadFault where
  | notFound
  | isDirectory
  | notDirectory
  | denied
  | notText
  | other (message : String)
deriving DecidableEq, Repr

def ReadFault.message : ReadFault → String
  | .notFound => "No such file or directory (os error 2)"
  | .isDirectory => "Is a directory (os error 21)"
  | .notDirectory => "Not a directory (os error 20)"
  | .denied => "Permission denied (os error 13)"
  | .notText => "stream did not contain valid UTF-8"
  | .other message => message

def textOfBytes (bytes : ByteArray) : Except ReadFault String :=
  match String.fromUTF8? bytes with
  | some text => .ok text
  | none => .error .notText

/-- Files side by side, each with its name and its bytes. -/
structure Directory where
  files : List (String × ByteArray)

namespace Directory

/-- The names that a path goes through.  Empty names and single dots lead
    nowhere. -/
def steps (path : String) : List String :=
  ((path.toList.splitOn '/').map String.ofList).filter fun name => name != "" && name != "."

/-- Does a path ask for a directory by the way it ends? -/
def endsInside (path : String) : Bool :=
  match (path.toList.splitOn '/').getLast? with
  | some last => last == [] || last == ['.']
  | none => false

/-- The bytes of the file that a path leads to.  Above the directory and at the
    root there are directories that hold nothing of interest. -/
def bytes (d : Directory) (path : String) : Except ReadFault ByteArray :=
  if path.isEmpty then .error .notFound
  else
    match steps path with
    | [] => .error .isDirectory
    | name :: rest =>
      if path.toList.head? = some '/' then .error .notFound
      else if (name :: rest).all (· == "..") then .error .isDirectory
      else
        match d.files.lookup name with
        | none => .error .notFound
        | some content =>
          if rest.isEmpty && !endsInside path then .ok content else .error .notDirectory

def read (d : Directory) (path : String) : Except ReadFault String :=
  match d.bytes path with
  | .ok content => textOfBytes content
  | .error fault => .error fault

end Directory

end DequeMachine.Command
