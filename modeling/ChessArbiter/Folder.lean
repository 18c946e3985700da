/-!
# Files and the paths to them

What a path leads to is for the system to say, and different paths may lead to one file: reading and
writing go by a given map from paths to places. Opening a file makes or removes neither directories
nor links, so one map holds for a whole run.
-/

namespace ChessArbiter

/-- Where text goes that is not written to a file: nowhere, or to a stream of the program. -/
inductive Drain
  | nowhere
  | output
  | errors
deriving DecidableEq

/-- What a path leads to: a file, which need not be there yet and has one name however it is
reached, or something else, with the text read from it and the drain of what is written to it. -/
inductive Place
  | file (name : String)
  | other (held : Option String) (drain : Option Drain)
deriving DecidableEq

/-- The place each path leads to, if any. -/
abbrev Paths := String → Option Place

structure Folder where
  files : List (String × String) := []
deriving DecidableEq

namespace Folder

def read? (paths : Paths) (f : Folder) (path : String) : Option String :=
  match paths path with
  | some (.file name) => f.files.lookup name
  | some (.other held _) => held
  | none => none

def put (f : Folder) (name text : String) : Folder :=
  if f.files.any (·.1 == name) then
    { files := f.files.map fun e => if e.1 = name then (name, text) else e }
  else { files := f.files ++ [(name, text)] }

/-- The folder after writing to a path. A file is emptied first unless it is to be appended to. -/
def write? (paths : Paths) (f : Folder) (path : String) (append : Bool) (text : String) :
    Option Folder :=
  match paths path with
  | some (.file name) =>
    some (f.put name ((if append then (f.files.lookup name).getD "" else "") ++ text))
  | some (.other _ drain) => drain.map fun _ => f
  | none => none

end Folder

end ChessArbiter
