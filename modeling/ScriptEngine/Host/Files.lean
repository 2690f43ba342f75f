import ScriptEngine.Host.Fault
import ScriptEngine.Store.Entries
import ScriptEngine.Text.Utf8

/-!
The files of one directory. Reading a file joins its lines by single line feeds, whatever ended them;
writing replaces the whole contents.
-/
namespace ScriptEngine

abbrev Files := Entries (List (Option Char))

namespace Files

/-- The longest path and the longest name in it, in bytes. -/
def maxPath : Nat := 4095

def maxName : Nat := 255

/-- What a path leads to: a directory, or a name in the directory of the files or in another one. -/
inductive Place where
  | directory
  | entry (own : Bool) (name : String)

/-- Looks a name up in the directory of the files, or in another one, of which no entry is known. -/
def find (files : Files) (own : Bool) (name : String) : Except HostFault (List (Option Char)) :=
  if maxName < name.utf8ByteSize then .error .nameTooLong
  else
    match if own then files.get? name else none with
    | some contents => .ok contents
    | none => .error .missingFile

/-- Follows the parts of a path. A name that is not the last part would have to be a directory. -/
def follow (files : Files) : Bool → List String → Except HostFault Place
  | _, [] => .ok .directory
  | own, part :: rest =>
    if part = "." then follow files own rest
    else if part = ".." then follow files false rest
    else if rest.isEmpty then .ok (.entry own part)
    else
      match files.find own part with
      | .ok _ => .error .notDirectory
      | .error fault => .error fault

/-- Follows a path, from the directory of the files or from the topmost one. -/
def locate (files : Files) (path : String) : Except HostFault Place :=
  if path.toList.contains (Char.ofNat 0) then .error .nulInPath
  else if path.isEmpty then .error .missingFile
  else if maxPath < path.utf8ByteSize then .error .nameTooLong
  else files.follow (!path.startsWith "/") ((path.splitOn "/").filter fun part => part ≠ "")

/-- Only a directory could have a slash after its name. -/
def isSlashed (path : String) : Bool := path.endsWith "/"

/-- The lines of a text. A line feed ends a line, with a carriage return before it if there is one; a
text that does not end in a line feed has a last line that nothing ends. -/
def lines : List Char → List (List Char)
  | [] => []
  | '\n' :: rest => [] :: lines rest
  | '\r' :: '\n' :: rest => [] :: lines rest
  | c :: rest =>
    match lines rest with
    | [] => [[c]]
    | line :: more => (c :: line) :: more

def joinLines (lines : List (List Char)) : List Char := List.intercalate ['\n'] lines

def read (files : Files) (path : String) : Except HostFault String :=
  match files.locate path with
  | .error fault => .error fault
  | .ok .directory => .error .isDirectory
  | .ok (.entry own name) =>
    match files.find own name with
    | .error fault => .error fault
    | .ok contents =>
      if isSlashed path then .error .notDirectory
      else
        match Text.Utf8.complete? contents with
        | none => .error .undecodable
        | some text => .ok (String.ofList (joinLines (lines text)))

/-- Files are only created in their own directory. -/
def write (files : Files) (path text : String) : Except HostFault Files :=
  match files.locate path with
  | .error fault => .error fault
  | .ok .directory => .error .isDirectory
  | .ok (.entry own name) =>
    if isSlashed path then .error .isDirectory
    else if maxName < name.utf8ByteSize then .error .nameTooLong
    else if own then .ok (files.put name (text.toList.map some))
    else .error .missingFile

/-- The names and contents of the files, by name. -/
def listing (files : Files) : List (String × String) :=
  (files.mergeSort fun a b => !(b.1 < a.1)).map fun file =>
    (file.1, String.ofList (Text.Utf8.replaced file.2))

end Files

end ScriptEngine
