/-!
Why a host function fails.
-/
namespace ScriptEngine

inductive HostFault where
  /-- A failure that the host function reports itself. -/
  | custom (message : String)
  /-- A failure of the world outside. -/
  | outside (message : String)
  | noPath
  | noText
  | writerFull
  | undecodable
  | missingFile
  | isDirectory
  | notDirectory
  | nameTooLong
  | nulInPath
  deriving DecidableEq

namespace HostFault

def message : HostFault → String
  | custom message => message
  | outside message => message
  | noPath => "Path to file cannot be null"
  | noText => "Text to write cannot be null"
  | writerFull => "writer full"
  | undecodable => "stream did not contain valid UTF-8"
  | missingFile => "No such file or directory (os error 2)"
  | isDirectory => "Is a directory (os error 21)"
  | notDirectory => "Not a directory (os error 20)"
  | nameTooLong => "File name too long (os error 36)"
  | nulInPath => "file name contained an unexpected NUL byte"

/-- The failure comes from input or output, not from the arguments. -/
def isOutside : HostFault → Bool
  | custom _ | noPath | noText => false
  | _ => true

end HostFault

end ScriptEngine
