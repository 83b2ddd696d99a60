/-! Files by path, and the paths that cannot be written. -/
namespace Template

/-- What each path holds, and which paths refuse to be written. -/
structure Disk where
  bytes? : String → Option ByteArray
  /-- Why a path cannot be written, if it cannot. -/
  refusal : String → Option String

namespace Disk

/-- One directory with the given files and no directories in it. -/
def ofFiles (files : List (String × ByteArray)) : Disk where
  bytes? path := files.lookup path
  refusal path := if path.contains '/' then some "No such file or directory (os error 2)" else none

variable (d : Disk)

def put (path : String) (bytes : ByteArray) : Disk :=
  { d with bytes? := fun p => if p = path then some bytes else d.bytes? p }

/-- Writing replaces the whole file or changes nothing. -/
def write (path : String) (bytes : ByteArray) : Except String Disk :=
  match d.refusal path with
  | some reason => .error reason
  | none => .ok (d.put path bytes)

end Disk

end Template
