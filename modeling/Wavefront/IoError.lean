/-
# Failures of reading and writing

What can go wrong when bytes are read, written, encoded or decoded, as causes
rather than texts. The texts are the system's for file operations and the
engine's own for everything else.
-/

import Wavefront.Disk.Path

namespace Wavefront

/-- The cause of a failed read or write. -/
inductive IoError where
  /-- A file or a directory on the way to it does not exist. -/
  | notFound
  /-- Something of that name exists already. -/
  | alreadyExists
  /-- A file stands where a directory is needed. -/
  | notADirectory
  /-- A directory stands where a file is needed. -/
  | isADirectory
  /-- A name has more bytes than a directory entry can hold, or a path more than can be followed. -/
  | nameTooLong
  /-- A name contains the NUL character. -/
  | nulInName
  /-- The input ended before everything asked for was read. -/
  | endOfInput
  /-- A page holds more nodes than its count field can say. -/
  | countTooLarge
  /-- A trace log has no record at an offset. -/
  | noRecord (offset : UInt64) (log : Path)
  /-- A model refuses the bytes it was given. -/
  | invalidData (text : String)
  /-- Any other failure, described by its text. -/
  | other (text : String)
deriving DecidableEq, Repr

namespace IoError

/-- The text of a cause. -/
def message : IoError → String
  | notFound => "No such file or directory (os error 2)"
  | alreadyExists => "File exists (os error 17)"
  | notADirectory => "Not a directory (os error 20)"
  | isADirectory => "Is a directory (os error 21)"
  | nameTooLong => "File name too long (os error 36)"
  | nulInName => "file name contained an unexpected NUL byte"
  | endOfInput => "failed to fill whole buffer"
  | countTooLarge => "page exceeds u32 states"
  | noRecord offset log =>
      "no trace record at offset " ++ toString offset.toNat ++ " in " ++ log.text
  | invalidData text => text
  | other text => text

end IoError

end Wavefront
