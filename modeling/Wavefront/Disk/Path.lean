/-
# Paths

A path is kept as its pieces between slashes, so that the text shown in a message
is the text that was given. Pieces that are empty or a single dot name nothing
of their own; they matter only for the text and for what must be a directory.
-/

namespace Wavefront

/-- A path as the pieces between its slashes. -/
structure Path where
  pieces : List String
deriving DecidableEq, Repr, Inhabited

namespace Path

/-- Whether a piece names nothing of its own. -/
def isIdle (piece : String) : Bool := piece == "" || piece == "."

/-- The pieces of a text between its slashes; there is always at least one. -/
def splitSlashes : List Char → List (List Char)
  | [] => [[]]
  | c :: rest =>
      if c = '/' then [] :: splitSlashes rest
      else match splitSlashes rest with
        | [] => [[c]]
        | piece :: more => (c :: piece) :: more

/-- The path that a text denotes. -/
def ofText (text : String) : Path := ⟨(splitSlashes text.toList).map String.ofList⟩

/-- The text of a path. -/
def text (path : Path) : String := "/".intercalate path.pieces

/-- The pieces without the empty ones that slashes at the end leave behind. -/
def trimmed (path : Path) : List String :=
  (path.pieces.reverse.dropWhile (· == "")).reverse

/-- The pieces of what lies above the last piece that names something. -/
def above (path : Path) : List String :=
  ((path.pieces.reverse.dropWhile isIdle).drop 1).reverse

/-- Whether a path contains the NUL character. -/
def hasNul (path : Path) : Bool := path.pieces.any (·.toList.contains '\x00')

/-- The number of bytes of a path, slashes included. -/
def byteSize (path : Path) : Nat :=
  path.pieces.foldr (·.utf8ByteSize + ·) (path.pieces.length - 1)

/-- The pieces before a name that is put under the path. -/
def directoryPieces (path : Path) : List String :=
  if path.pieces.getLast? = some "" then path.pieces.dropLast else path.pieces

/-- One name directly under a path. -/
def child (path : Path) (name : String) : Path := ⟨path.directoryPieces ++ [name]⟩

/-- A relative path under a path; a text that begins with a slash stands on its own. -/
def join (path : Path) (tail : String) : Path :=
  match tail.toList with
  | '/' :: _ => ofText tail
  | _ => ⟨path.directoryPieces ++ (ofText tail).pieces⟩

/-- The last piece of a path. -/
def fileName (path : Path) : String := path.pieces.getLast?.getD ""

end Path

end Wavefront
