/-!
# Files

What can go wrong when a file is read, and a folder of plain files in which
paths can be looked up.
-/

namespace JsonGrammar

namespace Command

/-- Why the text of a file could not be had. -/
inductive ReadProblem where
  | noSuchFile
  | notADirectory
  | isADirectory
  | notUtf8
  /-- Any other reason, in the words of the system. -/
  | other (reason : String)
  deriving DecidableEq

/-- The reason in words. -/
def ReadProblem.message : ReadProblem → String
  | noSuchFile => "No such file or directory (os error 2)"
  | notADirectory => "Not a directory (os error 20)"
  | isADirectory => "Is a directory (os error 21)"
  | notUtf8 => "stream did not contain valid UTF-8"
  | other reason => reason

/-- A folder with files in it and no folders. -/
structure Folder where
  files : List (String × ByteArray)

/-- Where a path has led so far. -/
inductive Spot where
  /-- In the folder. -/
  | inside
  /-- In a folder around it, of whose content nothing is known. -/
  | outside
  | file (bytes : ByteArray)

namespace Folder

/-- Follow one part of a path. -/
def step (folder : Folder) (spot : Spot) (part : String) : Except ReadProblem Spot :=
  match spot with
  | .file _ => .error .notADirectory
  | .outside =>
      if part = "" ∨ part = "." ∨ part = ".." then .ok .outside else .error .noSuchFile
  | .inside =>
      if part = "" ∨ part = "." then .ok .inside
      else if part = ".." then .ok .outside
      else
        match folder.files.lookup part with
        | some bytes => .ok (.file bytes)
        | none => .error .noSuchFile

/-- The content of the file that a path leads to from inside the folder. -/
def read (folder : Folder) (path : String) : Except ReadProblem ByteArray := do
  let parts := (path.toList.splitOn '/').map String.ofList
  let start := if path.toList.head? = some '/' then Spot.outside else Spot.inside
  match ← parts.foldlM folder.step start with
  | .file bytes => .ok bytes
  | _ => .error .isADirectory

end Folder

end Command

end JsonGrammar
