/-!
# Files

A run reads files by their paths: `Files` gives for a path its bytes, or says why there are none.
`Folder` is a folder with everything below it, as the list of its files; a path is followed in it
name by name.
-/

namespace PanelLint

/-- Why a path gives no bytes. -/
inductive ReadError
  | notFound
  | notDirectory
  | isDirectory
  | nameTooLong
  | zeroByteInName
  /-- Any other failure, with its number and description by the operating system. -/
  | system (code : Nat) (description : String)
  deriving DecidableEq, Repr

/-- The text of a failure that the operating system numbers. -/
def systemMessage (code : Nat) (description : String) : String :=
  description ++ " (os error " ++ toString code ++ ")"

/-- The text of a read error. -/
def ReadError.message : ReadError → String
  | .notFound => systemMessage 2 "No such file or directory"
  | .notDirectory => systemMessage 20 "Not a directory"
  | .isDirectory => systemMessage 21 "Is a directory"
  | .nameTooLong => systemMessage 36 "File name too long"
  | .zeroByteInName => "file name contained an unexpected NUL byte"
  | .system code description => systemMessage code description

/-- The failure that the operating system gives by a number. -/
def ReadError.ofSystem (code : Nat) (description : String) : ReadError :=
  match code with
  | 2 => .notFound
  | 13 => .system 13 "Permission denied"
  | 20 => .notDirectory
  | 21 => .isDirectory
  | 36 => .nameTooLong
  | code => .system code description

/-- What the files of a run hold. -/
abbrev Files := String → Except ReadError (List UInt8)

/-- The names in a path, between its slashes. -/
def pathNames (path : String) : List String :=
  (path.toList.splitOn '/').map String.ofList

/-- The files below a folder, each with the names that lead to it. -/
abbrev Folder := List (List String × List UInt8)

namespace Folder

/-- The folder of some files by their paths. -/
def ofPaths (files : List (String × List UInt8)) : Folder :=
  files.map fun (path, bytes) => ((pathNames path).filter fun n => n != "" && n != ".", bytes)

/-- Whether a place is a folder: the folder itself, or one on the way to a file. -/
def isFolder (folder : Folder) (place : List String) : Bool :=
  place.isEmpty || folder.any fun (names, _) => place.isPrefixOf names && names != place

/-- What further names lead to outside of the folder, where nothing is but the folders around it. -/
def outside (names : List String) : ReadError :=
  if names.all fun n => ["", ".", ".."].contains n then .isDirectory else .notFound

/-- The place to which further names lead. Each of them is looked up in a folder. -/
def follow (folder : Folder) (place : List String) : List String → Except ReadError (List String)
  | [] => .ok place
  | name :: names =>
    if (folder.lookup place).isSome then .error .notDirectory
    else if !folder.isFolder place then .error .notFound
    else if name = "" ∨ name = "." then folder.follow place names
    else if name = ".." then
      if place.isEmpty then .error (outside names) else folder.follow place.dropLast names
    else if 255 < name.utf8ByteSize then .error .nameTooLong
    else folder.follow (place ++ [name]) names

/-- The files of a folder by their paths. -/
def files (folder : Folder) : Files := fun path =>
  if path.toList.contains '\x00' then .error .zeroByteInName
  else if 4096 ≤ path.utf8ByteSize then .error .nameTooLong
  else if path = "" then .error .notFound
  else if path.startsWith "/" then .error (outside (pathNames path))
  else do
    let place ← folder.follow [] (pathNames path)
    match folder.lookup place with
    | some bytes => .ok bytes
    | none => .error (if folder.isFolder place then .isDirectory else .notFound)

end Folder

end PanelLint
