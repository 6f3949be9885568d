/-!
# Folders

Reading a file by a path relative to a folder whose files are given. Names are followed one
after the other: `.` stays, `..` goes up, and outside the folder nothing is known to exist.
-/

namespace Scriptlet.Command

/-- Why a file could not be read. -/
inductive ReadFault where
  | notFound
  | isDirectory
  | notDirectory
  | notText
  | other (reason : String)
  deriving DecidableEq, Repr

def ReadFault.reason : ReadFault → String
  | notFound => "No such file or directory (os error 2)"
  | isDirectory => "Is a directory (os error 21)"
  | notDirectory => "Not a directory (os error 20)"
  | notText => "stream did not contain valid UTF-8"
  | other reason => reason

/-- Files by the names on the way to them. -/
structure Folder where
  files : List (List String × ByteArray)

namespace Folder

/-- Where a path has led so far. -/
inductive Place where
  | within (path : List String)
  | outside
  | file (content : ByteArray)

def isFolder (folder : Folder) (path : List String) : Bool :=
  folder.files.any (fun (name, _) => path.length < name.length && path.isPrefixOf name)

def step (folder : Folder) (place : Place) (name : String) : Except ReadFault Place :=
  match place with
  | .file _ => .error .notDirectory
  | .outside => if name = "" ∨ name = "." ∨ name = ".." then .ok .outside else .error .notFound
  | .within path =>
    if name = "" ∨ name = "." then .ok place
    else if name = ".." then .ok (if path = [] then .outside else .within path.dropLast)
    else
      let path := path ++ [name]
      match folder.files.lookup path with
      | some content => .ok (.file content)
      | none => if folder.isFolder path then .ok (.within path) else .error .notFound

def read (folder : Folder) (path : String) : Except ReadFault ByteArray := do
  let start := if path.startsWith "/" then Place.outside else Place.within []
  match ← (path.splitOn "/").foldlM folder.step start with
  | .file content => .ok content
  | _ => .error .isDirectory

def ofNames (files : List (String × ByteArray)) : Folder :=
  ⟨files.map (fun (name, content) => (name.splitOn "/", content))⟩

end Folder
end Scriptlet.Command
