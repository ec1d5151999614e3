import StackScript.Source.ReadError

/-!
# A directory of files

A working directory as plain data: names and bytes.  A name may have slashes, and then the
directories on its way are there too; no other names are known outside.  `Directory.reader` follows
a path step by step.
-/

namespace StackScript.Source

/-- The files below the working directory. -/
structure Directory where
  files : List (String × ByteArray)

namespace Directory

/-- The longest name of a file, in bytes. -/
def maxName : Nat := 255

/-- The longest path, in bytes. -/
def maxPath : Nat := 4095

/-- What a path leads to.  Outside the working directory there are only directories. -/
inductive Place where
  | outside
  | folder (parts : List String)
  | file (bytes : ByteArray)

def joined (parts : List String) : String := "/".intercalate parts

def lookup? (d : Directory) (parts : List String) : Option Place :=
  match d.files.lookup (joined parts) with
  | some bytes => some (.file bytes)
  | none =>
    if parts.isEmpty || d.files.any (fun f => f.1.startsWith (joined parts ++ "/")) then
      some (.folder parts)
    else none

def step (d : Directory) (place : Place) (part : String) : Except ReadError Place :=
  match place with
  | .file _ => .error .notADirectory
  | .outside =>
    if part == "" || part == "." || part == ".." then .ok .outside
    else if maxName < part.utf8ByteSize then .error .nameTooLong
    else .error .notFound
  | .folder parts =>
    if part == "" || part == "." then .ok place
    else if part == ".." then .ok (if parts.isEmpty then .outside else .folder parts.dropLast)
    else if maxName < part.utf8ByteSize then .error .nameTooLong
    else match d.lookup? (parts ++ [part]) with
      | some place => .ok place
      | none => .error .notFound

def locate (d : Directory) (path : String) : Except ReadError Place :=
  if path.toList.contains '\x00' then .error .nullInPath
  else if path.isEmpty then .error .notFound
  else if maxPath < path.utf8ByteSize then .error .nameTooLong
  else
    (path.splitOn "/").foldlM d.step (if path.startsWith "/" then .outside else .folder [])

def reader (d : Directory) : Reader := fun path => do
  match ← d.locate path with
  | .file bytes => ofBytes bytes
  | .folder _ | .outside => .error .isADirectory

end Directory

end StackScript.Source
