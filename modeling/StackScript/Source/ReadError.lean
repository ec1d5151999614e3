/-!
# Errors in reading files

Why the text of a file cannot be had, in the words of the operating system.
-/

namespace StackScript.Source

/-- Why a file cannot be read. -/
inductive ReadError where
  | notFound
  | notADirectory
  | isADirectory
  | nameTooLong
  /-- The path holds a null character. -/
  | nullInPath
  /-- The bytes are not UTF-8. -/
  | notText
  | other (message : String)
deriving DecidableEq, Repr

def ReadError.message : ReadError → String
  | notFound => "No such file or directory (os error 2)"
  | notADirectory => "Not a directory (os error 20)"
  | isADirectory => "Is a directory (os error 21)"
  | nameTooLong => "File name too long (os error 36)"
  | nullInPath => "file name contained an unexpected NUL byte"
  | notText => "stream did not contain valid UTF-8"
  | other message => message

/-- What reading a path gives. -/
abbrev Reader := String → Except ReadError String

/-- Is there something at the path?  A directory and a file that holds no text count. -/
def isThere (read : Reader) (path : String) : Bool :=
  match read path with
  | .error .notFound | .error .notADirectory | .error .nameTooLong | .error .nullInPath => false
  | _ => true

def ofBytes (bytes : ByteArray) : Except ReadError String :=
  match String.fromUTF8? bytes with
  | some text => .ok text
  | none => .error .notText

end StackScript.Source
