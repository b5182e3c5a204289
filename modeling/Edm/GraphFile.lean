import Edm.FilePath
import Edm.Json.Reader
import Edm.Loading
import Edm.Text.Utf8

/-!
# Graph files

A file that holds a description: UTF-8 without a byte order mark, with any of the three line ends.
-/

namespace Edm

/-- Characters with a line feed for each line end. -/
def unifyLineEnds : List Char → List Char
  | [] => []
  | '\r' :: '\n' :: rest => '\n' :: unifyLineEnds rest
  | '\r' :: rest => '\n' :: unifyLineEnds rest
  | c :: rest => c :: unifyLineEnds rest

namespace GraphFile

/-- What the system says about a path that is no file. -/
def systemError (number : Int) (words : Text) (path : Text) : Text :=
  "[Errno " ++ Number.integerText number ++ "] " ++ words ++ ": " ++ Quoted.quote path

/-- The description in the bytes of a file. -/
def readBytes (path : Text) (bytes : List UInt8) : Except LoadError Json :=
  match Utf8.decode bytes with
  | .error fault => .error (.fileUnreadable path fault.message)
  | .ok cs =>
    let cs := unifyLineEnds cs
    match Json.parse cs with
    | .ok data => .ok data
    | .error (.malformed complaint position) => .error (.fileMalformed path (complaint.located position cs))
    | .error .longInteger => .error .longInteger

/-- The description that is found at a path. -/
def read (path : Text) (found : Except PathError Entry) : Except LoadError Json :=
  match found with
  | .ok (.file bytes) => readBytes path bytes
  | .ok .device => readBytes path []
  | .ok .directory | .error .isDirectory =>
    .error (.fileUnreadable path (systemError 21 "Is a directory" path))
  | .error .unusable => .error .pathUnusable
  | .error .missing => .error (.fileMissing path)
  | .error .notDirectory => .error (.fileUnreadable path (systemError 20 "Not a directory" path))
  | .error .exists => .error (.fileUnreadable path (systemError 17 "File exists" path))
  | .error .nameTooLong => .error (.fileUnreadable path (systemError 36 "File name too long" path))

end GraphFile

/-- The program that is described in what is found at a path. -/
def Program.loadFile (path : Text) (found : Except PathError Entry) : Except LoadError Program := do
  Program.load (← GraphFile.read path found)

end Edm
