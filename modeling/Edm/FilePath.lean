import Edm.Text

/-!
# File paths

A path is a root and the names on the way from it; empty names and single dots are dropped when it is read.
`Directory.look` says what is found at a path, given a directory of which all files are known, and
`Directory.obstacle?` what keeps a file from being written.
-/

namespace Edm

/-- A path: slashes for the root, if it starts there, and names. -/
structure FilePath where
  root : Text := []
  names : List Text := []
deriving DecidableEq, Repr, Inhabited

namespace FilePath

/-- The slash between names. -/
def slash : CodePoint := '/'

/-- The parts of a text between slashes. -/
def splitSlash : Text → List Text
  | [] => [[]]
  | c :: rest =>
    if c = slash then [] :: splitSlash rest
    else match splitSlash rest with
      | [] => [[c]]
      | first :: others => (c :: first) :: others

/-- The root that a text starts with; exactly two slashes are a root of their own. -/
def rootOf (t : Text) : Text :=
  let slashes := t.takeWhile (· == slash)
  if slashes.length = 2 then slashes else slashes.take 1

/-- The path that a text gives. -/
def ofText (t : Text) : FilePath :=
  { root := rootOf t, names := (splitSlash t).filter fun n => !n.isEmpty && n != "." }

/-- A path as a text; the path of no names is a dot. -/
def text (p : FilePath) : Text :=
  if p.root.isEmpty && p.names.isEmpty then "." else p.root ++ Text.join [slash] p.names

/-- A path inside another one, unless it starts at a root. -/
def append (p q : FilePath) : FilePath :=
  if q.root.isEmpty then { p with names := p.names ++ q.names } else q

/-- Whether a text can only be the path of a directory. -/
def endsAsDirectory (t : Text) : Bool :=
  match (splitSlash t).getLast? with
  | some last => last.isEmpty || last == "." || last == ".."
  | none => false

/-- One name further on a way that has led to `names`; nothing if it leads out. -/
def step (names : Option (List Text)) (name : Text) : Option (List Text) :=
  match names with
  | none => none
  | some names =>
    if name = ".." then (if names.isEmpty then none else some names.dropLast) else some (names ++ [name])

/-- The names that lead to a path from the directory that paths are relative to, without steps upward;
nothing if the path leads out of it. -/
def resolve (p : FilePath) : Option (List Text) :=
  if p.root.isEmpty then p.names.foldl step (some []) else none

end FilePath

/-- Why a path leads nowhere, or cannot be written to. -/
inductive PathError
  /-- A text that no path can be: it holds the null character. -/
  | unusable
  | missing
  | notDirectory
  | isDirectory
  | exists
  | nameTooLong
deriving DecidableEq, Repr

/-- What is found at a path. -/
inductive Entry
  | directory
  | file (bytes : List UInt8)
  /-- The device that reads as an empty file and drops what is written to it. -/
  | device
deriving Repr

/-- A place on the way to a path: inside the directory; somewhere above it; in the file system from its root;
or where no way leads further. -/
inductive Place
  | inside (names : List Text)
  | above
  | system (names : List Text)
  | file (bytes : List UInt8)
  | device
deriving DecidableEq, Repr

/-- A directory: its files with the names that lead to them, of which those before the last one lead to its
directories, and the places of directories that have been made besides. -/
structure Directory where
  files : List (List Text × List UInt8) := []
  made : List Place := []
deriving Repr

/-- The directories at the root of every file system. -/
def systemDirectories : List Text :=
  ["bin", "boot", "dev", "etc", "home", "lib", "media", "mnt", "opt", "proc", "root", "run", "sbin", "srv",
    "sys", "tmp", "usr", "var"]

/-- The most bytes that a name can have. -/
def longestName : Nat := 255

/-- The bytes that a whole path has to stay below. -/
def pathLimit : Nat := 4096

/-- How many bytes a text takes up in UTF-8. -/
def byteLength (t : Text) : Nat := t.toChars.foldl (fun n c => n + c.utf8Size) 0

/-- What keeps a text from being a path of any kind. -/
def textFault? (t : Text) : Option PathError :=
  if t.contains ('\x00' : CodePoint) then some .unusable
  else if pathLimit ≤ byteLength t then some .nameTooLong
  else none

namespace Directory

/-- Whether there is a directory at a place. -/
def hasDirectory (d : Directory) : Place → Bool
  | .inside names => names.isEmpty || d.made.contains (.inside names)
    || d.files.any fun f => names.isPrefixOf f.1.dropLast
  | .above => true
  | .system [] => true
  | .system [name] => systemDirectories.contains name || d.made.contains (.system [name])
  | .system names => d.made.contains (.system names)
  | _ => false

/-- What has the given name at a place.  Of what is above the directory, and of what every file system has
at its root, only these directories themselves are known. -/
def child (d : Directory) (name : Text) (place : Place) : Except PathError Place :=
  let directory (here : Place) : Except PathError Place :=
    if d.hasDirectory here then .ok here else .error .missing
  match place with
  | .inside names =>
    let here := names ++ [name]
    match d.files.find? fun f => f.1 == here with
    | some f => .ok (.file f.2)
    | none => directory (.inside here)
  | .above => .error .missing
  | .system names =>
    if names = [Text.ofString "dev"] ∧ name = "null" then .ok .device else directory (.system (names ++ [name]))
  | .file _ | .device => .error .notDirectory

/-- The place one name further on.  Nothing is above the root. -/
def step (d : Directory) (place : Place) (name : Text) : Except PathError Place :=
  if d.hasDirectory place then
    if name = ".." then
      match place with
      | .inside [] => .ok .above
      | .inside names => .ok (.inside names.dropLast)
      | .system names => .ok (.system names.dropLast)
      | place => .ok place
    else if longestName < byteLength name then .error .nameTooLong
    else d.child name place
  else .error .notDirectory

/-- Where a path starts. -/
def start (p : FilePath) : Place := if p.root.isEmpty then .inside [] else .system []

/-- The place at the end of a path. -/
def place (d : Directory) (p : FilePath) : Except PathError Place := p.names.foldlM d.step (start p)

/-- What is found at the path that a text gives; no text at all gives none.  A file is not found where the
text asks for a directory. -/
def look (d : Directory) (t : Text) : Except PathError Entry := do
  if let some e := textFault? t then throw e
  if t.isEmpty then throw .missing
  let place ← d.place (FilePath.ofText t)
  if d.hasDirectory place then return .directory
  if FilePath.endsAsDirectory t then throw .notDirectory
  match place with
  | .file bytes => return .file bytes
  | _ => return .device

/-! ### Writing -/

/-- The place of a directory that is made under a name. -/
def newPlace (name : Text) : Place → Place
  | .inside names => .inside (names ++ [name])
  | .system names => .system (names ++ [name])
  | place => place

/-- Goes one name further on, to a directory that is made if it is not there. -/
def makeStep (reached : Directory × Place) (name : Text) : Except PathError (Directory × Place) :=
  let (d, place) := reached
  match d.step place name with
  | .ok next => if d.hasDirectory next then .ok (d, next) else .error .exists
  | .error .missing =>
    let next := newPlace name place
    .ok ({ d with made := next :: d.made }, next)
  | .error e => .error e

/-- Goes on by some names, of which the ones from the first missing one on are made one by one.  Up to there
only the last one can be in the way by being there. -/
def makeWay (d : Directory) (place : Place) : List Text → Except PathError (Directory × Place)
  | [] => .ok (d, place)
  | name :: rest => match d.step place name with
    | .ok next =>
      if d.hasDirectory next then d.makeWay next rest
      else .error (if rest.isEmpty then .exists else .notDirectory)
    | .error .missing => (name :: rest).foldlM makeStep (d, place)
    | .error e => .error e

/-- What keeps a file from being written under a name at a place, if anything does. -/
def fileObstacle? (d : Directory) (place : Place) (name : Text) : Option PathError :=
  match d.step place name with
  | .ok next => if d.hasDirectory next then some .isDirectory else none
  | .error .missing => none
  | .error e => some e

/-- What keeps a file from being written at a path, if anything does.  The directories on the way to it are
made first. -/
def obstacle? (d : Directory) (p : FilePath) : Option PathError :=
  let parent : FilePath := { p with names := p.names.dropLast }
  (textFault? parent.text).or <| match d.makeWay (start p) parent.names with
    | .error e => some e
    | .ok (d, place) => (textFault? p.text).or <| match p.names.getLast? with
      | none => some .isDirectory
      | some name => d.fileObstacle? place name

end Directory

end Edm
