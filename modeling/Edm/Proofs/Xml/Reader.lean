import Edm.Proofs.Xml.Tags

/-!
# Reading documents

A reader of documents that consist of elements only: a declaration, if there is one, and one tree of tags with
white space between them.  It knows nothing of how documents are written: marks of both kinds stand around
values, references of all forms are decoded, white space in a value is read as a space, and whatever XML does
not allow in such a document is refused.
-/

namespace Edm

namespace Xml

/-- A tag as it is read. -/
inductive Event
  | opening (name : List Char) (attributes : List (List Char × List Char))
  | single (name : List Char) (attributes : List (List Char × List Char))
  | closing (name : List Char)
deriving DecidableEq, Repr

namespace Reader

/-! ### References and values -/

/-- The value of a digit in a base of at most sixteen. -/
def digit? (base : Nat) (c : Char) : Option Nat :=
  let value :=
    if '0' ≤ c ∧ c ≤ '9' then c.toNat - '0'.toNat
    else if 'a' ≤ c ∧ c ≤ 'f' then c.toNat - 'a'.toNat + 10
    else if 'A' ≤ c ∧ c ≤ 'F' then c.toNat - 'A'.toNat + 10
    else base
  if value < base then some value else none

/-- The number that digits stand for. -/
def natural? (base : Nat) (digits : List Char) : Option Nat :=
  if digits.isEmpty then none
  else digits.foldlM (fun n c => (digit? base c).map (n * base + ·)) 0

/-- The character with a number, if a document can hold it. -/
def character? (code : Nat) : Option Char :=
  let c := Char.ofNat code
  if c.toNat = code ∧ isChar c = true then some c else none

/-- The character that stands between the ampersand and the semicolon of a reference. -/
def reference? (body : List Char) : Option Char :=
  if body = "amp".toList then some '&'
  else if body = "lt".toList then some '<'
  else if body = "gt".toList then some '>'
  else if body = "quot".toList then some '"'
  else if body = "apos".toList then some '\''
  else match body with
    | '#' :: 'x' :: digits => (natural? 16 digits).bind character?
    | '#' :: digits => (natural? 10 digits).bind character?
    | _ => none

/-- The value that is written between two marks, where `pending` is what has been seen of a reference. -/
def value? : (pending : Option (List Char)) → List Char → Option (List Char)
  | none, [] => some []
  | some _, [] => none
  | none, c :: cs =>
    if c = '&' then value? (some []) cs
    else if c = '<' ∨ isChar c = false then none
    else (value? none cs).map ((if isSpace c then ' ' else c) :: ·)
  | some body, c :: cs =>
    if c = ';' then (reference? body).bind fun d => (value? none cs).map (d :: ·)
    else value? (some (body ++ [c])) cs

/-! ### Tags -/

/-- The name at the start of a text, and what follows it. -/
def name? (cs : List Char) : Option (List Char × List Char) :=
  let name := cs.takeWhile isQualifiedChar
  if isQualifiedName name then some (name, cs.dropWhile isQualifiedChar) else none

/-- The value in marks at the start of a text, and what follows it. -/
def quoted? : List Char → Option (List Char × List Char)
  | [] => none
  | mark :: cs =>
    if mark = '"' ∨ mark = '\'' then
      match cs.dropWhile (· != mark) with
      | [] => none
      | _ :: rest => (value? none (cs.takeWhile (· != mark))).map fun v => (v, rest)
    else none

/-- The attribute at the start of a text, with the white space in front of it, and what follows it. -/
def attribute? (cs : List Char) : Option ((List Char × List Char) × List Char) :=
  if (cs.takeWhile isSpace).isEmpty then none
  else (name? (cs.dropWhile isSpace)).bind fun (name, rest) =>
    match rest.dropWhile isSpace with
    | '=' :: rest => (quoted? (rest.dropWhile isSpace)).map fun (value, rest) => ((name, value), rest)
    | _ => none

/-- The attributes at the start of a text, and what follows them. -/
def attributes (cs : List Char) : List (List Char × List Char) × List Char :=
  match attribute? cs with
  | none => ([], cs)
  | some (a, rest) =>
    if _h : rest.length < cs.length then
      let (as, last) := attributes rest
      (a :: as, last)
    else ([], cs)
termination_by cs.length

/-- The opening or single tag that ends here, and what follows it. -/
def ending? (name : List Char) (as : List (List Char × List Char)) : List Char → Option (Event × List Char)
  | '>' :: rest => some (.opening name as, rest)
  | '/' :: '>' :: rest => some (.single name as, rest)
  | _ => none

/-- The tag after an opening bracket, and what follows its closing bracket.  No two attributes of a tag have
one name. -/
def tag? (cs : List Char) : Option (Event × List Char) :=
  match cs with
  | '/' :: cs => (name? cs).bind fun (name, rest) =>
    match rest.dropWhile isSpace with
    | '>' :: rest => some (.closing name, rest)
    | _ => none
  | cs => (name? cs).bind fun (name, rest) =>
    let (as, rest) := attributes rest
    if (as.map Prod.fst).Nodup then ending? name as (rest.dropWhile isSpace) else none

/-- The tags of a text with only white space around them. -/
def events (cs : List Char) : Option (List Event) :=
  match cs.dropWhile isSpace with
  | [] => some []
  | '<' :: rest =>
    match tag? rest with
    | none => none
    | some (e, last) =>
      if _h : last.length < cs.length then (events last).map (e :: ·) else none
  | _ => none
termination_by cs.length

/-! ### Trees -/

/-- An element that is not closed yet: its name, its attributes, and the elements before it. -/
abbrev Frame := List Char × List (List Char × List Char) × List Markup

/-- The trees that tags make up, where `before` are the elements that the innermost open one has so far. -/
def grow : (opened : List Frame) → (before : List Markup) → List Event → Option (List Markup)
  | [], before, [] => some before
  | _ :: _, _, [] => none
  | opened, before, .single name as :: es => grow opened (before ++ [.node name as []]) es
  | opened, before, .opening name as :: es => grow ((name, as, before) :: opened) [] es
  | [], _, .closing _ :: _ => none
  | (name, as, outer) :: opened, before, .closing name' :: es =>
    if name' = name then grow opened (outer ++ [.node name as before]) es else none

/-- What follows the declaration of a document, if it has one. -/
def body? (cs : List Char) : Option (List Char) :=
  match cs with
  | '<' :: '?' :: 'x' :: 'm' :: 'l' :: rest =>
    let (as, rest) := attributes rest
    if as.head? = some ("version".toList, "1.0".toList) then
      match rest.dropWhile isSpace with
      | '?' :: '>' :: rest => some rest
      | _ => none
    else none
  | _ => some cs

end Reader

/-- The tree of a document. -/
def read? (cs : List Char) : Option Markup :=
  match ((Reader.body? cs).bind Reader.events).bind (Reader.grow [] []) with
  | some [m] => some m
  | _ => none

end Xml

namespace Markup

/-- Whether an attribute declares a vocabulary. -/
def isDeclaration (a : List Char × List Char) : Bool :=
  a.1 == "xmlns".toList || "xmlns:".toList.isPrefixOf a.1

mutual

/-- A tree without the declarations of vocabularies. -/
def undeclared : Markup → Markup
  | node name attributes children =>
    node name (attributes.filter fun a => !isDeclaration a) (undeclaredList children)

/-- Trees without the declarations of vocabularies. -/
def undeclaredList : List Markup → List Markup
  | [] => []
  | m :: ms => undeclared m :: undeclaredList ms

end

end Markup

end Edm
