import Edm.Label

/-!
# Elements

A document is a tree of elements with a tag, attributes in order, and children in order.
-/

namespace Edm

/-- An element of a document. -/
inductive Element
  | node (tag : Text) (attributes : List (Text × Label)) (children : List Element)
deriving Repr, Inhabited

namespace Element

/-- The tag of an element. -/
def tag : Element → Text
  | node t _ _ => t

/-- The attributes of an element, in order. -/
def attributes : Element → List (Text × Label)
  | node _ as _ => as

/-- The children of an element, in order. -/
def children : Element → List Element
  | node _ _ cs => cs

/-- An element with the given attributes, less the absent ones. -/
def build (tag : Text) (attributes : List (Text × Label)) (children : List Element) : Element :=
  node tag (attributes.filter fun a => !a.2.isAbsent) children

/-- Attributes with one more: a name that is there already keeps its place and takes the new value. -/
def setAttribute (name : Text) (value : Label) : List (Text × Label) → List (Text × Label)
  | [] => [(name, value)]
  | (n, v) :: rest => if n = name then (n, value) :: rest else (n, v) :: setAttribute name value rest

/-! ### Queries -/

/-- The value of the first attribute with a name. -/
def get? (name : Text) (e : Element) : Option Label :=
  (e.attributes.find? fun a => a.1 == name).map Prod.snd

/-- The first child with a tag. -/
def find? (tag : Text) (e : Element) : Option Element := e.children.find? fun c => c.tag == tag

/-- The children with a tag. -/
def findAll (tag : Text) (e : Element) : List Element := e.children.filter fun c => c.tag == tag

mutual

/-- An element and all below it, in document order. -/
def descendants : Element → List Element
  | node t as cs => node t as cs :: descendantsOf cs

/-- The elements of a list and all below them, in document order. -/
def descendantsOf : List Element → List Element
  | [] => []
  | c :: cs => descendants c ++ descendantsOf cs

end

theorem descendantsOf_eq (cs : List Element) : descendantsOf cs = cs.flatMap descendants := by
  induction cs with
  | nil => simp [descendantsOf]
  | cons c cs ih => simp [descendantsOf, ih]

/-- Whether all values of an element's own attributes could be formed. -/
def isFormed (e : Element) : Bool := e.attributes.all fun a => a.2.isFormed

/-! ### Equality -/

/-- Whether two lists of attributes have the same names and values. -/
def sameAttributes : List (Text × Label) → List (Text × Label) → Bool
  | [], [] => true
  | (n, v) :: as, (m, w) :: bs => n == m && v.same w && sameAttributes as bs
  | _, _ => false

mutual

/-- Whether two elements have the same tags, names and values. -/
def same : Element → Element → Bool
  | node t as cs, node u bs ds => t == u && sameAttributes as bs && sameList cs ds

/-- Whether two lists have the same elements. -/
def sameList : List Element → List Element → Bool
  | [], [] => true
  | c :: cs, d :: ds => same c d && sameList cs ds
  | _, _ => false

end

mutual

/-- Equality of elements can be decided. -/
def decEq : (d e : Element) → Decidable (d = e)
  | node t as cs, node u bs ds =>
    if ht : t = u then
      if ha : as = bs then
        match decEqList cs ds with
        | isTrue hc => isTrue (ht ▸ ha ▸ hc ▸ rfl)
        | isFalse hc => isFalse (by simp [hc])
      else isFalse (by simp [ha])
    else isFalse (by simp [ht])

/-- Equality of lists of elements can be decided. -/
def decEqList : (ds es : List Element) → Decidable (ds = es)
  | [], [] => isTrue rfl
  | [], _ :: _ | _ :: _, [] => isFalse (by simp)
  | d :: ds, e :: es => match decEq d e, decEqList ds es with
    | isTrue h, isTrue hs => isTrue (h ▸ hs ▸ rfl)
    | isFalse h, _ => isFalse (by simp [h])
    | _, isFalse hs => isFalse (by simp [hs])

end

instance : DecidableEq Element := decEq

end Element

end Edm
