import Edm.Json.Display

/-!
# Labels

What stands where a text is expected: the name of a declaration, or the value of an attribute.  A
description may put any value there, and a text that is to be put together from such values may fail to
come about; only a text can be written into a document.
-/

namespace Edm

/-- A text, another value in its place, or a text that could not be formed. -/
inductive Label
  | text (t : Text)
  | raw (value : Json)
  | unformed
deriving DecidableEq, Repr, Inhabited

namespace Label

instance : Coe Text Label := ⟨text⟩

/-- The label that a value gives. -/
def ofJson : Json → Label
  | .string t => text t
  | v => raw v

/-- The text of a label that is one. -/
def text? : Label → Option Text
  | text t => some t
  | _ => none

/-- Whether a label is a text. -/
def isText (l : Label) : Bool := l.text?.isSome

theorem isText_iff {l : Label} : l.isText = true ↔ ∃ t, l = text t := by
  cases l <;> simp [isText, text?]

/-- Whether a label could be formed. -/
def isFormed : Label → Bool
  | unformed => false
  | _ => true

/-- The value that a label was made from. -/
def toJson : Label → Json
  | text t => .string t
  | raw v => v
  | unformed => .null

/-- Whether a label counts as present; the empty text does not. -/
def truthy : Label → Bool
  | text t => !t.isEmpty
  | raw v => v.truthy
  | unformed => true

/-- Whether a label can be the key of a member. -/
def keyable : Label → Bool
  | text _ => true
  | raw v => v.keyable
  | unformed => false

/-- Whether two labels are one key. -/
def sameKey : Label → Label → Bool
  | text s, text t => s == t
  | raw v, raw w => v.sameKey w
  | _, _ => false

@[simp] theorem sameKey_text (s t : Text) : sameKey (text s) (text t) = (s == t) := rfl

/-- Whether two labels are the same; unlike keys, arrays and objects can be. -/
def same : Label → Label → Bool
  | text s, text t => s == t
  | raw v, raw w => v.same w
  | _, _ => false

/-- A label as a part of a text. -/
def display : Label → Text
  | text t => t
  | raw v => v.display
  | unformed => []

@[simp] theorem display_text (t : Text) : (text t).display = t := rfl

/-- A label as a part of a text, where nothing stands for one that does not count as present. -/
def displayOrEmpty (l : Label) : Text := if l.truthy then l.display else []

@[simp] theorem displayOrEmpty_text (t : Text) : (text t).displayOrEmpty = t := by
  cases t <;> simp [displayOrEmpty, truthy]

/-- Whether an attribute with this value is left out. -/
def isAbsent : Label → Bool
  | raw .null => true
  | _ => false

/-- The label around which `opening` and `closing` stand, if it can be formed. -/
def enclose (opening closing : Text) : Label → Label
  | unformed => unformed
  | l => text (opening ++ l.display ++ closing)

/-- Labels in order with a separator between them; all of them have to be texts. -/
def join (separator : Text) (labels : List Label) : Label :=
  match labels.mapM text? with
  | some texts => text (Text.join separator texts)
  | none => unformed

/-- Texts can be joined. -/
theorem isText_join {separator : Text} {labels : List Label} (h : ∀ l ∈ labels, l.isText = true) :
    (join separator labels).isText = true := by
  have htexts : ∃ texts, labels.mapM text? = some texts := by
    induction labels with
    | nil => exact ⟨[], rfl⟩
    | cons l labels ih =>
      obtain ⟨t, rfl⟩ := isText_iff.1 (h l (List.mem_cons_self ..))
      obtain ⟨texts, htexts⟩ := ih fun m hm => h m (List.mem_cons_of_mem _ hm)
      exact ⟨t :: texts, by simp [htexts, text?]⟩
  obtain ⟨texts, htexts⟩ := htexts
  rw [join, htexts]
  rfl

end Label

end Edm
