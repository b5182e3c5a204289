import Edm.Text

/-!
# Faults of documents

Why a document cannot be put together from a graph.
-/

namespace Edm

/-- Why a document cannot be put together. -/
inductive DocumentFault
  /-- A text is to be made of a name that is no text. -/
  | notText
  /-- Something is asked of a node or a value that it does not have. -/
  | lacking
deriving DecidableEq, Repr

end Edm
