import Promptwright.Document.JsonText
import Promptwright.Document.Record

/-! # Documents as JSON values

A whole document read as one arbitrary JSON value. -/

namespace Promptwright

namespace Document

/-- Reads the whole document with a reader.  A document that is not complete is unreadable, but
a mismatch inside it comes first. -/
def read {α : Type} (d : Document) (reader : Node → Reading α) : Reading α := do
  let a ← reader d.root
  if d.complete then return a else .error .unreadable

end Document

namespace Json

/-- The value of a JSON text, if it is one. -/
def ofText? (text : String) : Option Json :=
  ((Document.ofJsonText text).read Node.json).toOption

end Json

end Promptwright
