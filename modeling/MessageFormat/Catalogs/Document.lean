import MessageFormat.Catalogs

/-!
Catalogs as documents: an object of locales, each of which is an object of ids. An entry is a bare
text, or an object with a message and perhaps a description.
-/

namespace MessageFormat

/-- A document as far as catalogs look into it; numbers, truth values and lists are `other`. -/
inductive Document where
  | null
  | text (text : String)
  | object (members : List (String × Document))
  | other
deriving Inhabited, Repr

namespace Document

/-- The values of all members with a name. -/
def valuesOf (name : String) (members : List (String × Document)) : List Document :=
  (members.filter (·.1 = name)).map (·.2)

end Document

namespace CatalogEntry

def document : CatalogEntry → Document
  | .pattern message => .text message
  | .record message none => .object [("message", .text message)]
  | .record message (some description) =>
      .object [("message", .text message), ("description", .text description)]

/-- Reads an entry. Other members of an object are passed over, but a message or a description that
is given twice is refused. -/
def ofDocument? : Document → Option CatalogEntry
  | .text message => some (.pattern message)
  | .object members =>
      match Document.valuesOf "message" members, Document.valuesOf "description" members with
      | [.text message], [] => some (.record message none)
      | [.text message], [.null] => some (.record message none)
      | [.text message], [.text description] => some (.record message (some description))
      | _, _ => none
  | .null => none
  | .other => none

end CatalogEntry

namespace SortedMap

variable {α : Type}

def document (write : α → Document) (map : SortedMap α) : Document :=
  .object (map.entries.map fun entry => (entry.1, write entry.2))

/-- Reads a map; the last value that is given for a key counts. -/
def ofDocument? (read : Document → Option α) : Document → Option (SortedMap α)
  | .object members => (members.mapM fun member => (read member.2).map (member.1, ·)).map ofList
  | _ => none

end SortedMap

namespace Catalogs

def document (catalogs : Catalogs) : Document :=
  catalogs.written.document (SortedMap.document CatalogEntry.document)

def ofDocument? (document : Document) : Option Catalogs :=
  (SortedMap.ofDocument? (SortedMap.ofDocument? CatalogEntry.ofDocument?) document).map ofWritten

end Catalogs

end MessageFormat
