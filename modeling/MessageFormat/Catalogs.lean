import MessageFormat.Locale
import MessageFormat.SortedMap

/-!
Catalogs of messages by locale and id. Locales are kept in normalized form; a look-up falls back to
shorter tags, id by id.
-/

namespace MessageFormat

inductive CatalogEntry where
  | pattern (message : String)
  | record (message : String) (description : Option String)
deriving DecidableEq, Repr

namespace CatalogEntry

def message : CatalogEntry → String
  | .pattern message => message
  | .record message _ => message

def description? : CatalogEntry → Option String
  | .pattern _ => none
  | .record _ description => description

end CatalogEntry

abbrev Catalog := SortedMap CatalogEntry

structure Catalogs where
  byLocale : SortedMap Catalog
deriving DecidableEq

namespace Catalogs

def empty : Catalogs := ⟨.empty⟩

def isEmpty (catalogs : Catalogs) : Bool :=
  catalogs.byLocale.isEmpty

def catalog (catalogs : Catalogs) (locale : String) : Catalog :=
  (catalogs.byLocale.get? locale).getD .empty

/-- Adds or replaces entries of a locale, which becomes known even if there are none. -/
def extend (catalogs : Catalogs) (locale : String) (entries : List (String × CatalogEntry)) :
    Catalogs :=
  let key := Locale.normalize locale
  ⟨catalogs.byLocale.insert key ((catalogs.catalog key).insertAll entries)⟩

def insert (catalogs : Catalogs) (locale id : String) (entry : CatalogEntry) : Catalogs :=
  catalogs.extend locale [(id, entry)]

def locales (catalogs : Catalogs) : List String :=
  catalogs.byLocale.keys

def get? (catalogs : Catalogs) (locale id : String) : Option CatalogEntry :=
  (catalogs.catalog (Locale.normalize locale)).get? id

def lookup? (catalogs : Catalogs) (locale id : String) : Option (String × CatalogEntry) :=
  match Locale.closest? [locale] fun candidate => (catalogs.catalog candidate).contains id with
  | none => none
  | some matched => ((catalogs.catalog matched).get? id).map fun found => (matched, found)

def ids (catalogs : Catalogs) (locale : String) : List String :=
  let known := (Locale.candidates [locale]).flatMap fun tag => (catalogs.catalog tag).keys
  (SortedMap.ofList (known.map fun id => (id, ()))).keys

/-- Catalogs under locales as they are written, merged in the order of these. -/
def ofWritten (written : SortedMap Catalog) : Catalogs :=
  written.entries.foldl (fun catalogs entry => catalogs.extend entry.1 entry.2.entries) .empty

def written (catalogs : Catalogs) : SortedMap Catalog :=
  catalogs.byLocale

end Catalogs

end MessageFormat
