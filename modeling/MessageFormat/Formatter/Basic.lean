import MessageFormat.Catalogs
import MessageFormat.Formatter.Cache
import MessageFormat.Identifier.Scheme
import MessageFormat.Pattern.SyntaxError
import MessageFormat.Suggestion

/-!
Formatters look a message up in their catalogs, prepare its pattern through a cache and render it.
The cache is handed in and out, so that several formatters can share one.
-/

namespace MessageFormat

/-! ## Errors -/

inductive FormatError where
  | malformed (locale id : String) (source : SyntaxError)
  | missingMessage (locale id : String) (suggestions : List String)
deriving DecidableEq, Repr

namespace FormatError

def hint (suggestions : List String) : String :=
  if suggestions.isEmpty then ""
  else ", did you mean: " ++ ", ".intercalate suggestions ++ "?"

def message : FormatError → String
  | malformed locale id source =>
      "invalid message '" ++ id ++ "' for locale '" ++ locale ++ "': " ++ source.text
  | missingMessage locale id suggestions =>
      "translation '" ++ id ++ "' not found for locale '" ++ locale ++ "'" ++ hint suggestions

end FormatError

/-! ## Formatters -/

structure Descriptor where
  id : Option String := none
  pattern : String
  description : Option String := none
deriving DecidableEq, Repr

inductive MissingPolicy where
  | fail
  | warn
  | ignore
deriving DecidableEq, Repr

inductive Replacement where
  | pattern (pattern : String)
  | computed (replace : String → String → String → String)

def Replacement.resolve (pattern id locale : String) : Replacement → String
  | .pattern replacement => replacement
  | .computed replace => replace pattern id locale

structure Formatter where
  locale : String := "en"
  catalogs : Catalogs := .empty
  scheme : Identifier.Scheme := .slugWithChecksum
  missing : MissingPolicy := .warn
  replacement : Option Replacement := none
  renderer : Renderer := {}
  tags : Bool := false

structure Outcome (α : Type) where
  result : Except FormatError α
  cache : Cache
  log : List LogEntry

def Outcome.map {α β : Type} (f : α → β) (outcome : Outcome α) : Outcome β :=
  { outcome with result := outcome.result.map f }

namespace Formatter

/-! ## Look-up -/

def derivedId (formatter : Formatter) (pattern : String) : String :=
  formatter.scheme.idOf pattern

def messageId (formatter : Formatter) (descriptor : Descriptor) : String :=
  descriptor.id.getD (formatter.derivedId descriptor.pattern)

def lookup? (formatter : Formatter) (id locale : String) : Option CatalogEntry :=
  (formatter.catalogs.lookup? locale id).map (·.2)

def replacementFor (formatter : Formatter) (pattern id locale : String) : String :=
  match formatter.replacement with
  | some replacement => replacement.resolve pattern id locale
  | none => pattern

/-- The pattern that is rendered for a pattern and its id. Without any catalogs it is the pattern
itself. -/
def resolvePattern (formatter : Formatter) (locale pattern id : String) :
    Except FormatError String × List LogEntry :=
  if formatter.catalogs.isEmpty then (.ok pattern, [])
  else match formatter.lookup? id locale with
    | some entry => (.ok entry.message, [])
    | none =>
        let replaced := formatter.replacementFor pattern id locale
        match formatter.missing with
        | .fail =>
            let known := formatter.catalogs.ids locale
            (.error (.missingMessage locale id (Suggestion.suggestions id known)), [])
        | .warn => (.ok replaced, [.missingMessage id locale])
        | .ignore => (.ok replaced, [])

def patternOf (formatter : Formatter) (descriptor : Descriptor) (locale : String) :
    Except FormatError String × List LogEntry :=
  formatter.resolvePattern locale descriptor.pattern (formatter.messageId descriptor)

/-! ## Formatting -/

def prepare (formatter : Formatter) (locale pattern : String) : Except SyntaxError Prepared :=
  (parse formatter.tags pattern).map fun message => formatter.renderer.prepare message [locale]

def resolve (formatter : Formatter) (cache : Cache) (locale pattern id : String)
    (output : Output) : Outcome Prepared :=
  match formatter.resolvePattern locale pattern id with
  | (.error error, log) => ⟨.error error, cache, log⟩
  | (.ok pattern, log) =>
      let key : CacheKey := ⟨locale, output, pattern⟩
      let fetched := cache.fetch key fun _ => formatter.prepare locale pattern
      { result := fetched.result.mapError (.malformed locale id)
        cache := fetched.cache
        log := log ++ cache.fetchLog key }

def textOf (formatter : Formatter) (cache : Cache) (locale pattern id : String) (args : Args) :
    Outcome String :=
  (formatter.resolve cache locale pattern id .text).map (·.text args)

def partsOf (formatter : Formatter) (cache : Cache) (locale pattern id : String) (args : Args) :
    Outcome (List Part) :=
  (formatter.resolve cache locale pattern id .parts).map (·.parts args)

def formatIn (formatter : Formatter) (cache : Cache) (locale pattern : String) (args : Args) :
    Outcome String :=
  formatter.textOf cache locale pattern (formatter.derivedId pattern) args

def format (formatter : Formatter) (cache : Cache) (pattern : String) (args : Args) :
    Outcome String :=
  formatter.formatIn cache formatter.locale pattern args

def formatToParts (formatter : Formatter) (cache : Cache) (pattern : String) (args : Args) :
    Outcome (List Part) :=
  formatter.partsOf cache formatter.locale pattern (formatter.derivedId pattern) args

def formatMessage (formatter : Formatter) (cache : Cache) (descriptor : Descriptor) (args : Args) :
    Outcome String :=
  formatter.textOf cache formatter.locale descriptor.pattern (formatter.messageId descriptor) args

def formatMessageToParts (formatter : Formatter) (cache : Cache) (descriptor : Descriptor)
    (args : Args) : Outcome (List Part) :=
  formatter.partsOf cache formatter.locale descriptor.pattern (formatter.messageId descriptor) args

/-! ## Direct helpers -/

def render (formatter : Formatter) (service : Service) (options : ServiceOptions) (value : Value) :
    String :=
  formatter.renderer.localizer.bind ⟨service, formatter.locale, options⟩ value

def number (formatter : Formatter) (value : Value) (style : Option String) : String :=
  formatter.render .number (.number (formatter.renderer.styles.resolveNumber style)) value

def date (formatter : Formatter) (value : Value) (style : Option String) : String :=
  formatter.render .date (.dateTime (formatter.renderer.styles.resolveDate style)) value

def time (formatter : Formatter) (value : Value) (style : Option String) : String :=
  formatter.render .time (.dateTime (formatter.renderer.styles.resolveTime style)) value

def option? {α : Type} (options : List (String × α)) (keys : List String) : Option α :=
  (keys ++ ["other"]).findSome? fun key => options.lookup key

def select? {α : Type} (value : Value) (options : List (String × α)) : Option α :=
  option? options [value.display]

def plural? {α : Type} (formatter : Formatter) (type : PluralType) (value : Binary64)
    (offset : UInt32) (options : List (String × α)) : Option α :=
  let category := Plural.category type formatter.locale value (.ofInt offset.toNat)
  option? options [Plural.exactKey value, category.name]

end Formatter

structure Namespace where
  formatter : Formatter
  label : String

namespace Namespace

def qualify (space : Namespace) (id : String) : String :=
  space.label ++ "." ++ id

def format (space : Namespace) (cache : Cache) (pattern : String) (args : Args) :
    Outcome String :=
  space.formatter.textOf cache space.formatter.locale pattern
    (space.qualify (space.formatter.derivedId pattern)) args

def formatMessage (space : Namespace) (cache : Cache) (descriptor : Descriptor) (args : Args) :
    Outcome String :=
  space.formatter.textOf cache space.formatter.locale descriptor.pattern
    (space.qualify (space.formatter.messageId descriptor)) args

def formatToParts (space : Namespace) (cache : Cache) (pattern : String) (args : Args) :
    Outcome (List Part) :=
  space.formatter.partsOf cache space.formatter.locale pattern
    (space.qualify (space.formatter.derivedId pattern)) args

end Namespace

end MessageFormat
