import MessageFormat.Message.Basic
import MessageFormat.Plural.Selection
import MessageFormat.Rendering.Localizer
import MessageFormat.SortedMap
import MessageFormat.Style
import MessageFormat.Value

/-!
Rendering of messages. A message is prepared for a locale first: every style is resolved and the
localizer is asked once for each formatting function. A prepared message renders any arguments: it is
written part by part to a sink, which collects either text or the parts themselves.
-/

namespace MessageFormat

/-! ## Custom types -/

structure CustomPlaceholder where
  id : String
  type : String
  style : CustomStyle

/-- A handler is given the placeholder and the locale when a message is prepared, and the argument
with all arguments when it is rendered. -/
abbrev TypeHandler := CustomPlaceholder → String → Value → Args → Value

abbrev TypeRegistry := SortedMap TypeHandler

/-! ## Parts -/

inductive Part where
  | text (content : String)
  | value (value : Value)
  | tag (name : String) (children : List Part)
  | emptyTag (name : String)

/-! ## Preparing -/

structure Renderer where
  styles : StyleTable := .standard
  types : TypeRegistry := .empty
  localizer : Localizer := .plain

/-- What a message is rendered with: the arguments, and the number of the innermost plural. -/
structure Env where
  args : Args
  hash : Option Value

abbrev Rendering := Env → List Part

/-- The formatting functions bound so far, and every request for one, in order. -/
structure Bindings where
  known : List ((Service × String) × Formatting) := []
  requests : List BindRequest := []

abbrev Preparing := StateM Bindings

structure Prepared where
  rendering : Rendering
  undefinedText : String
  requests : List BindRequest

namespace Renderer

def bind (renderer : Renderer) (request : BindRequest) : Preparing Formatting := do
  modify fun bindings => { bindings with requests := bindings.requests ++ [request] }
  return renderer.localizer.bind request

def bindStyle (renderer : Renderer) (locale : String) (service : Service) (style : Option String)
    (options : ServiceOptions) : Preparing Formatting := do
  let key := (service, style.getD "")
  match (← get).known.lookup key with
  | some formatting => return formatting
  | none =>
      let formatting ← renderer.bind ⟨service, locale, options⟩
      modify fun bindings => { bindings with known := (key, formatting) :: bindings.known }
      return formatting

def bindNumber (renderer : Renderer) (locale : String) (style : Option String) :
    Preparing Formatting :=
  renderer.bindStyle locale .number style (.number (renderer.styles.resolveNumber style))

def bindDuration (renderer : Renderer) (locale : String) : Preparing Formatting := do
  let number (options : NumberOptions) := renderer.bind ⟨.number, locale, .number options⟩
  let leading ← number Duration.leadingOptions
  let minutes ← number Duration.minutesOptions
  let seconds ← number Duration.secondsOptions
  return Duration.format leading minutes seconds

/-- The formatting function of a simple placeholder. Ranks and spelled numbers are shown as
numbers. -/
def bindSimple (renderer : Renderer) (locale : String) (style : Option String) :
    SimpleType → Preparing Formatting
  | .number | .ordinal | .spellout => renderer.bindNumber locale style
  | .date =>
      renderer.bindStyle locale .date style (.dateTime (renderer.styles.resolveDate style))
  | .time =>
      renderer.bindStyle locale .time style (.dateTime (renderer.styles.resolveTime style))
  | .duration => renderer.bindDuration locale

/-- The number of the innermost plural; outside plurals the mark stands for itself. -/
def renderHash (formatting : Formatting) : Rendering := fun env =>
  match env.hash with
  | some value => [.text (formatting value)]
  | none => [.text "#"]

def renderSelect (id : String) (branches : List (String × Rendering)) : Rendering := fun env =>
  match pick? branches [(Args.get env.args id).display] with
  | some rendering => rendering env
  | none => []

/-- The branch for a number; inside it the mark stands for the number less the offset. -/
def renderPlural (pluralLocale : Option String) (id : String) (type : PluralType)
    (offset : UInt32) (branches : List (String × Rendering)) : Rendering := fun env =>
  let value := Args.get env.args id
  match pick? branches (Plural.keys pluralLocale type offset value) with
  | some rendering => rendering { env with hash := some (value.minus offset) }
  | none => []

def renderCustom (renderer : Renderer) (locale : String) (placeholder : CustomPlaceholder) :
    Rendering := fun env =>
  let value := Args.get env.args placeholder.id
  match renderer.types.get? placeholder.type with
  | some handler => [.value (handler placeholder locale value env.args)]
  | none => [.value value]

variable (renderer : Renderer) (locale : String) (pluralLocale : Option String)

mutual

def prepareElement : Element → Preparing Rendering
  | .text content => return fun _ => [.text content]
  | .hash => do return renderHash (← renderer.bindNumber locale none)
  | .placeholder id kind => prepareKind id kind

def prepareKind (id : String) : Kind → Preparing Rendering
  | .argument => return fun env => [.value (Args.get env.args id)]
  | .simple type style => do
      let formatting ← renderer.bindSimple locale style type
      return fun env => [.text (formatting (Args.get env.args id))]
  | .plural type offset cases => do
      return renderPlural pluralLocale id type offset (← prepareCases cases)
  | .select cases => do return renderSelect id (← prepareCases cases)
  | .custom type style => return renderer.renderCustom locale ⟨id, type, style⟩
  | .tag children => do
      let rendering ← prepareElements children
      return fun env => [.tag id (rendering env)]
  | .emptyTag => return fun _ => [.emptyTag id]

def prepareCase : Case → Preparing (String × Rendering)
  | ⟨selector, message⟩ => do return (selector, ← prepareElements message)

def prepareCases : List Case → Preparing (List (String × Rendering))
  | [] => return []
  | c :: cs => do return (← prepareCase c) :: (← prepareCases cs)

def prepareElements : List Element → Preparing Rendering
  | [] => return fun _ => []
  | e :: es => do
      let first ← prepareElement e
      let others ← prepareElements es
      return fun env => first env ++ others env

end

/-- Prepares a message for some locales in order of preference. Plural rules are those of the first
locale that has any; all else is for the first locale. -/
def prepare (renderer : Renderer) (message : Message) (locales : List String) : Prepared :=
  let (rendering, bindings) :=
    (prepareElements renderer (locales.headD "") (Plural.supported? locales) message).run {}
  { rendering
    undefinedText := renderer.localizer.undefinedText
    requests := bindings.requests }

end Renderer

/-! ## Sinks -/

/-- Where parts are written to, one after the other. A tag is handed over with a function that writes
its children, unless it closes itself. -/
structure Sink (α : Type) where
  text : α → String → α
  value : α → Value → α
  tag : α → String → Option (α → α) → α

namespace Sink

section Write

variable {α : Type} (sink : Sink α)

mutual

def write : Part → α → α
  | .text s, written => sink.text written s
  | .value v, written => sink.value written v
  | .tag name children, written => sink.tag written name (some (writeAll children))
  | .emptyTag name, written => sink.tag written name none

def writeAll : List Part → α → α
  | [], written => written
  | part :: parts, written => writeAll parts (write part written)

end

end Write

def valueText (undefinedText : String) : Value → String
  | .undefined => undefinedText
  | v => v.display

/-- Of a tag only the children are shown. -/
def ofText (undefinedText : String) : Sink String where
  text written s := written ++ s
  value written v := written ++ valueText undefinedText v
  tag written _ children :=
    match children with
    | some write => write written
    | none => written

/-- Text is added to a text at the end, and empty text is dropped. -/
def pushText : List Part → String → List Part
  | [], s => if s = "" then [] else [.text s]
  | [.text last], s => [.text (last ++ s)]
  | part :: parts, s => part :: pushText parts s

/-- The children of a tag are written to a list of their own. -/
def ofParts : Sink (List Part) where
  text := pushText
  value written v := written ++ [.value v]
  tag written name children :=
    match children with
    | some write => written ++ [.tag name (write [])]
    | none => written ++ [.emptyTag name]

end Sink

namespace Prepared

def parts (prepared : Prepared) (args : Args) : List Part :=
  Sink.ofParts.writeAll (prepared.rendering ⟨args, none⟩) []

def text (prepared : Prepared) (args : Args) : String :=
  (Sink.ofText prepared.undefinedText).writeAll (prepared.rendering ⟨args, none⟩) ""

end Prepared

end MessageFormat
