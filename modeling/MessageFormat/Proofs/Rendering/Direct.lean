import MessageFormat.Rendering.Renderer
import Mathlib

/-!
# Rendering without preparing

The meaning of a message, read off its tree: every placeholder binds its formatting function by
itself, with the options of its own style, and nothing is kept from one placeholder to the next.
How a number mark is rendered is left open (`Mark`): a mark is told which plural it stands in, so
that the number of the environment can be compared with that of the plural around the mark.
-/

namespace MessageFormat

/-! ## Choosing a branch -/

theorem latest?_map {α β : Type} (f : α → β) (branches : List (String × α)) (key : String) :
    latest? (branches.map (Prod.map id f)) key = (latest? branches key).map f := by
  induction branches with
  | nil => rfl
  | cons branch rest ih =>
    obtain ⟨k, branch⟩ := branch
    rw [List.map_cons, Prod.map, latest?, latest?, ih]
    cases latest? rest key with
    | some later => rfl
    | none => by_cases same : k = key <;> simp [same]

theorem pick?_map {α β : Type} (f : α → β) (branches : List (String × α)) (keys : List String) :
    pick? (branches.map (Prod.map id f)) keys = (pick? branches keys).map f := by
  rw [pick?, pick?]
  induction keys ++ ["other"] with
  | nil => rfl
  | cons key keys ih =>
    rw [List.findSome?_cons, List.findSome?_cons, latest?_map]
    cases latest? branches key with
    | some branch => rfl
    | none => exact ih

/-! ## Plurals around a mark -/

/-- A plural as the marks inside it see it: its argument and what is taken off. -/
structure Counted where
  id : String
  offset : UInt32

namespace Counted

def value (counted : Counted) (args : Args) : Value :=
  (Args.get args counted.id).minus counted.offset

def enter (counted : Counted) (env : Env) : Env :=
  { env with hash := some (counted.value env.args) }

end Counted

/-- How a number mark is rendered, given a formatting function for numbers and the innermost plural
around the mark. -/
abbrev Mark := Formatting → Option Counted → Rendering

namespace Mark

/-- The mark stands for the number of the environment. -/
def byEnv : Mark := fun number _ => Renderer.renderHash number

/-- The mark stands for the number of the plural around it; a stray mark is rendered by `stray`. -/
def byPlace (stray : Rendering) : Mark := fun number inside env =>
  match inside with
  | some counted => [.text (number (counted.value env.args))]
  | none => stray env

end Mark

namespace Renderer

/-! ## Direct rendering -/

/-- The formatting function of a simple placeholder, bound with the options of its style. -/
def formattingOf (renderer : Renderer) (locale : String) (style : Option String) :
    SimpleType → Formatting
  | .number | .ordinal | .spellout =>
      renderer.localizer.bind ⟨.number, locale, .number (renderer.styles.resolveNumber style)⟩
  | .date =>
      renderer.localizer.bind ⟨.date, locale, .dateTime (renderer.styles.resolveDate style)⟩
  | .time =>
      renderer.localizer.bind ⟨.time, locale, .dateTime (renderer.styles.resolveTime style)⟩
  | .duration =>
      let number (options : NumberOptions) :=
        renderer.localizer.bind ⟨.number, locale, .number options⟩
      Duration.format (number Duration.leadingOptions) (number Duration.minutesOptions)
        (number Duration.secondsOptions)

variable (renderer : Renderer) (locale : String) (pluralLocale : Option String) (mark : Mark)

mutual

def renderElement (inside : Option Counted) : Element → Rendering
  | .text content => fun _ => [.text content]
  | .hash => mark (renderer.formattingOf locale none .number) inside
  | .placeholder id kind => renderKind inside id kind

def renderKind (inside : Option Counted) (id : String) : Kind → Rendering
  | .argument => fun env => [.value (Args.get env.args id)]
  | .simple type style => fun env =>
      [.text (renderer.formattingOf locale style type (Args.get env.args id))]
  | .plural type offset cases =>
      renderPlural pluralLocale id type offset (renderCases (some ⟨id, offset⟩) cases)
  | .select cases => renderSelect id (renderCases inside cases)
  | .custom type style => renderer.renderCustom locale ⟨id, type, style⟩
  | .tag children => fun env => [.tag id (renderElements inside children env)]
  | .emptyTag => fun _ => [.emptyTag id]

def renderCase (inside : Option Counted) : Case → String × Rendering
  | ⟨selector, message⟩ => (selector, renderElements inside message)

def renderCases (inside : Option Counted) : List Case → List (String × Rendering)
  | [] => []
  | c :: cs => renderCase inside c :: renderCases inside cs

def renderElements (inside : Option Counted) : List Element → Rendering
  | [] => fun _ => []
  | e :: es => fun env => renderElement inside e env ++ renderElements inside es env

end

/-- A message for some locales in order of preference, rendered without preparing it. -/
def render (locales : List String) (message : Message) : Rendering :=
  renderElements renderer (locales.headD "") (Plural.supported? locales) mark none message

/-! ## Branches in an environment -/

def branchIn (env : Env) : String × Rendering → String × List Part :=
  Prod.map id fun rendering => rendering env

def branchesIn (env : Env) (branches : List (String × Rendering)) : List (String × List Part) :=
  branches.map (branchIn env)

theorem renderSelect_eq_pick? (id : String) (branches : List (String × Rendering)) (env : Env) :
    renderSelect id branches env =
      (pick? (branchesIn env branches) [(Args.get env.args id).display]).getD [] := by
  rw [branchesIn, branchIn, pick?_map, renderSelect]
  cases pick? branches [(Args.get env.args id).display] <;> rfl

theorem renderPlural_eq_pick? (id : String) (type : PluralType) (offset : UInt32)
    (branches : List (String × Rendering)) (env : Env) :
    renderPlural pluralLocale id type offset branches env =
      (pick? (branchesIn (Counted.enter ⟨id, offset⟩ env) branches)
        (Plural.keys pluralLocale type offset (Args.get env.args id))).getD [] := by
  rw [branchesIn, branchIn, pick?_map, renderPlural]
  cases pick? branches (Plural.keys pluralLocale type offset (Args.get env.args id)) <;> rfl

end Renderer

end MessageFormat
