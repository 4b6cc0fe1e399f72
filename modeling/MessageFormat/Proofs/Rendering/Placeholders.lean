import MessageFormat.Message.Basic
import MessageFormat.Proofs.Rendering.Bindings

/-!
# Placeholders among other elements

A placeholder is rendered alike whatever stands around it (`Renderer.RendersTo`), and a plural
placeholder as the case under the first of its keys that is present (`Renderer.runs_of_chosenKey?`).
-/

namespace MessageFormat

/-! ## The key that is chosen -/

section Keys

variable {α : Type} {branches : List (String × α)} {key : String}

theorem isSome_latest? : (latest? branches key).isSome = decide (key ∈ branches.map Prod.fst) := by
  induction branches with
  | nil => rfl
  | cons branch rest ih =>
    rw [latest?, Option.isSome_or, ih]
    rw [List.map_cons, Bool.eq_iff_iff]
    by_cases same : branch.1 = key
    · simp [same]
    · simp [same, Ne.symm same]

theorem mem_of_latest? {branch : α} (h : latest? branches key = some branch) :
    (key, branch) ∈ branches := by
  induction branches with
  | nil => cases h
  | cons first rest ih =>
    rw [latest?, Option.or_eq_some_iff] at h
    rcases h with later | ⟨-, here⟩
    · exact List.mem_cons_of_mem _ (ih later)
    · split at here
      · rename_i same
        cases here
        exact same ▸ List.mem_cons_self
      · cases here

/-- With distinct keys the last branch under a key is the first. -/
theorem latest?_eq_lookup (nodup : (branches.map Prod.fst).Nodup) (key : String) :
    latest? branches key = branches.lookup key := by
  induction branches with
  | nil => rfl
  | cons branch rest ih =>
    rw [List.map_cons, List.nodup_cons] at nodup
    rw [latest?, List.lookup_cons]
    by_cases same : branch.1 = key
    · have absent : latest? rest key = none := by
        rw [← Option.isNone_iff_eq_none, ← Option.not_isSome, isSome_latest?, ← same]
        simp [nodup.1]
      simp [same, absent]
    · rw [if_neg same, Option.or_none, ih nodup.2, beq_false_of_ne (Ne.symm same)]

/-- Of the keys that are tried, and `other` behind them, the first that is present. -/
def chosenKey? (present keys : List String) : Option String :=
  (keys ++ ["other"]).find? (· ∈ present)

theorem exists_chosenKey? {present : List String} (other : "other" ∈ present)
    (keys : List String) : ∃ key, chosenKey? present keys = some key :=
  Option.isSome_iff_exists.1 (List.find?_isSome.2 ⟨"other", by simp, by simpa using other⟩)

theorem pick?_eq_bind_chosenKey? (branches : List (String × α)) (keys : List String) :
    pick? branches keys = (chosenKey? (branches.map Prod.fst) keys).bind (latest? branches) := by
  rw [pick?, chosenKey?]
  induction keys ++ ["other"] with
  | nil => rfl
  | cons key keys ih =>
    rw [List.findSome?_cons, List.find?_cons, ← isSome_latest?, ih]
    cases found : latest? branches key with
    | none => rfl
    | some branch => exact found.symm

theorem exists_pick?_of_chosenKey? {keys : List String}
    (h : chosenKey? (branches.map Prod.fst) keys = some key) :
    ∃ branch, latest? branches key = some branch ∧ pick? branches keys = some branch := by
  have present : (latest? branches key).isSome = true := by
    rw [chosenKey?] at h
    simpa [isSome_latest?] using List.find?_some h
  obtain ⟨branch, found⟩ := Option.isSome_iff_exists.1 present
  exact ⟨branch, found, by rw [pick?_eq_bind_chosenKey?, h, Option.bind_some, found]⟩

end Keys

/-! ## The message that is chosen -/

/-- The message under a selector, the last one if there are several. -/
def Cases.last? (cases : Cases) (selector : String) : Option Message :=
  latest? (cases.map fun c => (c.selector, c.message)) selector

theorem Cases.mem_of_last? {cases : Cases} {selector : String} {message : Message}
    (h : Cases.last? cases selector = some message) : ⟨selector, message⟩ ∈ cases := by
  obtain ⟨⟨selector, message⟩, hc, same⟩ := List.mem_map.1 (mem_of_latest? h)
  cases same
  exact hc

/-! ## Placeholders among other elements -/

namespace Renderer

variable {renderer : Renderer} {locale : String} {pluralLocale : Option String}

theorem renderElements_append (mark : Mark) (inside : Option Counted) (front back : List Element)
    (env : Env) :
    renderElements renderer locale pluralLocale mark inside (front ++ back) env =
      renderElements renderer locale pluralLocale mark inside front env ++
        renderElements renderer locale pluralLocale mark inside back env := by
  induction front with
  | nil => rfl
  | cons e front ih =>
    rw [List.cons_append, renderElements, renderElements]
    simp only [ih, List.append_assoc]

/-- Marks that stand for the number of the environment do not look at the plural around them. -/
theorem renderElements_byEnv (inside : Option Counted) (es : List Element) :
    renderElements renderer locale pluralLocale .byEnv inside es =
      renderElements renderer locale pluralLocale .byEnv none es := by
  -- Both are what preparing yields, and preparing is not told of the plural.
  have told (inside : Option Counted) : Prepares renderer locale
      (prepareElements renderer locale pluralLocale es)
      (renderElements renderer locale pluralLocale .byEnv inside es) (elementsNeeds es) :=
    prepares_elements inside es
  have both := (told inside {} Bindings.sound_empty).symm.trans (told none {} Bindings.sound_empty)
  exact congrArg Prod.fst both

theorem renderCases_eq_map (mark : Mark) (inside : Option Counted) (cs : List Case) :
    renderCases renderer locale pluralLocale mark inside cs = cs.map fun c =>
      (c.selector, renderElements renderer locale pluralLocale mark inside c.message) := by
  induction cs with
  | nil => rfl
  | cons c cs ih =>
    obtain ⟨selector, message⟩ := c
    rw [renderCases, ih, List.map_cons, renderCase]

/-! ## Messages for some locales -/

variable {cases : Cases} {keys : List String} {key : String}

/-- A message as it is rendered for some locales. -/
def rendering (renderer : Renderer) (locales : List String) (message : Message) : Rendering :=
  (renderer.prepare message locales).rendering

/-- An element is rendered to some parts, whatever stands before and behind it. -/
def RendersTo (renderer : Renderer) (locales : List String) (e : Element) (env : Env)
    (parts : List Part) : Prop :=
  ∀ before behind, renderer.rendering locales (before ++ e :: behind) env =
    renderer.rendering locales before env ++ parts ++ renderer.rendering locales behind env

theorem rendering_eq (renderer : Renderer) (locales : List String) (message : Message) :
    renderer.rendering locales message = renderElements renderer (locales.headD "")
      (Plural.supported? locales) .byEnv none message := by
  rw [rendering, prepare_eq]
  rfl

theorem rendersTo_renderElement (renderer : Renderer) (locales : List String) (e : Element)
    (env : Env) :
    renderer.RendersTo locales e env (renderElement renderer (locales.headD "")
      (Plural.supported? locales) .byEnv none e env) := by
  intro before behind
  rw [rendering_eq, rendering_eq, rendering_eq, renderElements_append, renderElements,
    List.append_assoc]

def branches (renderer : Renderer) (locales : List String) (cases : Cases) :
    List (String × Rendering) :=
  cases.map fun c => (c.selector, renderer.rendering locales c.message)

theorem renderCases_eq_branches (renderer : Renderer) (locales : List String)
    (inside : Option Counted) (cases : Cases) :
    renderCases renderer (locales.headD "") (Plural.supported? locales) .byEnv inside cases =
      renderer.branches locales cases := by
  rw [renderCases_eq_map, branches]
  refine List.map_congr_left fun c _ => ?_
  rw [rendering_eq, renderElements_byEnv]

theorem latest?_branches (renderer : Renderer) (locales : List String) (cases : Cases)
    (selector : String) : latest? (renderer.branches locales cases) selector =
      (Cases.last? cases selector).map (renderer.rendering locales) := by
  rw [Cases.last?, ← latest?_map, List.map_map]
  rfl

/-- The branch that is picked is the message under the chosen selector. -/
theorem exists_pick?_branches (renderer : Renderer) (locales : List String)
    (h : chosenKey? (Cases.selectors cases) keys = some key) :
    ∃ message, Cases.last? cases key = some message ∧
      pick? (renderer.branches locales cases) keys = some (renderer.rendering locales message) := by
  have selectors : (renderer.branches locales cases).map Prod.fst = Cases.selectors cases := by
    rw [branches, List.map_map]
    rfl
  rw [← selectors] at h
  obtain ⟨rendering, found, picked⟩ := exists_pick?_of_chosenKey? h
  rw [latest?_branches, Option.map_eq_some_iff] at found
  obtain ⟨message, last, rfl⟩ := found
  exact ⟨message, last, picked⟩

/-- A plural placeholder whose argument has some value is rendered as the case under a selector,
with the number mark standing for a count. -/
def Runs (renderer : Renderer) (locales : List String) (type : PluralType) (offset : UInt32)
    (cases : Cases) (value : Value) (selector : String) (count : Value) : Prop :=
  ∃ message, Cases.last? cases selector = some message ∧ ∀ id env, Args.get env.args id = value →
    renderer.RendersTo locales (.placeholder id (.plural type offset cases)) env
      (renderer.rendering locales message { env with hash := some count })

theorem runs_of_chosenKey? (renderer : Renderer) {locales : List String} {type : PluralType}
    {offset : UInt32} {value : Value}
    (h : chosenKey? (Cases.selectors cases)
      (Plural.keys (Plural.supported? locales) type offset value) = some key) :
    renderer.Runs locales type offset cases value key (value.minus offset) := by
  obtain ⟨message, last, picked⟩ := renderer.exists_pick?_branches locales h
  refine ⟨message, last, fun id env found => ?_⟩
  have rendered := renderer.rendersTo_renderElement locales
    (.placeholder id (.plural type offset cases)) env
  rw [renderElement, renderKind, renderCases_eq_branches, renderPlural, found, picked] at rendered
  exact rendered

end Renderer

end MessageFormat
