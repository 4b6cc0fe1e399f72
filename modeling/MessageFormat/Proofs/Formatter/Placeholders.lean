import MessageFormat.Formatter.Basic
import MessageFormat.Proofs.Rendering.Placeholders

/-!
# Direct helpers and placeholders

A formatter chooses an option, or formats a value, without any message. It does so as the
corresponding placeholder in a message for its locale (`Formatter.helpers_eq_placeholders`): the
option that is chosen belongs to the selector of the branch that is rendered, and the text is that
of the placeholder, whatever styles the rest of the message has bound.
-/

namespace MessageFormat

namespace Formatter

variable {cases : Cases} {keys : List String} {key : String}

/-- A message as it is rendered for the locale of the formatter. -/
def rendering (formatter : Formatter) (message : Message) : Rendering :=
  (formatter.renderer.prepare message [formatter.locale]).rendering

/-- An element is rendered to some parts, whatever stands before and behind it. -/
def RendersTo (formatter : Formatter) (e : Element) (env : Env) (parts : List Part) : Prop :=
  ∀ before behind, formatter.rendering (before ++ e :: behind) env =
    formatter.rendering before env ++ parts ++ formatter.rendering behind env

theorem rendersTo_renderElement (formatter : Formatter) (e : Element) (env : Env) :
    formatter.RendersTo e env (Renderer.renderElement formatter.renderer formatter.locale
      (Plural.supported? [formatter.locale]) .byEnv none e env) :=
  formatter.renderer.rendersTo_renderElement [formatter.locale] e env

def branches (formatter : Formatter) (cases : Cases) : List (String × Rendering) :=
  cases.map fun c => (c.selector, formatter.rendering c.message)

theorem renderCases_eq_branches (formatter : Formatter) (inside : Option Counted) (cases : Cases) :
    Renderer.renderCases formatter.renderer formatter.locale
      (Plural.supported? [formatter.locale]) .byEnv inside cases = formatter.branches cases :=
  formatter.renderer.renderCases_eq_branches [formatter.locale] inside cases

/-- The branch that is picked is a message under the chosen selector. -/
theorem exists_pick?_branches (formatter : Formatter)
    (h : chosenKey? (Cases.selectors cases) keys = some key) :
    ∃ message, ⟨key, message⟩ ∈ cases ∧
      pick? (formatter.branches cases) keys = some (formatter.rendering message) := by
  obtain ⟨message, last, picked⟩ := formatter.renderer.exists_pick?_branches [formatter.locale] h
  exact ⟨message, Cases.mem_of_last? last, picked⟩

/-! ## The helpers -/

theorem option?_eq_pick? {α : Type} {branches : List (String × α)}
    (nodup : (branches.map Prod.fst).Nodup) (keys : List String) :
    option? branches keys = pick? branches keys := by
  rw [option?, pick?, funext (latest?_eq_lookup nodup)]

/-- An option is chosen by the key that chooses among all cases with the same selectors. -/
theorem exists_chosen {α : Type} {options : List (String × α)}
    (nodup : (options.map Prod.fst).Nodup) (other : "other" ∈ options.map Prod.fst)
    (keys : List String) : ∃ chosen ∈ options, option? options keys = some chosen.2 ∧
      ∀ cases : Cases, (∀ key, key ∈ Cases.selectors cases ↔ key ∈ options.map Prod.fst) →
        chosenKey? (Cases.selectors cases) keys = some chosen.1 := by
  obtain ⟨key, first⟩ := exists_chosenKey? other keys
  obtain ⟨option, found, picked⟩ := exists_pick?_of_chosenKey? first
  refine ⟨(key, option), mem_of_latest? found, (option?_eq_pick? nodup keys).trans picked, fun cases same => ?_⟩
  rw [← first, chosenKey?, chosenKey?]
  simp only [same]

/-- The direct helpers do as placeholders in a message for the locale of the formatter. Of options
with distinct keys, `other` among them, the plural and the select helper choose the one whose key is
the selector of the branch that is rendered; the other helpers give the text of the placeholder. -/
theorem helpers_eq_placeholders {α : Type} (formatter : Formatter) :
    (∀ options : List (String × α), (options.map Prod.fst).Nodup →
      "other" ∈ options.map Prod.fst →
      (∀ type (value : Binary64) (offset : UInt32), ∃ chosen ∈ options,
        formatter.plural? type value offset options = some chosen.2 ∧
        ∀ cases : Cases, (∀ key, key ∈ Cases.selectors cases ↔ key ∈ options.map Prod.fst) →
          ∃ message, ⟨chosen.1, message⟩ ∈ cases ∧
            ∀ id env, Args.get env.args id = .float value →
              formatter.RendersTo (.placeholder id (.plural type offset cases)) env
                (formatter.rendering message
                  { env with hash := some (.float (value - .ofInt offset.toNat)) })) ∧
      ∀ value, ∃ chosen ∈ options, select? value options = some chosen.2 ∧
        ∀ cases : Cases, (∀ key, key ∈ Cases.selectors cases ↔ key ∈ options.map Prod.fst) →
          ∃ message, ⟨chosen.1, message⟩ ∈ cases ∧
            ∀ id env, Args.get env.args id = value →
              formatter.RendersTo (.placeholder id (.select cases)) env
                (formatter.rendering message env)) ∧
    ∀ id style env, let value := Args.get env.args id
      formatter.RendersTo (.placeholder id (.simple .number style)) env
        [.text (formatter.number value style)] ∧
      formatter.RendersTo (.placeholder id (.simple .date style)) env
        [.text (formatter.date value style)] ∧
      formatter.RendersTo (.placeholder id (.simple .time style)) env
        [.text (formatter.time value style)] := by
  refine ⟨fun options nodup other => ⟨fun type value offset => ?_, fun value => ?_⟩, ?_⟩
  · -- A plural tries the same keys: the exact one, then the category of the difference.
    obtain ⟨chosen, inside, option, key⟩ := exists_chosen nodup other
      (Plural.keys (Plural.supported? [formatter.locale]) type offset (.float value))
    refine ⟨chosen, inside, option, fun cases same => ?_⟩
    obtain ⟨message, hm, picked⟩ := formatter.exists_pick?_branches (key cases same)
    refine ⟨message, hm, fun id env found => ?_⟩
    have rendered := formatter.rendersTo_renderElement
      (.placeholder id (.plural type offset cases)) env
    rw [Renderer.renderElement, Renderer.renderKind, renderCases_eq_branches,
      Renderer.renderPlural, found, picked] at rendered
    exact rendered
  · obtain ⟨chosen, inside, option, key⟩ := exists_chosen nodup other [value.display]
    refine ⟨chosen, inside, option, fun cases same => ?_⟩
    obtain ⟨message, hm, picked⟩ := formatter.exists_pick?_branches (key cases same)
    refine ⟨message, hm, fun id env found => ?_⟩
    have rendered := formatter.rendersTo_renderElement (.placeholder id (.select cases)) env
    rw [Renderer.renderElement, Renderer.renderKind, renderCases_eq_branches,
      Renderer.renderSelect, found, picked] at rendered
    exact rendered
  · intro id style env value
    have rendered (type : SimpleType) :=
      formatter.rendersTo_renderElement (.placeholder id (.simple type style)) env
    exact ⟨rendered .number, rendered .date, rendered .time⟩

theorem helpers_eq_placeholders_offset :
    let formatter : Formatter := { locale := "en-GB" }
    let options := [("=1", "nobody"), ("one", "guest"), ("other", "guests")]
    let cases : Cases := [⟨"other", [.hash, .text " guests"]⟩, ⟨"one", [.hash, .text " guest"]⟩,
      ⟨"=1", []⟩]
    let env : Env := ⟨[("n", .float 2)], none⟩
    (options.map Prod.fst).Nodup ∧ "other" ∈ options.map Prod.fst ∧
      formatter.plural? .cardinal 2 1 options = some "guest" ∧
      formatter.RendersTo (.placeholder "n" (.plural .cardinal 1 cases)) env
        (formatter.rendering [.hash, .text " guest"]
          { env with hash := some (.float (2 - .ofInt (1 : UInt32).toNat)) }) := by
  intro formatter options cases env
  have nodup : (options.map Prod.fst).Nodup := by decide
  have other : "other" ∈ options.map Prod.fst := by decide
  have direct : formatter.plural? .cardinal 2 1 options = some "guest" := by decide +kernel
  have same : (Cases.selectors cases).Perm (options.map Prod.fst) := by decide
  obtain ⟨chosen, inside, option, renders⟩ :=
    ((helpers_eq_placeholders formatter).1 options nodup other).1 .cardinal 2 1
  obtain rfl : chosen = ("one", "guest") := by
    have guest : chosen.2 = "guest" := Option.some.inj (option.symm.trans direct)
    have only : ∀ o ∈ options, o.2 = "guest" → o = ("one", "guest") := by decide
    exact only chosen inside guest
  obtain ⟨message, hm, rendered⟩ := renders cases fun _ => same.mem_iff
  obtain rfl : message = [.hash, .text " guest"] := by
    simpa [cases] using hm
  exact ⟨nodup, other, direct, rendered "n" env rfl⟩

end Formatter

end MessageFormat
