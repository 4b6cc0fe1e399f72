import MessageFormat.Proofs.Rendering.Bindings
import MessageFormat.Proofs.WellFormed

/-!
# The number of a mark

In a message that is read, a number mark stands in a message of a plural or in tags inside one. So
it is rendered only in the environment of the innermost plural around it, whatever was rendered
before it (`Renderer.renderElements_inside`), and never stands for itself.
-/

namespace MessageFormat

/-- The environment at a place inside a plural or outside all of them. -/
def Env.inside (args : Args) (inside : Option Counted) : Env :=
  ⟨args, inside.map (·.value args)⟩

theorem Counted.enter_inside (counted : Counted) (args : Args) (inside : Option Counted) :
    counted.enter (.inside args inside) = .inside args (some counted) := rfl

theorem Scope.inTag_eq_plural {scope : Scope} : scope.inTag = .plural ↔ scope = .plural := by
  cases scope <;> simp [Scope.inTag]

/-- Two ways to render marks that are the same in the environment of the plural around a mark. -/
def Mark.AgreeInPlurals (args : Args) (mark other : Mark) : Prop :=
  ∀ number counted, mark number (some counted) (.inside args (some counted)) =
    other number (some counted) (.inside args (some counted))

theorem Mark.byPlace_agree (args : Args) (stray : Rendering) :
    Mark.AgreeInPlurals args (.byPlace stray) .byEnv := fun _ _ => rfl

namespace Renderer

variable {renderer : Renderer} {locale : String} {pluralLocale : Option String} {args : Args}
  {mark other : Mark}

mutual

theorem renderElement_inside (agree : Mark.AgreeInPlurals args mark other) :
    (e : Element) → (scope : Scope) → (depth : Nat) → (inside : Option Counted) →
    (scope = .plural → inside.isSome = true) → e.WellFormed scope →
    (∀ level ∈ e.levels scope depth, level.WellFormed) →
    renderElement renderer locale pluralLocale mark inside e (.inside args inside) =
      renderElement renderer locale pluralLocale other inside e (.inside args inside)
  | .text _, _, _, _, _, _, _ => rfl
  | .hash, _, _, _, around, inPlural, _ => by
    obtain ⟨counted, rfl⟩ := Option.isSome_iff_exists.1 (around inPlural)
    exact agree _ counted
  | .placeholder id kind, scope, depth, inside, around, _, below =>
    renderKind_inside agree id kind scope depth inside around below

theorem renderKind_inside (agree : Mark.AgreeInPlurals args mark other) (id : String) :
    (kind : Kind) → (scope : Scope) → (depth : Nat) → (inside : Option Counted) →
    (scope = .plural → inside.isSome = true) →
    (∀ level ∈ kind.levels scope depth, level.WellFormed) →
    renderKind renderer locale pluralLocale mark inside id kind (.inside args inside) =
      renderKind renderer locale pluralLocale other inside id kind (.inside args inside)
  | .argument, _, _, _, _, _ => rfl
  | .simple _ _, _, _, _, _, _ => rfl
  | .plural type offset cases, _, depth, inside, _, below => by
    rw [Kind.levels] at below
    have branches := renderCases_inside agree cases .plural depth (some ⟨id, offset⟩)
      (fun _ => rfl) below
    rw [renderKind, renderKind, renderPlural_eq_pick?, renderPlural_eq_pick?,
      Counted.enter_inside, branches]
  | .select cases, _, depth, inside, _, below => by
    rw [Kind.levels] at below
    -- The messages of a select hold no marks of their own, so they need no plural around them.
    have branches := renderCases_inside agree cases .branch depth inside nofun below
    rw [renderKind, renderKind, renderSelect_eq_pick?, renderSelect_eq_pick?, branches]
  | .custom _ _, _, _, _, _, _ => rfl
  | .tag children, scope, depth, inside, around, below => by
    rw [Kind.levels, List.forall_mem_cons] at below
    obtain ⟨⟨-, here, -⟩, below⟩ := below
    have same := renderElements_inside agree children scope.inTag (depth + 1) inside
      (fun inTag => around (Scope.inTag_eq_plural.1 inTag)) here below
    exact congrArg (fun parts => [Part.tag id parts]) same
  | .emptyTag, _, _, _, _, _ => rfl

theorem renderCase_inside (agree : Mark.AgreeInPlurals args mark other) :
    (c : Case) → (scope : Scope) → (depth : Nat) → (inside : Option Counted) →
    (scope = .plural → inside.isSome = true) →
    (∀ level ∈ c.levels scope depth, level.WellFormed) →
    branchIn (.inside args inside) (renderCase renderer locale pluralLocale mark inside c) =
      branchIn (.inside args inside) (renderCase renderer locale pluralLocale other inside c)
  | ⟨selector, message⟩, scope, depth, inside, around, below => by
    rw [Case.levels, List.forall_mem_cons] at below
    obtain ⟨⟨-, here, -⟩, below⟩ := below
    have same := renderElements_inside agree message scope (depth + 1) inside around here below
    exact congrArg (Prod.mk selector) same

theorem renderCases_inside (agree : Mark.AgreeInPlurals args mark other) :
    (cs : List Case) → (scope : Scope) → (depth : Nat) → (inside : Option Counted) →
    (scope = .plural → inside.isSome = true) →
    (∀ level ∈ casesLevels scope depth cs, level.WellFormed) →
    branchesIn (.inside args inside) (renderCases renderer locale pluralLocale mark inside cs) =
      branchesIn (.inside args inside) (renderCases renderer locale pluralLocale other inside cs)
  | [], _, _, _, _, _ => rfl
  | c :: cs, scope, depth, inside, around, below => by
    rw [casesLevels, List.forall_mem_append] at below
    have head := renderCase_inside agree c scope depth inside around below.1
    have tail := renderCases_inside agree cs scope depth inside around below.2
    exact congrArg₂ List.cons head tail

theorem renderElements_inside (agree : Mark.AgreeInPlurals args mark other) :
    (es : List Element) → (scope : Scope) → (depth : Nat) → (inside : Option Counted) →
    (scope = .plural → inside.isSome = true) → (∀ e ∈ es, e.WellFormed scope) →
    (∀ level ∈ elementsLevels scope depth es, level.WellFormed) →
    renderElements renderer locale pluralLocale mark inside es (.inside args inside) =
      renderElements renderer locale pluralLocale other inside es (.inside args inside)
  | [], _, _, _, _, _, _ => rfl
  | e :: es, scope, depth, inside, around, here, below => by
    rw [List.forall_mem_cons] at here
    rw [elementsLevels, List.forall_mem_append] at below
    have head := renderElement_inside agree e scope depth inside around here.1 below.1
    have tail := renderElements_inside agree es scope depth inside around here.2 below.2
    exact congrArg₂ (· ++ ·) head tail

end

end Renderer

/-- A message that is read renders a number mark only in the environment of the innermost plural or
ordinal plural around it, so that how marks are rendered elsewhere makes no difference. The mark
stands for the argument of that plural less its offset, whatever stray marks would be. -/
theorem rendering_of_parse {tags : Bool} {pattern : String} {message : Message}
    (h : parse tags pattern = .ok message) (renderer : Renderer) (locales : List String)
    (args : Args) :
    (∀ mark : Mark, mark.AgreeInPlurals args .byEnv →
      (renderer.prepare message locales).rendering ⟨args, none⟩ =
        renderer.render mark locales message ⟨args, none⟩) ∧
      ∀ stray, (renderer.prepare message locales).rendering ⟨args, none⟩ =
        renderer.render (.byPlace stray) locales message ⟨args, none⟩ := by
  have wellFormed : message.WellFormed := (derives_of_parse h).wellFormed
  rw [Message.WellFormed, Message.levels, List.forall_mem_cons] at wellFormed
  have same : ∀ mark : Mark, mark.AgreeInPlurals args .byEnv →
      (renderer.prepare message locales).rendering ⟨args, none⟩ =
        renderer.render mark locales message ⟨args, none⟩ := by
    intro mark agree
    rw [Renderer.prepare_eq]
    exact (Renderer.renderElements_inside agree message .root 0 none (by simp) wellFormed.1.2.1
      wellFormed.2).symm
  exact ⟨same, fun stray => same _ (Mark.byPlace_agree args stray)⟩

theorem rendering_of_parse_nested :
    let message : Message :=
      [.placeholder "a" (.plural .cardinal 1 [⟨"other",
        [.placeholder "b" (.plural .cardinal 0 [⟨"other", [.hash]⟩]), .text " of ",
          .placeholder "i" (.tag [.hash])]⟩])]
    let args := [("a", .integer 4), ("b", .integer 9)]
    let prepared := Renderer.prepare {} message ["en"]
    parse true "{a, plural, offset:1 other {{b, plural, other {#}} of <i>#</i>}}" = .ok message ∧
      prepared.rendering ⟨args, none⟩ =
        Renderer.render {} (.byPlace fun _ => []) ["en"] message ⟨args, none⟩ ∧
      prepared.text args = "9 of 3" := by
  intro message args prepared
  have read : parse true "{a, plural, offset:1 other {{b, plural, other {#}} of <i>#</i>}}" =
      .ok message := by cbv
  exact ⟨read, (rendering_of_parse read {} ["en"] args).2 _, by decide +kernel⟩

end MessageFormat
