import MessageFormat.Message.Basic
import MessageFormat.Pattern.Scope
import Mathlib

/-!
# The levels of a message

A level is a message of the tree with its scope and its depth. What has to hold at every depth is
stated of one level and asked of all of them.
-/

namespace MessageFormat

/-! ## Levels -/

/-- A message with its scope and the number of messages and tags around it. -/
structure Level where
  scope : Scope
  depth : Nat
  message : Message

mutual

def Element.levels (scope : Scope) (depth : Nat) : Element → List Level
  | .text _ => []
  | .hash => []
  | .placeholder _ kind => kind.levels scope depth

def Kind.levels (scope : Scope) (depth : Nat) : Kind → List Level
  | .argument => []
  | .simple _ _ => []
  | .plural _ _ cases => casesLevels .plural depth cases
  | .select cases => casesLevels .branch depth cases
  | .custom _ style => style.levels depth
  | .tag children =>
      ⟨scope.inTag, depth + 1, children⟩ :: elementsLevels scope.inTag (depth + 1) children
  | .emptyTag => []

def CustomStyle.levels (depth : Nat) : CustomStyle → List Level
  | .none => []
  | .text _ => []
  | .cases cases => casesLevels .branch depth cases

def Case.levels (scope : Scope) (depth : Nat) : Case → List Level
  | ⟨_, message⟩ => ⟨scope, depth + 1, message⟩ :: elementsLevels scope (depth + 1) message

def casesLevels (scope : Scope) (depth : Nat) : List Case → List Level
  | [] => []
  | c :: cs => c.levels scope depth ++ casesLevels scope depth cs

def elementsLevels (scope : Scope) (depth : Nat) : List Element → List Level
  | [] => []
  | e :: es => e.levels scope depth ++ elementsLevels scope depth es

end

/-- Every message of the tree, the outermost one first. -/
def Message.levels (message : Message) : List Level :=
  ⟨.root, 0, message⟩ :: elementsLevels .root 0 message

theorem mem_casesLevels {scope : Scope} {depth : Nat} {cs : List Case} {level : Level} :
    level ∈ casesLevels scope depth cs ↔ ∃ c ∈ cs, level ∈ c.levels scope depth := by
  induction cs with
  | nil => simp [casesLevels]
  | cons c cs ih => simp [casesLevels, ih]

/-! ## Tags -/

def Kind.isTag : Kind → Bool
  | .tag _ => true
  | .emptyTag => true
  | _ => false

def Element.isTag : Element → Bool
  | .placeholder _ kind => kind.isTag
  | _ => false

def Level.HoldsTag (level : Level) : Prop :=
  ∃ e ∈ level.message, e.isTag = true

mutual

theorem Element.hasTags_iff (scope : Scope) (depth : Nat) : (e : Element) →
    (e.hasTags = true ↔ e.isTag = true ∨ ∃ level ∈ e.levels scope depth, level.HoldsTag)
  | .text _ => by simp [Element.hasTags, Element.isTag, Element.levels]
  | .hash => by simp [Element.hasTags, Element.isTag, Element.levels]
  | .placeholder _ kind => by
    simpa [Element.hasTags, Element.isTag, Element.levels] using kind.hasTags_iff scope depth

theorem Kind.hasTags_iff (scope : Scope) (depth : Nat) : (kind : Kind) →
    (kind.hasTags = true ↔ kind.isTag = true ∨ ∃ level ∈ kind.levels scope depth, level.HoldsTag)
  | .argument => by simp [Kind.hasTags, Kind.isTag, Kind.levels]
  | .simple _ _ => by simp [Kind.hasTags, Kind.isTag, Kind.levels]
  | .plural _ _ cases => by
    simpa [Kind.hasTags, Kind.isTag, Kind.levels] using casesHaveTags_iff .plural depth cases
  | .select cases => by
    simpa [Kind.hasTags, Kind.isTag, Kind.levels] using casesHaveTags_iff .branch depth cases
  | .custom _ style => by
    simpa [Kind.hasTags, Kind.isTag, Kind.levels] using style.hasTags_iff depth
  | .tag _ => by simp [Kind.hasTags, Kind.isTag]
  | .emptyTag => by simp [Kind.hasTags, Kind.isTag]

theorem CustomStyle.hasTags_iff (depth : Nat) : (style : CustomStyle) →
    (style.hasTags = true ↔ ∃ level ∈ style.levels depth, level.HoldsTag)
  | .none => by simp [CustomStyle.hasTags, CustomStyle.levels]
  | .text _ => by simp [CustomStyle.hasTags, CustomStyle.levels]
  | .cases cases => by
    simpa [CustomStyle.hasTags, CustomStyle.levels] using casesHaveTags_iff .branch depth cases

theorem Case.hasTags_iff (scope : Scope) (depth : Nat) : (c : Case) →
    (c.hasTags = true ↔ ∃ level ∈ c.levels scope depth, level.HoldsTag)
  | ⟨_, message⟩ => by
    rw [Case.hasTags, Case.levels, List.exists_mem_cons_iff]
    exact elementsHaveTags_iff scope (depth + 1) message

theorem casesHaveTags_iff (scope : Scope) (depth : Nat) : (cs : List Case) →
    (casesHaveTags cs = true ↔ ∃ level ∈ casesLevels scope depth cs, level.HoldsTag)
  | [] => by simp [casesHaveTags, casesLevels]
  | c :: cs => by
    have head := c.hasTags_iff scope depth
    have tail := casesHaveTags_iff scope depth cs
    simp only [casesHaveTags, casesLevels, Bool.or_eq_true, head, tail, List.mem_append,
      or_and_right, exists_or]

theorem elementsHaveTags_iff (scope : Scope) (depth : Nat) : (es : List Element) →
    (messageHasTags es = true ↔ (∃ e ∈ es, e.isTag = true) ∨
      ∃ level ∈ elementsLevels scope depth es, level.HoldsTag)
  | [] => by simp [messageHasTags, elementsLevels]
  | e :: es => by
    have head := e.hasTags_iff scope depth
    have tail := elementsHaveTags_iff scope depth es
    simp only [messageHasTags, elementsLevels, Bool.or_eq_true, head, tail, List.mem_append,
      List.exists_mem_cons_iff, or_and_right, exists_or]
    exact or_or_or_comm

end

theorem Message.hasTags_iff {message : Message} :
    message.hasTags = true ↔ ∃ level ∈ message.levels, level.HoldsTag := by
  rw [Message.hasTags, Message.levels, List.exists_mem_cons_iff]
  exact elementsHaveTags_iff .root 0 message

end MessageFormat
