import MessageFormat.Proofs.Cases
import MessageFormat.Proofs.Completeness
import MessageFormat.Proofs.Levels

/-!
# What every message that is read looks like

Every level of a derived message is derived in its scope, at its depth (`DerivesMessage.levels`).
So what is well-formed about it follows from the rules of that level alone.
-/

namespace MessageFormat

/-! ## Well-formedness -/

def Cases.WellFormed (cases : Cases) : Prop :=
  (∀ c ∈ cases, IsWord false c.selector) ∧ (Cases.selectors cases).Nodup

def CustomStyle.WellFormed : CustomStyle → Prop
  | .none => True
  | .text style => style ≠ ""
  | .cases branches => branches ≠ [] ∧ Cases.WellFormed branches

def Kind.WellFormed : Kind → Prop
  | .argument => True
  | .simple _ style => style ≠ some ""
  | .plural _ _ cases => Cases.WellFormed cases ∧ Cases.contains cases "other" = true
  | .select cases => Cases.WellFormed cases ∧ Cases.contains cases "other" = true
  | .custom type style => IsWord false type ∧ IsCustom type ∧ style.WellFormed
  | .tag _ => True
  | .emptyTag => True

def Element.isText : Element → Bool
  | .text _ => true
  | _ => false

/-- The conditions on an element in a scope, apart from the messages nested in it. -/
def Element.WellFormed (scope : Scope) : Element → Prop
  | .text content => content ≠ ""
  | .hash => scope = .plural
  | .placeholder id kind => IsWord kind.isTag id ∧ kind.WellFormed

def Level.WellFormed (level : Level) : Prop :=
  level.depth ≤ maxDepth ∧ (∀ e ∈ level.message, e.WellFormed level.scope) ∧
    level.message.IsChain fun e f => ¬ (e.isText = true ∧ f.isText = true)

/-- Every message of the tree is well-formed in its place. -/
def Message.WellFormed (message : Message) : Prop :=
  ∀ level ∈ message.levels, level.WellFormed

instance (cases : Cases) : Decidable (Cases.WellFormed cases) :=
  inferInstanceAs (Decidable (_ ∧ _))

instance : (style : CustomStyle) → Decidable style.WellFormed
  | .none => inferInstanceAs (Decidable True)
  | .text _ => inferInstanceAs (Decidable (_ ≠ _))
  | .cases _ => inferInstanceAs (Decidable (_ ∧ _))

instance : (kind : Kind) → Decidable kind.WellFormed
  | .argument => inferInstanceAs (Decidable True)
  | .simple _ _ => inferInstanceAs (Decidable (_ ≠ _))
  | .plural _ _ _ => inferInstanceAs (Decidable (_ ∧ _))
  | .select _ => inferInstanceAs (Decidable (_ ∧ _))
  | .custom _ _ => inferInstanceAs (Decidable (_ ∧ _ ∧ _))
  | .tag _ => inferInstanceAs (Decidable True)
  | .emptyTag => inferInstanceAs (Decidable True)

instance (scope : Scope) : (e : Element) → Decidable (e.WellFormed scope)
  | .text _ => inferInstanceAs (Decidable (_ ≠ _))
  | .hash => inferInstanceAs (Decidable (_ = _))
  | .placeholder _ _ => inferInstanceAs (Decidable (_ ∧ _))

instance (level : Level) : Decidable level.WellFormed :=
  inferInstanceAs (Decidable (_ ∧ _ ∧ _))

instance (message : Message) : Decidable message.WellFormed :=
  inferInstanceAs (Decidable (∀ level ∈ message.levels, level.WellFormed))

variable {tags : Bool} {scope : Scope} {depth : Nat} {cs rest : List Char}

/-! ## Levels of a derived message -/

/-- A message that is derived in its scope, at its depth. -/
def Level.Derived (tags : Bool) (level : Level) : Prop :=
  level.depth ≤ maxDepth ∧
    ∃ cs rest, DerivesMessage tags level.scope level.depth cs level.message rest

theorem forall_levels_ofList {p : Level → Prop} {branches : List Case}
    (h : ∀ level ∈ casesLevels scope depth branches, p level) :
    ∀ level ∈ casesLevels scope depth (Cases.ofList branches), p level := by
  intro level inside
  obtain ⟨c, hc, inside⟩ := mem_casesLevels.1 inside
  exact h level (mem_casesLevels.2 ⟨c, Cases.mem_of_mem_ofList hc, inside⟩)

mutual

theorem DerivesMessage.levels : ∀ {scope depth cs message rest},
    DerivesMessage tags scope depth cs message rest →
    ∀ level ∈ elementsLevels scope depth message, level.Derived tags
  | _, _, _, _, _, .nil => by
    simp [elementsLevels]
  | _, _, _, _, _, .cons he hs => by
    rw [elementsLevels, List.forall_mem_append]
    exact ⟨he.levels, hs.levels⟩

theorem DerivesElement.levels : ∀ {scope depth cs e rest},
    DerivesElement tags scope depth cs e rest → ∀ level ∈ e.levels scope depth, level.Derived tags
  | _, _, _, _, _, .text _ _ => by simp [Element.levels]
  | _, _, _, _, _, .hash => by simp [Element.levels]
  | _, _, _, _, _, .argument _ _ _ => by simp [Element.levels, Kind.levels]
  | scope, _, _, _, _, .typed _ _ _ _ _ _ hk => by
    rw [Element.levels]
    exact hk.levels scope
  | _, _, _, _, _, .emptyTag _ _ _ => by simp [Element.levels, Kind.levels]
  | _, _, _, _, _, .tag _ _ _ small hm _ _ => by
    rw [Element.levels, Kind.levels, List.forall_mem_cons]
    exact ⟨⟨small, _, _, hm⟩, hm.levels⟩

theorem DerivesKind.levels : ∀ {depth type cs kind rest},
    DerivesKind tags depth type cs kind rest →
    ∀ scope, ∀ level ∈ kind.levels scope depth, level.Derived tags
  | _, _, _, _, _, .plural _ _ _ hc _, _ => by
    rw [Kind.levels]
    exact forall_levels_ofList hc.levels
  | _, _, _, _, _, .select _ hc _, _ => by
    rw [Kind.levels]
    exact forall_levels_ofList hc.levels
  | _, _, _, _, _, .simple _, _ => by simp [Kind.levels]
  | _, _, _, _, _, .simpleStyle _ _ _ _ _, _ => by simp [Kind.levels]
  | _, _, _, _, _, .custom _, _ => by simp [Kind.levels, CustomStyle.levels]
  | _, _, _, _, _, .customStyle _ _ _ _ _ _, _ => by simp [Kind.levels, CustomStyle.levels]
  | _, _, _, _, _, .customCases _ _ _ hc, _ => by
    rw [Kind.levels, CustomStyle.levels]
    exact forall_levels_ofList hc.levels

theorem DerivesCases.levels : ∀ {scope depth cs branches rest},
    DerivesCases tags scope depth cs branches rest →
    ∀ level ∈ casesLevels scope depth branches, level.Derived tags
  | _, _, _, _, _, .nil => by simp [casesLevels]
  | _, _, _, _, _, .cons _ _ small hm _ hc => by
    rw [casesLevels, List.forall_mem_append, Case.levels, List.forall_mem_cons]
    exact ⟨⟨⟨small, _, _, hm⟩, hm.levels⟩, hc.levels⟩

end

theorem Derives.levels {pattern : String} {message : Message} (h : Derives tags pattern message) :
    ∀ level ∈ message.levels, level.Derived tags := by
  rw [Message.levels, List.forall_mem_cons]
  exact ⟨⟨Nat.zero_le _, _, _, h⟩, DerivesMessage.levels h⟩

/-! ## One level -/

theorem DerivesCases.isWord {branches : List Case}
    (h : DerivesCases tags scope depth cs branches rest) :
    ∀ c ∈ branches, IsWord false c.selector := by
  induction branches generalizing cs with
  | nil => simp
  | cons c branches ih =>
    cases h with
    | cons hw _ _ _ _ hc =>
      rw [List.forall_mem_cons]
      exact ⟨hw.isWord, ih hc⟩

theorem DerivesCases.ne_nil {branches : List Case} (opens : OpensCase cs)
    (h : DerivesCases tags scope depth cs branches ('}' :: rest)) : branches ≠ [] := by
  rintro rfl
  cases h with
  | nil =>
    obtain ⟨selector, mid, tail, hw, -⟩ := opens
    obtain ⟨c, word, split, hc⟩ := hw.exists_cons
    obtain rfl : '}' = c := (List.cons.inj split).1
    exact absurd hc (by decide)

theorem Cases.wellFormed_ofList {branches : List Case}
    (h : ∀ c ∈ branches, IsWord false c.selector) : Cases.WellFormed (Cases.ofList branches) :=
  ⟨fun c hc => h c (mem_of_mem_ofList hc), nodup_selectors_ofList branches⟩

theorem Cases.ofList_ne_nil {branches : List Case} (h : branches ≠ []) :
    Cases.ofList branches ≠ [] := by
  obtain ⟨c, branches, rfl⟩ := List.exists_cons_of_ne_nil h
  intro empty
  have := head?_selectors_ofList c branches
  rw [empty] at this
  cases this

theorem DerivesKind.wellFormed {type : String} {kind : Kind} (hw : IsWord false type)
    (h : DerivesKind tags depth type cs kind rest) : kind.WellFormed := by
  cases h with
  | plural _ _ _ hc other => exact ⟨Cases.wellFormed_ofList hc.isWord, other⟩
  | select _ hc other => exact ⟨Cases.wellFormed_ofList hc.isWord, other⟩
  | simple _ => simp [Kind.WellFormed]
  | simpleStyle _ _ _ hne _ => simpa [Kind.WellFormed] using hne
  | custom custom => exact ⟨hw, custom, trivial⟩
  | customStyle custom _ _ _ hne _ => exact ⟨hw, custom, hne⟩
  | customCases custom _ opens hc =>
    exact ⟨hw, custom, Cases.ofList_ne_nil (hc.ne_nil opens), Cases.wellFormed_ofList hc.isWord⟩

theorem DerivesKind.not_isTag {type : String} {kind : Kind}
    (h : DerivesKind tags depth type cs kind rest) : kind.isTag = false := by
  cases h <;> rfl

theorem DerivesElement.wellFormed {e : Element} (h : DerivesElement tags scope depth cs e rest) :
    e.WellFormed scope := by
  cases h with
  | text _ hne => exact hne
  | hash => rfl
  | argument _ hw _ => exact ⟨hw.isWord, trivial⟩
  | typed _ hw _ _ hw' _ hk =>
    refine ⟨?_, hk.wellFormed hw'.isWord⟩
    rw [hk.not_isTag]
    exact hw.isWord
  | emptyTag _ hw _ => exact ⟨hw.isWord, trivial⟩
  | tag _ hw _ _ _ _ _ => exact ⟨hw.isWord, trivial⟩

theorem DerivesElement.tags_of_isTag {e : Element} (h : DerivesElement tags scope depth cs e rest)
    (ht : e.isTag = true) : tags = true := by
  cases h with
  | text _ _ => cases ht
  | hash => cases ht
  | argument _ _ _ => cases ht
  | typed _ _ _ _ _ _ hk =>
    rw [Element.isTag, hk.not_isTag] at ht
    cases ht
  | emptyTag h _ _ => exact h
  | tag h _ _ _ _ _ _ => exact h

theorem DerivesElement.not_isText {e f : Element} {mid : List Char}
    (he : DerivesElement tags scope depth cs e mid)
    (hf : DerivesElement tags scope depth mid f rest) :
    ¬ (e.isText = true ∧ f.isText = true) := by
  rintro ⟨he', hf'⟩
  cases e with
  | hash => cases he'
  | placeholder _ _ => cases he'
  | text _ =>
    cases f with
    | hash => cases hf'
    | placeholder _ _ => cases hf'
    | text _ =>
      cases he with
      | text derived _ =>
        cases hf with
        | text derived' hne =>
          have empty := (derivesText_of_stopsAt derived' derived.stopsAt).1
          exact hne (String.toList_eq_nil_iff.1 empty)

theorem DerivesMessage.exists_derives {message : Message}
    (h : DerivesMessage tags scope depth cs message rest) :
    ∀ e ∈ message, ∃ cs rest, DerivesElement tags scope depth cs e rest := by
  induction message generalizing cs with
  | nil => simp
  | cons e message ih =>
    cases h with
    | cons he hs =>
      rw [List.forall_mem_cons]
      exact ⟨⟨_, _, he⟩, ih hs⟩

theorem DerivesMessage.isChain {message : Message}
    (h : DerivesMessage tags scope depth cs message rest) :
    message.IsChain fun e f => ¬ (e.isText = true ∧ f.isText = true) := by
  induction message generalizing cs with
  | nil => exact .nil
  | cons e message ih =>
    cases h with
    | cons he hs =>
      cases message with
      | nil => exact .singleton e
      | cons f message =>
        refine .cons_cons ?_ (ih hs)
        cases hs with
        | cons hf _ => exact he.not_isText hf

theorem Level.Derived.wellFormed {level : Level} (h : level.Derived tags) : level.WellFormed := by
  obtain ⟨small, cs, rest, derived⟩ := h
  refine ⟨small, ?_, derived.isChain⟩
  intro e inside
  obtain ⟨_, _, he⟩ := derived.exists_derives e inside
  exact he.wellFormed

theorem Level.Derived.tags_of_holdsTag {level : Level} (h : level.Derived tags)
    (ht : level.HoldsTag) : tags = true := by
  obtain ⟨-, cs, rest, derived⟩ := h
  obtain ⟨e, inside, ht⟩ := ht
  obtain ⟨_, _, he⟩ := derived.exists_derives e inside
  exact he.tags_of_isTag ht

/-! ## Whole messages -/

theorem Derives.wellFormed {pattern : String} {message : Message}
    (h : Derives tags pattern message) : message.WellFormed :=
  fun level inside => (h.levels level inside).wellFormed

theorem Derives.tags_of_hasTags {pattern : String} {message : Message}
    (h : Derives tags pattern message) (ht : message.hasTags = true) : tags = true := by
  obtain ⟨level, inside, ht⟩ := Message.hasTags_iff.1 ht
  exact (h.levels level inside).tags_of_holdsTag ht

/-- A message that is read is well-formed at every level, and without tags in a pattern that may
hold none. -/
theorem parse_wellFormed {tags : Bool} {pattern : String} {message : Message}
    (h : parse tags pattern = .ok message) :
    message.WellFormed ∧ (∀ level ∈ message.levels, level.HoldsTag → tags = true) ∧
      (message.hasTags = true → tags = true) := by
  have derived := derives_of_parse h
  refine ⟨derived.wellFormed, ?_, derived.tags_of_hasTags⟩
  intro level inside
  exact (derived.levels level inside).tags_of_holdsTag

theorem parse_wellFormed_nested :
    parse true "<b>{n, plural, other {#}}</b>!" = .ok
        [.placeholder "b" (.tag [.placeholder "n" (.plural .cardinal 0 [⟨"other", [.hash]⟩])]),
          .text "!"] ∧
      Message.WellFormed
        [.placeholder "b" (.tag [.placeholder "n" (.plural .cardinal 0 [⟨"other", [.hash]⟩])]),
          .text "!"] := by
  have read : parse true "<b>{n, plural, other {#}}</b>!" = .ok
      [.placeholder "b" (.tag [.placeholder "n" (.plural .cardinal 0 [⟨"other", [.hash]⟩])]),
        .text "!"] := by cbv
  exact ⟨read, (parse_wellFormed read).1⟩

end MessageFormat
