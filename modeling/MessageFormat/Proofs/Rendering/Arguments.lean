import MessageFormat.Proofs.Rendering.Bindings

/-!
# The arguments that a message reads

A message without placeholders of registered types sees its arguments only through the values of the
ids in it: arguments that agree on these are rendered alike, whichever branches they choose
(`Renderer.renderElements_args`). An id is looked up under its whole name and under its first
segment, so no other argument can change what is rendered.
-/

namespace MessageFormat

/-! ## Placeholders of a message -/

mutual

def Element.placeholders : Element → List (String × Kind)
  | .text _ => []
  | .hash => []
  | .placeholder id kind => (id, kind) :: kind.placeholders

def Kind.placeholders : Kind → List (String × Kind)
  | .argument => []
  | .simple _ _ => []
  | .plural _ _ cases => casesPlaceholders cases
  | .select cases => casesPlaceholders cases
  | .custom _ style => style.placeholders
  | .tag children => elementsPlaceholders children
  | .emptyTag => []

def CustomStyle.placeholders : CustomStyle → List (String × Kind)
  | .none => []
  | .text _ => []
  | .cases cases => casesPlaceholders cases

def Case.placeholders : Case → List (String × Kind)
  | ⟨_, message⟩ => elementsPlaceholders message

def casesPlaceholders : List Case → List (String × Kind)
  | [] => []
  | c :: cs => c.placeholders ++ casesPlaceholders cs

def elementsPlaceholders : List Element → List (String × Kind)
  | [] => []
  | e :: es => e.placeholders ++ elementsPlaceholders es

end

/-- The placeholders of a message at every depth, tags and those in custom styles included. -/
def Message.placeholders (message : Message) : List (String × Kind) :=
  elementsPlaceholders message

def Message.ids (message : Message) : List String :=
  message.placeholders.map Prod.fst

def Kind.customType? : Kind → Option String
  | .custom type _ => some type
  | _ => none

def Message.customTypes (message : Message) : List String :=
  message.placeholders.filterMap fun placeholder => placeholder.2.customType?

/-! ## Looking up an id -/

namespace Args

def firstSegment (id : String) : String :=
  String.ofList (segments id.toList).1

theorem get_congr {args other : Args} {id : String} (whole : args.lookup id = other.lookup id)
    (first : args.lookup (firstSegment id) = other.lookup (firstSegment id)) :
    Args.get args id = Args.get other id := by
  rw [firstSegment] at first
  simp only [Args.get, lookup?, whole, first]

end Args

namespace Renderer

variable {renderer : Renderer} {locale : String} {pluralLocale : Option String}
  {args other : Args} {hash : Option Value}

/-- A placeholder of no registered type whose id has one value in two lists of arguments. -/
def Indifferent (renderer : Renderer) (args other : Args) (placeholder : String × Kind) : Prop :=
  Args.get args placeholder.1 = Args.get other placeholder.1 ∧
    ∀ type ∈ placeholder.2.customType?, renderer.types.get? type = none

theorem Indifferent.renderCustom {id type : String} {style : CustomStyle}
    (h : Indifferent renderer args other (id, .custom type style)) :
    renderer.renderCustom locale ⟨id, type, style⟩ ⟨args, hash⟩ =
      renderer.renderCustom locale ⟨id, type, style⟩ ⟨other, hash⟩ := by
  obtain ⟨value, unregistered⟩ := h
  have absent : renderer.types.get? type = none := unregistered type rfl
  simp only [Renderer.renderCustom, absent, value]

/-! ## Arguments that agree -/

mutual

theorem renderElement_args (inside : Option Counted) (hash : Option Value) : (e : Element) →
    (∀ p ∈ e.placeholders, Indifferent renderer args other p) →
    renderElement renderer locale pluralLocale .byEnv inside e ⟨args, hash⟩ =
      renderElement renderer locale pluralLocale .byEnv inside e ⟨other, hash⟩
  | .text _, _ => rfl
  | .hash, _ => rfl
  | .placeholder id kind, h => by
    rw [Element.placeholders, List.forall_mem_cons] at h
    exact renderKind_args inside hash id kind h.1 h.2

theorem renderKind_args (inside : Option Counted) (hash : Option Value) (id : String) :
    (kind : Kind) → Indifferent renderer args other (id, kind) →
    (∀ p ∈ kind.placeholders, Indifferent renderer args other p) →
    renderKind renderer locale pluralLocale .byEnv inside id kind ⟨args, hash⟩ =
      renderKind renderer locale pluralLocale .byEnv inside id kind ⟨other, hash⟩
  | .argument, here, _ => by simp only [renderKind, here.1]
  | .simple _ _, here, _ => by simp only [renderKind, here.1]
  | .plural type offset cases, here, below => by
    rw [Kind.placeholders] at below
    -- Equal values choose one branch and are the number of its marks.
    have value : Args.get args id = Args.get other id := here.1
    have branches := renderCases_args (some ⟨id, offset⟩)
      (some ((Args.get other id).minus offset)) cases below
    simp only [renderKind, renderPlural_eq_pick?, Counted.enter, Counted.value, value, branches]
  | .select cases, here, below => by
    rw [Kind.placeholders] at below
    have value : Args.get args id = Args.get other id := here.1
    have branches := renderCases_args inside hash cases below
    simp only [renderKind, renderSelect_eq_pick?, value, branches]
  | .custom _ _, here, _ => here.renderCustom
  | .tag children, _, below => by
    rw [Kind.placeholders] at below
    have same := renderElements_args inside hash children below
    exact congrArg (fun parts => [Part.tag id parts]) same
  | .emptyTag, _, _ => rfl

theorem renderCase_args (inside : Option Counted) (hash : Option Value) : (c : Case) →
    (∀ p ∈ c.placeholders, Indifferent renderer args other p) →
    branchIn ⟨args, hash⟩ (renderCase renderer locale pluralLocale .byEnv inside c) =
      branchIn ⟨other, hash⟩ (renderCase renderer locale pluralLocale .byEnv inside c)
  | ⟨selector, message⟩, h => by
    rw [Case.placeholders] at h
    exact congrArg (Prod.mk selector) (renderElements_args inside hash message h)

theorem renderCases_args (inside : Option Counted) (hash : Option Value) : (cs : List Case) →
    (∀ p ∈ casesPlaceholders cs, Indifferent renderer args other p) →
    branchesIn ⟨args, hash⟩ (renderCases renderer locale pluralLocale .byEnv inside cs) =
      branchesIn ⟨other, hash⟩ (renderCases renderer locale pluralLocale .byEnv inside cs)
  | [], _ => rfl
  | c :: cs, h => by
    rw [casesPlaceholders, List.forall_mem_append] at h
    have head := renderCase_args inside hash c h.1
    have tail := renderCases_args inside hash cs h.2
    exact congrArg₂ List.cons head tail

theorem renderElements_args (inside : Option Counted) (hash : Option Value) :
    (es : List Element) → (∀ p ∈ elementsPlaceholders es, Indifferent renderer args other p) →
    renderElements renderer locale pluralLocale .byEnv inside es ⟨args, hash⟩ =
      renderElements renderer locale pluralLocale .byEnv inside es ⟨other, hash⟩
  | [], _ => rfl
  | e :: es, h => by
    rw [elementsPlaceholders, List.forall_mem_append] at h
    have head := renderElement_args inside hash e h.1
    have tail := renderElements_args inside hash es h.2
    exact congrArg₂ (· ++ ·) head tail

end

/-- A message without placeholders of registered types is rendered alike for arguments that agree on
its ids. So an argument can be added, changed or removed if its name is neither an id of the message
nor the first segment of one. -/
theorem prepare_args_congr (renderer : Renderer) (message : Message) (locales : List String)
    (unregistered : ∀ type ∈ message.customTypes, renderer.types.get? type = none) :
    let prepared := renderer.prepare message locales
    (∀ args other : Args, (∀ id ∈ message.ids, Args.get args id = Args.get other id) →
      prepared.text args = prepared.text other ∧ prepared.parts args = prepared.parts other) ∧
    ∀ name, (∀ id ∈ message.ids, name ≠ id ∧ name ≠ Args.firstSegment id) →
      ∀ args other : Args, (∀ key, key ≠ name → args.lookup key = other.lookup key) →
        prepared.text args = prepared.text other ∧ prepared.parts args = prepared.parts other := by
  intro prepared
  have agreeing : ∀ args other : Args,
      (∀ id ∈ message.ids, Args.get args id = Args.get other id) →
      prepared.text args = prepared.text other ∧ prepared.parts args = prepared.parts other := by
    intro args other agree
    have indifferent : ∀ p ∈ message.placeholders, Indifferent renderer args other p := by
      intro p hp
      refine ⟨agree p.1 (List.mem_map_of_mem hp), fun type custom => ?_⟩
      exact unregistered type (List.mem_filterMap.2 ⟨p, hp, custom⟩)
    have same : prepared.rendering ⟨args, none⟩ = prepared.rendering ⟨other, none⟩ := by
      have whole : prepared = _ := renderer.prepare_eq message locales
      rw [whole]
      exact renderElements_args none none message indifferent
    exact ⟨congrArg (fun parts => (Sink.ofText prepared.undefinedText).writeAll parts "") same,
      congrArg (fun parts => Sink.ofParts.writeAll parts []) same⟩
  refine ⟨agreeing, fun name unread args other differ => agreeing args other fun id hid => ?_⟩
  obtain ⟨whole, first⟩ := unread id hid
  exact Args.get_congr (differ id whole.symm) (differ _ first.symm)

theorem prepare_args_congr_nested :
    let message : Message :=
      [.placeholder "user.name" .argument, .text ": ",
        .placeholder "n" (.plural .cardinal 1 [⟨"one", [.hash, .text " other"]⟩,
          ⟨"other", [.hash, .text " others"]⟩])]
    let args : Args := [("n", .integer 3), ("user", .map [("name", .string "Ana")])]
    let other : Args := [("user.name", .string "Ana"), ("n", .integer 3)]
    let prepared := Renderer.prepare {} message ["en"]
    (∀ type ∈ message.customTypes, ({} : Renderer).types.get? type = none) ∧
      prepared.text args = "Ana: 2 others" ∧ prepared.text args = prepared.text other ∧
      prepared.parts (("name", .undefined) :: args) = prepared.parts args := by
  intro message args other prepared
  have unregistered : ∀ type ∈ message.customTypes, ({} : Renderer).types.get? type = none := by
    decide +kernel
  have congr := prepare_args_congr {} message ["en"] unregistered
  refine ⟨unregistered, by decide +kernel, (congr.1 args other ?_).1,
    (congr.2 "name" (by decide +kernel) _ args ?_).2⟩
  · have same : ∀ id ∈ ["user.name", "n"], Args.get args id = Args.get other id := by
      rw [List.forall_mem_cons, List.forall_mem_singleton]
      exact ⟨rfl, rfl⟩
    exact same
  · intro key different
    rw [List.lookup_cons, beq_false_of_ne different]

end Renderer

end MessageFormat
