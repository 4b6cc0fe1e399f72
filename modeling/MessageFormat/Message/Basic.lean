/-!
Messages: sequences of text, placeholders and number marks. A placeholder names an argument and says
how it is rendered; plural, select and custom placeholders hold further messages by selector. A
selector that is given again keeps its place and takes the later message.
-/

namespace MessageFormat

inductive PluralType where
  | cardinal
  | ordinal
deriving DecidableEq, Repr

def PluralType.keyword : PluralType → String
  | .cardinal => "plural"
  | .ordinal => "selectordinal"

def PluralType.ofKeyword? : String → Option PluralType
  | "plural" => some .cardinal
  | "selectordinal" => some .ordinal
  | _ => none

inductive SimpleType where
  | number
  | date
  | time
  | ordinal
  | spellout
  | duration
deriving DecidableEq, Repr

def SimpleType.name : SimpleType → String
  | .number => "number"
  | .date => "date"
  | .time => "time"
  | .ordinal => "ordinal"
  | .spellout => "spellout"
  | .duration => "duration"

def SimpleType.ofName? : String → Option SimpleType
  | "number" => some .number
  | "date" => some .date
  | "time" => some .time
  | "ordinal" => some .ordinal
  | "spellout" => some .spellout
  | "duration" => some .duration
  | _ => none

mutual

inductive Element where
  | text (content : String)
  /-- The mark for the number of the enclosing plural. -/
  | hash
  /-- A rendering of the argument `id`; dots in the id reach into nested arguments. -/
  | placeholder (id : String) (kind : Kind)

inductive Kind where
  | argument
  | simple (type : SimpleType) (style : Option String)
  | plural (type : PluralType) (offset : UInt32) (cases : List Case)
  | select (cases : List Case)
  /-- Any other type; its meaning is supplied by a handler of that name. -/
  | custom (type : String) (style : CustomStyle)
  | tag (children : List Element)
  | emptyTag

inductive CustomStyle where
  | none
  | text (style : String)
  | cases (cases : List Case)

structure Case where
  selector : String
  message : List Element

end

abbrev Message := List Element

abbrev Cases := List Case

/-! ## Equality -/

mutual

def Element.same : Element → Element → Bool
  | .text s, .text t => s == t
  | .hash, .hash => true
  | .placeholder i k, .placeholder j l => i == j && k.same l
  | _, _ => false

def Kind.same : Kind → Kind → Bool
  | .argument, .argument => true
  | .simple t s, .simple u r => t == u && s == r
  | .plural t m cs, .plural u n ds => t == u && m == n && sameCases cs ds
  | .select cs, .select ds => sameCases cs ds
  | .custom t s, .custom u r => t == u && s.same r
  | .tag es, .tag fs => sameElements es fs
  | .emptyTag, .emptyTag => true
  | _, _ => false

def CustomStyle.same : CustomStyle → CustomStyle → Bool
  | .none, .none => true
  | .text s, .text t => s == t
  | .cases cs, .cases ds => sameCases cs ds
  | _, _ => false

def Case.same : Case → Case → Bool
  | ⟨s, es⟩, ⟨t, fs⟩ => s == t && sameElements es fs

def sameCases : List Case → List Case → Bool
  | [], [] => true
  | c :: cs, d :: ds => c.same d && sameCases cs ds
  | _, _ => false

def sameElements : List Element → List Element → Bool
  | [], [] => true
  | e :: es, f :: fs => e.same f && sameElements es fs
  | _, _ => false

end

mutual

theorem Element.same_iff : (a b : Element) → a.same b = true ↔ a = b
  | .text _, b => by cases b <;> simp [Element.same]
  | .hash, b => by cases b <;> simp [Element.same]
  | .placeholder _ k, b => by cases b <;> simp [Element.same, Kind.same_iff k]

theorem Kind.same_iff : (a b : Kind) → a.same b = true ↔ a = b
  | .argument, b => by cases b <;> simp [Kind.same]
  | .simple .., b => by cases b <;> simp [Kind.same]
  | .plural _ _ cs, b => by cases b <;> simp [Kind.same, sameCases_iff cs, and_assoc]
  | .select cs, b => by cases b <;> simp [Kind.same, sameCases_iff cs]
  | .custom _ s, b => by cases b <;> simp [Kind.same, CustomStyle.same_iff s]
  | .tag es, b => by cases b <;> simp [Kind.same, sameElements_iff es]
  | .emptyTag, b => by cases b <;> simp [Kind.same]

theorem CustomStyle.same_iff : (a b : CustomStyle) → a.same b = true ↔ a = b
  | .none, b => by cases b <;> simp [CustomStyle.same]
  | .text _, b => by cases b <;> simp [CustomStyle.same]
  | .cases cs, b => by cases b <;> simp [CustomStyle.same, sameCases_iff cs]

theorem Case.same_iff : (a b : Case) → a.same b = true ↔ a = b
  | ⟨_, es⟩, ⟨_, _⟩ => by simp [Case.same, sameElements_iff es]

theorem sameCases_iff : (a b : List Case) → sameCases a b = true ↔ a = b
  | [], b => by cases b <;> simp [sameCases]
  | c :: cs, b => by cases b <;> simp [sameCases, Case.same_iff c, sameCases_iff cs]

theorem sameElements_iff : (a b : List Element) → sameElements a b = true ↔ a = b
  | [], b => by cases b <;> simp [sameElements]
  | e :: es, b => by cases b <;> simp [sameElements, Element.same_iff e, sameElements_iff es]

end

instance : DecidableEq Element := fun a b => decidable_of_iff _ (Element.same_iff a b)
instance : DecidableEq Kind := fun a b => decidable_of_iff _ (Kind.same_iff a b)
instance : DecidableEq CustomStyle := fun a b => decidable_of_iff _ (CustomStyle.same_iff a b)
instance : DecidableEq Case := fun a b => decidable_of_iff _ (Case.same_iff a b)

/-! ## Types and tags -/

def Kind.typeName? : Kind → Option String
  | .argument => none
  | .simple type _ => some type.name
  | .plural type _ _ => some type.keyword
  | .select _ => some "select"
  | .custom type _ => some type
  | .tag _ => none
  | .emptyTag => none

mutual

def Element.hasTags : Element → Bool
  | .text _ => false
  | .hash => false
  | .placeholder _ kind => kind.hasTags

def Kind.hasTags : Kind → Bool
  | .argument => false
  | .simple _ _ => false
  | .plural _ _ cases => casesHaveTags cases
  | .select cases => casesHaveTags cases
  | .custom _ style => style.hasTags
  | .tag _ => true
  | .emptyTag => true

def CustomStyle.hasTags : CustomStyle → Bool
  | .none => false
  | .text _ => false
  | .cases cases => casesHaveTags cases

def Case.hasTags : Case → Bool
  | ⟨_, message⟩ => messageHasTags message

def casesHaveTags : List Case → Bool
  | [] => false
  | c :: cs => c.hasTags || casesHaveTags cs

def messageHasTags : List Element → Bool
  | [] => false
  | e :: es => e.hasTags || messageHasTags es

end

def Message.hasTags (message : Message) : Bool :=
  messageHasTags message

def Message.placeholderTypes (message : Message) : List (String × Option String) :=
  message.filterMap fun
    | .placeholder id kind => some (id, kind.typeName?)
    | _ => none

/-! ## Messages by selector -/

namespace Cases

/-- Adds a message, or replaces the one under a selector that is present. -/
def insert (cases : Cases) (selector : String) (message : Message) : Cases :=
  match cases with
  | [] => [⟨selector, message⟩]
  | c :: rest =>
      if c.selector = selector then ⟨selector, message⟩ :: rest
      else c :: Cases.insert rest selector message

def ofList (cases : List Case) : Cases :=
  cases.foldl (fun collected c => Cases.insert collected c.selector c.message) []

def get? (cases : Cases) (selector : String) : Option Message :=
  (cases.find? (·.selector = selector)).map (·.message)

def contains (cases : Cases) (selector : String) : Bool :=
  (Cases.get? cases selector).isSome

def selectors (cases : Cases) : List String :=
  cases.map (·.selector)

end Cases

end MessageFormat
