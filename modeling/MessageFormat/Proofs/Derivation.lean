import MessageFormat.Decimal
import MessageFormat.Message.Basic
import MessageFormat.Pattern.SyntaxError
import MessageFormat.Proofs.Reading

/-!
# The grammar of patterns as a relation

Every relation holds of the characters ahead, what they stand for and the characters that follow.
A text is as long as it can be, since it ends at a character that is no part of it; a message is
its elements up to the end of the construct around it, which the rule of that construct names.
-/

namespace MessageFormat

/-! ## Texts -/

/-- The inside of a quotation with the apostrophe that closes it, unless the pattern ends first. -/
inductive DerivesQuoted : List Char → List Char → List Char → Prop
  | unclosed : DerivesQuoted [] [] []
  | closed {rest} : StopsAt (· != '\'') rest → DerivesQuoted ('\'' :: rest) [] rest
  | apostrophe {cs content rest} : DerivesQuoted cs content rest →
      DerivesQuoted ('\'' :: '\'' :: cs) ('\'' :: content) rest
  | literal {c cs content rest} : c ≠ '\'' → DerivesQuoted cs content rest →
      DerivesQuoted (c :: cs) (c :: content) rest

/-- Text up to the first character that ends it. -/
inductive DerivesText (tags : Bool) (scope : Scope) : List Char → List Char → List Char → Prop
  | done {rest} : StopsAt (endsText tags scope) rest → DerivesText tags scope rest [] rest
  | literal {c cs content rest} : c ≠ '\'' → endsText tags scope c = false →
      DerivesText tags scope cs content rest → DerivesText tags scope (c :: cs) (c :: content) rest
  | apostrophe {cs content rest} : DerivesText tags scope cs content rest →
      DerivesText tags scope ('\'' :: '\'' :: cs) ('\'' :: content) rest
  | lone {cs content rest} : StopsAt (fun c => c != '\'' && !opensQuote tags scope c) cs →
      DerivesText tags scope cs content rest →
      DerivesText tags scope ('\'' :: cs) ('\'' :: content) rest
  | quotation {c cs quoted mid content rest} : c ≠ '\'' → opensQuote tags scope c = true →
      DerivesQuoted (c :: cs) quoted mid → DerivesText tags scope mid content rest →
      DerivesText tags scope ('\'' :: c :: cs) (quoted ++ content) rest

/-! ## Placeholders and messages -/

def offsetMark : List Char := ['o', 'f', 'f', 's', 'e', 't', ':']

/-- The offset of a plural, which has to be read where one is announced. -/
inductive DerivesOffset : List Char → UInt32 → List Char → Prop
  | absent {cs} : ¬ offsetMark <+: cs → DerivesOffset cs 0 cs
  | present {cs mid digits mid' rest} : Blanks cs mid → Run Decimal.isDigit mid digits mid' →
      digits ≠ [] → Decimal.valueOf digits < 2 ^ 32 → Blanks mid' rest →
      DerivesOffset (offsetMark ++ cs) (.ofNat (Decimal.valueOf digits)) rest

def IsCustom (type : String) : Prop :=
  PluralType.ofKeyword? type = none ∧ type ≠ "select" ∧ SimpleType.ofName? type = none

instance (type : String) : Decidable (IsCustom type) :=
  inferInstanceAs (Decidable (_ ∧ _ ∧ _))

/-- A selector and its opening brace lie ahead. -/
def OpensCase (cs : List Char) : Prop :=
  ∃ selector mid rest, Word false cs selector mid ∧ Blanks mid ('{' :: rest)

mutual

/-- The elements of a message in a scope, `depth` levels deep. -/
inductive DerivesMessage (tags : Bool) : Scope → Nat → List Char → Message → List Char → Prop
  | nil {scope depth rest} : DerivesMessage tags scope depth rest [] rest
  | cons {scope depth cs e mid es rest} : DerivesElement tags scope depth cs e mid →
      DerivesMessage tags scope depth mid es rest →
      DerivesMessage tags scope depth cs (e :: es) rest

inductive DerivesElement (tags : Bool) : Scope → Nat → List Char → Element → List Char → Prop
  | text {scope depth cs content rest} : DerivesText tags scope cs content.toList rest →
      content ≠ "" → DerivesElement tags scope depth cs (.text content) rest
  | hash {depth rest} : DerivesElement tags .plural depth ('#' :: rest) .hash rest
  | argument {scope depth cs₁ cs₂ id cs₃ rest} : Blanks cs₁ cs₂ → Word false cs₂ id cs₃ →
      Blanks cs₃ ('}' :: rest) →
      DerivesElement tags scope depth ('{' :: cs₁) (.placeholder id .argument) rest
  | typed {scope depth cs₁ cs₂ id cs₃ cs₄ cs₅ type cs₆ cs₇ kind rest} : Blanks cs₁ cs₂ →
      Word false cs₂ id cs₃ → Blanks cs₃ (',' :: cs₄) → Blanks cs₄ cs₅ →
      Word false cs₅ type cs₆ → Blanks cs₆ cs₇ → DerivesKind tags depth type cs₇ kind rest →
      DerivesElement tags scope depth ('{' :: cs₁) (.placeholder id kind) rest
  | emptyTag {scope depth cs₁ id cs₂ rest} : tags = true → Word true cs₁ id cs₂ →
      Blanks cs₂ ('/' :: '>' :: rest) →
      DerivesElement tags scope depth ('<' :: cs₁) (.placeholder id .emptyTag) rest
  | tag {scope depth cs₁ id cs₂ cs₃ children cs₄ cs₅ rest} : tags = true → Word true cs₁ id cs₂ →
      Blanks cs₂ ('>' :: cs₃) → depth < maxDepth →
      DerivesMessage tags scope.inTag (depth + 1) cs₃ children ('<' :: '/' :: cs₄) →
      Word true cs₄ id cs₅ → Blanks cs₅ ('>' :: rest) →
      DerivesElement tags scope depth ('<' :: cs₁) (.placeholder id (.tag children)) rest

/-- What follows the type of a placeholder, with the closing brace. -/
inductive DerivesKind (tags : Bool) : Nat → String → List Char → Kind → List Char → Prop
  | plural {depth type plural cs₁ cs₂ offset cs₃ branches rest} :
      PluralType.ofKeyword? type = some plural → Blanks cs₁ cs₂ → DerivesOffset cs₂ offset cs₃ →
      DerivesCases tags .plural depth cs₃ branches ('}' :: rest) →
      Cases.contains (Cases.ofList branches) "other" = true →
      DerivesKind tags depth type (',' :: cs₁) (.plural plural offset (Cases.ofList branches)) rest
  | select {depth cs₁ cs₂ branches rest} : Blanks cs₁ cs₂ →
      DerivesCases tags .branch depth cs₂ branches ('}' :: rest) →
      Cases.contains (Cases.ofList branches) "other" = true →
      DerivesKind tags depth "select" (',' :: cs₁) (.select (Cases.ofList branches)) rest
  | simple {depth type simple rest} : SimpleType.ofName? type = some simple →
      DerivesKind tags depth type ('}' :: rest) (.simple simple none) rest
  | simpleStyle {depth type simple cs₁ cs₂ style cs₃ rest} :
      SimpleType.ofName? type = some simple → Blanks cs₁ cs₂ →
      DerivesText tags .style cs₂ style.toList cs₃ → style ≠ "" → Blanks cs₃ ('}' :: rest) →
      DerivesKind tags depth type (',' :: cs₁) (.simple simple (some style)) rest
  | custom {depth type rest} : IsCustom type →
      DerivesKind tags depth type ('}' :: rest) (.custom type .none) rest
  | customStyle {depth type cs₁ cs₂ style cs₃ rest} : IsCustom type → Blanks cs₁ cs₂ →
      ¬ OpensCase cs₂ → DerivesText tags .style cs₂ style.toList cs₃ → style ≠ "" →
      Blanks cs₃ ('}' :: rest) →
      DerivesKind tags depth type (',' :: cs₁) (.custom type (.text style)) rest
  | customCases {depth type cs₁ cs₂ branches rest} : IsCustom type → Blanks cs₁ cs₂ →
      OpensCase cs₂ → DerivesCases tags .branch depth cs₂ branches ('}' :: rest) →
      DerivesKind tags depth type (',' :: cs₁) (.custom type (.cases (Cases.ofList branches))) rest

/-- Selectors with their messages, one level deeper, in the order in which they are written. -/
inductive DerivesCases (tags : Bool) : Scope → Nat → List Char → List Case → List Char → Prop
  | nil {scope depth rest} : DerivesCases tags scope depth rest [] rest
  | cons {scope depth cs selector cs₁ cs₂ message cs₃ mid branches rest} :
      Word false cs selector cs₁ → Blanks cs₁ ('{' :: cs₂) → depth < maxDepth →
      DerivesMessage tags scope (depth + 1) cs₂ message ('}' :: cs₃) → Blanks cs₃ mid →
      DerivesCases tags scope depth mid branches rest →
      DerivesCases tags scope depth cs (⟨selector, message⟩ :: branches) rest

end

def Derives (tags : Bool) (pattern : String) (message : Message) : Prop :=
  DerivesMessage tags .root 0 pattern.toList message []

/-! ## Progress -/

theorem DerivesQuoted.length_le {cs content rest : List Char} (h : DerivesQuoted cs content rest) :
    rest.length ≤ cs.length := by
  induction h with
  | unclosed => exact Nat.le_refl _
  | closed _ => exact Nat.le_succ _
  | apostrophe _ ih => simp only [List.length_cons]; omega
  | literal _ _ ih => simp only [List.length_cons]; omega

variable {tags : Bool} {scope : Scope} {depth : Nat} {cs rest : List Char}

theorem DerivesText.length_le {content : List Char} (h : DerivesText tags scope cs content rest) :
    rest.length ≤ cs.length := by
  induction h with
  | done _ => exact Nat.le_refl _
  | literal _ _ _ ih => simp only [List.length_cons]; omega
  | apostrophe _ ih => simp only [List.length_cons]; omega
  | lone _ _ ih => simp only [List.length_cons]; omega
  | quotation _ _ hq _ ih =>
    have := hq.length_le
    simp only [List.length_cons] at this ⊢
    omega

theorem DerivesText.length_lt {content : List Char} (h : DerivesText tags scope cs content rest)
    (hne : content ≠ []) : rest.length < cs.length := by
  cases h with
  | done _ => exact absurd rfl hne
  | literal _ _ h => have := h.length_le; simp only [List.length_cons]; omega
  | apostrophe h => have := h.length_le; simp only [List.length_cons]; omega
  | lone _ h => have := h.length_le; simp only [List.length_cons]; omega
  | quotation _ _ hq h =>
    have := hq.length_le
    have := h.length_le
    simp only [List.length_cons] at *
    omega

theorem DerivesOffset.length_le {offset : UInt32} (h : DerivesOffset cs offset rest) :
    rest.length ≤ cs.length := by
  cases h with
  | absent _ => exact Nat.le_refl _
  | present hb hd _ _ hb' =>
    have := hb.length_le
    have := hb'.length_le
    rw [hd.split] at *
    simp only [List.length_append] at *
    omega

mutual

theorem DerivesMessage.length_le : ∀ {scope depth cs message rest},
    DerivesMessage tags scope depth cs message rest → rest.length ≤ cs.length
  | _, _, _, _, _, .nil => Nat.le_refl _
  | _, _, _, _, _, .cons he hs => Nat.le_trans hs.length_le (Nat.le_of_lt he.length_lt)

theorem DerivesElement.length_lt : ∀ {scope depth cs e rest},
    DerivesElement tags scope depth cs e rest → rest.length < cs.length
  | _, _, _, _, _, .text h hne => h.length_lt (by simpa using hne)
  | _, _, _, _, _, .hash => Nat.lt_succ_self _
  | _, _, _, _, _, .argument hb hw hb' => by
    have := hb.length_le
    have := hw.length_lt
    have := hb'.length_le
    simp only [List.length_cons] at *
    omega
  | _, _, _, _, _, .typed hb hw hb' hb₄ hw' hb₆ hk => by
    have := hb.length_le
    have := hw.length_lt
    have := hb'.length_le
    have := hb₄.length_le
    have := hw'.length_lt
    have := hb₆.length_le
    have := hk.length_le
    simp only [List.length_cons] at *
    omega
  | _, _, _, _, _, .emptyTag _ hw hb => by
    have := hw.length_lt
    have := hb.length_le
    simp only [List.length_cons] at *
    omega
  | _, _, _, _, _, .tag _ hw hb _ hm hw' hb' => by
    have := hw.length_lt
    have := hb.length_le
    have := hm.length_le
    have := hw'.length_lt
    have := hb'.length_le
    simp only [List.length_cons] at *
    omega

theorem DerivesKind.length_le : ∀ {depth type cs kind rest},
    DerivesKind tags depth type cs kind rest → rest.length ≤ cs.length
  | _, _, _, _, _, .plural _ hb ho hc _ => by
    have := hb.length_le
    have := ho.length_le
    have := hc.length_le
    simp only [List.length_cons] at *
    omega
  | _, _, _, _, _, .select hb hc _ => by
    have := hb.length_le
    have := hc.length_le
    simp only [List.length_cons] at *
    omega
  | _, _, _, _, _, .simple _ => Nat.le_succ _
  | _, _, _, _, _, .simpleStyle _ hb ht _ hb' => by
    have := hb.length_le
    have := ht.length_le
    have := hb'.length_le
    simp only [List.length_cons] at *
    omega
  | _, _, _, _, _, .custom _ => Nat.le_succ _
  | _, _, _, _, _, .customStyle _ hb _ ht _ hb' => by
    have := hb.length_le
    have := ht.length_le
    have := hb'.length_le
    simp only [List.length_cons] at *
    omega
  | _, _, _, _, _, .customCases _ hb _ hc => by
    have := hb.length_le
    have := hc.length_le
    simp only [List.length_cons] at *
    omega

theorem DerivesCases.length_le : ∀ {scope depth cs branches rest},
    DerivesCases tags scope depth cs branches rest → rest.length ≤ cs.length
  | _, _, _, _, _, .nil => Nat.le_refl _
  | _, _, _, _, _, .cons hw hb _ hm hb' hc => by
    have := hw.length_lt
    have := hb.length_le
    have := hm.length_le
    have := hb'.length_le
    have := hc.length_le
    simp only [List.length_cons] at *
    omega

end

theorem DerivesCases.stopsAt_blank {branches : List Case}
    (h : DerivesCases tags scope depth cs branches rest) (stops : StopsAt (!Text.isBlank ·) rest) :
    StopsAt (!Text.isBlank ·) cs := by
  cases h with
  | nil => exact stops
  | cons hw _ _ _ _ _ => exact hw.stopsAt_blank

end MessageFormat
