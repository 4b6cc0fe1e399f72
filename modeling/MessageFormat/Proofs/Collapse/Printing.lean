import MessageFormat.Proofs.Collapse.Grammar
import MessageFormat.Proofs.Collapse.PrintedText
import MessageFormat.Proofs.RoundTrip.Message

/-!
# Printed messages can be told apart

Well-formed messages whose printed forms are alike are the same up to collapsing
(`alike_print_iff`). A printed piece is taken off the front of two alike patterns at a time: the
pieces are the same up to collapsing and what stands behind them is alike again. Both messages are
gone through constructor by constructor, in the same scope and at the same depth.
-/

namespace MessageFormat

open Grammar (EndsMessage)
open Reader (Parallel read?)

variable {tags : Bool} {scope : Scope} {depth width width' : Nat} {id id' type type' : String}
  {cs ds X Y : List Char}

/-! ## Pieces that fit into their place -/

/-- A piece of a message is well-formed in its place with all levels below it, and there are no
tags in it unless they are read. -/
structure Fits (tags : Bool) (here : Prop) (levels : List Level) (hasTags : Bool) : Prop where
  here : here
  levels : ∀ level ∈ levels, level.WellFormed
  tags : hasTags = true → tags = true

abbrev ElementFits (tags : Bool) (scope : Scope) (depth : Nat) (e : Element) : Prop :=
  Fits tags (e.WellFormed scope) (e.levels scope depth) e.hasTags

abbrev CasesFit (tags : Bool) (scope : Scope) (depth : Nat) (branches : Cases) : Prop :=
  Fits tags (∀ c ∈ branches, IsWord false c.selector) (casesLevels scope depth branches)
    (casesHaveTags branches)

abbrev MessageFits (tags : Bool) (scope : Scope) (depth : Nat) (message : Message) : Prop :=
  Fits tags (Level.WellFormed ⟨scope, depth, message⟩) (elementsLevels scope depth message)
    message.hasTags

theorem messageFits_cons {e : Element} {es : Message} (h : MessageFits tags scope depth (e :: es)) :
    ElementFits tags scope depth e ∧ MessageFits tags scope depth es := by
  obtain ⟨⟨small, wf, chain⟩, levels, ht⟩ := h
  rw [List.forall_mem_cons] at wf
  rw [elementsLevels, List.forall_mem_append] at levels
  simp only [Message.hasTags, messageHasTags, Bool.or_eq_true] at ht
  exact ⟨⟨wf.1, levels.1, fun h => ht (.inl h)⟩,
    ⟨⟨small, wf.2, chain.of_cons⟩, levels.2, fun h => ht (.inr h)⟩⟩

theorem casesFit_cons {selector : String} {es : Message} {branches : Cases}
    (h : CasesFit tags scope depth (⟨selector, es⟩ :: branches)) :
    IsWord false selector ∧ MessageFits tags scope (depth + 1) es ∧
      CasesFit tags scope depth branches := by
  obtain ⟨words, levels, ht⟩ := h
  rw [List.forall_mem_cons] at words
  rw [casesLevels, Case.levels, List.forall_mem_append, List.forall_mem_cons] at levels
  simp only [casesHaveTags, Case.hasTags, Bool.or_eq_true] at ht
  exact ⟨words.1, ⟨levels.1.1, levels.1.2, fun h => ht (.inl h)⟩,
    words.2, levels.2, fun h => ht (.inr h)⟩

theorem messageFits_tag {children : Message}
    (h : ElementFits tags scope depth (.placeholder id (.tag children))) :
    tags = true ∧ MessageFits tags scope.inTag (depth + 1) children := by
  have inTags := h.tags rfl
  have levels := h.levels
  rw [Element.levels, Kind.levels, List.forall_mem_cons] at levels
  exact ⟨inTags, levels.1, levels.2, fun _ => inTags⟩

theorem casesFit_plural {plural : PluralType} {n : UInt32} {branches : Cases}
    (h : ElementFits tags scope depth (.placeholder id (.plural plural n branches))) :
    CasesFit tags .plural depth branches :=
  ⟨h.here.2.1.1, h.levels, h.tags⟩

theorem casesFit_select {branches : Cases}
    (h : ElementFits tags scope depth (.placeholder id (.select branches))) :
    CasesFit tags .branch depth branches :=
  ⟨h.here.2.1.1, h.levels, h.tags⟩

theorem casesFit_custom {branches : Cases}
    (h : ElementFits tags scope depth (.placeholder id (.custom type (.cases branches)))) :
    CasesFit tags .branch depth branches :=
  ⟨h.here.2.2.2.2.1, h.levels, h.tags⟩

/-! ## Words and what is no word -/

theorem not_alike_word {inTag : Bool} {word : String} {c : Char} {rest : List Char}
    (hw : Word inTag cs word rest) (ends : endsWord inTag c = true)
    (ink : Text.isBlank c = false) : ¬ Alike (c :: X) cs := by
  intro h
  obtain ⟨tail, split, -⟩ := h.exists_cons ink
  obtain ⟨d, tail', split', hd⟩ := hw.exists_cons
  obtain ⟨rfl, -⟩ := List.cons.inj (split.symm.trans split')
  rw [ends] at hd
  cases hd

theorem word_casesBody {selector : String} {es : Message} {branches : Cases}
    (hw : IsWord false selector) :
    Word false (casesBody tags scope depth width (⟨selector, es⟩ :: branches) ++ X) selector
      (' ' :: '{' :: (Print.message tags scope depth es ++
        '}' :: (Print.cases tags scope depth width branches ++ X))) := by
  rw [casesBody_cons]
  exact ⟨rfl, hw, stopsAt_cons.2 (by decide)⟩

theorem not_alike_brace_casesBody {branches : Cases}
    (words : ∀ c ∈ branches, IsWord false c.selector) :
    ¬ Alike ('{' :: X) (casesBody tags scope depth width branches ++ Y) := by
  intro h
  cases branches with
  | nil => exact absurd h (not_alike_cons (by decide) (by decide))
  | cons c branches =>
    obtain ⟨selector, es⟩ := c
    exact not_alike_word (word_casesBody (words _ List.mem_cons_self)) (by decide) (by decide) h

theorem Alike.of_cases {branches branches' : Cases}
    (words : ∀ c ∈ branches, IsWord false c.selector)
    (words' : ∀ c ∈ branches', IsWord false c.selector)
    (h : Alike (Print.cases tags scope depth width branches ++ X)
      (Print.cases tags scope depth width' branches' ++ Y)) :
    Alike (casesBody tags scope depth width branches ++ X)
      (casesBody tags scope depth width' branches' ++ Y) :=
  h.of_blanks (blanks_cases branches) (stopsAt_casesBody words) (blanks_cases branches')
    (stopsAt_casesBody words')

/-! ## Offsets -/

def offsetWord (n : UInt32) : String := "offset:" ++ toString n.toNat

theorem endsWord_of_isDigit {c : Char} (h : Decimal.isDigit c = true) :
    endsWord false c = false := by
  have ink := isBlank_of_isDigit h
  have other : ∀ d, Decimal.isDigit d = false → c ≠ d := by
    rintro _ hd rfl
    rw [h] at hd
    cases hd
  simp [endsWord, ink, other '{' (by decide), other '}' (by decide), other ',' (by decide),
    other '#' (by decide), other '\'' (by decide)]

theorem isWord_offsetWord (n : UInt32) : IsWord false (offsetWord n) := by
  have front : IsWord false "offset:" := by decide
  refine ⟨by simp [offsetWord], ?_⟩
  intro c hc
  rw [offsetWord, String.toList_append, List.mem_append] at hc
  rcases hc with mark | digits
  · exact front.2 c mark
  · have inside : c ∈ Decimal.digits n.toNat := by rwa [← Decimal.toList_toString]
    exact endsWord_of_isDigit (Decimal.isDigit_of_mem_digits inside)

theorem word_offsetWord (n : UInt32) (branches : Cases) :
    Word false ((offsetWord n).toList ++ (Print.cases tags scope depth width branches ++ X))
      (offsetWord n) (Print.cases tags scope depth width branches ++ X) := by
  refine ⟨rfl, isWord_offsetWord n, ?_⟩
  cases branches with
  | nil => exact stopsAt_cons.2 (by decide)
  | cons c branches =>
    obtain ⟨selector, es⟩ := c
    exact stopsAt_cons.2 (by decide)

theorem offsetWord_injective {n n' : UInt32} (h : offsetWord n = offsetWord n') : n = n' :=
  UInt32.toNat_inj.1 (Nat.repr_inj.1 ((String.append_right_inj _).1 h))

/-- Behind the comma of a plural: the offset if there is one, and the cases. -/
def announced (n : UInt32) (cs : List Char) : List Char :=
  if n = 0 then cs else ' ' :: ((offsetWord n).toList ++ cs)

theorem announced_append (n : UInt32) (cs : List Char) :
    announced n cs ++ X = announced n (cs ++ X) := by
  unfold announced
  split
  · rfl
  · simp

theorem print_announced (n : UInt32) (cs : List Char) :
    (if n = 0 then [] else " offset:".toList ++ (toString n.toNat).toList) ++ cs =
      announced n cs := by
  unfold announced
  split
  · rfl
  · simp [offsetWord]

theorem not_alike_offsetWord {n : UInt32} {branches branches' : Cases}
    (words : ∀ c ∈ branches, IsWord false c.selector)
    (words' : ∀ c ∈ branches', IsWord false c.selector) :
    ¬ Alike (Print.cases tags scope depth width branches ++ X)
      (' ' :: ((offsetWord n).toList ++ (Print.cases tags scope depth width' branches' ++ Y))) := by
  intro h
  have word : Word false _ (offsetWord n) _ :=
    @word_offsetWord tags scope depth width' Y n branches'
  have left := h.of_blanks (blanks_cases branches) (stopsAt_casesBody words)
    (.cons isBlank_space (.refl _)) word.stopsAt_blank
  cases branches with
  | nil => exact not_alike_word word (by decide) (by decide) left
  | cons c branches =>
    obtain ⟨selector, es⟩ := c
    obtain ⟨-, left⟩ := left.of_words (word_casesBody (words _ List.mem_cons_self)) word
    have space : Blanks (' ' :: '{' :: (Print.message tags scope depth es ++
      '}' :: (Print.cases tags scope depth width branches ++ X))) _ := .cons isBlank_space (.refl _)
    exact not_alike_brace_casesBody words' (left.of_blanks space (stopsAt_blank_cons (by decide))
      (blanks_cases branches') (stopsAt_casesBody words'))

theorem Alike.of_announced {n n' : UInt32} {branches branches' : Cases}
    (words : ∀ c ∈ branches, IsWord false c.selector)
    (words' : ∀ c ∈ branches', IsWord false c.selector)
    (h : Alike (announced n (Print.cases tags scope depth width branches ++ X))
      (announced n' (Print.cases tags scope depth width' branches' ++ Y))) :
    n = n' ∧ Alike (Print.cases tags scope depth width branches ++ X)
      (Print.cases tags scope depth width' branches' ++ Y) := by
  unfold announced at h
  by_cases zero : n = 0 <;> by_cases zero' : n' = 0
  · rw [if_pos zero, if_pos zero'] at h
    exact ⟨zero.trans zero'.symm, h⟩
  · rw [if_pos zero, if_neg zero'] at h
    exact absurd h (not_alike_offsetWord words words')
  · rw [if_neg zero, if_pos zero'] at h
    exact absurd h.symm (not_alike_offsetWord words' words)
  · rw [if_neg zero, if_neg zero'] at h
    have word : Word false _ (offsetWord n) _ :=
      @word_offsetWord tags scope depth width X n branches
    have word' : Word false _ (offsetWord n') _ :=
      @word_offsetWord tags scope depth width' Y n' branches'
    have behind := h.of_space word.stopsAt_blank word'.stopsAt_blank
    obtain ⟨same, left⟩ := behind.of_words word word'
    exact ⟨offsetWord_injective same, left⟩

/-! ## Placeholders -/

/-- A kind without what is printed behind its type. -/
def Kind.bare : Kind → Kind
  | .argument => .argument
  | .simple type _ => .simple type none
  | .plural type _ _ => .plural type 0 []
  | .select _ => .select []
  | .custom type _ => .custom type .none
  | .tag _ => .tag []
  | .emptyTag => .emptyTag

def Kind.ofType (type : String) : Kind :=
  match PluralType.ofKeyword? type with
  | some keyword => .plural keyword 0 []
  | none =>
    if type = "select" then .select []
    else match SimpleType.ofName? type with
      | some name => .simple name none
      | none => .custom type .none

theorem Kind.bare_eq_ofType {k : Kind} (wf : k.WellFormed) (h : k.typeName? = some type) :
    k.bare = Kind.ofType type := by
  cases k with
  | argument => cases h
  | simple simple style =>
    obtain rfl := Option.some.inj h
    cases simple <;> rfl
  | plural plural n branches =>
    obtain rfl := Option.some.inj h
    cases plural <;> rfl
  | select branches =>
    obtain rfl := Option.some.inj h
    rfl
  | custom other style =>
    obtain rfl := Option.some.inj h
    obtain ⟨noPlural, noSelect, noName⟩ := wf.2.1
    rw [Kind.ofType, noPlural, noName]
    exact (if_neg noSelect).symm
  | tag children => cases h
  | emptyTag => cases h

theorem Kind.isWord_typeName {k : Kind} (wf : k.WellFormed) (h : k.typeName? = some type) :
    IsWord false type := by
  cases k with
  | argument => cases h
  | simple simple style => exact Option.some.inj h ▸ isWord_name simple
  | plural plural n branches => exact Option.some.inj h ▸ isWord_keyword plural
  | select branches =>
    obtain rfl := Option.some.inj h
    decide
  | custom other style => exact Option.some.inj h ▸ wf.1
  | tag children => cases h
  | emptyTag => cases h

/-- What is printed of a placeholder behind its type, or behind its id if it has no type. -/
def afterType (tags : Bool) (depth : Nat) : Kind → List Char
  | .argument => ['}']
  | .simple _ none => ['}']
  | .simple _ (some content) => Print.style content ++ ['}']
  | .plural _ n branches =>
      ',' :: announced n (Print.cases tags .plural depth (Print.selectorWidth branches) branches)
  | .select branches =>
      ',' :: Print.cases tags .branch depth (Print.selectorWidth branches) branches
  | .custom _ style => Print.custom tags depth style
  | .tag _ => []
  | .emptyTag => []

def typePart : Option String → List Char
  | none => []
  | some type => ',' :: ' ' :: type.toList

theorem print_braces {k : Kind} (h : k.isTag = false) :
    Print.kind tags scope depth id k ++ X =
      '{' :: (id.toList ++ (typePart k.typeName? ++ (afterType tags depth k ++ X))) := by
  cases k with
  | argument => simp [Print.kind, typePart, afterType, Kind.typeName?]
  | simple simple style =>
    cases style <;> simp [Print.kind, Print.opening, typePart, afterType, Kind.typeName?]
  | plural plural n branches =>
    have offset := print_announced n
      (Print.cases tags .plural depth (Print.selectorWidth branches) branches)
    rw [Print.kind, List.append_assoc _ _ (Print.cases _ _ _ _ _), offset]
    simp [Print.opening, typePart, afterType, Kind.typeName?]
  | select branches => simp [Print.kind, Print.opening, typePart, afterType, Kind.typeName?]
  | custom other style => simp [Print.kind, Print.opening, typePart, afterType, Kind.typeName?]
  | tag children => cases h
  | emptyTag => cases h

theorem stopsAt_afterType {k : Kind} (wf : k.WellFormed) (h : k.isTag = false) :
    StopsAt (endsWord false) (afterType tags depth k ++ X) := by
  have comma : ∀ {cs}, StopsAt (endsWord false) (',' :: cs) := stopsAt_cons.2 (by decide)
  have brace : ∀ {cs}, StopsAt (endsWord false) ('}' :: cs) := stopsAt_cons.2 (by decide)
  cases k with
  | argument => exact brace
  | simple simple style =>
    cases style with
    | none => exact brace
    | some content =>
      have hne : content ≠ "" := by simpa [Kind.WellFormed] using wf
      rw [afterType, print_style hne]
      exact comma
  | plural plural n branches => exact comma
  | select branches => exact comma
  | custom other style =>
    cases style with
    | none => exact brace
    | text content =>
      rw [afterType, Print.custom, print_style wf.2.2]
      exact comma
    | cases branches =>
      cases branches with
      | nil => exact brace
      | cons c branches => exact comma
  | tag children => cases h
  | emptyTag => cases h

theorem stopsAt_typePart {k : Kind} (wf : k.WellFormed) (h : k.isTag = false) :
    StopsAt (endsWord false) (typePart k.typeName? ++ (afterType tags depth k ++ X)) := by
  cases k.typeName? with
  | none => exact stopsAt_afterType wf h
  | some type => exact stopsAt_cons.2 (by decide)

theorem eq_argument {k : Kind} (h : k.isTag = false) (untyped : k.typeName? = none) :
    k = .argument := by
  cases k with
  | argument => rfl
  | tag children => cases h
  | emptyTag => cases h
  | _ => cases untyped

/-- Two printed placeholders in braces have the same id and type in front. -/
theorem alike_of_braces {k l : Kind} (wf : (Element.placeholder id k).WellFormed scope)
    (wf' : (Element.placeholder id' l).WellFormed scope) (hk : k.isTag = false)
    (hl : l.isTag = false)
    (h : Alike (Print.kind tags scope.printed depth id k ++ X)
      (Print.kind tags scope.printed depth id' l ++ Y)) :
    id = id' ∧ k.bare = l.bare ∧
      Alike (afterType tags depth k ++ X) (afterType tags depth l ++ Y) := by
  have hid : IsWord k.isTag id := wf.1
  have hid' : IsWord l.isTag id' := wf'.1
  rw [hk] at hid
  rw [hl] at hid'
  rw [print_braces hk, print_braces hl] at h
  obtain ⟨same, left⟩ := (h.of_cons (by decide)).2.of_words ⟨rfl, hid, stopsAt_typePart wf.2 hk⟩
    ⟨rfl, hid', stopsAt_typePart wf'.2 hl⟩
  refine ⟨same, ?_⟩
  cases ht : k.typeName? with
  | none =>
    obtain rfl := eq_argument hk ht
    cases ht' : l.typeName? with
    | none =>
      obtain rfl := eq_argument hl ht'
      exact ⟨rfl, left⟩
    | some type =>
      rw [ht'] at left
      exact absurd left (not_alike_cons (by decide) (by decide))
  | some type =>
    rw [ht] at left
    cases ht' : l.typeName? with
    | none =>
      obtain rfl := eq_argument hl ht'
      exact absurd left (not_alike_cons (by decide) (by decide))
    | some type' =>
      rw [ht'] at left
      have word : Word false (type.toList ++ (afterType tags depth k ++ X)) type _ :=
        ⟨rfl, Kind.isWord_typeName wf.2 ht, stopsAt_afterType wf.2 hk⟩
      have word' : Word false (type'.toList ++ (afterType tags depth l ++ Y)) type' _ :=
        ⟨rfl, Kind.isWord_typeName wf'.2 ht', stopsAt_afterType wf'.2 hl⟩
      have behind := (left.of_cons (by decide)).2.of_space word.stopsAt_blank word'.stopsAt_blank
      obtain ⟨sameType, after⟩ := behind.of_words word word'
      rw [Kind.bare_eq_ofType wf.2 ht, Kind.bare_eq_ofType wf'.2 ht', sameType]
      exact ⟨rfl, after⟩

/-! ## Styles -/

theorem stopsAt_styleText {content : String} (hne : content ≠ "") :
    StopsAt (!Text.isBlank ·) (styleText content ++ '}' :: X) :=
  Grammar.stopsAt_blank_of_derivesText (@derivesText_styleText true X content) (by simpa using hne)

theorem alike_of_style {s t : String} (hs : s ≠ "") (ht : t ≠ "")
    (h : Alike (Print.style s ++ ['}'] ++ X) (Print.style t ++ ['}'] ++ Y)) :
    Text.collapse s = Text.collapse t ∧ Alike X Y := by
  have layout : ∀ {content : String} {rest}, content ≠ "" → Print.style content ++ ['}'] ++ rest =
      ',' :: ' ' :: (styleText content ++ '}' :: rest) := fun hne => by simp [print_style hne]
  rw [layout hs, layout ht] at h
  have behind := (h.of_cons (by decide)).2.of_space (stopsAt_styleText hs) (stopsAt_styleText ht)
  exact (alike_of_styleText behind).imp_left collapse_eq_iff.2

theorem not_alike_style_brace {s : String} (hs : s ≠ "") :
    ¬ Alike (Print.style s ++ ['}'] ++ X) ('}' :: Y) := by
  rw [print_style hs]
  exact not_alike_cons (by decide) (by decide)

theorem not_alike_style_cases {s : String} {c : Case} {branches : Cases} (hs : s ≠ "")
    (words : ∀ d ∈ c :: branches, IsWord false d.selector) :
    ¬ Alike (Print.style s ++ ['}'] ++ X)
      (',' :: (Print.cases tags scope depth width (c :: branches) ++ Y)) := by
  intro h
  rw [print_style hs, List.append_assoc] at h
  have behind := (h.of_cons (by decide)).2.of_blanks (.cons isBlank_space (.refl _))
    (stopsAt_styleText hs) (blanks_cases _) (stopsAt_casesBody words)
  obtain ⟨selector, es⟩ := c
  have opens := behind.opensCase.2 (opensCase_casesBody (words _ List.mem_cons_self))
  exact not_opensCase_styleText s opens

theorem alike_of_simple {simple : SimpleType} {style style' : Option String}
    (wf : style ≠ some "") (wf' : style' ≠ some "")
    (h : Alike (afterType tags depth (.simple simple style) ++ X)
      (afterType tags depth (.simple simple style') ++ Y)) :
    style.map Text.collapse = style'.map Text.collapse ∧ Alike X Y := by
  cases style with
  | none =>
    cases style' with
    | none => exact ⟨rfl, (h.of_cons (by decide)).2⟩
    | some t =>
      exact absurd h.symm (not_alike_style_brace (by simpa using wf'))
  | some s =>
    have hs : s ≠ "" := by simpa using wf
    cases style' with
    | none => exact absurd h (not_alike_style_brace hs)
    | some t => exact (alike_of_style hs (by simpa using wf') h).imp_left (congrArg some)

/-! ## Tags -/

theorem exists_print_kind (k : Kind) : ∃ tail, Print.kind tags scope depth id k ++ X =
    (if k.isTag then '<' else '{') :: tail := by
  cases hk : k.isTag with
  | false => exact ⟨_, print_braces hk⟩
  | true =>
    cases k with
    | tag children => exact ⟨_, rfl⟩
    | emptyTag => exact ⟨_, rfl⟩
    | _ => cases hk

theorem isTag_eq_of_alike {k l : Kind} (h : Alike (Print.kind tags scope depth id k ++ X)
    (Print.kind tags scope depth id' l ++ Y)) : k.isTag = l.isTag := by
  obtain ⟨tail, split⟩ := @exists_print_kind tags scope depth id X k
  obtain ⟨tail', split'⟩ := @exists_print_kind tags scope depth id' Y l
  rw [split, split'] at h
  cases hk : k.isTag <;> cases hl : l.isTag <;> rw [hk, hl] at h
  · exact absurd h (not_alike_cons (by decide) (by decide))
  · exact absurd h (not_alike_cons (by decide) (by decide))

theorem alike_of_angles {c d : Char} (hid : IsWord true id) (hid' : IsWord true id')
    (hc : endsWord true c = true) (hd : endsWord true d = true)
    (h : Alike ('<' :: (id.toList ++ c :: X)) ('<' :: (id'.toList ++ d :: Y))) :
    id = id' ∧ Alike (c :: X) (d :: Y) :=
  (h.of_cons (by decide)).2.of_words ⟨rfl, hid, stopsAt_cons.2 hc⟩ ⟨rfl, hid', stopsAt_cons.2 hd⟩

theorem print_emptyTag : Print.kind tags scope depth id .emptyTag ++ X =
    '<' :: (id.toList ++ '/' :: '>' :: X) := by
  simp [Print.kind]

theorem not_alike_hash {k : Kind} :
    ¬ Alike ('#' :: X) (Print.kind tags scope depth id k ++ Y) := by
  obtain ⟨tail, split⟩ := @exists_print_kind tags scope depth id Y k
  rw [split]
  refine not_alike_cons (by decide) ?_
  split <;> decide

/-! ## Where elements start -/

theorem readText_print_eq_nil {e : Element} (fits : ElementFits tags scope depth e)
    (hs : scope ≠ .style) (stops : e.isText = true → StopsAt (endsText tags scope) X) :
    (readText tags scope false (Print.element tags scope.printed depth e ++ X)).content = [] ↔
      e.isText = false := by
  cases he : e.isText with
  | false =>
    rw [readText_done (stopsAt_print fits.here fits.tags he)]
    simp
  | true =>
    cases e with
    | text content =>
      have printed : Print.element tags scope.printed depth (.text content) =
          Print.text tags scope content := textFrom_printed false content.toList
      have hne : content.toList ≠ [] := mt String.toList_eq_nil_iff.1 fits.here
      rw [printed, (derivesText_iff.1 (derivesText_print hs (stops he) content)).1]
      simpa using reread_ne_nil hne
    | hash => cases he
    | placeholder _ _ => cases he

theorem isText_eq_of_alike {e f : Element} (fits : ElementFits tags scope depth e)
    (fits' : ElementFits tags scope depth f) (hs : scope ≠ .style)
    (stops : e.isText = true → StopsAt (endsText tags scope) X)
    (stops' : f.isText = true → StopsAt (endsText tags scope) Y)
    (h : Alike (Print.element tags scope.printed depth e ++ X)
      (Print.element tags scope.printed depth f ++ Y)) : e.isText = f.isText := by
  have same := (@Alike.readText tags scope _ _ h).1.eq_nil_iff
  rw [readText_print_eq_nil fits hs stops, readText_print_eq_nil fits' hs stops'] at same
  rwa [Bool.eq_false_iff, Bool.eq_false_iff, ne_eq, ne_eq, not_iff_not, ← Bool.eq_iff_iff] at same

theorem MessageFits.stopsAt {e : Element} {es : Message}
    (fits : MessageFits tags scope depth (e :: es)) (ends : EndsMessage tags scope X)
    (he : e.isText = true) :
    StopsAt (endsText tags scope) (Print.message tags scope.printed depth es ++ X) := by
  have later := (messageFits_cons fits).2
  exact stopsAt_print_message fits.here.2.2 he later.here.2.1 later.tags ends

theorem print_cons (e : Element) (es : Message) :
    Print.message tags scope depth (e :: es) ++ X =
      Print.element tags scope depth e ++ (Print.message tags scope depth es ++ X) := by
  rw [Print.message, List.append_assoc]

/-- No element starts where a message ends. -/
theorem not_alike_element {e : Element} (ends : EndsMessage tags scope X)
    (fits : ElementFits tags scope depth e) (hs : scope ≠ .style) (hd : depth ≤ maxDepth)
    (stops : e.isText = true → StopsAt (endsText tags scope) Y) :
    ¬ Alike X (Print.element tags scope.printed depth e ++ Y) := by
  intro h
  have below := Grammar.parallel_message tags (maxDepth - depth) depth (Nat.add_sub_cancel' hd)
  have sound : Grammar.SoundBelow tags depth (Grammar.below tags depth) :=
    Grammar.soundBelow_below hd
  have parallel : Parallel _ (Grammar.element? tags (Grammar.below tags depth) scope) _ :=
    Grammar.parallel_element? sound below
  have read := parallel X _ h
  rw [ends.read?_element?] at read
  have again := rereads_element e hs hd fits.here fits.levels fits.tags Y stops
  generalize read? _ (Print.element tags scope.printed depth e ++ Y) = y at read again
  cases read with
  | @some _ y related =>
    obtain ⟨v, rest⟩ := y
    obtain ⟨f, rfl⟩ := (again.like rfl).1
    cases related.1

/-! ## One case for every constructor -/

mutual

theorem alike_element : (e : Element) → ∀ {f : Element} {scope depth X Y}, scope ≠ .style →
    ElementFits tags scope depth e → ElementFits tags scope depth f →
    (e.isText = true → StopsAt (endsText tags scope) X) →
    (f.isText = true → StopsAt (endsText tags scope) Y) →
    Alike (Print.element tags scope.printed depth e ++ X)
      (Print.element tags scope.printed depth f ++ Y) →
    e.collapse = f.collapse ∧ Alike X Y
  | .text s, f, scope, depth, X, Y, hs, fits, fits', stops, stops', h => by
    have same := isText_eq_of_alike fits fits' hs stops stops' h
    cases f with
    | text t =>
      have printed : ∀ content, Print.element tags scope.printed depth (.text content) =
          Print.text tags scope content := fun content => textFrom_printed false content.toList
      rw [printed, printed] at h
      obtain ⟨content, left⟩ := alike_of_print_text hs (stops rfl) (stops' rfl) h
      exact ⟨congrArg Element.text (collapse_eq_iff.2 content), left⟩
    | hash => cases same
    | placeholder id' l => cases same
  | .hash, f, scope, depth, X, Y, hs, fits, fits', stops, stops', h => by
    have same := isText_eq_of_alike fits fits' hs stops stops' h
    cases f with
    | text t => cases same
    | hash => exact ⟨rfl, (h.of_cons (by decide)).2⟩
    | placeholder id' l => exact absurd h not_alike_hash
  | .placeholder id k, f, scope, depth, X, Y, hs, fits, fits', stops, stops', h => by
    have same := isText_eq_of_alike fits fits' hs stops stops' h
    cases f with
    | text t => cases same
    | hash => exact absurd h.symm not_alike_hash
    | placeholder id' l =>
      obtain ⟨rfl, kinds, left⟩ := alike_kind k fits fits' h
      exact ⟨congrArg (Element.placeholder id) kinds, left⟩

theorem alike_kind : (k : Kind) → ∀ {l : Kind} {scope depth id id' X Y},
    ElementFits tags scope depth (.placeholder id k) →
    ElementFits tags scope depth (.placeholder id' l) →
    Alike (Print.kind tags scope.printed (depth + 1) id k ++ X)
      (Print.kind tags scope.printed (depth + 1) id' l ++ Y) →
    id = id' ∧ k.collapse = l.collapse ∧ Alike X Y
  | .argument, l, scope, depth, id, id', X, Y, fits, fits', h => by
    have braces := isTag_eq_of_alike h
    obtain ⟨same, bare, left⟩ := alike_of_braces fits.here fits'.here rfl braces.symm h
    cases l with
    | argument => exact ⟨same, rfl, (left.of_cons (by decide)).2⟩
    | _ => cases bare
  | .simple simple style, l, scope, depth, id, id', X, Y, fits, fits', h => by
    have braces := isTag_eq_of_alike h
    obtain ⟨same, bare, left⟩ := alike_of_braces fits.here fits'.here rfl braces.symm h
    cases l with
    | simple other style' =>
      obtain ⟨rfl, -⟩ := Kind.simple.inj bare
      obtain ⟨styles, left⟩ := alike_of_simple fits.here.2 fits'.here.2 left
      exact ⟨same, congrArg (Kind.simple simple) styles, left⟩
    | _ => cases bare
  | .plural plural n branches, l, scope, depth, id, id', X, Y, fits, fits', h => by
    have braces := isTag_eq_of_alike h
    obtain ⟨same, bare, left⟩ := alike_of_braces fits.here fits'.here rfl braces.symm h
    cases l with
    | plural other n' branches' =>
      obtain ⟨rfl, -⟩ := Kind.plural.inj bare
      have inner := casesFit_plural fits
      have inner' := casesFit_plural fits'
      have behind := (left.of_cons (by decide)).2
      change Alike (announced n _ ++ X) (announced n' _ ++ Y) at behind
      rw [announced_append, announced_append] at behind
      obtain ⟨rfl, printed⟩ := Alike.of_announced inner.here inner'.here behind
      obtain ⟨collected, left⟩ := alike_cases branches (by decide) inner inner' printed
      exact ⟨same, congrArg (Kind.plural plural n) collected, left⟩
    | _ => cases bare
  | .select branches, l, scope, depth, id, id', X, Y, fits, fits', h => by
    have braces := isTag_eq_of_alike h
    obtain ⟨same, bare, left⟩ := alike_of_braces fits.here fits'.here rfl braces.symm h
    cases l with
    | select branches' =>
      obtain ⟨collected, left⟩ := alike_cases branches (by decide) (casesFit_select fits)
        (casesFit_select fits') (left.of_cons (by decide)).2
      exact ⟨same, congrArg Kind.select collected, left⟩
    | _ => cases bare
  | .custom type style, l, scope, depth, id, id', X, Y, fits, fits', h => by
    have braces := isTag_eq_of_alike h
    obtain ⟨same, bare, left⟩ := alike_of_braces fits.here fits'.here rfl braces.symm h
    cases l with
    | custom other style' =>
      obtain ⟨rfl, -⟩ := Kind.custom.inj bare
      obtain ⟨styles, left⟩ := alike_customStyle style fits fits' left
      exact ⟨same, congrArg (Kind.custom type) styles, left⟩
    | _ => cases bare
  | .tag children, l, scope, depth, id, id', X, Y, fits, fits', h => by
    have angle := isTag_eq_of_alike h
    rw [print_tag] at h
    cases l with
    | tag children' =>
      have notStyle : scope.inTag ≠ .style := by cases scope <;> decide
      have notRoot : scope.inTag ≠ .root := by cases scope <;> decide
      obtain ⟨inTags, inner⟩ := messageFits_tag fits
      obtain ⟨-, inner'⟩ := messageFits_tag fits'
      rw [print_tag] at h
      obtain ⟨rfl, left⟩ := alike_of_angles fits.here.1 fits'.here.1 (by decide) (by decide) h
      obtain ⟨messages, left⟩ := alike_elements children notStyle inner inner'
        (.tag inTags notRoot) (.tag inTags notRoot) (left.of_cons (by decide)).2
      have closing := ((left.of_cons (by decide)).2.of_cons (by decide)).2
      have word : ∀ {rest}, Word true (id.toList ++ '>' :: rest) id ('>' :: rest) :=
        ⟨rfl, fits.here.1, stopsAt_cons.2 (by decide)⟩
      obtain ⟨-, left⟩ := closing.of_words word word
      exact ⟨rfl, congrArg Kind.tag messages, (left.of_cons (by decide)).2⟩
    | emptyTag =>
      rw [print_emptyTag] at h
      have left := (alike_of_angles fits.here.1 fits'.here.1 (by decide) (by decide) h).2
      exact absurd left (not_alike_cons (by decide) (by decide))
    | _ => cases angle
  | .emptyTag, l, scope, depth, id, id', X, Y, fits, fits', h => by
    have angle := isTag_eq_of_alike h
    rw [print_emptyTag] at h
    cases l with
    | tag children' =>
      rw [print_tag] at h
      have left := (alike_of_angles fits.here.1 fits'.here.1 (by decide) (by decide) h).2
      exact absurd left (not_alike_cons (by decide) (by decide))
    | emptyTag =>
      rw [print_emptyTag] at h
      obtain ⟨same, left⟩ := alike_of_angles fits.here.1 fits'.here.1 (by decide) (by decide) h
      exact ⟨same, rfl, ((left.of_cons (by decide)).2.of_cons (by decide)).2⟩
    | _ => cases angle

theorem alike_customStyle : (style : CustomStyle) → ∀ {style' : CustomStyle}
    {type scope depth id id' X Y},
    ElementFits tags scope depth (.placeholder id (.custom type style)) →
    ElementFits tags scope depth (.placeholder id' (.custom type style')) →
    Alike (Print.custom tags (depth + 1) style ++ X)
      (Print.custom tags (depth + 1) style' ++ Y) →
    style.collapse = style'.collapse ∧ Alike X Y
  | .none, style', _, _, _, _, _, X, Y, fits, fits', h => by
    cases style' with
    | none => exact ⟨rfl, (h.of_cons (by decide)).2⟩
    | text t => exact absurd h.symm (not_alike_style_brace fits'.here.2.2.2)
    | cases branches =>
      obtain ⟨c, branches, rfl⟩ := List.exists_cons_of_ne_nil fits'.here.2.2.2.1
      exact absurd h (not_alike_cons (by decide) (by decide))
  | .text s, style', _, _, _, _, _, X, Y, fits, fits', h => by
    have hs : s ≠ "" := fits.here.2.2.2
    cases style' with
    | none => exact absurd h (not_alike_style_brace hs)
    | text t =>
      obtain ⟨same, left⟩ := alike_of_style hs fits'.here.2.2.2 h
      exact ⟨congrArg CustomStyle.text same, left⟩
    | cases branches =>
      obtain ⟨c, branches, rfl⟩ := List.exists_cons_of_ne_nil fits'.here.2.2.2.1
      exact absurd h (not_alike_style_cases hs (casesFit_custom fits').here)
  | .cases [], _, _, _, _, _, _, _, _, fits, _, _ => absurd rfl fits.here.2.2.2.1
  | .cases (c :: branches), style', _, _, _, _, _, X, Y, fits, fits', h => by
    cases style' with
    | none => exact absurd h (not_alike_cons (by decide) (by decide))
    | text t =>
      exact absurd h.symm (not_alike_style_cases fits'.here.2.2.2 (casesFit_custom fits).here)
    | cases branches' =>
      obtain ⟨c', branches', rfl⟩ := List.exists_cons_of_ne_nil fits'.here.2.2.2.1
      obtain ⟨collected, left⟩ := alike_cases (c :: branches) (by decide) (casesFit_custom fits)
        (casesFit_custom fits') (h.of_cons (by decide)).2
      exact ⟨congrArg CustomStyle.cases collected, left⟩

theorem alike_cases : (branches : List Case) → ∀ {branches' : List Case}
    {width width' scope depth X Y},
    scope ≠ .style → CasesFit tags scope depth branches → CasesFit tags scope depth branches' →
    Alike (Print.cases tags scope.printed (depth + 1) width branches ++ X)
      (Print.cases tags scope.printed (depth + 1) width' branches' ++ Y) →
    collapseCases branches = collapseCases branches' ∧ Alike X Y
  | [], branches', width, width', scope, depth, X, Y, hs, fits, fits', h => by
    have bodies := h.of_cases fits.here fits'.here
    cases branches' with
    | nil => exact ⟨rfl, (bodies.of_cons (by decide)).2⟩
    | cons c branches' =>
      obtain ⟨selector, es⟩ := c
      have word := fits'.here _ List.mem_cons_self
      exact absurd bodies (not_alike_word (word_casesBody word) (by decide) (by decide))
  | ⟨selector, es⟩ :: branches, branches', width, width', scope, depth, X, Y, hs, fits, fits',
      h => by
    have bodies := h.of_cases fits.here fits'.here
    obtain ⟨word, inner, later⟩ := casesFit_cons fits
    cases branches' with
    | nil => exact absurd bodies.symm (not_alike_word (word_casesBody word) (by decide) (by decide))
    | cons c branches' =>
      obtain ⟨selector', es'⟩ := c
      obtain ⟨word', inner', later'⟩ := casesFit_cons fits'
      obtain ⟨rfl, left⟩ := bodies.of_words (word_casesBody word) (word_casesBody word')
      have brace := left.of_space (stopsAt_blank_cons (by decide)) (stopsAt_blank_cons (by decide))
      obtain ⟨messages, left⟩ := alike_elements es hs inner inner' .brace .brace
        (brace.of_cons (by decide)).2
      obtain ⟨more, left⟩ := alike_cases branches hs later later' (left.of_cons (by decide)).2
      exact ⟨congrArg₂ List.cons (congrArg (Case.mk selector) messages) more, left⟩

theorem alike_elements : (es : List Element) → ∀ {fs : List Element} {scope depth X Y},
    scope ≠ .style → MessageFits tags scope depth es → MessageFits tags scope depth fs →
    EndsMessage tags scope X → EndsMessage tags scope Y →
    Alike (Print.message tags scope.printed depth es ++ X)
      (Print.message tags scope.printed depth fs ++ Y) →
    collapseElements es = collapseElements fs ∧ Alike X Y
  | [], fs, scope, depth, X, Y, hs, fits, fits', ends, ends', h => by
    cases fs with
    | nil => exact ⟨rfl, h⟩
    | cons f fs =>
      rw [print_cons] at h
      exact absurd h (not_alike_element ends (messageFits_cons fits').1 hs fits.here.1
        (fits'.stopsAt ends'))
  | e :: es, fs, scope, depth, X, Y, hs, fits, fits', ends, ends', h => by
    rw [print_cons] at h
    obtain ⟨head, tail⟩ := messageFits_cons fits
    cases fs with
    | nil =>
      exact absurd h.symm (not_alike_element ends' head hs fits.here.1 (fits.stopsAt ends))
    | cons f fs =>
      obtain ⟨head', tail'⟩ := messageFits_cons fits'
      rw [print_cons] at h
      obtain ⟨first, left⟩ := alike_element e hs head head' (fits.stopsAt ends)
        (fits'.stopsAt ends') h
      obtain ⟨more, left⟩ := alike_elements es hs tail tail' ends ends' left
      exact ⟨congrArg₂ List.cons first more, left⟩

end

/-! ## Whole messages -/

theorem Message.WellFormed.fits {message : Message} (wf : message.WellFormed)
    (ht : message.hasTags = true → tags = true) : MessageFits tags .root 0 message := by
  rw [Message.WellFormed, Message.levels, List.forall_mem_cons] at wf
  exact ⟨wf.1, wf.2, ht⟩

/-- Printed messages differ in blanks alone just if the messages are the same up to collapsing. -/
theorem alike_print_iff {message other : Message} (wf : message.WellFormed)
    (wf' : other.WellFormed) (ht : message.hasTags = true → tags = true)
    (ht' : other.hasTags = true → tags = true) :
    Alike (message.print tags).toList (other.print tags).toList ↔
      message.collapse = other.collapse := by
  constructor
  · intro h
    have notStyle : Scope.root ≠ .style := by decide
    rw [toList_print ht, toList_print ht', ← List.append_nil (Print.message _ _ _ message),
      ← List.append_nil (Print.message _ _ _ other)] at h
    exact (alike_elements message notStyle (wf.fits ht) (wf'.fits ht') .nil .nil h).1
  · exact alike_print_of_collapse

end MessageFormat
