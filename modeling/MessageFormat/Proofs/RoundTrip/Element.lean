import MessageFormat.Proofs.Completeness
import MessageFormat.Proofs.RoundTrip.Rereading
import MessageFormat.Proofs.RoundTrip.Text

/-!
# Printed elements

What is read of a printed element with no cases. The children of a tag and the kind of a typed
placeholder are taken as read.
-/

namespace MessageFormat.Grammar

open Reader

variable {tags : Bool} {scope : Scope} {nested : Nested} {id : String} {cs rest X : List Char}
  {p : Prop}

/-! ## Texts, arguments and tags -/

theorem rereads_text {content : String} (hs : scope ≠ .style) (hne : content ≠ "")
    (stops : StopsAt (endsText tags scope) rest) :
    Rereads (fun v => ∃ e, v = some e)
      (read? (element? tags nested scope) (Print.text tags scope content ++ rest))
      (some (.text content)) rest (Separated (isMark tags scope) content.toList) := by
  let again := reread (isMark tags scope) .outside content.toList
  have read : read? (element? tags nested scope) (Print.text tags scope content ++ rest) =
      some (some (.text (String.ofList again)), rest) := by
    refine read?_element?_eq_some.2 (.inl ⟨_, rfl, ?_, ?_⟩)
    · rw [String.toList_ofList]
      exact derivesText_print hs stops content
    · have := @reread_ne_nil (isMark tags scope) _ .outside (mt String.toList_eq_nil_iff.1 hne)
      simpa using this
  rw [read]
  constructor
  · intro v r h
    cases h
    exact ⟨⟨_, rfl⟩, rfl⟩
  · rw [← reread_outside_eq_self (isMark_apostrophe tags scope)]
    simp only [Option.some.injEq, Prod.mk.injEq, Element.text.injEq, and_true]
    constructor
    · intro h
      have same := congrArg String.toList h
      rwa [String.toList_ofList] at same
    · intro h
      rw [show again = content.toList from h, String.ofList_toList]

theorem rereads_hash : Rereads (fun v => ∃ e, v = some e)
    (read? (element? tags nested .plural) ('#' :: rest)) (some .hash) rest True := by
  refine .of_eq_some ?_ ⟨_, rfl⟩ trivial
  refine read?_element?_eq_some.2 (.inr ⟨?_, .inl ⟨rfl, rfl⟩⟩)
  exact stopsAt_cons.2 (by simp [endsText, isMark])

theorem rereads_argument (hw : IsWord false id) : Rereads (fun v => ∃ e, v = some e)
    (read? (element? tags nested scope) ('{' :: id.toList ++ ['}'] ++ rest))
    (some (.placeholder id .argument)) rest True := by
  refine .of_eq_some ?_ ⟨_, rfl⟩ trivial
  have word : Word false (id.toList ++ '}' :: rest) id ('}' :: rest) :=
    ⟨rfl, hw, stopsAt_cons.2 (by decide)⟩
  refine read?_element?_eq_some.2 (.inr ⟨stopsAt_cons.2 (by simp [endsText, isMark]), ?_⟩)
  refine .inr (.inr ⟨id.toList ++ '}' :: rest, by simp, ?_⟩)
  exact read?_placeholder_eq_some.2 ⟨_, _, _, .refl _, word, .inl ⟨.refl _, rfl⟩⟩

theorem rereads_emptyTag (ht : tags = true) (hw : IsWord true id) :
    Rereads (fun v => ∃ e, v = some e)
      (read? (element? tags nested scope) ('<' :: id.toList ++ ['/', '>'] ++ rest))
      (some (.placeholder id .emptyTag)) rest True := by
  refine .of_eq_some ?_ ⟨_, rfl⟩ trivial
  have word : Word true (id.toList ++ '/' :: '>' :: rest) id ('/' :: '>' :: rest) :=
    ⟨rfl, hw, stopsAt_cons.2 (by decide)⟩
  refine read?_element?_eq_some.2 (.inr ⟨stopsAt_cons.2 (by simp [endsText, isMark, ht]), ?_⟩)
  refine .inr (.inl ⟨id.toList ++ '/' :: '>' :: rest, by simp, not_slash_of_word word, ?_⟩)
  exact read?_tag_eq_some.2 ⟨_, _, word, .inl ⟨.refl _, rfl⟩⟩

theorem read?_element?_open (ht : tags = true) (noSlash : ¬ ['/'] <+: cs) :
    read? (element? tags nested scope) ('<' :: cs) =
      (read? (tag nested scope) cs).map fun y => (some y.1, y.2) := by
  have ends : StopsAt (endsText tags scope) ('<' :: cs) :=
    stopsAt_cons.2 (by simp [endsText, isMark, ht])
  unfold element?
  rw [read?_bind, read?_text?_eq_none.2 ⟨rfl, ends⟩, Option.bind_some, read?_bind, read?_ahead,
    Option.bind_some]
  dsimp only
  split
  · rename_i other
    cases other
  · rename_i slash
    obtain ⟨-, rfl⟩ := List.cons.inj slash
    exact absurd (List.prefix_append ['/'] _) noSlash
  · rw [read?_bind, read?_mark?_cons, Option.bind_some, read?_bind, Option.map_eq_bind]
    rfl
  · rename_i other
    cases other
  · rename_i noTag _
    exact absurd rfl (noTag cs)

theorem read?_element?_brace : read? (element? tags nested scope) ('{' :: cs) =
    (read? (placeholder tags nested) cs).map fun y => (some y.1, y.2) := by
  have ends : StopsAt (endsText tags scope) ('{' :: cs) :=
    stopsAt_cons.2 (by simp [endsText, isMark])
  unfold element?
  rw [read?_bind, read?_text?_eq_none.2 ⟨rfl, ends⟩, Option.bind_some, read?_bind, read?_ahead,
    Option.bind_some]
  change read? (mark? ['{'] >>= fun _ => placeholder tags nested >>= fun e => pure (some e)) _ = _
  rw [read?_bind, read?_mark?_cons, Option.bind_some, read?_bind, Option.map_eq_bind]
  rfl

theorem read?_tag_children (hw : IsWord true id) :
    read? (tag nested scope) (id.toList ++ '>' :: X) =
      (read? (nested scope.inTag) X).bind fun y =>
        (read? (closingTag id) y.2).map fun z => (.placeholder id (.tag y.1), z.2) := by
  have word : Word true (id.toList ++ '>' :: X) id ('>' :: X) :=
    ⟨rfl, hw, stopsAt_cons.2 (by decide)⟩
  have space : read? blanks ('>' :: X) = some ((), '>' :: X) :=
    read?_blanks_eq_some.2 ⟨.refl _, stopsAt_blank_cons (by decide)⟩
  have notEmpty : read? (mark? ['/', '>']) ('>' :: X) = some (false, '>' :: X) :=
    read?_literal?_of_not _ (by simp)
  unfold tag
  rw [read?_bind, read?_word_eq_some.2 word, Option.bind_some, read?_bind, space, Option.bind_some,
    read?_bind, notEmpty, Option.bind_some]
  dsimp only
  rw [if_neg Bool.false_ne_true, read?_bind, read?_mark?_cons, Option.bind_some, if_pos rfl,
    read?_bind]
  congr 1
  funext y
  rw [read?_bind, Option.map_eq_bind]
  rfl

theorem rereads_tag {like : Message → Prop} {children : Message} (ht : tags = true)
    (hw : IsWord true id) (h : Rereads like (read? (nested scope.inTag) X) children
      ('<' :: '/' :: (id.toList ++ '>' :: rest)) p) :
    Rereads (fun v => ∃ e, v = some e)
      (read? (element? tags nested scope) ('<' :: (id.toList ++ '>' :: X)))
      (some (.placeholder id (.tag children))) rest p := by
  have closing : read? (closingTag id) ('<' :: '/' :: (id.toList ++ '>' :: rest)) =
      some ((), rest) := by
    refine (read?_closingTag_eq_some hw.1).2 ⟨_, '>' :: rest, rfl, ?_, .refl _⟩
    exact ⟨rfl, hw, stopsAt_cons.2 (by decide)⟩
  have word : Word true (id.toList ++ '>' :: X) id ('>' :: X) :=
    ⟨rfl, hw, stopsAt_cons.2 (by decide)⟩
  rw [read?_element?_open ht (not_slash_of_word word), read?_tag_children hw, Option.map_bind]
  refine h.bind (fun m => some (Element.placeholder id (.tag m))) ?_ ?_
  · intro m _
    exact ⟨by simp [closing], _, rfl⟩
  · intro m _ same
    simpa using same

/-! ## Typed placeholders -/

theorem read?_element?_opening {type : String} {c : Char} (hid : IsWord false id)
    (ht : IsWord false type) (hc : c = ',' ∨ c = '}') :
    read? (element? tags nested scope) (Print.opening id type ++ c :: X) =
      (read? (kind tags nested type) (c :: X)).map fun y =>
        (some (.placeholder id y.1), y.2) := by
  have idWord : Word false (id.toList ++ ',' :: ' ' :: (type.toList ++ c :: X)) id
      (',' :: ' ' :: (type.toList ++ c :: X)) :=
    ⟨rfl, hid, stopsAt_cons.2 (by decide)⟩
  have typeWord : Word false (type.toList ++ c :: X) type (c :: X) :=
    ⟨rfl, ht, stopsAt_cons.2 (by rcases hc with rfl | rfl <;> decide)⟩
  have noSpace : ∀ {cs : List Char}, StopsAt (!Text.isBlank ·) cs →
      read? blanks cs = some ((), cs) := fun stops => read?_blanks_eq_some.2 ⟨.refl _, stops⟩
  have space : read? blanks (' ' :: (type.toList ++ c :: X)) = some ((), type.toList ++ c :: X) :=
    read?_blanks_eq_some.2 ⟨.cons (by decide) (.refl _), typeWord.stopsAt_blank⟩
  have notClosed : ¬ ['}'] <+: ',' :: ' ' :: (type.toList ++ c :: X) := by simp
  have split : Print.opening id type ++ c :: X =
      '{' :: (id.toList ++ ',' :: ' ' :: (type.toList ++ c :: X)) := by simp [Print.opening]
  rw [split, read?_element?_brace]
  unfold placeholder
  rw [read?_bind, noSpace idWord.stopsAt_blank, Option.bind_some, read?_bind,
    read?_word_eq_some.2 idWord, Option.bind_some, read?_bind,
    noSpace (stopsAt_blank_cons (by decide)), Option.bind_some, read?_bind, mark?,
    read?_literal?_of_not _ notClosed, Option.bind_some]
  dsimp only
  rw [if_neg Bool.false_ne_true, read?_bind, read?_mark?_cons, Option.bind_some, if_pos rfl,
    read?_bind, space, Option.bind_some, read?_bind]
  unfold typed
  rw [read?_bind, read?_word_eq_some.2 typeWord, Option.bind_some, read?_bind,
    noSpace (stopsAt_blank_cons (by rcases hc with rfl | rfl <;> decide)), Option.bind_some,
    Option.map_bind, Option.map_eq_bind]
  rfl

theorem rereads_typed {type : String} {c : Char} {k : Kind} (hid : IsWord false id)
    (ht : IsWord false type) (hc : c = ',' ∨ c = '}')
    (h : Rereads (fun _ => True) (read? (kind tags nested type) (c :: X)) k rest p) :
    Rereads (fun v => ∃ e, v = some e)
      (read? (element? tags nested scope) (Print.opening id type ++ c :: X))
      (some (.placeholder id k)) rest p := by
  rw [read?_element?_opening hid ht hc, Option.map_eq_bind]
  refine h.bind (fun k => some (Element.placeholder id k)) ?_ ?_
  · intro k _
    exact ⟨rfl, _, rfl⟩
  · intro k _ same
    simpa using same

/-! ## Styles -/

theorem ofName?_name (type : SimpleType) : SimpleType.ofName? type.name = some type := by
  cases type <;> rfl

theorem ofKeyword?_keyword (type : PluralType) :
    PluralType.ofKeyword? type.keyword = some type := by
  cases type <;> rfl

theorem rereads_simple (type : SimpleType) : Rereads (fun _ => True)
    (read? (kind tags nested type.name) ('}' :: rest)) (.simple type none) rest True :=
  .of_eq_some ((read?_kind_simple (ofName?_name type)).2
    ⟨none, read?_optional_eq_some.2 (.inl ⟨rfl, rfl⟩), rfl⟩) trivial trivial

theorem rereads_custom {type : String} (ht : IsCustom type) : Rereads (fun _ => True)
    (read? (kind tags nested type) ('}' :: rest)) (.custom type .none) rest True :=
  .of_eq_some ((read?_kind_custom ht).2
    ⟨none, read?_optional_eq_some.2 (.inl ⟨rfl, rfl⟩), rfl⟩) trivial trivial

theorem read?_style_styleText {content : String} (hne : content ≠ "") :
    read? (style tags) (styleText content ++ '}' :: rest) = some (content, '}' :: rest) :=
  read?_style_eq_some.2 ⟨derivesText_styleText content, hne⟩

theorem read?_optional_styleText {α : Type} {reader : Reader α} {content : String} {a : α}
    (hne : content ≠ "")
    (h : read? reader (styleText content ++ '}' :: rest) = some (a, '}' :: rest)) :
    read? (optional reader) (',' :: ' ' :: (styleText content ++ '}' :: rest)) =
      some (some a, rest) := by
  have derived : DerivesText true .style (styleText content ++ '}' :: rest) content.toList
      ('}' :: rest) := derivesText_styleText content
  have stops := stopsAt_blank_of_derivesText derived (by simpa using hne)
  exact read?_optional_eq_some.2 (.inr ⟨_, _, a, '}' :: rest, rfl, .cons (by decide) (.refl _),
    stops, h, .refl _, rfl⟩)

theorem rereads_simpleStyle (type : SimpleType) {content : String} (hne : content ≠ "") :
    Rereads (fun _ => True)
      (read? (kind tags nested type.name) (',' :: ' ' :: (styleText content ++ '}' :: rest)))
      (.simple type (some content)) rest True :=
  .of_eq_some ((read?_kind_simple (ofName?_name type)).2
    ⟨_, read?_optional_styleText hne (read?_style_styleText hne), rfl⟩) trivial trivial

theorem rereads_customStyle {type : String} (ht : IsCustom type) {content : String}
    (hne : content ≠ "") :
    Rereads (fun _ => True)
      (read? (kind tags nested type) (',' :: ' ' :: (styleText content ++ '}' :: rest)))
      (.custom type (.text content)) rest True := by
  have read : read? (customStyle tags nested) (styleText content ++ '}' :: rest) =
      some (.text content, '}' :: rest) :=
    read?_customStyle_eq_some.2
      (.inr ⟨not_opensCase_styleText content, content, rfl, read?_style_styleText hne⟩)
  refine .of_eq_some ((read?_kind_custom ht).2 ⟨_, read?_optional_styleText hne read, ?_⟩)
    trivial trivial
  rfl

end MessageFormat.Grammar
