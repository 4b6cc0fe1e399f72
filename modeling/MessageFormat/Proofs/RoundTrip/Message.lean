import MessageFormat.Proofs.RoundTrip.Cases
import MessageFormat.Proofs.RoundTrip.Layout

/-!
# Printing a message and reading it again

A well-formed message is read as it was printed just if every level of it is printable. One
induction on the message shows both directions at once: an element that is not printable is read
as something else, and what follows it is read in either case.
-/

namespace MessageFormat

open Reader Grammar

variable {tags : Bool} {scope : Scope} {depth width : Nat} {rest : List Char}

/-! ## What comes back as it was printed -/

/-- The first selector does not look like the offset that is not printed. -/
def Kind.Printable : Kind → Prop
  | .plural _ offset cases =>
      offset = 0 → ∀ selector ∈ (Cases.selectors cases).head?, ¬ offsetMark <+: selector.toList
  | _ => True

def Element.Printable (tags : Bool) (scope : Scope) : Element → Prop
  | .text content => Separated (isMark tags scope) content.toList
  | .hash => True
  | .placeholder _ kind => kind.Printable

def Level.Printable (tags : Bool) (level : Level) : Prop :=
  ∀ e ∈ level.message, e.Printable tags level.scope

/-- Every text and every plural of the tree can be told from its printed form. -/
def Message.Printable (tags : Bool) (message : Message) : Prop :=
  ∀ level ∈ message.levels, level.Printable tags

instance : (kind : Kind) → Decidable kind.Printable
  | .argument => inferInstanceAs (Decidable True)
  | .simple _ _ => inferInstanceAs (Decidable True)
  | .plural _ _ _ => inferInstanceAs (Decidable (_ → ∀ selector ∈ _, ¬ _))
  | .select _ => inferInstanceAs (Decidable True)
  | .custom _ _ => inferInstanceAs (Decidable True)
  | .tag _ => inferInstanceAs (Decidable True)
  | .emptyTag => inferInstanceAs (Decidable True)

instance (tags : Bool) (scope : Scope) : (e : Element) → Decidable (e.Printable tags scope)
  | .text content => inferInstanceAs (Decidable (Separated (isMark tags scope) content.toList))
  | .hash => inferInstanceAs (Decidable True)
  | .placeholder _ kind => inferInstanceAs (Decidable kind.Printable)

instance (tags : Bool) (level : Level) : Decidable (level.Printable tags) :=
  inferInstanceAs (Decidable (∀ e ∈ level.message, e.Printable tags level.scope))

instance (tags : Bool) (message : Message) : Decidable (message.Printable tags) :=
  inferInstanceAs (Decidable (∀ level ∈ message.levels, level.Printable tags))

/-! ## Plurals with and without an offset -/

theorem printable_plural_zero {type : PluralType} {c : Case} {cs : Cases} :
    (Kind.plural type 0 (c :: cs)).Printable ↔ ¬ offsetMark <+: c.selector.toList := by
  simp [Kind.Printable, Cases.selectors]

-- The cases that are compared with what is read (`ds`) need only have the selectors of the cases
-- that are printed: what they hold is left to `p`.
theorem rereads_printedPlural {type : PluralType} {n : UInt32} {cs ds : Cases} {nested : Nested}
    {p : Prop} (wf : Cases.WellFormed cs) (other : Cases.contains cs "other" = true)
    (same : Cases.selectors ds = Cases.selectors cs) (rep : Repeatable (case? nested .plural))
    (h : Rereads (fun bs => Cases.selectors bs = Cases.selectors ds)
      (read? (many (case? nested .plural)) (casesBody tags .plural depth width cs ++ rest)) ds
      ('}' :: rest) p) :
    Rereads (fun _ => True)
      (read? (kind tags nested type.keyword) (',' ::
        ((if n = 0 then [] else " offset:".toList ++ (toString n.toNat).toList) ++
          (Print.cases tags .plural depth width cs ++ rest))))
      (.plural type n ds) rest ((Kind.plural type n ds).Printable ∧ p) := by
  have layout : Blanks (Print.cases tags .plural depth width cs ++ rest)
      (casesBody tags .plural depth width cs ++ rest) := blanks_cases cs
  have stops : StopsAt (!Text.isBlank ·) (casesBody tags .plural depth width cs ++ rest) :=
    stopsAt_casesBody wf.1
  have others : Cases.contains ds "other" = true := by
    rw [Cases.contains_iff, same]
    exact Cases.contains_iff.1 other
  have inner : Rereads (fun bs => Cases.selectors bs = Cases.selectors ds)
      (read? (cases nested .plural (some type.keyword)) _) ds ('}' :: rest) p :=
    rereads_cases (same ▸ wf.2) (fun _ => others) h
  by_cases zero : n = 0
  · subst zero
    rw [if_pos rfl, List.nil_append]
    cases cs with
    | nil => cases other
    | cons c cs =>
      cases ds with
      | nil => cases others
      | cons d ds =>
        obtain ⟨selector, es⟩ := c
        obtain ⟨selector', es'⟩ := d
        obtain rfl : selector' = selector := (List.cons.inj same).1
        rw [printable_plural_zero]
        by_cases mistaken : offsetMark <+: selector'.toList
        · rw [casesBody_cons] at h layout
          have word : IsWord false selector' := wf.1 _ List.mem_cons_self
          exact (rereads_mistaken rep word mistaken layout h).congr (by simp [mistaken])
        · have noOffset : ¬ offsetMark <+:
              casesBody tags .plural depth width (⟨selector', es⟩ :: cs) ++ rest := by
            rw [casesBody_cons, offsetMark_prefix_word]
            exact mistaken
          have noSpace := (read?_blanks_eq_some (u := ())).2 ⟨.refl _, stops⟩
          refine (rereads_plural layout stops (read?_offset_of_not noOffset) noSpace inner).congr ?_
          simp [mistaken]
  · rw [if_neg zero]
    have printable : (Kind.plural type n ds).Printable := fun h => absurd h zero
    have announced : " offset:".toList ++ (toString n.toNat).toList ++
        (Print.cases tags .plural depth width cs ++ rest) =
        ' ' :: (offsetMark ++ ((toString n.toNat).toList ++
          (Print.cases tags .plural depth width cs ++ rest))) := by
      simp [offsetMark]
    have space := (read?_blanks_eq_some (u := ())).2 ⟨layout, stops⟩
    rw [announced]
    exact (rereads_plural (.cons (by decide) (.refl _)) (stopsAt_blank_cons (by decide))
      (read?_offset_print (stopsAt_digit_cases cs)) space inner).congr (by simp [printable])

/-! ## One case for every constructor -/

theorem isWord_keyword (type : PluralType) : IsWord false type.keyword := by
  cases type <;> decide

theorem isWord_name (type : SimpleType) : IsWord false type.name := by
  cases type <;> decide

-- The condition is carried along with what is read: an element that comes back as another one still
-- leaves what is printed behind it, so that one failure does not hide the next.
mutual

theorem rereads_element : (e : Element) → ∀ {scope depth}, scope ≠ .style → depth ≤ maxDepth →
    e.WellFormed scope → (∀ level ∈ e.levels scope depth, level.WellFormed) →
    (e.hasTags = true → tags = true) →
    ∀ rest, (e.isText = true → StopsAt (endsText tags scope) rest) →
    Rereads (fun v => ∃ f, v = some f)
      (read? (element? tags (below tags depth) scope)
        (Print.element tags scope.printed depth e ++ rest)) (some e) rest
      (e.Printable tags scope ∧ ∀ level ∈ e.levels scope depth, level.Printable tags)
  | .text content, scope, depth, hs, _, wf, _, _, rest, stops => by
    have printed : Print.element tags scope.printed depth (.text content) =
        Print.text tags scope content := textFrom_printed false content.toList
    rw [printed]
    exact (rereads_text hs wf (stops rfl)).congr (by simp [Element.Printable, Element.levels])
  | .hash, scope, depth, _, _, wf, _, _, rest, _ => by
    obtain rfl : scope = .plural := wf
    exact rereads_hash.congr (by simp [Element.Printable, Element.levels])
  | .placeholder id k, _, _, hs, hd, wf, levels, ht, rest, _ =>
    rereads_kind k hs hd wf.1 wf.2 levels ht rest

theorem rereads_kind : (k : Kind) → ∀ {scope depth id}, scope ≠ .style → depth ≤ maxDepth →
    IsWord k.isTag id → k.WellFormed → (∀ level ∈ k.levels scope depth, level.WellFormed) →
    (k.hasTags = true → tags = true) → ∀ rest,
    Rereads (fun v => ∃ f, v = some f)
      (read? (element? tags (below tags depth) scope)
        (Print.kind tags scope.printed (depth + 1) id k ++ rest)) (some (.placeholder id k)) rest
      (k.Printable ∧ ∀ level ∈ k.levels scope depth, level.Printable tags)
  | .argument, _, _, _, _, _, hid, _, _, _, rest =>
    (rereads_argument hid).congr (by simp [Kind.Printable, Kind.levels])
  | .simple type none, _, _, _, _, _, hid, _, _, _, rest => by
    rw [print_simple]
    refine (rereads_typed hid (isWord_name type) (.inr rfl) (rereads_simple type)).congr ?_
    simp [Kind.Printable, Kind.levels]
  | .simple type (some content), _, _, _, _, _, hid, wf, _, _, rest => by
    have hne : content ≠ "" := by simpa [Kind.WellFormed] using wf
    rw [print_simpleStyle _ _ hne]
    refine (rereads_typed hid (isWord_name type) (.inl rfl) (rereads_simpleStyle type hne)).congr ?_
    simp [Kind.Printable, Kind.levels]
  | .plural type n cs, _, depth, _, _, hd, hid, wf, levels, ht, rest => by
    have branches : Rereads _ (read? (many (case? (below tags depth) .plural)) _) cs _ _ :=
      rereads_branches cs (Print.selectorWidth cs) (by decide) hd wf.1.1 levels ht rest
    rw [print_plural]
    exact rereads_typed hid (isWord_keyword type) (.inl rfl) (rereads_printedPlural wf.1 wf.2
      rfl (repeatable_case? (soundBelow_below hd)) branches)
  | .select cs, _, depth, _, _, hd, hid, wf, levels, ht, rest => by
    have branches : Rereads _ (read? (many (case? (below tags depth) .branch)) _) cs _ _ :=
      rereads_branches cs (Print.selectorWidth cs) (by decide) hd wf.1.1 levels ht rest
    have collected : Rereads _ (read? (cases (below tags depth) .branch (some "select")) _) cs _
        _ :=
      rereads_cases wf.1.2 (fun _ => wf.2) branches
    rw [print_select]
    exact (rereads_typed hid (by decide) (.inl rfl) (rereads_select (blanks_cases cs)
      (stopsAt_casesBody wf.1.1) collected)).congr (by simp [Kind.Printable, Kind.levels])
  | .custom type .none, _, _, _, _, _, hid, wf, _, _, rest => by
    rw [print_custom]
    refine (rereads_typed hid wf.1 (.inr rfl) (rereads_custom wf.2.1)).congr ?_
    simp [Kind.Printable, Kind.levels, CustomStyle.levels]
  | .custom type (.text content), _, _, _, _, _, hid, wf, _, _, rest => by
    rw [print_customStyle _ _ wf.2.2]
    refine (rereads_typed hid wf.1 (.inl rfl) (rereads_customStyle wf.2.1 wf.2.2)).congr ?_
    simp [Kind.Printable, Kind.levels, CustomStyle.levels]
  | .custom type (.cases []), _, _, _, _, _, _, wf, _, _, _ => absurd rfl wf.2.2.1
  | .custom type (.cases (⟨selector, es⟩ :: cs)), _, depth, _, _, hd, hid, wf, levels, ht,
      rest => by
    have words := wf.2.2.2.1
    have branches : Rereads _ (read? (many (case? (below tags depth) .branch)) _)
        (⟨selector, es⟩ :: cs) _ _ :=
      rereads_branches (⟨selector, es⟩ :: cs) (Print.selectorWidth (⟨selector, es⟩ :: cs))
        (by decide) hd words levels ht rest
    have collected : Rereads _ (read? (cases (below tags depth) .branch none) _)
        (⟨selector, es⟩ :: cs) _ _ :=
      rereads_cases wf.2.2.2.2 (fun h => absurd rfl h) branches
    rw [print_customCases]
    refine (rereads_typed hid wf.1 (.inl rfl) (rereads_customCases wf.2.1
      (opensCase_casesBody (words _ List.mem_cons_self)) (blanks_cases _)
      (stopsAt_casesBody words) collected)).congr ?_
    simp [Kind.Printable, Kind.levels, CustomStyle.levels]
  | .tag children, scope, depth, id, hs, hd, hid, _, levels, ht, rest => by
    rw [Kind.levels, List.forall_mem_cons] at levels
    obtain ⟨⟨small, wf, chain⟩, levels⟩ := levels
    have inTags : tags = true := ht rfl
    have notRoot : scope.inTag ≠ .root := by cases scope <;> decide
    have notStyle : scope.inTag ≠ .style := by cases scope <;> decide
    have inner := rereads_elements children notStyle small wf chain levels (fun _ => inTags)
      ('<' :: '/' :: (id.toList ++ '>' :: rest)) (.tag inTags notRoot)
    rw [← below_eq small] at inner
    rw [print_tag]
    refine (rereads_tag inTags hid inner).congr ?_
    rw [Kind.levels, List.forall_mem_cons]
    simp only [Kind.Printable, Level.Printable, true_and]
  | .emptyTag, _, _, _, _, _, hid, _, _, ht, rest =>
    (rereads_emptyTag (ht rfl) hid).congr (by simp [Kind.Printable, Kind.levels])

theorem rereads_branches : (cs : List Case) → ∀ width {scope depth}, scope ≠ .style →
    depth ≤ maxDepth → (∀ c ∈ cs, IsWord false c.selector) →
    (∀ level ∈ casesLevels scope depth cs, level.WellFormed) →
    (casesHaveTags cs = true → tags = true) → ∀ rest,
    Rereads (fun bs => Cases.selectors bs = Cases.selectors cs)
      (read? (many (case? (below tags depth) scope))
        (casesBody tags scope.printed (depth + 1) width cs ++ rest)) cs ('}' :: rest)
      (∀ level ∈ casesLevels scope depth cs, level.Printable tags)
  | [], _, scope, depth, _, hd, _, _, _, rest => by
    refine .of_eq_some ?_ rfl (by simp [casesLevels])
    change read? _ ('}' :: rest) = _
    rw [(repeatable_case? (soundBelow_below hd)).read?_many,
      read?_case?_eq_none.2 ⟨rfl, stopsAt_cons.2 (by decide)⟩]
    rfl
  | ⟨selector, es⟩ :: cs, width, scope, depth, hs, hd, words, levels, ht, rest => by
    rw [List.forall_mem_cons] at words
    rw [casesLevels, Case.levels, List.forall_mem_append, List.forall_mem_cons] at levels
    obtain ⟨⟨⟨small, wf, chain⟩, inside⟩, later⟩ := levels
    simp only [casesHaveTags, Case.hasTags, Bool.or_eq_true] at ht
    have inner := rereads_elements es hs small wf chain inside (fun h => ht (.inl h))
      ('}' :: (Print.cases tags scope.printed (depth + 1) width cs ++ rest)) .brace
    rw [← below_eq small] at inner
    have head := rereads_case words.1 inner (blanks_cases cs) (stopsAt_casesBody words.2)
    have tail := rereads_branches cs width hs hd words.2 later (fun h => ht (.inr h)) rest
    rw [casesBody_cons]
    refine (Rereads.many_cons (repeatable_case? (soundBelow_below hd)) head tail).imp ?_ ?_
    · rintro bs ⟨b, more, rfl, same, same'⟩
      simp only [Cases.selectors, List.map_cons] at same' ⊢
      rw [same, same']
    · rw [casesLevels, Case.levels, List.forall_mem_append, List.forall_mem_cons]
      simp only [Level.Printable]

theorem rereads_elements : (es : List Element) → ∀ {scope depth}, scope ≠ .style →
    depth ≤ maxDepth → (∀ e ∈ es, e.WellFormed scope) →
    es.IsChain (fun e f => ¬ (e.isText = true ∧ f.isText = true)) →
    (∀ level ∈ elementsLevels scope depth es, level.WellFormed) →
    (messageHasTags es = true → tags = true) → ∀ rest, EndsMessage tags scope rest →
    Rereads (fun _ => True)
      (read? (elements tags (below tags depth) scope)
        (Print.message tags scope.printed depth es ++ rest)) es rest
      ((∀ e ∈ es, e.Printable tags scope) ∧
        ∀ level ∈ elementsLevels scope depth es, level.Printable tags)
  | [], scope, depth, _, hd, _, _, _, _, rest, ends => by
    refine .of_eq_some ?_ trivial (by simp [elementsLevels])
    change read? (elements _ _ _) rest = _
    rw [elements, (repeatable_element? (soundBelow_below hd)).read?_many, ends.read?_element?]
    rfl
  | e :: es, scope, depth, hs, hd, wf, chain, levels, ht, rest, ends => by
    rw [List.forall_mem_cons] at wf
    rw [elementsLevels, List.forall_mem_append] at levels
    simp only [messageHasTags, Bool.or_eq_true] at ht
    have stops : e.isText = true →
        StopsAt (endsText tags scope) (Print.message tags scope.printed depth es ++ rest) :=
      fun he => stopsAt_print_message chain he wf.2 (fun h => ht (.inr h)) ends
    have head := rereads_element e hs hd wf.1 levels.1 (fun h => ht (.inl h)) _ stops
    have present : Rereads (fun v => ∃ f, v = some f ∧ True) _ _ _ _ :=
      head.imp (fun v ⟨f, hf⟩ => ⟨f, hf, trivial⟩) Iff.rfl
    have tail := rereads_elements es hs hd wf.2 chain.of_cons levels.2 (fun h => ht (.inr h)) rest
      ends
    have layout : Print.message tags scope.printed depth (e :: es) ++ rest =
        Print.element tags scope.printed depth e ++
          (Print.message tags scope.printed depth es ++ rest) := by
      rw [Print.message, List.append_assoc]
    rw [layout, elementsLevels, List.forall_mem_cons, List.forall_mem_append]
    exact (Rereads.many_cons (repeatable_element? (soundBelow_below hd)) present tail).imp
      (fun _ _ => trivial) and_and_and_comm

end

/-! ## Whole messages -/

theorem toList_print {message : Message} (ht : message.hasTags = true → tags = true) :
    (message.print tags).toList = Print.message tags .root 0 message := by
  have same : (tags || message.hasTags) = tags := by
    cases hm : message.hasTags with
    | false => exact Bool.or_false tags
    | true => rw [ht hm]; rfl
  rw [Message.print, same, String.toList_ofList]

theorem Message.WellFormed.parse_print_iff {message : Message} (wf : message.WellFormed)
    (ht : message.hasTags = true → tags = true) :
    parse tags (message.print tags) = .ok message ↔ message.Printable tags := by
  rw [Message.WellFormed, Message.levels, List.forall_mem_cons] at wf
  obtain ⟨⟨small, here, chain⟩, levels⟩ := wf
  have notStyle : Scope.root ≠ .style := by decide
  have whole : Rereads _ (read? (elements tags (below tags 0) .root) _) message [] _ :=
    rereads_elements message notStyle small here chain levels ht [] .nil
  rw [List.append_nil] at whole
  rw [parse_eq_ok, toList_print ht, Message.Printable, Message.levels, List.forall_mem_cons]
  exact whole.iff

/-- Every well-formed and printable message, read or built by hand, is read as it was printed. -/
theorem parse_print {message : Message} (wf : message.WellFormed)
    (ht : message.hasTags = true → tags = true) (printable : message.Printable tags) :
    parse tags (message.print tags) = .ok message :=
  (wf.parse_print_iff ht).2 printable

theorem parse_print_nested :
    parse true (Message.print true [.text "it's <", .placeholder "b" (.tag
        [.placeholder "n" (.plural .cardinal 2 [⟨"=1", [.hash, .text "''#"]⟩, ⟨"other",
          [.placeholder "k" (.custom "list" (.text "' \x7b"))]⟩])])]) =
      .ok [.text "it's <", .placeholder "b" (.tag
        [.placeholder "n" (.plural .cardinal 2 [⟨"=1", [.hash, .text "''#"]⟩, ⟨"other",
          [.placeholder "k" (.custom "list" (.text "' \x7b"))]⟩])])] :=
  parse_print (by decide) (fun _ => rfl) (by decide)

/-- A message that was read is read again from its printed form just if it is printable. -/
theorem parse_print_iff_printable {pattern : String} {message : Message}
    (h : parse tags pattern = .ok message) :
    parse tags (message.print tags) = .ok message ↔ message.Printable tags := by
  have derived := derives_of_parse h
  exact derived.wellFormed.parse_print_iff derived.tags_of_hasTags

/-- An apostrophe between two braces is read as two once it is printed. -/
theorem not_parse_print_of_apostrophe :
    parse false "'\x7b''\x7b'" = .ok [.text "\x7b'\x7b"] ∧
      parse false (Message.print false [.text "\x7b'\x7b"]) ≠ .ok [.text "\x7b'\x7b"] := by
  have read : parse false "'\x7b''\x7b'" = .ok [.text "\x7b'\x7b"] := by cbv
  refine ⟨read, ?_⟩
  rw [Ne, parse_print_iff_printable read]
  decide

end MessageFormat
