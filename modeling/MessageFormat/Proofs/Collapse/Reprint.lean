import MessageFormat.Proofs.Collapse.Printing

/-!
# What comes back of a printed message

A printed message may be read as another one. Then it is not even the same up to collapsing
(`eq_of_parse_print`): there are more apostrophes in a text, or a selector has lost its front to an
offset.
-/

namespace MessageFormat

open Reader Grammar

variable {tags : Bool} {scope : Scope} {depth width : Nat} {rest : List Char}

/-- What is read of a printed piece may be compared with anything else of its kind. -/
theorem Rereads.retarget {α : Type} {like : α → Prop} {result : Option (α × List Char)} {a : α}
    {p : Prop} (h : Rereads like result a rest p) (b : α) :
    Rereads like result b rest (result = some (b, rest)) :=
  ⟨h.like, Iff.rfl⟩

theorem Rereads.holds {α : Type} {like : α → Prop} {result : Option (α × List Char)} {a : α}
    {p : Prop} {mid : List Char} (h : Rereads like result a rest p)
    (read : result = some (a, mid)) : p := by
  obtain ⟨-, rfl⟩ := h.like read
  exact h.iff.1 read

theorem rereads_collapsed {cs ds : Cases} (hs : scope ≠ .style) (hd : depth ≤ maxDepth)
    (fits : CasesFit tags scope depth cs) (same : collapseCases ds = collapseCases cs) :
    Rereads (fun bs => Cases.selectors bs = Cases.selectors ds)
      (read? (many (case? (below tags depth) scope))
        (casesBody tags scope.printed (depth + 1) width cs ++ rest)) ds ('}' :: rest)
      (read? (many (case? (below tags depth) scope))
        (casesBody tags scope.printed (depth + 1) width cs ++ rest) = some (ds, '}' :: rest)) :=
  ((rereads_branches cs width hs hd fits.here fits.levels fits.tags rest).retarget ds).imp
    (fun _ hb => hb.trans (Cases.selectors_eq_of_collapse same).symm) Iff.rfl

theorem eq_of_read_text {content : String} {f : Element} {mid : List Char} (hs : scope ≠ .style)
    (hd : depth ≤ maxDepth) (stops : StopsAt (endsText tags scope) rest)
    (h : read? (element? tags (below tags depth) scope)
      (Print.text tags scope content ++ rest) = some (some f, mid))
    (same : f.collapse = (Element.text content).collapse) : f = .text content := by
  have printed := derivesText_print hs stops content
  generalize Print.text tags scope content ++ rest = cs at h printed
  cases f with
  | text again =>
    cases derivesElement_of_read? (soundBelow_below hd) h with
    | text derived _ =>
      obtain ⟨read, -⟩ := derivesText_iff.1 derived
      rw [(derivesText_iff.1 printed).1] at read
      have alike : Alike again.toList content.toList := collapse_eq_iff.1 (Element.text.inj same)
      rw [← read] at alike
      rw [reread_eq_of_alike alike] at read
      rw [String.toList_inj.1 read.symm]
  | hash => cases same
  | placeholder id k => cases same

theorem eq_of_read_plain {k l : Kind} {id : String} {mid : List Char} (hs : scope ≠ .style)
    (hd : depth ≤ maxDepth) (fits : ElementFits tags scope depth (.placeholder id k))
    (printable : k.Printable) (flat : k.levels scope depth = [])
    (h : read? (element? tags (below tags depth) scope)
      (Print.kind tags scope.printed (depth + 1) id k ++ rest) =
        some (some (.placeholder id l), mid)) : l = k := by
  have whole := rereads_kind k hs hd fits.here.1 fits.here.2 fits.levels fits.tags rest
  rw [whole.iff.2 ⟨printable, by simp [flat]⟩] at h
  cases h
  rfl

theorem rereads_message {es fs : Message} (hs : scope ≠ .style) (small : depth < maxDepth)
    (fits : MessageFits tags scope (depth + 1) es) (ends : EndsMessage tags scope rest) :
    Rereads (fun _ => True)
      (read? (below tags depth scope) (Print.message tags scope.printed (depth + 1) es ++ rest)) fs
      rest (read? (below tags depth scope)
        (Print.message tags scope.printed (depth + 1) es ++ rest) = some (fs, rest)) := by
  rw [below_eq small]
  exact (rereads_elements es hs fits.here.1 fits.here.2.1 fits.here.2.2 fits.levels fits.tags rest
    ends).retarget fs

/-! ## One case for every constructor -/

mutual

theorem eq_of_read_element : (e : Element) → ∀ {f : Element} {scope depth rest mid},
    scope ≠ .style → depth ≤ maxDepth → ElementFits tags scope depth e →
    (e.isText = true → StopsAt (endsText tags scope) rest) →
    read? (element? tags (below tags depth) scope)
      (Print.element tags scope.printed depth e ++ rest) = some (some f, mid) →
    f.collapse = e.collapse → f = e
  | .text content, f, scope, depth, rest, mid, hs, hd, _, stops, h, same => by
    have printed : Print.element tags scope.printed depth (.text content) =
        Print.text tags scope content := textFrom_printed false content.toList
    rw [printed] at h
    exact eq_of_read_text hs hd (stops rfl) h same
  | .hash, f, _, _, _, _, _, _, _, _, _, same => by
    cases f with
    | hash => rfl
    | _ => cases same
  | .placeholder id k, f, scope, depth, rest, mid, hs, hd, fits, _, h, same => by
    cases f with
    | placeholder id' l =>
      obtain ⟨rfl, kinds⟩ := Element.placeholder.inj same
      rw [eq_of_read_kind k hs hd fits h kinds]
    | _ => cases same

theorem eq_of_read_kind : (k : Kind) → ∀ {l : Kind} {scope depth id rest mid},
    scope ≠ .style → depth ≤ maxDepth → ElementFits tags scope depth (.placeholder id k) →
    read? (element? tags (below tags depth) scope)
      (Print.kind tags scope.printed (depth + 1) id k ++ rest) =
        some (some (.placeholder id l), mid) →
    l.collapse = k.collapse → l = k
  | .argument, l, _, _, _, _, _, _, _, _, _, same => by
    cases l with
    | argument => rfl
    | _ => cases same
  | .simple type style, l, _, _, _, _, _, hs, hd, fits, h, _ =>
    eq_of_read_plain hs hd fits trivial rfl h
  | .plural type n cs, l, scope, depth, id, rest, mid, hs, hd, fits, h, same => by
    cases l with
    | plural type' n' ds =>
      obtain ⟨rfl, rfl, collected⟩ := Kind.plural.inj same
      have inner := casesFit_plural fits
      have wf := fits.here.2
      rw [print_plural] at h
      have read := Rereads.holds (rereads_typed fits.here.1 (isWord_keyword type') (.inl rfl)
        (rereads_printedPlural wf.1 wf.2 (Cases.selectors_eq_of_collapse collected)
          (repeatable_case? (soundBelow_below hd))
          (rereads_collapsed (by decide) hd inner collected))) h
      rw [eq_of_read_cases cs (by decide) hd inner read.2 collected]
    | _ => cases same
  | .select cs, l, scope, depth, id, rest, mid, hs, hd, fits, h, same => by
    cases l with
    | select ds =>
      have collected : collapseCases ds = collapseCases cs := Kind.select.inj same
      have inner := casesFit_select fits
      have wf := fits.here.2
      have selectors := Cases.selectors_eq_of_collapse collected
      rw [print_select] at h
      have others : Cases.contains ds "other" = true := by
        rw [Cases.contains_eq_of_collapse collected]
        exact wf.2
      have read := Rereads.holds (rereads_typed fits.here.1 (by decide) (.inl rfl)
        (rereads_select (blanks_cases cs) (stopsAt_casesBody inner.here)
          (rereads_cases (selectors ▸ wf.1.2) (fun _ => others)
            (rereads_collapsed (by decide) hd inner collected)))) h
      rw [eq_of_read_cases cs (by decide) hd inner read collected]
    | _ => cases same
  | .custom type .none, l, _, _, _, _, _, hs, hd, fits, h, _ =>
    eq_of_read_plain hs hd fits trivial rfl h
  | .custom type (.text content), l, _, _, _, _, _, hs, hd, fits, h, _ =>
    eq_of_read_plain hs hd fits trivial rfl h
  | .custom type (.cases []), _, _, _, _, _, _, _, _, fits, _, _ => absurd rfl fits.here.2.2.2.1
  | .custom type (.cases (⟨selector, es⟩ :: cs)), l, scope, depth, id, rest, mid, hs, hd, fits, h,
      same => by
    cases l with
    | custom type' style =>
      obtain ⟨rfl, styles⟩ := Kind.custom.inj same
      cases style with
      | cases ds =>
        have collected := CustomStyle.cases.inj styles
        have selectors := Cases.selectors_eq_of_collapse collected
        have inner := casesFit_custom fits
        have wf := fits.here.2
        rw [print_customCases] at h
        have read := Rereads.holds (rereads_typed fits.here.1 wf.1 (.inl rfl)
          (rereads_customCases wf.2.1 (opensCase_casesBody (inner.here _ List.mem_cons_self))
            (blanks_cases _) (stopsAt_casesBody inner.here)
            (rereads_cases (selectors ▸ wf.2.2.2.2) (fun h => absurd rfl h)
              (rereads_collapsed (by decide) hd inner collected)))) h
        rw [eq_of_read_cases (⟨selector, es⟩ :: cs) (by decide) hd inner read collected]
      | _ => cases styles
    | _ => cases same
  | .tag children, l, scope, depth, id, rest, mid, hs, hd, fits, h, same => by
    cases l with
    | tag children' =>
      have messages : collapseElements children' = collapseElements children := Kind.tag.inj same
      have notStyle : scope.inTag ≠ .style := by cases scope <;> decide
      have notRoot : scope.inTag ≠ .root := by cases scope <;> decide
      obtain ⟨inTags, inner⟩ := messageFits_tag fits
      have small : depth < maxDepth := inner.here.1
      rw [print_tag] at h
      have read := Rereads.holds (rereads_tag inTags fits.here.1
        (rereads_message notStyle small inner (.tag inTags notRoot))) h
      rw [below_eq small] at read
      rw [eq_of_read_elements children notStyle inner (.tag inTags notRoot) read messages]
    | _ => cases same
  | .emptyTag, l, _, _, _, _, _, _, _, _, _, same => by
    cases l with
    | emptyTag => rfl
    | _ => cases same

theorem eq_of_read_cases : (cs : List Case) → ∀ {ds : List Case} {width scope depth rest mid},
    scope ≠ .style → depth ≤ maxDepth → CasesFit tags scope depth cs →
    read? (many (case? (below tags depth) scope))
      (casesBody tags scope.printed (depth + 1) width cs ++ rest) = some (ds, mid) →
    collapseCases ds = collapseCases cs → ds = cs
  | [], ds, _, _, _, _, _, _, _, _, _, same => by
    cases ds with
    | nil => rfl
    | cons d ds => cases same
  | ⟨selector, es⟩ :: cs, ds, width, scope, depth, rest, mid, hs, hd, fits, h, same => by
    obtain ⟨word, inner, later⟩ := casesFit_cons fits
    have small : depth < maxDepth := inner.here.1
    cases ds with
    | nil => cases same
    | cons d ds =>
      obtain ⟨selector', fs⟩ := d
      obtain ⟨first, more⟩ := List.cons.inj same
      obtain ⟨rfl, messages⟩ := Case.mk.inj first
      rw [casesBody_cons] at h
      have read := Rereads.holds (Rereads.many_cons (repeatable_case? (soundBelow_below hd))
        (rereads_case word (rereads_message hs small inner .brace) (blanks_cases cs)
          (stopsAt_casesBody later.here)) (rereads_collapsed hs hd later more)) h
      rw [below_eq small] at read
      rw [eq_of_read_elements es hs inner .brace read.1 messages,
        eq_of_read_cases cs hs hd later read.2 more]

theorem eq_of_read_elements : (es : List Element) → ∀ {fs : List Element} {scope depth rest mid},
    scope ≠ .style → MessageFits tags scope depth es → EndsMessage tags scope rest →
    read? (elements tags (below tags depth) scope)
      (Print.message tags scope.printed depth es ++ rest) = some (fs, mid) →
    collapseElements fs = collapseElements es → fs = es
  | [], fs, _, _, _, _, _, _, _, _, same => by
    cases fs with
    | nil => rfl
    | cons f fs => cases same
  | e :: es, fs, scope, depth, rest, mid, hs, fits, ends, h, same => by
    obtain ⟨head, tail⟩ := messageFits_cons fits
    have hd := fits.here.1
    cases fs with
    | nil => cases same
    | cons f fs =>
      obtain ⟨first, more⟩ := List.cons.inj same
      have present : Rereads (fun v => ∃ g, v = some g ∧ True) _ (some f) _ _ :=
        ((rereads_element e hs hd head.here head.levels head.tags _ (fits.stopsAt ends)).retarget
          (some f)).imp (fun v ⟨g, hg⟩ => ⟨g, hg, trivial⟩) Iff.rfl
      have behind := (rereads_elements es hs hd tail.here.2.1 tail.here.2.2 tail.levels tail.tags
        rest ends).retarget fs
      rw [print_cons] at h
      have read := Rereads.holds
        (Rereads.many_cons (repeatable_element? (soundBelow_below hd)) present behind) h
      rw [eq_of_read_element e hs hd head (fits.stopsAt ends) read.1 first,
        eq_of_read_elements es hs tail ends read.2 more]

end

/-- What is read of a printed message is the message itself, if it is the same up to collapsing. -/
theorem Message.WellFormed.eq_of_parse_print {message again : Message} (wf : message.WellFormed)
    (ht : message.hasTags = true → tags = true)
    (read : parse tags (message.print tags) = .ok again)
    (same : again.collapse = message.collapse) : again = message := by
  have notStyle : Scope.root ≠ .style := by decide
  rw [parse_eq_ok, toList_print ht, ← List.append_nil (Print.message _ _ _ message)] at read
  exact eq_of_read_elements message notStyle (wf.fits ht) .nil read same

end MessageFormat
