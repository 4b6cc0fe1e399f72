import MessageFormat.Proofs.Cases
import MessageFormat.Proofs.Collapse.Alike
import MessageFormat.Proofs.RoundTrip.Text

/-!
# Collapsed messages

A message is collapsed by collapsing every text and every text of a style in it. Nothing else of it
changes, so that it is collected, and printed up to blanks, as before (`Message.alike_print`).
-/

namespace MessageFormat

open Text (isBlank collapseFrom)

mutual

def Element.collapse : Element → Element
  | .text content => .text (Text.collapse content)
  | .hash => .hash
  | .placeholder id kind => .placeholder id kind.collapse

def Kind.collapse : Kind → Kind
  | .argument => .argument
  | .simple type style => .simple type (style.map Text.collapse)
  | .plural type offset cases => .plural type offset (collapseCases cases)
  | .select cases => .select (collapseCases cases)
  | .custom type style => .custom type style.collapse
  | .tag children => .tag (collapseElements children)
  | .emptyTag => .emptyTag

def CustomStyle.collapse : CustomStyle → CustomStyle
  | .none => .none
  | .text style => .text (Text.collapse style)
  | .cases cases => .cases (collapseCases cases)

def Case.collapse : Case → Case
  | ⟨selector, message⟩ => ⟨selector, collapseElements message⟩

def collapseCases : List Case → List Case
  | [] => []
  | c :: cs => c.collapse :: collapseCases cs

def collapseElements : List Element → List Element
  | [] => []
  | e :: es => e.collapse :: collapseElements es

end

/-- The message with every run of blanks in a text or in the text of a style made one space. -/
def Message.collapse (message : Message) : Message :=
  collapseElements message

theorem toList_collapse (text : String) :
    (Text.collapse text).toList = collapseFrom false text.toList :=
  String.toList_ofList

theorem collapse_eq_iff {s t : String} :
    Text.collapse s = Text.collapse t ↔ Alike s.toList t.toList := by
  rw [← String.toList_inj, toList_collapse, toList_collapse]
  rfl

/-! ## Cases -/

theorem Case.selector_collapse (c : Case) : c.collapse.selector = c.selector := by
  cases c with
  | mk selector message => rfl

theorem Case.message_collapse (c : Case) : c.collapse.message = collapseElements c.message := by
  cases c with
  | mk selector message => rfl

namespace Cases

variable {cs ds : Cases} {s : String} {m : Message}

theorem selectors_collapse (cs : Cases) : selectors (collapseCases cs) = selectors cs := by
  induction cs with
  | nil => rfl
  | cons c cs ih =>
    rw [collapseCases, selectors, List.map_cons]
    exact congrArg₂ List.cons c.selector_collapse ih

theorem selectors_eq_of_collapse (h : collapseCases cs = collapseCases ds) :
    selectors cs = selectors ds := by
  rw [← selectors_collapse cs, h, selectors_collapse]

theorem contains_eq_of_collapse (h : collapseCases cs = collapseCases ds) :
    contains cs s = contains ds s := by
  rw [Bool.eq_iff_iff, contains_iff, contains_iff, selectors_eq_of_collapse h]

theorem insert_collapse : insert (collapseCases cs) s (collapseElements m) =
    collapseCases (insert cs s m) := by
  induction cs with
  | nil => rfl
  | cons c cs ih =>
    rw [collapseCases, insert, insert, c.selector_collapse]
    split
    · rfl
    · rw [collapseCases, ih]

theorem ofList_collapse (list : List Case) :
    ofList (collapseCases list) = collapseCases (ofList list) := by
  have into : ∀ cs, insertAll (collapseCases cs) (collapseCases list) =
      collapseCases (insertAll cs list) := by
    induction list with
    | nil => exact fun cs => rfl
    | cons c list ih =>
      intro cs
      rw [collapseCases, insertAll_cons, insertAll_cons, ← ih, ← insert_collapse,
        c.selector_collapse, c.message_collapse]
  exact into []

end Cases

/-! ## Printed texts and styles -/

variable {tags : Bool} {scope : Scope} {depth width : Nat}

theorem isMark_of_isBlank {c : Char} (h : isBlank c = true) : isMark tags scope c = false := by
  cases hm : isMark tags scope c with
  | false => rfl
  | true =>
    simp only [isMark, Bool.or_eq_true, Bool.and_eq_true, beq_iff_eq] at hm
    rcases hm with ((rfl | rfl) | ⟨-, rfl⟩) | ⟨-, rfl⟩ <;> exact absurd h (by decide)

theorem ne_apostrophe_of_isBlank {c : Char} (h : isBlank c = true) : c ≠ '\'' := by
  rintro rfl
  exact absurd h (by decide)

theorem collapseFrom_append_of_not_blank {inRun : Bool} {piece rest : List Char}
    (hne : piece ≠ []) (h : ∀ c ∈ piece, isBlank c = false) :
    collapseFrom inRun (piece ++ rest) = piece ++ collapseFrom false rest := by
  induction piece generalizing inRun with
  | nil => exact absurd rfl hne
  | cons c piece ih =>
    rw [List.forall_mem_cons] at h
    rw [List.cons_append, collapseFrom_cons h.1, List.cons_append]
    cases piece with
    | nil => rfl
    | cons d piece => rw [ih (List.cons_ne_nil _ _) h.2]

/-- What is printed of a character, together with the apostrophe that changes the quoting. -/
theorem exists_textFrom_cons {c : Char} {quoting : Bool} (hc : isBlank c = false) :
    ∃ piece quoting', piece ≠ [] ∧ (∀ d ∈ piece, isBlank d = false) ∧
      ∀ cs, Print.textFrom tags scope quoting (c :: cs) =
        piece ++ Print.textFrom tags scope quoting' cs := by
  refine ⟨_, isMark tags scope c, ?_, ?_, fun cs => rfl⟩
  · split <;> split <;> simp
  · have apostrophe : isBlank '\'' = false := isBlank_apostrophe
    intro d hd
    rcases List.mem_append.1 hd with quote | body
    · split at quote
      · cases quote
      · rw [List.mem_singleton.1 quote, apostrophe]
    · split at body
      · obtain rfl : d = '\'' := by simpa using body
        exact apostrophe
      · rw [List.mem_singleton.1 body, hc]

theorem collapseFrom_textFrom {quoting inRun : Bool} (h : inRun = true → quoting = false)
    (cs : List Char) :
    collapseFrom inRun (Print.textFrom tags scope quoting (collapseFrom inRun cs)) =
      collapseFrom inRun (Print.textFrom tags scope quoting cs) := by
  induction cs generalizing quoting inRun with
  | nil => rfl
  | cons c cs ih =>
    cases hc : isBlank c with
    | false =>
      obtain ⟨piece, quoting', hne, ink, split⟩ := @exists_textFrom_cons tags scope c quoting hc
      rw [collapseFrom_cons hc, split, split, collapseFrom_append_of_not_blank hne ink,
        collapseFrom_append_of_not_blank hne ink, ih (fun h => absurd h Bool.false_ne_true)]
    | true =>
      have inside := @ih false true fun _ => rfl
      have literal := @textFrom_literal tags quoting scope c cs (isMark_of_isBlank hc)
        (ne_apostrophe_of_isBlank hc)
      have space := @textFrom_literal tags quoting scope ' ' (collapseFrom true cs)
        (isMark_of_isBlank isBlank_space) (by decide)
      rw [collapseFrom_cons_blank hc, literal]
      cases inRun with
      | true =>
        obtain rfl := h rfl
        rw [if_pos rfl, if_neg Bool.false_ne_true, List.nil_append, collapseFrom_cons_blank hc,
          if_pos rfl]
        exact inside
      | false =>
        rw [if_neg Bool.false_ne_true, space]
        cases quoting <;>
          simp [collapseFrom_cons_blank hc, collapseFrom_cons_blank isBlank_space,
            collapseFrom_cons isBlank_apostrophe, inside]

theorem alike_text (content : String) : Alike (Print.text tags scope content)
    (Print.text tags scope (Text.collapse content)) := by
  rw [Print.text, Print.text, toList_collapse]
  exact (collapseFrom_textFrom (fun h => absurd h Bool.false_ne_true) content.toList).symm

theorem doubled_collapseFrom {inRun : Bool} (cs : List Char) :
    Print.doubled (collapseFrom inRun cs) = collapseFrom inRun (Print.doubled cs) := by
  induction cs generalizing inRun with
  | nil => rfl
  | cons c cs ih =>
    cases hc : isBlank c with
    | false =>
      have ink : ∀ d ∈ (if c = '\'' then ['\'', '\''] else [c]), isBlank d = false := by
        split <;> simp [hc, isBlank_apostrophe]
      have hne : (if c = '\'' then ['\'', '\''] else [c]) ≠ [] := by split <;> simp
      rw [collapseFrom_cons hc, doubled_cons, doubled_cons,
        collapseFrom_append_of_not_blank hne ink, ih]
    | true =>
      have plain := ne_apostrophe_of_isBlank hc
      rw [doubled_cons, if_neg plain, List.singleton_append, collapseFrom_cons_blank hc,
        collapseFrom_cons_blank hc]
      cases inRun with
      | true => exact ih
      | false =>
        rw [if_neg Bool.false_ne_true, if_neg Bool.false_ne_true, doubled_cons,
          if_neg (by decide), ih]
        rfl

theorem any_quotesStyle_collapseFrom {inRun : Bool} (cs : List Char) :
    (inRun || (collapseFrom inRun cs).any Print.quotesStyle) =
      (inRun || cs.any Print.quotesStyle) := by
  induction cs generalizing inRun with
  | nil => rfl
  | cons c cs ih =>
    cases hc : isBlank c with
    | false =>
      have tail := @ih false
      rw [Bool.false_or, Bool.false_or] at tail
      rw [collapseFrom_cons hc, List.any_cons, List.any_cons, tail]
    | true =>
      cases inRun with
      | true => rfl
      | false =>
        rw [collapseFrom_cons_blank hc, if_neg Bool.false_ne_true, List.any_cons, List.any_cons]
        simp [Print.quotesStyle, hc, isBlank_space]

theorem collapse_ne_empty {content : String} (h : content ≠ "") : Text.collapse content ≠ "" := by
  intro empty
  have nothing : Alike content.toList "".toList := collapse_eq_iff.1 empty
  exact h (String.toList_eq_nil_iff.1 nothing.symm.of_nil)

theorem alike_styleText (content : String) :
    Alike (styleText content) (styleText (Text.collapse content)) := by
  have same := @any_quotesStyle_collapseFrom false content.toList
  have plain : Alike (Print.doubled content.toList)
      (Print.doubled (collapseFrom false content.toList)) := by
    rw [doubled_collapseFrom]
    exact alike_collapse _
  rw [Bool.false_or, Bool.false_or] at same
  rw [styleText, styleText, toList_collapse, same]
  split
  · exact (plain.append (.refl _)).cons _
  · exact plain

theorem alike_style {content : String} : Alike (Print.style content)
    (Print.style (Text.collapse content)) := by
  by_cases h : content = ""
  · subst h
    rfl
  · rw [print_style h, print_style (collapse_ne_empty h)]
    exact ((alike_styleText content).cons _).cons _

/-! ## Printed messages -/

theorem selectorWidth_eq (cs : Cases) : Print.selectorWidth cs =
    (Cases.selectors cs).foldl (fun width selector => max width selector.toList.length) 0 := by
  rw [Print.selectorWidth, Cases.selectors, List.foldl_map]

theorem selectorWidth_collapse (cs : Cases) :
    Print.selectorWidth (collapseCases cs) = Print.selectorWidth cs := by
  rw [selectorWidth_eq, Cases.selectors_collapse, selectorWidth_eq]

mutual

theorem Element.alike_print : (e : Element) → ∀ scope depth,
    Alike (Print.element tags scope depth e) (Print.element tags scope depth e.collapse)
  | .text content, _, _ => alike_text content
  | .hash, _, _ => .refl _
  | .placeholder id kind, scope, depth => kind.alike_print scope (depth + 1) id

theorem Kind.alike_print : (kind : Kind) → ∀ scope depth id,
    Alike (Print.kind tags scope depth id kind) (Print.kind tags scope depth id kind.collapse)
  | .argument, _, _, _ => .refl _
  | .simple _ none, _, _, _ => .refl _
  | .simple _ (some content), _, _, _ => ((Alike.refl _).append alike_style).append (.refl _)
  | .plural _ _ cases, _, depth, _ => by
    rw [Kind.collapse, Print.kind, Print.kind, selectorWidth_collapse]
    exact (Alike.refl _).append (alike_print_cases cases .plural depth _)
  | .select cases, _, depth, _ => by
    rw [Kind.collapse, Print.kind, Print.kind, selectorWidth_collapse]
    exact (Alike.refl _).append (alike_print_cases cases .branch depth _)
  | .custom _ style, _, depth, _ => (Alike.refl _).append (style.alike_print depth)
  | .tag children, scope, depth, id => by
    rw [Kind.collapse, Print.kind, Print.kind]
    exact ((((Alike.refl _).append (alike_print_elements children _ depth)).append
      (.refl _)).append (.refl _)).append (.refl _)
  | .emptyTag, _, _, _ => .refl _

theorem CustomStyle.alike_print : (style : CustomStyle) → ∀ depth,
    Alike (Print.custom tags depth style) (Print.custom tags depth style.collapse)
  | .none, _ => .refl _
  | .text _, _ => alike_style.append (.refl _)
  | .cases [], _ => .refl _
  | .cases (c :: cases), depth => by
    have printed := alike_print_cases (c :: cases) .branch depth (Print.selectorWidth (c :: cases))
    rw [CustomStyle.collapse, collapseCases, Print.custom, Print.custom, ← collapseCases,
      selectorWidth_collapse]
    exact printed.cons ','

theorem Case.alike_print : (c : Case) → ∀ scope depth width,
    Alike (Print.case tags scope depth width c) (Print.case tags scope depth width c.collapse)
  | ⟨_, message⟩, scope, depth, _ =>
    ((Alike.refl _).append (alike_print_elements message scope depth)).append (.refl _)

theorem alike_print_cases : (cs : List Case) → ∀ scope depth width,
    Alike (Print.cases tags scope depth width cs)
      (Print.cases tags scope depth width (collapseCases cs))
  | [], _, _, _ => .refl _
  | c :: cs, scope, depth, width =>
    (c.alike_print scope depth width).append (alike_print_cases cs scope depth width)

theorem alike_print_elements : (es : List Element) → ∀ scope depth,
    Alike (Print.message tags scope depth es) (Print.message tags scope depth (collapseElements es))
  | [], _, _ => .refl _
  | e :: es, scope, depth =>
    (e.alike_print scope depth).append (alike_print_elements es scope depth)

end

mutual

theorem Element.hasTags_collapse : (e : Element) → e.collapse.hasTags = e.hasTags
  | .text _ => rfl
  | .hash => rfl
  | .placeholder _ kind => kind.hasTags_collapse

theorem Kind.hasTags_collapse : (kind : Kind) → kind.collapse.hasTags = kind.hasTags
  | .argument => rfl
  | .simple _ _ => rfl
  | .plural _ _ cases => casesHaveTags_collapse cases
  | .select cases => casesHaveTags_collapse cases
  | .custom _ style => style.hasTags_collapse
  | .tag _ => rfl
  | .emptyTag => rfl

theorem CustomStyle.hasTags_collapse : (style : CustomStyle) →
    style.collapse.hasTags = style.hasTags
  | .none => rfl
  | .text _ => rfl
  | .cases cases => casesHaveTags_collapse cases

theorem Case.hasTags_collapse : (c : Case) → c.collapse.hasTags = c.hasTags
  | ⟨_, message⟩ => messageHasTags_collapse message

theorem casesHaveTags_collapse : (cs : List Case) →
    casesHaveTags (collapseCases cs) = casesHaveTags cs
  | [] => rfl
  | c :: cs => congrArg₂ or c.hasTags_collapse (casesHaveTags_collapse cs)

theorem messageHasTags_collapse : (es : List Element) →
    messageHasTags (collapseElements es) = messageHasTags es
  | [] => rfl
  | e :: es => congrArg₂ or e.hasTags_collapse (messageHasTags_collapse es)

end

theorem Message.alike_print (message : Message) :
    Alike (message.print tags).toList (message.collapse.print tags).toList := by
  have same : message.collapse.hasTags = message.hasTags := messageHasTags_collapse message
  rw [Message.print, Message.print, same, String.toList_ofList, String.toList_ofList]
  exact alike_print_elements message .root 0

theorem alike_print_of_collapse {message other : Message} (h : message.collapse = other.collapse) :
    Alike (message.print tags).toList (other.print tags).toList := by
  have printed := @Message.alike_print tags other
  rw [← h] at printed
  exact message.alike_print.trans printed.symm

end MessageFormat
