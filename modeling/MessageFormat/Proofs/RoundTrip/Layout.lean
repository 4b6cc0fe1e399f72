import MessageFormat.Proofs.RoundTrip.Text
import MessageFormat.Proofs.WellFormed

/-!
# The layout of printed messages

The printer puts blanks in front of selectors and aligns them. What matters to a reader is where
the next piece starts: `casesBody` is what stands behind the blanks.
-/

namespace MessageFormat

open Grammar (EndsMessage)

variable {tags : Bool} {scope : Scope} {depth width : Nat} {rest : List Char}

/-! ## Scopes -/

/-- The scope that the printer works with: the children of a tag are printed like a branch. -/
def Scope.printed : Scope → Scope
  | .tag => .branch
  | scope => scope

theorem isMark_printed (tags : Bool) (scope : Scope) (c : Char) :
    isMark tags scope.printed c = isMark tags scope c := by
  cases scope <;> rfl

theorem textFrom_printed (quoting : Bool) (cs : List Char) :
    Print.textFrom tags scope.printed quoting cs = Print.textFrom tags scope quoting cs := by
  induction cs generalizing quoting with
  | nil => rfl
  | cons c cs ih => simp [Print.textFrom, isMark_printed, ih]

theorem printed_inTag (scope : Scope) :
    (if scope.printed = .plural then Scope.plural else .branch) = scope.inTag.printed := by
  cases scope <;> rfl

/-! ## Cases -/

/-- Printed cases without the blanks in front of them. -/
def casesBody (tags : Bool) (scope : Scope) (depth width : Nat) : List Case → List Char
  | [] => ['}']
  | ⟨selector, es⟩ :: cs =>
      selector.toList ++ ' ' :: '{' :: (Print.message tags scope depth es ++
        '}' :: Print.cases tags scope depth width cs)

theorem casesBody_cons (selector : String) (es : Message) (cs : List Case) :
    casesBody tags scope depth width (⟨selector, es⟩ :: cs) ++ rest =
      selector.toList ++ ' ' :: '{' :: (Print.message tags scope depth es ++
        '}' :: (Print.cases tags scope depth width cs ++ rest)) := by
  simp [casesBody]

theorem Blanks.spaces {cs : List Char} (h : Blanks cs rest) (n : Nat) :
    Blanks (List.replicate n ' ' ++ cs) rest := by
  induction n with
  | zero => exact h
  | succ n ih => exact .cons (by decide) ih

theorem blanks_cases (cs : List Case) :
    Blanks (Print.cases tags scope depth width cs ++ rest)
      (casesBody tags scope depth width cs ++ rest) := by
  cases cs with
  | nil =>
    have layout : Print.cases tags scope depth width [] ++ rest =
        '\n' :: (List.replicate (2 * (depth - 1)) ' ' ++
          (casesBody tags scope depth width [] ++ rest)) := by
      simp [Print.cases, Print.indent, casesBody]
    rw [layout]
    exact .cons (by decide) ((Blanks.refl _).spaces _)
  | cons c cs =>
    obtain ⟨selector, es⟩ := c
    have layout : Print.cases tags scope depth width (⟨selector, es⟩ :: cs) ++ rest =
        '\n' :: (List.replicate (2 * depth) ' ' ++
          (List.replicate (width - selector.toList.length) ' ' ++
            (casesBody tags scope depth width (⟨selector, es⟩ :: cs) ++ rest))) := by
      simp [Print.cases, Print.case, Print.indent, Print.aligned, casesBody]
    rw [layout]
    exact .cons (by decide) (((Blanks.refl _).spaces _).spaces _)

theorem stopsAt_casesBody {cs : List Case} (h : ∀ c ∈ cs, IsWord false c.selector) :
    StopsAt (!Text.isBlank ·) (casesBody tags scope depth width cs ++ rest) := by
  cases cs with
  | nil => exact stopsAt_blank_cons (by decide)
  | cons c cs =>
    obtain ⟨selector, es⟩ := c
    have word : Word false (casesBody tags scope depth width (⟨selector, es⟩ :: cs) ++ rest)
        selector (' ' :: '{' :: (Print.message tags scope depth es ++
          '}' :: Print.cases tags scope depth width cs) ++ rest) :=
      ⟨by simp [casesBody], h ⟨selector, es⟩ List.mem_cons_self, stopsAt_cons.2 (by decide)⟩
    exact word.stopsAt_blank

theorem stopsAt_digit_cases (cs : List Case) :
    StopsAt (!Decimal.isDigit ·) (Print.cases tags scope depth width cs ++ rest) := by
  have newline : (!Decimal.isDigit '\n') = true := by decide
  cases cs with
  | nil => exact stopsAt_cons.2 newline
  | cons c cs =>
    obtain ⟨selector, es⟩ := c
    exact stopsAt_cons.2 newline

theorem opensCase_casesBody {selector : String} {es : Message} {cs : List Case}
    (hw : IsWord false selector) :
    OpensCase (casesBody tags scope depth width (⟨selector, es⟩ :: cs) ++ rest) := by
  rw [casesBody_cons]
  refine ⟨selector, ' ' :: '{' :: _, _, ⟨rfl, hw, ?_⟩, .cons (by decide) (.refl _)⟩
  exact stopsAt_cons.2 (by decide)

theorem offsetMark_prefix_word {s X : List Char} :
    offsetMark <+: s ++ ' ' :: X ↔ offsetMark <+: s := by
  constructor
  · intro front
    rcases List.prefix_or_prefix_of_prefix front (List.prefix_append s _) with short | long
    · exact short
    · obtain ⟨extra, split⟩ := long
      rw [← split, List.prefix_append_right_inj] at front
      cases extra with
      | nil => simp [← split]
      | cons c extra =>
        obtain rfl : c = ' ' := (List.cons_prefix_cons.1 front).1
        have inside : ' ' ∈ offsetMark := by simp [← split]
        exact absurd inside (by decide)
  · intro front
    exact front.trans (List.prefix_append s _)

/-! ## Placeholders -/

theorem print_simple (id : String) (type : SimpleType) :
    Print.kind tags scope depth id (.simple type none) ++ rest =
      Print.opening id type.name ++ '}' :: rest := by
  rw [Print.kind, List.append_assoc]
  rfl

theorem print_simpleStyle (id : String) (type : SimpleType) {content : String}
    (hne : content ≠ "") :
    Print.kind tags scope depth id (.simple type (some content)) ++ rest =
      Print.opening id type.name ++ ',' :: ' ' :: (styleText content ++ '}' :: rest) := by
  rw [Print.kind, print_style hne]
  simp only [List.append_assoc, List.cons_append, List.nil_append]

theorem print_plural (id : String) (type : PluralType) (n : UInt32) (cs : Cases) :
    Print.kind tags scope depth id (.plural type n cs) ++ rest =
      Print.opening id type.keyword ++ ',' ::
        ((if n = 0 then [] else " offset:".toList ++ (toString n.toNat).toList) ++
          (Print.cases tags .plural depth (Print.selectorWidth cs) cs ++ rest)) := by
  rw [Print.kind]
  simp only [List.append_assoc, List.cons_append, List.nil_append]

theorem print_select (id : String) (cs : Cases) :
    Print.kind tags scope depth id (.select cs) ++ rest =
      Print.opening id "select" ++ ',' ::
        (Print.cases tags .branch depth (Print.selectorWidth cs) cs ++ rest) := by
  rw [Print.kind]
  simp only [List.append_assoc, List.cons_append, List.nil_append]

theorem print_custom (id type : String) :
    Print.kind tags scope depth id (.custom type .none) ++ rest =
      Print.opening id type ++ '}' :: rest := by
  rw [Print.kind, Print.custom, List.append_assoc]
  rfl

theorem print_customStyle (id type : String) {content : String} (hne : content ≠ "") :
    Print.kind tags scope depth id (.custom type (.text content)) ++ rest =
      Print.opening id type ++ ',' :: ' ' :: (styleText content ++ '}' :: rest) := by
  rw [Print.kind, Print.custom, print_style hne]
  simp only [List.append_assoc, List.cons_append, List.nil_append]

theorem print_customCases (id type : String) (c : Case) (cs : Cases) :
    Print.kind tags scope depth id (.custom type (.cases (c :: cs))) ++ rest =
      Print.opening id type ++ ',' ::
        (Print.cases tags .branch depth (Print.selectorWidth (c :: cs)) (c :: cs) ++ rest) := by
  rw [Print.kind, Print.custom]
  simp only [List.append_assoc, List.cons_append]

theorem print_tag (id : String) (children : Message) :
    Print.kind tags scope.printed depth id (.tag children) ++ rest =
      '<' :: (id.toList ++ '>' :: (Print.message tags scope.inTag.printed depth children ++
        '<' :: '/' :: (id.toList ++ '>' :: rest))) := by
  rw [Print.kind, printed_inTag]
  simp only [List.append_assoc, List.cons_append, List.nil_append]

/-! ## Where elements start -/

theorem stopsAt_print {e : Element} (wf : e.WellFormed scope)
    (ht : e.hasTags = true → tags = true) (hx : e.isText = false) :
    StopsAt (endsText tags scope) (Print.element tags scope.printed depth e ++ rest) := by
  have brace : endsText tags scope '{' = true := by simp [endsText, isMark]
  cases e with
  | text content => cases hx
  | hash =>
    obtain rfl : scope = .plural := wf
    exact stopsAt_cons.2 (by simp [endsText, isMark])
  | placeholder id k =>
    cases k with
    | argument => exact stopsAt_cons.2 brace
    | simple type style => cases style <;> exact stopsAt_cons.2 brace
    | plural type offset cs => exact stopsAt_cons.2 brace
    | select cs => exact stopsAt_cons.2 brace
    | custom type style => exact stopsAt_cons.2 brace
    | tag children =>
      obtain rfl : tags = true := ht rfl
      exact stopsAt_cons.2 (by simp [endsText, isMark])
    | emptyTag =>
      obtain rfl : tags = true := ht rfl
      exact stopsAt_cons.2 (by simp [endsText, isMark])

theorem stopsAt_print_message {e : Element} {es : Message}
    (chain : (e :: es).IsChain fun e f => ¬ (e.isText = true ∧ f.isText = true))
    (he : e.isText = true) (wf : ∀ f ∈ es, f.WellFormed scope)
    (ht : messageHasTags es = true → tags = true) (ends : EndsMessage tags scope rest) :
    StopsAt (endsText tags scope) (Print.message tags scope.printed depth es ++ rest) := by
  cases es with
  | nil => exact ends.stopsAt
  | cons f es =>
    have hf : f.isText = false := by simpa [he] using (List.isChain_cons_cons.1 chain).1
    rw [Print.message, List.append_assoc]
    exact stopsAt_print (wf f List.mem_cons_self) (fun h => ht (by simp [messageHasTags, h])) hf

end MessageFormat
