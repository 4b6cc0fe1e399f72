import MessageFormat.Message.Print
import MessageFormat.Proofs.Quotation

/-!
# Printed texts

A printed text quotes every run of marks and doubles every apostrophe. In front of an apostrophe
the quotation is closed first, so that the reader takes the closing apostrophe for a half of the
doubled one and goes on inside the quotation, one apostrophe late. It gets out of it with the next
character, unless that is a mark: then the quotation is opened again, and the reader takes both
quoting apostrophes for one of the text.
-/

namespace MessageFormat

variable {tags quoting : Bool} {scope : Scope} {mark : Char → Bool} {c : Char} {cs rest : List Char}

/-! ## Apostrophes between marks -/

/-- No mark is followed by apostrophes and another mark. -/
def Separated (mark : Char → Bool) (cs : List Char) : Prop :=
  ∀ a k b, mark a = true → mark b = true → ¬ a :: (List.replicate (k + 1) '\'' ++ [b]) <:+: cs

def MarkAhead (mark : Char → Bool) (cs : List Char) : Prop :=
  ∃ k b, mark b = true ∧ List.replicate k '\'' ++ [b] <+: cs

def ApostropheAhead (mark : Char → Bool) (cs : List Char) : Prop :=
  ∃ tail, cs = '\'' :: tail ∧ MarkAhead mark tail

theorem not_markAhead_nil : ¬ MarkAhead mark [] := by
  rintro ⟨k, b, -, front⟩
  simp at front

theorem apostrophes_prefix_cons {k : Nat} {b : Char} :
    List.replicate (k + 1) '\'' ++ [b] <+: c :: cs ↔
      '\'' = c ∧ List.replicate k '\'' ++ [b] <+: cs := by
  rw [List.replicate_succ, List.cons_append, List.cons_prefix_cons]

theorem markAhead_cons :
    MarkAhead mark (c :: cs) ↔ mark c = true ∨ c = '\'' ∧ MarkAhead mark cs := by
  constructor
  · rintro ⟨k, b, hb, front⟩
    cases k with
    | zero =>
      obtain ⟨rfl, -⟩ := List.cons_prefix_cons.1 front
      exact .inl hb
    | succ k =>
      obtain ⟨hc, later⟩ := apostrophes_prefix_cons.1 front
      exact .inr ⟨hc.symm, k, b, hb, later⟩
  · rintro (hc | ⟨rfl, k, b, hb, front⟩)
    · exact ⟨0, c, hc, by simp⟩
    · exact ⟨k + 1, b, hb, apostrophes_prefix_cons.2 ⟨rfl, front⟩⟩

theorem apostropheAhead_cons :
    ApostropheAhead mark (c :: cs) ↔ c = '\'' ∧ MarkAhead mark cs := by
  constructor
  · rintro ⟨tail, split, ahead⟩
    obtain ⟨hc, rfl⟩ := List.cons.inj split
    exact ⟨hc, ahead⟩
  · rintro ⟨rfl, ahead⟩
    exact ⟨cs, rfl, ahead⟩

theorem separated_nil : Separated mark [] := by
  intro a k b _ _
  simp

theorem separated_cons : Separated mark (c :: cs) ↔
    (mark c = true → ¬ ApostropheAhead mark cs) ∧ Separated mark cs := by
  constructor
  · intro h
    refine ⟨?_, fun a k b ha hb inside => h a k b ha hb (List.infix_cons inside)⟩
    rintro hc ⟨tail, rfl, k, b, hb, front⟩
    refine h c k b hc hb (List.IsPrefix.isInfix ?_)
    exact List.cons_prefix_cons.2 ⟨rfl, apostrophes_prefix_cons.2 ⟨rfl, front⟩⟩
  · rintro ⟨here, later⟩ a k b ha hb inside
    rcases List.infix_cons_iff.1 inside with front | behind
    · obtain ⟨hc, ahead⟩ := List.cons_prefix_cons.1 front
      cases cs with
      | nil => simp at ahead
      | cons d cs =>
        obtain ⟨hd, tail⟩ := apostrophes_prefix_cons.1 ahead
        exact here (hc ▸ ha) (apostropheAhead_cons.2 ⟨hd.symm, k, b, hb, tail⟩)
    · exact later a k b ha hb behind

/-! ## Reading a text again -/

/-- How a reader stands inside a printed text. -/
inductive Quoting where
  | outside
  | inside
  /-- The closing apostrophe of a quotation lies ahead. -/
  | closing
deriving DecidableEq

def Quoting.quoted : Quoting → Bool
  | .outside => false
  | .inside => true
  | .closing => true

/-- What lies ahead of the reader where the rest of the text is `cs`. -/
def Quoting.written (tags : Bool) (scope : Scope) (cs : List Char) : Quoting → List Char
  | .outside => Print.textFrom tags scope false cs
  | .inside => Print.textFrom tags scope true cs
  | .closing => '\'' :: Print.textFrom tags scope false cs

/-- What a text is read as once it is printed. -/
def reread (mark : Char → Bool) : Quoting → List Char → List Char
  | _, [] => []
  | quoting, c :: cs =>
      if mark c then (if quoting = .closing then ['\''] else []) ++ c :: reread mark .inside cs
      else if c = '\'' then c :: reread mark (if quoting = .outside then .outside else .closing) cs
      else c :: reread mark .outside cs

def Quoting.Blocked (mark : Char → Bool) (cs : List Char) : Quoting → Prop
  | .outside => False
  | .inside => ApostropheAhead mark cs
  | .closing => MarkAhead mark cs

theorem reread_eq_self (hm : mark '\'' = false) (quoting : Quoting) (cs : List Char) :
    reread mark quoting cs = cs ↔ Separated mark cs ∧ ¬ quoting.Blocked mark cs := by
  induction cs generalizing quoting with
  | nil =>
    cases quoting <;>
      simp [reread, separated_nil, Quoting.Blocked, not_markAhead_nil, ApostropheAhead]
  | cons c cs ih =>
    rw [reread, separated_cons]
    by_cases hc : mark c = true
    · have hne : c ≠ '\'' := by
        rintro rfl
        rw [hm] at hc
        cases hc
      cases quoting <;>
        simp [hc, hne, hne.symm, ih, Quoting.Blocked, apostropheAhead_cons, markAhead_cons,
          and_comm]
    · by_cases ha : c = '\''
      · subst ha
        cases quoting <;>
          simp [hm, ih, Quoting.Blocked, apostropheAhead_cons, markAhead_cons]
      · cases quoting <;>
          simp [hc, ha, ih, Quoting.Blocked, apostropheAhead_cons, markAhead_cons]

theorem reread_outside_eq_self (hm : mark '\'' = false) :
    reread mark .outside cs = cs ↔ Separated mark cs := by
  rw [reread_eq_self hm]
  exact and_iff_left id

theorem reread_ne_nil {quoting : Quoting} (h : cs ≠ []) : reread mark quoting cs ≠ [] := by
  obtain ⟨c, cs, rfl⟩ := List.exists_cons_of_ne_nil h
  rw [reread]
  split
  · simp
  · split <;> simp

instance : Decidable (Separated (isMark tags scope) cs) :=
  decidable_of_iff _ (reread_outside_eq_self (isMark_apostrophe tags scope))

theorem ne_apostrophe_of_isMark (h : isMark tags scope c = true) : c ≠ '\'' := by
  rintro rfl
  rw [isMark_apostrophe] at h
  cases h

theorem endsText_eq_isMark (h : scope ≠ .style) : endsText tags scope c = isMark tags scope c := by
  simp [endsText, h]

theorem opensQuote_of_isMark (h : isMark tags scope c = true) : opensQuote tags scope c = true := by
  simp [opensQuote, h]

theorem textFrom_mark (hc : isMark tags scope c = true) :
    Print.textFrom tags scope quoting (c :: cs) =
      (if quoting then [] else ['\'']) ++ c :: Print.textFrom tags scope true cs := by
  rw [Print.textFrom, hc]
  cases quoting <;> simp [ne_apostrophe_of_isMark hc]

theorem textFrom_apostrophe : Print.textFrom tags scope quoting ('\'' :: cs) =
    (if quoting then ['\''] else []) ++ '\'' :: '\'' :: Print.textFrom tags scope false cs := by
  rw [Print.textFrom, isMark_apostrophe]
  cases quoting <;> simp

theorem textFrom_literal (hm : isMark tags scope c = false) (hc : c ≠ '\'') :
    Print.textFrom tags scope quoting (c :: cs) =
      (if quoting then ['\''] else []) ++ c :: Print.textFrom tags scope false cs := by
  rw [Print.textFrom, hm]
  cases quoting <;> simp [hc]

theorem readText_written (hs : scope ≠ .style) (stops : StopsAt (endsText tags scope) rest)
    (quoting : Quoting) (cs : List Char) :
    (readText tags scope quoting.quoted (quoting.written tags scope cs ++ rest)).content =
        reread (isMark tags scope) quoting cs ∧
      (readText tags scope quoting.quoted (quoting.written tags scope cs ++ rest)).rest = rest := by
  induction cs generalizing quoting with
  | nil =>
    have closes : readText tags scope true ('\'' :: rest) = (readText tags scope false rest).mark :=
      readText_close stops.ne_apostrophe
    have done : readText tags scope false rest = ⟨[], [], rest⟩ := readText_done stops
    cases quoting <;>
      simp [Quoting.written, Quoting.quoted, Print.textFrom, reread, closes, done, Span.mark]
  | cons c cs ih =>
    have outside := ih .outside
    have inside := ih .inside
    have closing := ih .closing
    simp only [Quoting.written, Quoting.quoted, List.cons_append] at outside inside closing
    by_cases hm : isMark tags scope c = true
    · have hc := ne_apostrophe_of_isMark hm
      have opens := opensQuote_of_isMark hm
      cases quoting <;>
        simp [Quoting.written, Quoting.quoted, reread, textFrom_mark hm, hm, hc, opens,
          readText_open, readText_literal, readText_apostrophe, Span.mark, Span.literal,
          Span.apostrophe, inside]
    · rw [Bool.not_eq_true] at hm
      by_cases ha : c = '\''
      · subst ha
        cases quoting <;>
          simp [Quoting.written, Quoting.quoted, reread, textFrom_apostrophe, hm,
            readText_apostrophe, Span.apostrophe, outside, closing]
      · have ends : endsText tags scope c = false := by rw [endsText_eq_isMark hs, hm]
        have closes : StopsAt (· != '\'') (c :: (Print.textFrom tags scope false cs ++ rest)) :=
          stopsAt_cons.2 (by simpa using ha)
        cases quoting <;>
          simp [Quoting.written, Quoting.quoted, reread, textFrom_literal hm ha, hm, ha, ends,
            readText_close closes, readText_literal, Span.mark, Span.literal, outside]

theorem derivesText_print (hs : scope ≠ .style) (stops : StopsAt (endsText tags scope) rest)
    (content : String) :
    DerivesText tags scope (Print.text tags scope content ++ rest)
      (reread (isMark tags scope) .outside content.toList) rest :=
  derivesText_iff.2 (readText_written hs stops .outside content.toList)

/-! ## Styles -/

theorem doubled_cons (c : Char) (cs : List Char) : Print.doubled (c :: cs) =
    (if c = '\'' then ['\'', '\''] else [c]) ++ Print.doubled cs := rfl

theorem derivesQuoted_doubled (stops : StopsAt (· != '\'') rest) (cs : List Char) :
    DerivesQuoted (Print.doubled cs ++ '\'' :: rest) cs rest := by
  induction cs with
  | nil => exact .closed stops
  | cons c cs ih =>
    rw [doubled_cons]
    split
    · rename_i hc
      subst hc
      exact .apostrophe ih
    · rename_i hc
      exact .literal hc ih

/-- Apostrophes at the front shift the opening one past them, in front of the first other
character. -/
theorem derivesText_quoted_style (h : ∃ c ∈ cs, c ≠ '\'')
    (stops : StopsAt (endsText tags .style) rest) :
    DerivesText tags .style ('\'' :: (Print.doubled cs ++ '\'' :: rest)) cs rest := by
  induction cs with
  | nil => simp at h
  | cons c cs ih =>
    rw [doubled_cons]
    split
    · rename_i hc
      subst hc
      exact .apostrophe (ih (by simpa using h))
    · rename_i hc
      have quoted := derivesQuoted_doubled stops.ne_apostrophe (c :: cs)
      rw [doubled_cons, if_neg hc] at quoted
      have whole : DerivesText tags .style _ (c :: cs ++ []) rest :=
        .quotation hc (by simp [opensQuote]) quoted (.done stops)
      rwa [List.append_nil] at whole

theorem derivesText_plain_style (h : ∀ c ∈ cs, Print.quotesStyle c = false)
    (stops : StopsAt (endsText tags .style) rest) :
    DerivesText tags .style (Print.doubled cs ++ rest) cs rest := by
  induction cs with
  | nil => exact .done stops
  | cons c cs ih =>
    rw [List.forall_mem_cons] at h
    rw [doubled_cons]
    split
    · rename_i hc
      subst hc
      exact .apostrophe (ih h.2)
    · rename_i hc
      refine .literal hc ?_ (ih h.2)
      have := h.1
      simp only [Print.quotesStyle, Bool.or_eq_false_iff] at this
      simp [endsText, isMark, this]

def styleText (content : String) : List Char :=
  if content.toList.any Print.quotesStyle then '\'' :: (Print.doubled content.toList ++ ['\''])
  else Print.doubled content.toList

theorem print_style {content : String} (h : content ≠ "") :
    Print.style content = ',' :: ' ' :: styleText content := by
  unfold Print.style styleText
  have nonempty : ¬ content.toList.isEmpty = true := by simpa using h
  rw [if_neg nonempty]
  split <;> simp

theorem stopsAt_endsText_brace : StopsAt (endsText tags scope) ('}' :: rest) :=
  stopsAt_cons.2 (by simp [endsText, isMark])

theorem derivesText_styleText (content : String) :
    DerivesText tags .style (styleText content ++ '}' :: rest) content.toList ('}' :: rest) := by
  unfold styleText
  split
  · rename_i h
    obtain ⟨c, hc, quotes⟩ := List.any_eq_true.1 h
    have other : ∃ c ∈ content.toList, c ≠ '\'' := by
      refine ⟨c, hc, ?_⟩
      rintro rfl
      exact absurd quotes (by decide)
    simpa using derivesText_quoted_style other stopsAt_endsText_brace
  · rename_i h
    have plain : ∀ c ∈ content.toList, Print.quotesStyle c = false := by simpa using h
    exact derivesText_plain_style plain stopsAt_endsText_brace

theorem mem_of_mem_doubled (h : c ∈ Print.doubled cs) : c ∈ cs := by
  obtain ⟨d, hd, hc⟩ := List.mem_flatMap.1 h
  split at hc
  · rename_i apostrophe
    subst apostrophe
    obtain rfl : c = '\'' := by simpa using hc
    exact hd
  · obtain rfl : c = d := by simpa using hc
    exact hd

theorem exists_cons_of_blanks_brace (h : Blanks cs ('{' :: rest)) :
    ∃ c tail, cs = c :: tail ∧ (Text.isBlank c = true ∨ c = '{') := by
  obtain ⟨w, blank, rfl⟩ := h
  cases w with
  | nil => exact ⟨'{', rest, rfl, .inr rfl⟩
  | cons c w => exact ⟨c, w ++ '{' :: rest, rfl, .inl (blank c List.mem_cons_self)⟩

/-- A style is not read as cases: a quoted one starts with no word, and a plain one has neither
blanks nor braces. -/
theorem not_opensCase_styleText (content : String) :
    ¬ OpensCase (styleText content ++ '}' :: rest) := by
  rintro ⟨selector, mid, after, hw, hb⟩
  unfold styleText at hw
  split at hw
  · obtain ⟨c, tail, split, hc⟩ := hw.exists_cons
    obtain rfl : '\'' = c := (List.cons.inj split).1
    exact absurd hc (by decide)
  · rename_i h
    simp only [List.any_eq_true, not_exists, not_and, Bool.not_eq_true] at h
    obtain ⟨c, tail, rfl, hc⟩ := exists_cons_of_blanks_brace hb
    obtain ⟨extra, inside, brace⟩ | ⟨extra, inside, behind⟩ := List.append_eq_append_iff.1 hw.split
    · cases extra with
      | nil =>
        obtain rfl : '}' = c := (List.cons.inj brace).1
        exact absurd hc (by decide)
      | cons d extra =>
        obtain rfl : '}' = d := (List.cons.inj brace).1
        have := hw.isWord.2 '}' (by simp [inside])
        exact absurd this (by decide)
    · cases extra with
      | nil =>
        obtain rfl : c = '}' := (List.cons.inj behind).1
        exact absurd hc (by decide)
      | cons d extra =>
        obtain rfl : c = d := (List.cons.inj behind).1
        have plain := h c (mem_of_mem_doubled (by simp [inside]))
        simp only [Print.quotesStyle, Bool.or_eq_false_iff, beq_eq_false_iff_ne] at plain
        obtain ⟨⟨⟨noBlank, noBrace⟩, -⟩, -⟩ := plain
        rcases hc with blank | brace
        · rw [noBlank] at blank
          cases blank
        · exact noBrace brace

end MessageFormat
