import MessageFormat.Pattern.Scope
import MessageFormat.Proofs.Derivation

/-!
# Reading texts

`readText` reads just what the grammar derives as a text. It is inside a quotation or not; inside
one it has the rest of the quotation to read and then the rest of the text.
-/

namespace MessageFormat

variable {tags : Bool} {scope : Scope} {quoted : Bool} {c : Char} {cs rest : List Char}

theorem isBlank_apostrophe : Text.isBlank '\'' = false := by decide

theorem isMark_apostrophe (tags : Bool) (scope : Scope) : isMark tags scope '\'' = false := by
  simp [isMark]

theorem endsText_apostrophe (tags : Bool) (scope : Scope) : endsText tags scope '\'' = false := by
  simp [endsText, isMark_apostrophe, isBlank_apostrophe]

theorem StopsAt.ne_apostrophe (h : StopsAt (endsText tags scope) cs) :
    StopsAt (· != '\'') cs := by
  refine h.mono fun c hc => ?_
  have : c ≠ '\'' := by
    rintro rfl
    rw [endsText_apostrophe] at hc
    cases hc
  simpa using this

/-! ## One step of reading -/

theorem readText_nil : readText tags scope quoted [] = ⟨[], [], []⟩ := by
  rw [readText]

theorem readText_apostrophe :
    readText tags scope quoted ('\'' :: '\'' :: cs) =
      (readText tags scope quoted cs).apostrophe := by
  rw [readText]

theorem readText_literal (hc : c ≠ '\'') (h : quoted = true ∨ endsText tags scope c = false) :
    readText tags scope quoted (c :: cs) = (readText tags scope quoted cs).literal c := by
  have goesOn : (!quoted && endsText tags scope c) = false := by
    obtain rfl | h := h
    · rfl
    · rw [h, Bool.and_false]
  rw [readText.eq_5 _ _ _ _ _ (fun _ e _ => hc e) (fun _ _ e _ => hc e) (fun e _ => hc e), goesOn]
  rfl

theorem readText_done (h : StopsAt (endsText tags scope) cs) :
    readText tags scope false cs = ⟨[], [], cs⟩ := by
  cases cs with
  | nil => exact readText_nil
  | cons c cs =>
    have hc : c ≠ '\'' := by simpa using stopsAt_cons.1 h.ne_apostrophe
    have ends : (!false && endsText tags scope c) = true := stopsAt_cons.1 h
    rw [readText.eq_5 _ _ _ _ _ (fun _ e _ => hc e) (fun _ _ e _ => hc e) (fun e _ => hc e), ends]
    rfl

theorem readText_close (h : StopsAt (· != '\'') cs) :
    readText tags scope true ('\'' :: cs) = (readText tags scope false cs).mark := by
  cases cs with
  | nil => rw [readText.eq_4, readText_nil]; rfl
  | cons c cs =>
    have hc : c ≠ '\'' := by simpa using stopsAt_cons.1 h
    rw [readText.eq_3 _ _ _ _ _ hc]
    rfl

theorem readText_open (hc : c ≠ '\'') (h : opensQuote tags scope c = true) :
    readText tags scope false ('\'' :: c :: cs) = (readText tags scope true (c :: cs)).mark := by
  rw [readText.eq_3 _ _ _ _ _ hc, h]
  rfl

theorem readText_lone (h : StopsAt (fun c => c != '\'' && !opensQuote tags scope c) cs) :
    readText tags scope false ('\'' :: cs) = (readText tags scope false cs).literal '\'' := by
  cases cs with
  | nil => rw [readText.eq_4, readText_nil]; rfl
  | cons c cs =>
    obtain ⟨hc, ho⟩ : c ≠ '\'' ∧ opensQuote tags scope c = false := by
      simpa using stopsAt_cons.1 h
    rw [readText.eq_3 _ _ _ _ _ hc, ho]
    rfl

/-! ## Texts of the grammar are read -/

theorem readText_of_quoted {inside : List Char} (h : DerivesQuoted cs inside rest) :
    (readText tags scope true cs).content = inside ++ (readText tags scope false rest).content ∧
      (readText tags scope true cs).rest = (readText tags scope false rest).rest := by
  induction h with
  | unclosed => simp [readText_nil]
  | closed h => simp [readText_close h, Span.mark]
  | apostrophe _ ih => simp [readText_apostrophe, Span.apostrophe, ih]
  | literal hc _ ih => simp [readText_literal hc, Span.literal, ih]

theorem readText_of_derives {content : List Char} (h : DerivesText tags scope cs content rest) :
    (readText tags scope false cs).content = content ∧
      (readText tags scope false cs).rest = rest := by
  induction h with
  | done h => simp [readText_done h]
  | literal hc he _ ih => simp [readText_literal hc (.inr he), Span.literal, ih]
  | apostrophe _ ih => simp [readText_apostrophe, Span.apostrophe, ih]
  | lone h _ ih => simp [readText_lone h, Span.literal, ih]
  | quotation hc ho hq _ ih =>
    obtain ⟨content, rest⟩ := @readText_of_quoted tags scope _ _ _ hq
    simp [readText_open hc ho, Span.mark, content, rest, ih]

/-! ## What is read is a text of the grammar -/

theorem derivesText_of_stopsAt {content : List Char} (h : DerivesText tags scope cs content rest)
    (hs : StopsAt (endsText tags scope) cs) : content = [] ∧ rest = cs := by
  obtain ⟨rfl, rfl⟩ := readText_of_derives h
  rw [readText_done hs]
  exact ⟨rfl, rfl⟩

/-- What `readText` leaves to be derived: inside a quotation, its end and then the text. -/
def DerivesSpan (tags : Bool) (scope : Scope) (quoted : Bool) (cs content rest : List Char) :
    Prop :=
  if quoted then ∃ inside mid outside, DerivesQuoted cs inside mid ∧
    DerivesText tags scope mid outside rest ∧ content = inside ++ outside
  else DerivesText tags scope cs content rest

theorem derivesSpan_readText (tags : Bool) (scope : Scope) (quoted : Bool) (cs : List Char) :
    DerivesSpan tags scope quoted cs (readText tags scope quoted cs).content
      (readText tags scope quoted cs).rest := by
  fun_induction readText tags scope quoted cs with
  | case1 quoted =>
    cases quoted with
    | false => exact .done (stopsAt_nil _)
    | true => exact ⟨[], [], [], .unclosed, .done (stopsAt_nil _), rfl⟩
  | case2 quoted cs ih =>
    cases quoted with
    | false => exact .apostrophe ih
    | true =>
      obtain ⟨inside, mid, outside, hq, ht, e⟩ := ih
      exact ⟨'\'' :: inside, mid, outside, .apostrophe hq, ht, congrArg _ e⟩
  | case3 c cs hc ih =>
    have closes : StopsAt (· != '\'') (c :: cs) := stopsAt_cons.2 (by simpa using hc)
    exact ⟨[], c :: cs, _, .closed closes, ih, rfl⟩
  | case4 quoted c cs hc hq ho ih =>
    obtain rfl : quoted = false := by simpa using hq
    obtain ⟨inside, mid, outside, hq, ht, e⟩ := ih
    change DerivesText tags scope _ (readText tags scope true (c :: cs)).content _
    rw [e]
    exact .quotation hc ho hq ht
  | case5 quoted c cs hc hq ho ih =>
    obtain rfl : quoted = false := by simpa using hq
    have opensNothing : StopsAt (fun c => c != '\'' && !opensQuote tags scope c) (c :: cs) :=
      stopsAt_cons.2 (by simpa using ⟨hc, by simpa using ho⟩)
    exact .lone opensNothing ih
  | case6 => exact ⟨[], [], [], .closed (stopsAt_nil _), .done (stopsAt_nil _), rfl⟩
  | case7 quoted hq =>
    obtain rfl : quoted = false := by simpa using hq
    exact .lone (stopsAt_nil _) (.done (stopsAt_nil _))
  | case8 quoted c cs _ _ _ he =>
    obtain ⟨rfl, he⟩ : quoted = false ∧ endsText tags scope c = true := by simpa using he
    exact .done (stopsAt_cons.2 he)
  | case9 quoted c cs h₁ h₂ h₃ he ih =>
    have hc : c ≠ '\'' := by
      rintro rfl
      cases cs with
      | nil => exact h₃ rfl rfl
      | cons d cs => exact h₂ d cs rfl rfl
    cases quoted with
    | false => exact .literal hc (by simpa using he) ih
    | true =>
      obtain ⟨inside, mid, outside, hq, ht, e⟩ := ih
      exact ⟨c :: inside, mid, outside, .literal hc hq, ht, congrArg _ e⟩

theorem derivesText_iff {content : List Char} : DerivesText tags scope cs content rest ↔
    (readText tags scope false cs).content = content ∧
      (readText tags scope false cs).rest = rest := by
  constructor
  · exact readText_of_derives
  · rintro ⟨rfl, rfl⟩
    exact derivesSpan_readText tags scope false cs

theorem DerivesText.stopsAt {content : List Char} (h : DerivesText tags scope cs content rest) :
    StopsAt (endsText tags scope) rest := by
  induction h with
  | done h => exact h
  | literal _ _ _ ih => exact ih
  | apostrophe _ ih => exact ih
  | lone _ _ ih => exact ih
  | quotation _ _ _ _ ih => exact ih

theorem DerivesQuoted.ne_nil {inside : List Char} (hc : c ≠ '\'')
    (h : DerivesQuoted (c :: cs) inside rest) : inside ≠ [] := by
  cases h with
  | closed _ => exact absurd rfl hc
  | apostrophe _ => exact absurd rfl hc
  | literal _ _ => exact List.cons_ne_nil _ _

theorem DerivesText.eq_of_nil (h : DerivesText tags scope cs [] rest) : rest = cs := by
  generalize he : ([] : List Char) = content at h
  cases h with
  | done _ => rfl
  | literal _ _ _ => cases he
  | apostrophe _ => cases he
  | lone _ _ => cases he
  | quotation hc _ hq _ => exact absurd (List.append_eq_nil_iff.1 he.symm).1 (hq.ne_nil hc)

theorem readText_raw_append (tags : Bool) (scope : Scope) (quoted : Bool) (cs : List Char) :
    (readText tags scope quoted cs).raw ++ (readText tags scope quoted cs).rest = cs := by
  fun_induction readText tags scope quoted cs with
  | case1 => rfl
  | case2 _ _ ih => simpa [Span.apostrophe] using ih
  | case3 _ _ _ ih => simpa [Span.mark] using ih
  | case4 _ _ _ _ _ _ ih => simpa [Span.mark] using ih
  | case5 _ _ _ _ _ _ ih => simpa [Span.literal] using ih
  | case6 => rfl
  | case7 => rfl
  | case8 => rfl
  | case9 _ _ _ _ _ _ _ ih => simpa [Span.literal] using ih

theorem readText_raw_eq_nil : (readText tags scope false cs).raw = [] ↔
    (readText tags scope false cs).content = [] := by
  have derived := derivesText_iff.2 ⟨rfl, (rfl : _ = (readText tags scope false cs).rest)⟩
  have pieces := readText_raw_append tags scope false cs
  constructor
  · intro h
    by_contra hne
    have shorter := derived.length_lt hne
    rw [h, List.nil_append] at pieces
    rw [pieces] at shorter
    exact Nat.lt_irrefl _ shorter
  · intro h
    rw [h] at derived
    rw [derived.eq_of_nil] at pieces
    exact List.append_left_eq_self.1 pieces

end MessageFormat
