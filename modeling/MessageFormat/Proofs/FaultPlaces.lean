import MessageFormat.Proofs.Tokens

/-!
# Where faults are reported

An error says what was found at its offset. This is so for every fault but two kinds
(`parse_error_foundAt_iff`): an offset that is too large is reported behind its digits, and a
closing tag is said to be found with the `>` that may not follow its id.
-/

namespace MessageFormat

variable {cs front rest : List Char} {fault : Fault}

/-- What is said to be found is what lies ahead: nothing any more, or a piece of `rest`. -/
def FoundAt (rest : List Char) (found : String) : Prop :=
  rest = [] ∧ found = "end of message pattern" ∨ found ≠ "" ∧ found.toList <+: rest

theorem foundAt_describe (rest : List Char) : FoundAt rest (describe rest) := by
  cases rest with
  | nil => exact .inl ⟨rfl, rfl⟩
  | cons c rest =>
    right
    unfold describe
    dsimp only
    split
    · exact ⟨by simp, by simp⟩
    · rename_i word
      exact ⟨by simpa using word, by simpa using List.takeWhile_prefix _⟩

namespace Fault

/-- Where the faults that name what was found are reported: behind the digits of an offset, and in
front of a closing tag. -/
def ReportedAt (front rest : List Char) : Fault → Prop
  | .offsetTooLarge digits => digits ≠ "" ∧ (∀ c ∈ digits.toList, Decimal.isDigit c = true) ∧
      2 ^ 32 ≤ Decimal.valueOf digits.toList ∧ digits.toList <:+ front ∧
      StopsAt (!Decimal.isDigit ·) rest
  | .mismatchedTag _ id | .strayClosingTag id =>
      ∃ after, rest = '<' :: '/' :: (id.toList ++ after) ∧ StopsAt (endsWord true) after
  | _ => True

/-- Where what is found lies ahead: not behind the digits of an offset, and in front of a closing
tag only if its end follows its id. -/
def Describes (rest : List Char) : Fault → Prop
  | .offsetTooLarge _ => False
  | .mismatchedTag _ id | .strayClosingTag id =>
      ∃ after, rest = '<' :: '/' :: (id.toList ++ '>' :: after)
  | _ => True

theorem ReportedAt.behind (h : fault.ReportedAt front rest) (cs : List Char) :
    fault.ReportedAt (cs ++ front) rest := by
  cases fault with
  | offsetTooLarge digits =>
    obtain ⟨hne, all, large, passed, stops⟩ := h
    exact ⟨hne, all, large, passed.trans (List.suffix_append _ _), stops⟩
  | _ => exact h

theorem reportedAt_of_found? (h : fault.found? = none) (front rest : List Char) :
    fault.ReportedAt front rest := by
  cases fault with
  | offsetTooLarge _ | mismatchedTag _ _ | strayClosingTag _ => cases h
  | _ => trivial

theorem foundAt_closingTagText (id : String) : FoundAt rest (closingTagText id) ↔
    ∃ after, rest = '<' :: '/' :: (id.toList ++ '>' :: after) := by
  have text : (closingTagText id).toList = '<' :: '/' :: (id.toList ++ ['>']) := by
    simp [closingTagText]
  constructor
  · rintro (⟨-, ends⟩ | ⟨-, after, split⟩)
    · have := congrArg String.toList ends
      rw [text] at this
      simp at this
    · exact ⟨after, by rw [← split, text]; simp⟩
  · rintro ⟨after, rfl⟩
    refine .inr ⟨fun empty => ?_, after, by rw [text]; simp⟩
    rw [empty] at text
    cases text

theorem foundAt_iff (h : fault.ReportedAt front rest) :
    FoundAt rest (fault.found?.getD (describe rest)) ↔ fault.Describes rest := by
  cases fault with
  | offsetTooLarge digits =>
    obtain ⟨hne, all, -, -, stops⟩ := h
    refine iff_of_false ?_ id
    rintro (⟨-, ends⟩ | ⟨-, after, split⟩)
    · have letter : 'e' ∈ digits.toList := by
        change digits = "end of message pattern" at ends
        rw [ends]
        decide
      exact absurd (all 'e' letter) (by decide)
    · obtain ⟨c, others, word⟩ := List.exists_cons_of_ne_nil (mt String.toList_eq_nil_iff.1 hne)
      change digits.toList ++ after = rest at split
      rw [← split, word, List.cons_append, stopsAt_cons] at stops
      rw [all c (word ▸ List.mem_cons_self)] at stops
      cases stops
  | mismatchedTag id other => exact foundAt_closingTagText other
  | strayClosingTag id => exact foundAt_closingTagText id
  | _ => exact iff_of_true (foundAt_describe rest) trivial

end Fault

/-! ## Readers that report their faults -/

/-- A reading goes on behind what it passed, or stops where its fault is to be reported. -/
def Reading.Reports {α : Type} (cs : List Char) : Reading α → Prop
  | .done _ rest _ => rest <:+ cs
  | .stopped fault rest _ => ∃ front, cs = front ++ rest ∧ fault.ReportedAt front rest

theorem Reading.Reports.after {α : Type} {reading : Reading α} (h : reading.Reports cs)
    (tokens : List Token) : (reading.after tokens).Reports cs := by
  cases reading <;> exact h

theorem Reading.Reports.behind {α : Type} {reading : Reading α} (h : reading.Reports rest)
    (suffix : rest <:+ cs) : reading.Reports cs := by
  cases reading with
  | done value rest tokens => exact List.IsSuffix.trans h suffix
  | stopped fault rest tokens =>
    obtain ⟨taken, rfl⟩ := suffix
    obtain ⟨front, rfl, reported⟩ := h
    exact ⟨taken ++ front, (List.append_assoc _ _ _).symm, reported.behind taken⟩

namespace Reader

variable {α β : Type}

def Reports (reader : Reader α) : Prop := ∀ cs, (reader cs).Reports cs

theorem Reports.bind {reader : Reader α} {next : α → Reader β} (h : reader.Reports)
    (hnext : ∀ a, (next a).Reports) : (reader >>= next).Reports := by
  intro cs
  have first := h cs
  cases hr : reader cs with
  | done a rest tokens =>
    rw [hr] at first
    rw [bind_done hr]
    exact ((hnext a rest).after tokens).behind first
  | stopped fault rest tokens =>
    rw [hr] at first
    rwa [bind_stopped hr]

theorem reports_ahead {next : List Char → Reader α} (h : ∀ cs, (next cs cs).Reports cs) :
    (ahead >>= next).Reports := by
  intro cs
  rw [bind_done (rfl : ahead cs = .done cs cs [])]
  exact (h cs).after []

theorem reports_pure (a : α) : (pure a : Reader α).Reports := fun cs => List.suffix_refl cs

theorem reports_stop (h : fault.found? = none) : (stop fault : Reader α).Reports :=
  fun cs => ⟨[], rfl, Fault.reportedAt_of_found? h [] cs⟩

theorem Reports.ite {p : Prop} [Decidable p] {reader other : Reader α} (h : p → reader.Reports)
    (h' : ¬ p → other.Reports) : (if p then reader else other).Reports := by
  split
  · exact h ‹p›
  · exact h' ‹¬ p›

theorem reports_literal? (kind : TokenKind) (text : List Char) :
    (literal? kind text).Reports := by
  intro cs
  unfold literal?
  split
  · exact List.drop_suffix _ _
  · exact List.suffix_refl _

theorem reports_mark? (text : List Char) : (mark? text).Reports := reports_literal? .mark text

theorem reports_mark (text : List Char) (h : fault.found? = none) : (mark text fault).Reports :=
  (reports_mark? text).bind fun _ => .ite (fun _ => reports_pure _) fun _ => reports_stop h

theorem reports_run (kind : TokenKind) (p : Char → Bool) : (run kind p).Reports :=
  fun _ => List.dropWhile_suffix _

theorem reports_blanks : blanks.Reports := (reports_run _ _).bind fun _ => reports_pure _

theorem reports_word? (kind : TokenKind) (inTag : Bool) : (word? kind inTag).Reports :=
  (reports_run _ _).bind fun _ => reports_pure _

theorem reports_word (kind : TokenKind) (inTag : Bool) (h : fault.found? = none) :
    (word kind inTag fault).Reports := by
  refine (reports_word? kind inTag).bind fun taken => ?_
  cases taken with
  | none => exact reports_stop h
  | some taken => exact reports_pure _

theorem reports_many {reader : Reader (Option α)} (h : reader.Reports) :
    (many reader).Reports := by
  have bounded : ∀ count, (atMost reader count).Reports := by
    intro count
    induction count with
    | zero => exact reports_pure _
    | succ count ih =>
      refine h.bind fun value => ?_
      cases value with
      | none => exact reports_pure _
      | some value => exact ih.bind fun _ => reports_pure _
  exact fun cs => bounded cs.length cs

end Reader

namespace Grammar

open Reader

variable {tags : Bool} {scope : Scope} {nested : Nested}

/-! ## Texts and offsets -/

theorem reports_text? (kind : TokenKind) : (text? tags scope kind).Reports := by
  intro cs
  unfold text?
  dsimp only
  split
  · exact List.suffix_refl _
  · exact ⟨_, readText_raw_append _ _ _ _⟩

theorem reports_style : (style tags).Reports := by
  refine (reports_text? .style).bind fun text => ?_
  cases text with
  | none => exact reports_stop rfl
  | some text => exact reports_pure _

theorem reports_casesSeparator (type : String) : (casesSeparator type).Reports := by
  refine (reports_mark? _).bind fun _ => .ite (fun _ => reports_blanks) fun _ => ?_
  refine reports_ahead fun cs => ?_
  split <;> exact reports_stop rfl _

-- The only reader that stops behind what it reports.
theorem reports_offsetNumber : offsetNumber.Reports := by
  intro cs
  have digits := run_takeWhile Decimal.isDigit cs
  unfold offsetNumber
  rw [bind_done (rfl : run .number Decimal.isDigit cs = .done _ _ _)]
  apply Reading.Reports.after
  generalize cs.takeWhile Decimal.isDigit = taken at digits
  generalize cs.dropWhile Decimal.isDigit = rest at digits
  obtain ⟨rfl, all, longest⟩ := digits
  split
  · exact (reports_stop rfl rest).behind (List.suffix_append _ _)
  · rename_i hne
    split
    · exact (reports_pure _ rest).behind (List.suffix_append _ _)
    · rename_i large
      refine ⟨taken, rfl, by simpa using hne, by simpa using all, ?_, ?_, longest⟩
      · rw [String.toList_ofList]
        exact Nat.le_of_not_lt large
      · rw [String.toList_ofList]

theorem reports_offset : offset.Reports := by
  refine reports_ahead fun cs => ?_
  split
  · refine ((reports_literal? _ _).bind fun _ => (reports_mark? _).bind fun _ => ?_) cs
    exact reports_blanks.bind fun _ => reports_offsetNumber
  · exact reports_pure _ cs

/-! ## Cases and kinds -/

theorem reports_case? (h : (nested scope).Reports) : (case? nested scope).Reports := by
  refine (reports_word? _ _).bind fun selector => ?_
  cases selector with
  | none => exact reports_pure _
  | some selector =>
    refine reports_blanks.bind fun _ => (reports_mark _ rfl).bind fun _ => h.bind fun _ => ?_
    exact (reports_mark _ rfl).bind fun _ => reports_blanks.bind fun _ => reports_pure _

theorem reports_complete (owner : Option String) (collected : Cases) :
    (complete owner collected).Reports := by
  cases owner with
  | none => exact reports_pure _
  | some type => exact .ite (fun _ => reports_pure _) fun _ => reports_stop rfl

theorem reports_cases (h : (nested scope).Reports) (owner : Option String) :
    (cases nested scope owner).Reports := by
  refine (reports_many (reports_case? h)).bind fun list => reports_ahead fun cs => ?_
  cases cs with
  | nil => exact reports_complete _ _ _
  | cons c cs => exact Reports.ite (fun _ => reports_complete _ _) (fun _ => reports_stop rfl) _

theorem reports_customStyle (h : (nested .branch).Reports) :
    (customStyle tags nested).Reports := by
  refine reports_ahead fun cs => Reports.ite (fun _ => ?_) (fun _ => ?_) cs
  · exact (reports_cases h none).bind fun _ => reports_pure _
  · exact reports_style.bind fun _ => reports_pure _

theorem reports_optional {α : Type} {reader : Reader α} (h : reader.Reports) :
    (optional reader).Reports := by
  refine (reports_mark? _).bind fun _ => .ite (fun _ => reports_pure _) fun _ => ?_
  refine (reports_mark? _).bind fun _ => .ite (fun _ => ?_) fun _ => reports_stop rfl
  refine reports_blanks.bind fun _ => h.bind fun _ => reports_blanks.bind fun _ => ?_
  exact (reports_mark _ rfl).bind fun _ => reports_pure _

theorem reports_kind (h : ∀ scope, (nested scope).Reports) (type : String) :
    (kind tags nested type).Reports := by
  unfold kind
  split
  · refine (reports_casesSeparator type).bind fun _ => reports_offset.bind fun _ => ?_
    refine reports_blanks.bind fun _ => (reports_cases (h .plural) _).bind fun _ => ?_
    exact (reports_mark _ rfl).bind fun _ => reports_pure _
  · refine .ite (fun _ => ?_) fun _ => ?_
    · refine (reports_casesSeparator type).bind fun _ => ?_
      refine (reports_cases (h .branch) _).bind fun _ => ?_
      exact (reports_mark _ rfl).bind fun _ => reports_pure _
    · split
      · exact (reports_optional reports_style).bind fun _ => reports_pure _
      · exact (reports_optional (reports_customStyle (h .branch))).bind fun _ => reports_pure _

/-! ## Elements -/

theorem reports_placeholder (h : ∀ scope, (nested scope).Reports) :
    (placeholder tags nested).Reports := by
  have typed : (typed tags nested).Reports :=
    (reports_word _ _ rfl).bind fun type => reports_blanks.bind fun _ => reports_kind h type
  refine reports_blanks.bind fun _ => (reports_word _ _ rfl).bind fun _ => ?_
  refine reports_blanks.bind fun _ => (reports_mark? _).bind fun _ => ?_
  refine .ite (fun _ => reports_pure _) fun _ => (reports_mark? _).bind fun _ => ?_
  refine .ite (fun _ => ?_) fun _ => reports_stop rfl
  exact reports_blanks.bind fun _ => typed.bind fun _ => reports_pure _

/-- The id behind the start of a closing tag, up to a character that ends it. -/
theorem exists_closing {word after : List Char} (h : Run (!endsWord true ·) cs word after) :
    ∃ after, '<' :: '/' :: cs = '<' :: '/' :: ((String.ofList word).toList ++ after) ∧
      StopsAt (endsWord true) after :=
  ⟨after, by rw [h.split, String.toList_ofList], by simpa using h.longest⟩

theorem reports_closingTag (id : String) : (closingTag id).Reports := by
  intro cs
  by_cases start : ['<', '/'] <+: cs
  · obtain ⟨behind, rfl⟩ := start
    have run := run_takeWhile (!endsWord true ·) behind
    generalize behind.takeWhile (!endsWord true ·) = word at run
    generalize behind.dropWhile (!endsWord true ·) = after at run
    change Reading.Reports ('<' :: '/' :: behind) (closingTag id ('<' :: '/' :: behind))
    rw [closingTag_append id run]
    apply Reading.Reports.after
    split
    · have closed : (blanks >>= fun _ => mark ['>'] .tagEnd).Reports :=
        reports_blanks.bind fun _ => reports_mark _ rfl
      refine (closed after).behind ⟨'<' :: '/' :: word, ?_⟩
      rw [run.split]
      rfl
    · exact ⟨[], rfl, exists_closing run⟩
  · rw [closingTag_of_not id start]
    exact ⟨[], rfl, trivial⟩

theorem reports_tag (h : (nested scope.inTag).Reports) : (tag nested scope).Reports := by
  refine (reports_word _ _ rfl).bind fun id => reports_blanks.bind fun _ => ?_
  refine (reports_mark? _).bind fun _ => .ite (fun _ => reports_pure _) fun _ => ?_
  refine (reports_mark? _).bind fun _ => .ite (fun _ => ?_) fun _ => reports_stop rfl
  exact h.bind fun _ => (reports_closingTag id).bind fun _ => reports_pure _

theorem reports_element? (h : ∀ scope, (nested scope).Reports) :
    (element? tags nested scope).Reports := by
  refine (reports_text? .text).bind fun text => ?_
  cases text with
  | some text => exact reports_pure _
  | none =>
    refine reports_ahead fun cs => ?_
    split
    · exact (reports_mark? _).bind (fun _ => reports_pure _) _
    · split
      · exact ⟨[], rfl, exists_closing (run_takeWhile _ _)⟩
      · exact reports_pure _ _
    · exact (reports_mark? _).bind (fun _ => (reports_tag (h _)).bind fun _ => reports_pure _) _
    · exact (reports_mark? _).bind
        (fun _ => (reports_placeholder h).bind fun _ => reports_pure _) _
    · exact reports_pure _ _

theorem reports_message (tags : Bool) (room : Nat) (scope : Scope) :
    (message tags room scope).Reports := by
  induction room generalizing scope with
  | zero => exact reports_stop rfl
  | succ room ih => exact reports_many (reports_element? ih)

theorem reports_pattern (tags : Bool) : (pattern tags).Reports := by
  refine (reports_many (reports_element? (reports_message tags maxDepth))).bind fun message => ?_
  refine reports_ahead fun cs => ?_
  cases cs with
  | nil => exact reports_pure _ _
  | cons c cs => exact reports_stop rfl _

end Grammar

/-! ## Whole patterns -/

/-- An error lies within the pattern, between two characters, and what it found lies ahead there,
unless it is an offset that is too large or a closing tag whose id is not followed by its end. -/
theorem parse_error_foundAt_iff {tags : Bool} {pattern : String} {error : SyntaxError}
    (h : parse tags pattern = .error error) :
    ∃ front rest, pattern.toList = front ++ rest ∧ error.offset = byteLength front ∧
      error.offset ≤ pattern.utf8ByteSize ∧ error.fault.ReportedAt front rest ∧
      (FoundAt rest error.found ↔ error.fault.Describes rest) := by
  have reports := Grammar.reports_pattern tags pattern.toList
  cases hr : Grammar.pattern tags pattern.toList with
  | done message rest tokens =>
    rw [parse_of_done hr] at h
    cases h
  | stopped fault rest tokens =>
    rw [hr] at reports
    rw [parse_of_stopped hr] at h
    cases h
    obtain ⟨front, split, reported⟩ := reports
    have offset := offset_ofRest split fault
    refine ⟨front, rest, split, offset, ?_, reported, Fault.foundAt_iff reported⟩
    rw [offset, ← byteLength_toList, split, byteLength_append]
    exact Nat.le_add_right _ _

/-- What is found of an offset that is too large stands in front of the place of the error, and of a
closing tag there may be less than what is found. -/
theorem parse_error_foundAt_iff_offset :
    (∃ error front rest, parse false "{n, plural, offset:4294967296 other {x}}" = .error error ∧
      error.found = "4294967296" ∧ error.offset = 29 ∧
      "{n, plural, offset:4294967296 other {x}}".toList = front ++ rest ∧
      error.offset = byteLength front ∧ ¬ FoundAt rest error.found) ∧
    ∃ error front rest, parse true "<a></b >" = .error error ∧ error.found = "</b>" ∧
      error.offset = 3 ∧ "<a></b >".toList = front ++ rest ∧
      error.offset = byteLength front ∧ ¬ FoundAt rest error.found := by
  have large : parse false "{n, plural, offset:4294967296 other {x}}" =
      .error (.ofRest "{n, plural, offset:4294967296 other {x}}" " other \x7bx\x7d\x7d".toList
        (.offsetTooLarge "4294967296")) := by cbv
  have closing : parse true "<a></b >" =
      .error (.ofRest "<a></b >" "</b >".toList (.mismatchedTag "a" "b")) := by cbv
  constructor
  · obtain ⟨front, rest, split, offset, -, -, found⟩ := parse_error_foundAt_iff large
    exact ⟨_, front, rest, large, rfl, by decide +kernel, split, offset, found.not.2 id⟩
  · obtain ⟨front, rest, split, offset, -, -, found⟩ := parse_error_foundAt_iff closing
    refine ⟨_, front, rest, closing, by decide +kernel, by decide +kernel, split, offset, ?_⟩
    have text : "<a></b >".toList = ['<', 'a', '>'] ++ ['<', '/', 'b', ' ', '>'] := by
      decide +kernel
    have passed := takeBytes_append front rest
    rw [← split, ← offset] at passed
    obtain rfl : ['<', 'a', '>'] = front := Eq.trans (by decide +kernel) passed
    obtain rfl : ['<', '/', 'b', ' ', '>'] = rest := List.append_cancel_left (text.symm.trans split)
    refine found.not.2 ?_
    rintro ⟨after, follows⟩
    simp at follows

end MessageFormat
