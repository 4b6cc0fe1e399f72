import MessageFormat.Proofs.FaultPlaces

/-!
# Lines and columns

What is passed behind a place moves it on, to a later line or to a later column of the same one
(`Position.lt_after_append`). So the places of a pattern are ordered as its offsets are, and a line
and a column belong to one offset only (`Position.ofOffset_lt_iff`).
-/

namespace MessageFormat

namespace Position

variable {p q : Position} {cs more : List Char}

instance : LT Position where
  lt p q := p.line < q.line ∨ p.line = q.line ∧ p.column < q.column

theorem lt_iff : p < q ↔ p.line < q.line ∨ p.line = q.line ∧ p.column < q.column := Iff.rfl

theorem lt_asymm (h : p < q) : ¬ q < p := by
  rw [lt_iff] at *
  omega

theorem ne_of_lt (h : p < q) : p ≠ q := by
  rintro rfl
  exact lt_asymm h h

/-! ## What is passed -/

theorem line_after_append (cs more : List Char) :
    (after (cs ++ more)).line = (after cs).line + more.count '\n' := by
  rw [after, after, List.count_append]
  exact Nat.add_right_comm _ _ _

theorem column_after_append (cs : List Char) (h : '\n' ∉ more) :
    (after (cs ++ more)).column = (after cs).column + more.length := by
  have all : ∀ c ∈ more.reverse, (c != '\n') = true := by
    intro c hc
    exact bne_iff_ne.2 (ne_of_mem_of_not_mem (List.mem_reverse.1 hc) h)
  rw [after, after, List.reverse_append, List.takeWhile_append_of_pos all, List.length_append,
    List.length_reverse]
  dsimp only
  omega

theorem lt_after_append (cs : List Char) (h : more ≠ []) : after cs < after (cs ++ more) := by
  rw [lt_iff, line_after_append]
  by_cases newline : '\n' ∈ more
  · exact .inl (Nat.lt_add_of_pos_right (List.count_pos_iff.2 newline))
  · rw [List.count_eq_zero.2 newline, column_after_append cs newline]
    exact .inr ⟨rfl, Nat.lt_add_of_pos_right (List.length_pos_iff.2 h)⟩

/-- The column counts what has been passed since the last newline. -/
theorem exists_line (cs : List Char) : ∃ lines line, cs = lines ++ line ∧
    (lines = [] ∨ lines.getLast? = some '\n') ∧ '\n' ∉ line ∧
      (after cs).column = line.length + 1 := by
  have run := run_takeWhile (· != '\n') cs.reverse
  refine ⟨(cs.reverse.dropWhile (· != '\n')).reverse, (cs.reverse.takeWhile (· != '\n')).reverse,
    ?_, ?_, ?_, ?_⟩
  · rw [← List.reverse_append, ← run.split, List.reverse_reverse]
  · have stops := run.longest
    cases hc : cs.reverse.dropWhile (· != '\n') with
    | nil => exact .inl rfl
    | cons c rest =>
      rw [hc, stopsAt_cons] at stops
      exact .inr (by simpa using stops)
  · intro newline
    exact absurd (run.all _ (List.mem_reverse.1 newline)) (by decide)
  · rw [List.length_reverse, after]

/-! ## Offsets -/

variable {pattern : String} {front rest : List Char}

/-- What stands in front of an offset of a pattern. -/
def passed (offset : pattern.Pos) : List Char :=
  (pattern.sliceTo offset).copy.toList

def ofOffset (offset : pattern.Pos) : Position :=
  after (passed offset)

theorem byteLength_passed (offset : pattern.Pos) :
    byteLength (passed offset) = offset.offset.byteIdx := by
  rw [passed, byteLength_toList, offset.splits.offset_eq_rawEndPos, String.byteIdx_rawEndPos]

theorem passed_isPrefix (offset : pattern.Pos) : passed offset <+: pattern.toList := by
  refine ⟨(pattern.sliceFrom offset).copy.toList, ?_⟩
  rw [passed, ← String.toList_append, ← offset.splits.eq_append]

/-- Every front of a pattern ends at an offset. -/
theorem exists_passed_eq (split : pattern.toList = front ++ rest) :
    ∃ offset : pattern.Pos, passed offset = front := by
  have whole : pattern = String.ofList front ++ String.ofList rest := by
    rw [← String.ofList_append, ← split, String.ofList_toList]
  have valid := String.Pos.Raw.isValid_iff_exists_append.2 ⟨_, _, whole, rfl⟩
  have splits : String.Pos.Splits ⟨_, valid⟩ (String.ofList front) (String.ofList rest) := ⟨whole, rfl⟩
  refine ⟨⟨_, valid⟩, ?_⟩
  rw [passed, (String.Pos.splits _).eq splits |>.1, String.toList_ofList]

theorem exists_passed_append {a b : pattern.Pos} (h : a < b) :
    ∃ more ≠ [], passed b = passed a ++ more := by
  have less : byteLength (passed a) < byteLength (passed b) := by
    rw [byteLength_passed, byteLength_passed]
    exact String.Pos.lt_iff.1 h
  rcases List.prefix_or_prefix_of_prefix (passed_isPrefix a) (passed_isPrefix b) with
    ⟨more, split⟩ | ⟨more, split⟩
  · refine ⟨more, ?_, split.symm⟩
    rintro rfl
    rw [← split, List.append_nil] at less
    exact Nat.lt_irrefl _ less
  · rw [← split, byteLength_append] at less
    omega

theorem ofOffset_lt_of_lt {a b : pattern.Pos} (h : a < b) : ofOffset a < ofOffset b := by
  obtain ⟨more, some, split⟩ := exists_passed_append h
  rw [ofOffset, ofOffset, split]
  exact lt_after_append _ some

theorem offset_trichotomy (a b : pattern.Pos) : a < b ∨ a = b ∨ b < a := by
  rcases Nat.lt_trichotomy a.offset.byteIdx b.offset.byteIdx with less | equal | greater
  · exact .inl less
  · exact .inr (.inl (String.Pos.ext (String.Pos.Raw.ext equal)))
  · exact .inr (.inr greater)

theorem position_of_parse_error {tags : Bool} {error : SyntaxError}
    (h : parse tags pattern = .error error) :
    ∃ offset : pattern.Pos, error.offset = offset.offset.byteIdx ∧ error.position = ofOffset offset := by
  have reports := Grammar.reports_pattern tags pattern.toList
  cases hr : Grammar.pattern tags pattern.toList with
  | done message rest tokens =>
    rw [parse_of_done hr] at h
    cases h
  | stopped fault rest tokens =>
    rw [hr] at reports
    rw [parse_of_stopped hr] at h
    cases h
    obtain ⟨front, split, -⟩ := reports
    obtain ⟨offset, rfl⟩ := exists_passed_eq split
    refine ⟨offset, ?_, ?_⟩
    · rw [offset_ofRest split, byteLength_passed]
    · simp [SyntaxError.ofRest, split, ofOffset]

/-- The places of a pattern are ordered by line and column as its offsets are, the line being one
more than the newlines in front and the column one more than the characters since the last. An error
lies at the place of its offset. -/
theorem ofOffset_lt_iff (pattern : String) :
    (∀ a b : pattern.Pos, a < b ↔ ofOffset a < ofOffset b) ∧
    (∀ a b : pattern.Pos, ofOffset a = ofOffset b ↔ a = b) ∧
    (∀ a : pattern.Pos, (ofOffset a).line = (passed a).count '\n' + 1 ∧
      ∃ lines line, passed a = lines ++ line ∧ (lines = [] ∨ lines.getLast? = some '\n') ∧
        '\n' ∉ line ∧ (ofOffset a).column = line.length + 1) ∧
    ∀ tags error, parse tags pattern = .error error →
      ∃ a : pattern.Pos, error.offset = a.offset.byteIdx ∧ error.position = ofOffset a := by
  refine ⟨fun a b => ⟨ofOffset_lt_of_lt, fun h => ?_⟩, fun a b => ⟨fun same => ?_, congrArg _⟩,
    fun a => ⟨rfl, exists_line _⟩, fun _ _ => position_of_parse_error⟩
  · rcases offset_trichotomy a b with less | rfl | greater
    · exact less
    · exact absurd h (lt_asymm h)
    · exact absurd h (lt_asymm (ofOffset_lt_of_lt greater))
  · rcases offset_trichotomy a b with less | equal | greater
    · exact absurd same (ne_of_lt (ofOffset_lt_of_lt less))
    · exact equal
    · exact absurd same.symm (ne_of_lt (ofOffset_lt_of_lt greater))

end Position

end MessageFormat
