import MessageFormat.Identifier.Scheme
import MessageFormat.Proofs.Collapse.Reprint

/-!
# Normalized ids

The normalized id of a message is its printed form with the blanks collapsed. It tells messages
apart up to the blanks in their texts and styles, and it does not depend on the layout of the
pattern. It is not always an id of itself: a message that comes back from its printed form as
another one has another id then.
-/

namespace MessageFormat

open Identifier (normalized)

variable {pattern other : String} {message : Message}

theorem normalized_of_parse (h : parse false pattern = .ok message) :
    normalized pattern = Text.collapse (message.print false) := by
  rw [normalized, h]

theorem normalized_of_not_parse (h : ∀ message, parse false pattern ≠ .ok message) :
    normalized pattern = Text.collapse pattern := by
  cases hp : parse false pattern with
  | ok message => exact absurd hp (h message)
  | error fault => rw [normalized, hp]

/-! ## Layout -/

theorem Alike.parses {tags : Bool} (h : Alike pattern.toList other.toList) :
    (∃ message, parse tags pattern = .ok message) ↔ ∃ message, parse tags other = .ok message := by
  constructor
  · rintro ⟨message, read⟩
    obtain ⟨again, read', -⟩ := parse_alike h read
    exact ⟨again, read'⟩
  · rintro ⟨message, read⟩
    obtain ⟨again, read', -⟩ := parse_alike h.symm read
    exact ⟨again, read'⟩

theorem Alike.normalized_eq (h : Alike pattern.toList other.toList) :
    normalized pattern = normalized other := by
  by_cases parses : ∃ message, parse false pattern = .ok message
  · obtain ⟨message, read⟩ := parses
    obtain ⟨again, read', same⟩ := parse_alike h read
    rw [normalized_of_parse read, normalized_of_parse read']
    exact collapse_eq_iff.2 (alike_print_of_collapse same)
  · have parses' := mt h.parses.2 parses
    rw [normalized_of_not_parse (not_exists.1 parses),
      normalized_of_not_parse (not_exists.1 parses')]
    exact collapse_eq_iff.2 h

theorem alike_toList_collapse (pattern : String) :
    Alike (Text.collapse pattern).toList pattern.toList := by
  rw [toList_collapse]
  exact (alike_collapse pattern.toList).symm

/-- Collapsing the blanks of a pattern first changes neither whether it is read nor its id. -/
theorem normalized_collapse (pattern : String) :
    (∀ tags, (∃ message, parse tags (Text.collapse pattern) = .ok message) ↔
      ∃ message, parse tags pattern = .ok message) ∧
    normalized (Text.collapse pattern) = normalized pattern :=
  ⟨fun _ => (alike_toList_collapse pattern).parses, (alike_toList_collapse pattern).normalized_eq⟩

/-! ## Content -/

theorem collapse_print_eq_iff {again : Message} (wf : message.WellFormed)
    (wf' : again.WellFormed) (ht : message.hasTags = true → false = true)
    (ht' : again.hasTags = true → false = true) :
    Text.collapse (message.print false) = Text.collapse (again.print false) ↔
      message.collapse = again.collapse := by
  rw [collapse_eq_iff, alike_print_iff wf wf' ht ht']

/-- Two patterns have the same id just if they stand for the same message up to the blanks in its
texts and styles. -/
theorem normalized_eq_iff {again : Message} (h : parse false pattern = .ok message)
    (h' : parse false other = .ok again) :
    normalized pattern = normalized other ↔ message.collapse = again.collapse := by
  have derived := derives_of_parse h
  have derived' := derives_of_parse h'
  rw [normalized_of_parse h, normalized_of_parse h']
  exact collapse_print_eq_iff derived.wellFormed derived'.wellFormed derived.tags_of_hasTags
    derived'.tags_of_hasTags

theorem normalized_eq_of_layout :
    normalized "it''s  { n ,number}" = normalized "it's {n, number}" ∧
      normalized "it's {n, number}" ≠ normalized "its {n, number}" := by
  have loose : parse false "it''s  { n ,number}" =
    .ok [.text "it's  ", .placeholder "n" (.simple .number none)] := by cbv
  have tight : parse false "it's {n, number}" =
    .ok [.text "it's ", .placeholder "n" (.simple .number none)] := by cbv
  have other : parse false "its {n, number}" =
    .ok [.text "its ", .placeholder "n" (.simple .number none)] := by cbv
  exact ⟨(normalized_eq_iff loose tight).2 (by cbv),
    mt (normalized_eq_iff tight other).1 (by decide +kernel)⟩

/-! ## Ids of ids -/

/-- The printed form is read as the message, or not read at all. -/
def Message.Reprints (message : Message) : Prop :=
  message.Printable false ∨ ∀ again, parse false (message.print false) ≠ .ok again

theorem normalized_print_eq_iff (h : parse false pattern = .ok message) :
    normalized (message.print false) = normalized pattern ↔ message.Reprints := by
  have derived := derives_of_parse h
  have wf := derived.wellFormed
  have ht := derived.tags_of_hasTags
  rw [normalized_of_parse h]
  by_cases read : ∃ again, parse false (message.print false) = .ok again
  · obtain ⟨again, read⟩ := read
    have derived' := derives_of_parse read
    have reads : message.Reprints ↔ message.Printable false :=
      or_iff_left fun none => none again read
    rw [normalized_of_parse read, reads, ← wf.parse_print_iff ht,
      collapse_print_eq_iff derived'.wellFormed wf derived'.tags_of_hasTags ht]
    constructor
    · intro same
      rwa [wf.eq_of_parse_print ht read same] at read
    · intro back
      rw [Except.ok.inj (read.symm.trans back)]
  · have none := not_exists.1 read
    exact iff_of_true (normalized_of_not_parse none) (.inr none)

/-- The id of an id is that id, and the printed form of a message has its id, just if the printed
form is not read as another message. -/
theorem normalized_normalized_iff (pattern : String) :
    (normalized (normalized pattern) = normalized pattern ↔
      ∀ message, parse false pattern = .ok message → message.Reprints) ∧
    ∀ message, parse false pattern = .ok message →
      (normalized (message.print false) = normalized pattern ↔ message.Reprints) := by
  refine ⟨?_, fun message h => normalized_print_eq_iff h⟩
  by_cases parses : ∃ message, parse false pattern = .ok message
  · obtain ⟨message, h⟩ := parses
    have again : normalized (normalized pattern) = normalized (message.print false) := by
      rw [normalized_of_parse h]
      exact (alike_toList_collapse _).normalized_eq
    rw [again, normalized_print_eq_iff h]
    constructor
    · intro reprints _ h'
      rwa [← Except.ok.inj (h.symm.trans h')]
    · intro reprints
      exact reprints message h
  · have none := not_exists.1 parses
    refine iff_of_true ?_ fun message h => absurd h (none message)
    rw [normalized_of_not_parse none]
    exact (alike_toList_collapse pattern).normalized_eq.trans (normalized_of_not_parse none)

/-- An apostrophe between two braces becomes one more with every id that is taken. -/
theorem normalized_of_apostrophe :
    normalized "'\x7b''\x7b'" = "'\x7b''''\x7b'" ∧
      normalized (normalized "'\x7b''\x7b'") ≠ normalized "'\x7b''\x7b'" ∧
      parse false "'\x7b''\x7b'" = .ok [.text "\x7b'\x7b"] ∧
      normalized (Message.print false [.text "\x7b'\x7b"]) ≠ normalized "'\x7b''\x7b'" := by
  have read : parse false "'\x7b''\x7b'" = .ok [.text "\x7b'\x7b"] := by cbv
  have grows : ¬ Message.Reprints [.text "\x7b'\x7b"] := by
    have back : parse false (Message.print false [.text "\x7b'\x7b"]) =
        .ok [.text "\x7b''\x7b"] := by cbv
    rintro (printable | none)
    · exact absurd printable (by decide)
    · exact none _ back
  obtain ⟨twice, printed⟩ := normalized_normalized_iff "'\x7b''\x7b'"
  refine ⟨by cbv, ?_, read, mt (printed _ read).1 grows⟩
  exact fun same => grows (twice.1 same _ read)

end MessageFormat
