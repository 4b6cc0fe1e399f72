import MessageFormat.Pattern.Grammar
import MessageFormat.Proofs.Quotation

/-!
# What each reader of the grammar reads

One lemma for every reader of one level, with the reader of nested messages left open. A reader
that skips blanks leaves none of them ahead, which the lemmas state beside the piece it read.
-/

namespace MessageFormat

open Reader

variable {tags : Bool} {scope : Scope} {cs rest : List Char}

theorem isBlank_of_isDigit {c : Char} (h : Decimal.isDigit c = true) : Text.isBlank c = false := by
  simp only [Decimal.isDigit, Bool.and_eq_true, decide_eq_true_eq, Char.le_def,
    UInt32.le_iff_toNat_le] at h
  have low : ('0' : Char).val.toNat = 48 := rfl
  have high : ('9' : Char).val.toNat = 57 := rfl
  have code : c.toNat = c.val.toNat := rfl
  simp only [Text.isBlank, Text.inRanges, Text.blankRanges, List.any_cons, List.any_nil,
    Bool.or_false, Bool.or_eq_false_iff, Bool.and_eq_false_iff, decide_eq_false_iff_not]
  omega

theorem stopsAt_blank_cons {c : Char} (h : Text.isBlank c = false) :
    StopsAt (!Text.isBlank ·) (c :: cs) := by
  rw [stopsAt_cons, h]
  rfl

namespace Grammar

/-! ## Texts -/

theorem read?_text? (kind : TokenKind) : read? (text? tags scope kind) cs =
    if (readText tags scope false cs).raw.isEmpty then some (none, cs)
    else some (some (String.ofList (readText tags scope false cs).content),
      (readText tags scope false cs).rest) := by
  unfold read? text?
  dsimp only
  split <;> rfl

theorem read?_text?_eq_some {kind : TokenKind} {content : String} :
    read? (text? tags scope kind) cs = some (some content, rest) ↔
      DerivesText tags scope cs content.toList rest ∧ content ≠ "" := by
  rw [read?_text?, derivesText_iff]
  split
  · rename_i h
    have empty := readText_raw_eq_nil.1 (List.isEmpty_iff.1 h)
    constructor
    · intro h
      cases h
    · rintro ⟨⟨h, -⟩, hne⟩
      rw [empty] at h
      exact absurd (by simpa using h.symm) hne
  · rename_i h
    have content := mt readText_raw_eq_nil.2 (mt List.isEmpty_iff.2 h)
    constructor
    · rintro ⟨⟩
      exact ⟨⟨by simp, rfl⟩, by simpa using content⟩
    · rintro ⟨⟨h₁, h₂⟩, -⟩
      rw [h₁, h₂, String.ofList_toList]

theorem read?_text?_eq_none {kind : TokenKind} :
    read? (text? tags scope kind) cs = some (none, rest) ↔
      rest = cs ∧ StopsAt (endsText tags scope) cs := by
  rw [read?_text?]
  split
  · rename_i h
    have empty := readText_raw_eq_nil.1 (List.isEmpty_iff.1 h)
    have derived := derivesText_iff.2 ⟨empty, (rfl : _ = (readText tags scope false cs).rest)⟩
    have stops := derived.stopsAt
    rw [derived.eq_of_nil] at stops
    constructor
    · rintro ⟨⟩
      exact ⟨rfl, stops⟩
    · rintro ⟨rfl, -⟩
      rfl
  · rename_i h
    constructor
    · intro h
      cases h
    · rintro ⟨-, stops⟩
      rw [readText_done stops] at h
      exact absurd rfl h

theorem read?_style_eq_some {content : String} : read? (style tags) cs = some (content, rest) ↔
    DerivesText tags .style cs content.toList rest ∧ content ≠ "" := by
  unfold style
  rw [read?_bind_eq_some, ← @read?_text?_eq_some _ _ _ _ .style]
  constructor
  · rintro ⟨_ | text, mid, ht, h⟩
    · cases h
    · cases h
      exact ht
  · intro h
    exact ⟨_, _, h, rfl⟩

/-! ## Marks between the parts of a placeholder -/

theorem read?_mark?_eq_some {text : List Char} {b : Bool} : read? (mark? text) cs = some (b, rest) ↔
    b = true ∧ cs = text ++ rest ∨ b = false ∧ rest = cs ∧ ¬ text <+: cs :=
  read?_literal?_eq_some

theorem read?_mark?_cons (c : Char) (cs : List Char) :
    read? (mark? [c]) (c :: cs) = some (true, cs) :=
  read?_literal?_append _ [c] cs

theorem read?_casesSeparator_eq_some {type : String} {u : Unit} :
    read? (casesSeparator type) cs = some (u, rest) ↔
      ∃ mid, cs = ',' :: mid ∧ Blanks mid rest ∧ StopsAt (!Text.isBlank ·) rest := by
  unfold casesSeparator
  rw [read?_bind_eq_some]
  constructor
  · rintro ⟨b, mid, hm, h⟩
    obtain ⟨rfl, rfl⟩ | ⟨rfl, rfl, -⟩ := read?_mark?_eq_some.1 hm
    · exact ⟨mid, rfl, read?_blanks_eq_some.1 h⟩
    · obtain ⟨ahead, mid, ha, h⟩ := read?_bind_eq_some.1 h
      cases ha
      split at h <;> cases h
  · rintro ⟨mid, rfl, h⟩
    exact ⟨true, mid, read?_literal?_append _ _ _, read?_blanks_eq_some.2 h⟩

theorem read?_offsetNumber_eq_some {n : UInt32} : read? offsetNumber cs = some (n, rest) ↔
    ∃ digits, Run Decimal.isDigit cs digits rest ∧ digits ≠ [] ∧ Decimal.valueOf digits < 2 ^ 32 ∧
      n = .ofNat (Decimal.valueOf digits) := by
  unfold offsetNumber
  rw [read?_bind_eq_some]
  constructor
  · rintro ⟨digits, mid, hd, h⟩
    rw [read?_ite, read?_ite] at h
    split at h
    · cases h
    · rename_i hne
      split at h
      · rename_i small
        cases h
        exact ⟨digits, read?_run_eq_some.1 hd, by simpa using hne, small, rfl⟩
      · cases h
  · rintro ⟨digits, hd, hne, small, rfl⟩
    refine ⟨digits, rest, read?_run_eq_some.2 hd, ?_⟩
    rw [read?_ite, if_neg (by simpa using hne), read?_ite, if_pos small, read?_pure]

theorem read?_offset_of_not (h : ¬ offsetMark <+: cs) : read? offset cs = some (0, cs) := by
  unfold offset
  have : (offsetWord ++ [':']).isPrefixOf cs = false := by
    simpa [offsetMark, offsetWord, ← List.isPrefixOf_iff_prefix] using h
  rw [read?_bind, read?_ahead, Option.bind_some, this]
  rfl

theorem read?_offset_append : read? offset (offsetMark ++ cs) =
    (read? blanks cs).bind fun x => read? offsetNumber x.2 := by
  unfold offset
  have : (offsetWord ++ [':']).isPrefixOf (offsetMark ++ cs) = true := by
    simp [offsetMark, offsetWord]
  have split : offsetMark ++ cs = offsetWord ++ ([':'] ++ cs) := rfl
  rw [read?_bind, read?_ahead, Option.bind_some, this, if_pos rfl, read?_bind, split,
    read?_literal?_append, Option.bind_some, read?_bind, mark?, read?_literal?_append,
    Option.bind_some, read?_bind]

theorem read?_closingBrace_eq_some {u : Unit} {fault : Fault} :
    (∃ mid, read? blanks cs = some ((), mid) ∧ read? (mark ['}'] fault) mid = some (u, rest)) ↔
      Blanks cs ('}' :: rest) := by
  constructor
  · rintro ⟨mid, hb, hm⟩
    rw [read?_mark_eq_some] at hm
    subst hm
    exact (read?_blanks_eq_some.1 hb).1
  · intro h
    exact ⟨_, read?_blanks_eq_some.2 ⟨h, stopsAt_blank_cons (by decide)⟩,
      read?_mark_eq_some.2 rfl⟩

theorem read?_optional_eq_some {α : Type} {reader : Reader α} {value : Option α} :
    read? (optional reader) cs = some (value, rest) ↔
      value = none ∧ cs = '}' :: rest ∨
      ∃ cs₁ cs₂ a cs₃, cs = ',' :: cs₁ ∧ Blanks cs₁ cs₂ ∧ StopsAt (!Text.isBlank ·) cs₂ ∧
        read? reader cs₂ = some (a, cs₃) ∧ Blanks cs₃ ('}' :: rest) ∧ value = some a := by
  unfold optional
  rw [read?_bind_eq_some]
  constructor
  · rintro ⟨b, mid, hm, h⟩
    obtain ⟨rfl, rfl⟩ | ⟨rfl, rfl, -⟩ := read?_mark?_eq_some.1 hm
    · cases h
      exact .inl ⟨rfl, rfl⟩
    · rw [if_neg Bool.false_ne_true] at h
      obtain ⟨b, cs₁, hm', h'⟩ := read?_bind_eq_some.1 h
      obtain ⟨rfl, rfl⟩ | ⟨rfl, rfl, -⟩ := read?_mark?_eq_some.1 hm'
      · rw [if_pos rfl] at h'
        obtain ⟨_, cs₂, hb, h'⟩ := read?_bind_eq_some.1 h'
        obtain ⟨a, cs₃, hr, h'⟩ := read?_bind_eq_some.1 h'
        obtain ⟨_, cs₄, hb', h'⟩ := read?_bind_eq_some.1 h'
        obtain ⟨u, cs₅, hc, h'⟩ := read?_bind_eq_some.1 h'
        cases h'
        obtain ⟨hb, stops⟩ := read?_blanks_eq_some.1 hb
        exact .inr ⟨_, cs₂, a, cs₃, rfl, hb, stops, hr,
          read?_closingBrace_eq_some.1 ⟨cs₄, hb', hc⟩, rfl⟩
      · cases h'
  · rintro (⟨rfl, rfl⟩ | ⟨cs₁, cs₂, a, cs₃, rfl, hb, stops, hr, hc, rfl⟩)
    · exact ⟨true, rest, read?_literal?_append _ _ _, rfl⟩
    · obtain ⟨cs₄, hb', hc⟩ := (@read?_closingBrace_eq_some _ _ () .closingBrace).2 hc
      refine ⟨false, _, read?_literal?_of_not _ (by simp), ?_⟩
      refine read?_bind_eq_some.2 ⟨true, cs₁, read?_literal?_append _ _ _, ?_⟩
      refine read?_bind_eq_some.2 ⟨(), cs₂, read?_blanks_eq_some.2 ⟨hb, stops⟩, ?_⟩
      refine read?_bind_eq_some.2 ⟨a, cs₃, hr, ?_⟩
      refine read?_bind_eq_some.2 ⟨(), cs₄, hb', ?_⟩
      exact read?_bind_eq_some.2 ⟨(), rest, hc, rfl⟩

/-! ## Cases -/

variable {nested : Nested}

theorem read?_case?_eq_some {branch : Case} :
    read? (case? nested scope) cs = some (some branch, rest) ↔
      ∃ cs₁ cs₂ cs₃, Word false cs branch.selector cs₁ ∧ Blanks cs₁ ('{' :: cs₂) ∧
        read? (nested scope) cs₂ = some (branch.message, '}' :: cs₃) ∧
        Blanks cs₃ rest ∧ StopsAt (!Text.isBlank ·) rest := by
  unfold case?
  rw [read?_bind_eq_some]
  constructor
  · rintro ⟨_ | selector, cs₁, hw, h⟩
    · cases h
    · obtain ⟨_, cs₂, hb, h⟩ := read?_bind_eq_some.1 h
      obtain ⟨_, cs₂, ho, h⟩ := read?_bind_eq_some.1 h
      obtain ⟨message, _, hn, h⟩ := read?_bind_eq_some.1 h
      obtain ⟨_, cs₃, hc, h⟩ := read?_bind_eq_some.1 h
      obtain ⟨_, cs₄, hb', h⟩ := read?_bind_eq_some.1 h
      cases h
      obtain rfl := read?_mark_eq_some.1 ho
      obtain rfl := read?_mark_eq_some.1 hc
      exact ⟨cs₁, _, _, read?_word?_eq_some.1 hw, (read?_blanks_eq_some.1 hb).1, hn,
        read?_blanks_eq_some.1 hb'⟩
  · obtain ⟨selector, message⟩ := branch
    rintro ⟨cs₁, cs₂, cs₃, hw, hb, hn, hb'⟩
    refine ⟨some selector, cs₁, read?_word?_eq_some.2 hw, ?_⟩
    refine read?_bind_eq_some.2 ⟨(), '{' :: cs₂,
      read?_blanks_eq_some.2 ⟨hb, stopsAt_blank_cons (by decide)⟩, ?_⟩
    refine read?_bind_eq_some.2 ⟨(), cs₂, read?_mark_eq_some.2 rfl, ?_⟩
    refine read?_bind_eq_some.2 ⟨message, '}' :: cs₃, hn, ?_⟩
    refine read?_bind_eq_some.2 ⟨(), cs₃, read?_mark_eq_some.2 rfl, ?_⟩
    exact read?_bind_eq_some.2 ⟨(), rest, read?_blanks_eq_some.2 hb', rfl⟩

theorem read?_case?_eq_none : read? (case? nested scope) cs = some (none, rest) ↔
    rest = cs ∧ StopsAt (endsWord false) cs := by
  unfold case?
  rw [read?_bind_eq_some, ← @read?_word?_eq_none .selector]
  constructor
  · rintro ⟨_ | selector, mid, hw, h⟩
    · cases h
      exact hw
    · obtain ⟨_, _, -, h⟩ := read?_bind_eq_some.1 h
      obtain ⟨_, _, -, h⟩ := read?_bind_eq_some.1 h
      obtain ⟨_, _, -, h⟩ := read?_bind_eq_some.1 h
      obtain ⟨_, _, -, h⟩ := read?_bind_eq_some.1 h
      obtain ⟨_, _, -, h⟩ := read?_bind_eq_some.1 h
      cases h
  · intro h
    exact ⟨none, rest, h, rfl⟩

theorem read?_complete_eq_some {owner : Option String} {collected value : Cases} :
    read? (complete owner value) cs = some (collected, rest) ↔
      cs = rest ∧ collected = value ∧
        (owner ≠ none → Cases.contains collected "other" = true) := by
  cases owner with
  | none =>
    simp only [complete, read?_pure, Option.some.injEq, Prod.mk.injEq]
    constructor
    · rintro ⟨rfl, rfl⟩
      exact ⟨rfl, rfl, fun h => absurd rfl h⟩
    · rintro ⟨rfl, rfl, -⟩
      exact ⟨rfl, rfl⟩
  | some type =>
    simp only [complete]
    rw [read?_ite]
    split
    · rename_i other
      simp only [read?_pure, Option.some.injEq, Prod.mk.injEq]
      constructor
      · rintro ⟨rfl, rfl⟩
        exact ⟨rfl, rfl, fun _ => other⟩
      · rintro ⟨rfl, rfl, -⟩
        exact ⟨rfl, rfl⟩
    · rename_i missing
      simp only [read?_stop, reduceCtorEq, false_iff]
      rintro ⟨-, rfl, other⟩
      exact missing (other (Option.some_ne_none _))

theorem read?_cases_eq_some {owner : Option String} {collected : Cases} :
    read? (cases nested scope owner) cs = some (collected, rest) ↔
      ∃ branches, read? (many (case? nested scope)) cs = some (branches, rest) ∧
        StopsAt (· == '}') rest ∧ collected = Cases.ofList branches ∧
        (owner ≠ none → Cases.contains collected "other" = true) := by
  unfold cases
  rw [read?_bind_eq_some]
  constructor
  · rintro ⟨branches, mid, hm, h⟩
    obtain ⟨_, _, ha, h⟩ := read?_bind_eq_some.1 h
    cases ha
    dsimp only at h
    split at h
    · obtain ⟨rfl, value, other⟩ := read?_complete_eq_some.1 h
      exact ⟨branches, hm, stopsAt_nil _, value, other⟩
    · rename_i c tail
      rw [read?_ite] at h
      split at h
      · rename_i hc
        obtain ⟨rfl, value, other⟩ := read?_complete_eq_some.1 h
        exact ⟨branches, hm, stopsAt_cons.2 (by simpa using hc), value, other⟩
      · cases h
  · rintro ⟨branches, hm, stops, value, other⟩
    refine ⟨branches, rest, hm, ?_⟩
    refine read?_bind_eq_some.2 ⟨rest, rest, rfl, ?_⟩
    dsimp only
    split
    · exact read?_complete_eq_some.2 ⟨rfl, value, other⟩
    · rename_i c tail
      obtain rfl : c = '}' := by simpa using stopsAt_cons.1 stops
      rw [read?_ite, if_pos rfl]
      exact read?_complete_eq_some.2 ⟨rfl, value, other⟩

/-! ## Kinds -/

theorem opensCase_eq_true : opensCase cs = true ↔ OpensCase cs := by
  have word := run_takeWhile (!endsWord false ·) cs
  have space := run_takeWhile Text.isBlank (cs.dropWhile (!endsWord false ·))
  simp only [opensCase, Bool.and_eq_true, Bool.not_eq_true', List.isEmpty_eq_false_iff,
    List.isPrefixOf_iff_prefix]
  constructor
  · rintro ⟨hne, rest, hr⟩
    have selector := run_word_iff.1 ⟨by simpa using word,
      show String.ofList (cs.takeWhile (!endsWord false ·)) ≠ "" by simpa using hne⟩
    have brace : Blanks (cs.dropWhile (!endsWord false ·)) ('{' :: rest) :=
      ⟨_, space.all, by rw [← List.singleton_append, hr]; exact space.split⟩
    exact ⟨_, _, rest, selector, brace⟩
  · rintro ⟨selector, mid, rest, hw, w, hall, rfl⟩
    obtain ⟨run, hne⟩ := run_word_iff.2 hw
    have brace : Run Text.isBlank (w ++ '{' :: rest) w ('{' :: rest) :=
      ⟨rfl, hall, stopsAt_blank_cons (by decide)⟩
    rw [run.takeWhile_eq.1, run.takeWhile_eq.2, brace.takeWhile_eq.2]
    exact ⟨by simpa using hne, rest, rfl⟩

theorem read?_customStyle_eq_some {content : CustomStyle} :
    read? (customStyle tags nested) cs = some (content, rest) ↔
      OpensCase cs ∧ (∃ branches, content = .cases branches ∧
        read? (cases nested .branch none) cs = some (branches, rest)) ∨
      ¬ OpensCase cs ∧ ∃ text, content = .text text ∧
        read? (style tags) cs = some (text, rest) := by
  unfold customStyle
  rw [read?_bind, read?_ahead, Option.bind_some, ← opensCase_eq_true, read?_ite]
  dsimp only
  split
  · rename_i opens
    rw [read?_bind_eq_some]
    constructor
    · rintro ⟨branches, mid, h, e⟩
      cases e
      exact .inl ⟨opens, branches, rfl, h⟩
    · rintro (⟨-, branches, rfl, h⟩ | ⟨closed, -⟩)
      · exact ⟨branches, rest, h, rfl⟩
      · exact absurd opens closed
  · rename_i closed
    rw [read?_bind_eq_some]
    constructor
    · rintro ⟨text, mid, h, e⟩
      cases e
      exact .inr ⟨closed, text, rfl, h⟩
    · rintro (⟨opens, -⟩ | ⟨-, text, rfl, h⟩)
      · exact absurd opens closed
      · exact ⟨text, rest, h, rfl⟩

variable {type : String} {k : Kind}

theorem read?_kind_plural {plural : PluralType} (ht : PluralType.ofKeyword? type = some plural) :
    read? (kind tags nested type) cs = some (k, rest) ↔
      ∃ cs₁ cs₂ n cs₃ cs₄ branches, cs = ',' :: cs₁ ∧ Blanks cs₁ cs₂ ∧
        StopsAt (!Text.isBlank ·) cs₂ ∧ read? offset cs₂ = some (n, cs₃) ∧
        read? blanks cs₃ = some ((), cs₄) ∧
        read? (cases nested .plural (some type)) cs₄ = some (branches, '}' :: rest) ∧
        k = .plural plural n branches := by
  unfold kind
  rw [ht]
  dsimp only
  rw [read?_bind_eq_some]
  constructor
  · rintro ⟨_, cs₂, hs, h⟩
    obtain ⟨n, cs₃, ho, h⟩ := read?_bind_eq_some.1 h
    obtain ⟨_, cs₄, hb, h⟩ := read?_bind_eq_some.1 h
    obtain ⟨branches, _, hc, h⟩ := read?_bind_eq_some.1 h
    obtain ⟨_, _, hm, h⟩ := read?_bind_eq_some.1 h
    cases h
    obtain rfl := read?_mark_eq_some.1 hm
    obtain ⟨cs₁, rfl, hb', stops⟩ := read?_casesSeparator_eq_some.1 hs
    exact ⟨cs₁, cs₂, n, cs₃, cs₄, branches, rfl, hb', stops, ho, hb, hc, rfl⟩
  · rintro ⟨cs₁, cs₂, n, cs₃, cs₄, branches, rfl, hb, stops, ho, hb', hc, rfl⟩
    refine ⟨(), cs₂, read?_casesSeparator_eq_some.2 ⟨cs₁, rfl, hb, stops⟩, ?_⟩
    refine read?_bind_eq_some.2 ⟨n, cs₃, ho, ?_⟩
    refine read?_bind_eq_some.2 ⟨(), cs₄, hb', ?_⟩
    refine read?_bind_eq_some.2 ⟨branches, '}' :: rest, hc, ?_⟩
    exact read?_bind_eq_some.2 ⟨(), rest, read?_mark_eq_some.2 rfl, rfl⟩

theorem read?_kind_select : read? (kind tags nested "select") cs = some (k, rest) ↔
    ∃ cs₁ cs₂ branches, cs = ',' :: cs₁ ∧ Blanks cs₁ cs₂ ∧ StopsAt (!Text.isBlank ·) cs₂ ∧
      read? (cases nested .branch (some "select")) cs₂ = some (branches, '}' :: rest) ∧
      k = .select branches := by
  have unfolded : kind tags nested "select" = (do
      casesSeparator "select"
      let branches ← cases nested .branch (some "select")
      mark ['}'] .closingBrace
      return .select branches) := rfl
  rw [unfolded, read?_bind_eq_some]
  constructor
  · rintro ⟨_, cs₂, hs, h⟩
    obtain ⟨branches, _, hc, h⟩ := read?_bind_eq_some.1 h
    obtain ⟨_, _, hm, h⟩ := read?_bind_eq_some.1 h
    cases h
    obtain rfl := read?_mark_eq_some.1 hm
    obtain ⟨cs₁, rfl, hb', stops⟩ := read?_casesSeparator_eq_some.1 hs
    exact ⟨cs₁, cs₂, branches, rfl, hb', stops, hc, rfl⟩
  · rintro ⟨cs₁, cs₂, branches, rfl, hb, stops, hc, rfl⟩
    refine ⟨(), cs₂, read?_casesSeparator_eq_some.2 ⟨cs₁, rfl, hb, stops⟩, ?_⟩
    refine read?_bind_eq_some.2 ⟨branches, '}' :: rest, hc, ?_⟩
    exact read?_bind_eq_some.2 ⟨(), rest, read?_mark_eq_some.2 rfl, rfl⟩

theorem isCustom_or (type : String) : (∃ plural, PluralType.ofKeyword? type = some plural) ∨
    type = "select" ∨ (∃ simple, SimpleType.ofName? type = some simple) ∨ IsCustom type := by
  cases hp : PluralType.ofKeyword? type with
  | some plural => exact .inl ⟨plural, rfl⟩
  | none =>
    by_cases hs : type = "select"
    · exact .inr (.inl hs)
    · cases hn : SimpleType.ofName? type with
      | some simple => exact .inr (.inr (.inl ⟨simple, rfl⟩))
      | none => exact .inr (.inr (.inr ⟨hp, hs, hn⟩))

theorem simpleType_name {simple : SimpleType} (h : SimpleType.ofName? type = some simple) :
    type = simple.name := by
  unfold SimpleType.ofName? at h
  split at h <;> cases h <;> rfl

theorem read?_kind_simple {simple : SimpleType} (ht : SimpleType.ofName? type = some simple) :
    read? (kind tags nested type) cs = some (k, rest) ↔
      ∃ content, read? (optional (style tags)) cs = some (content, rest) ∧
        k = .simple simple content := by
  obtain rfl := simpleType_name ht
  have unfolded : kind tags nested simple.name = (do
      return .simple simple (← optional (style tags))) := by cases simple <;> rfl
  rw [unfolded, read?_bind_eq_some]
  constructor
  · rintro ⟨content, _, h, e⟩
    cases e
    exact ⟨content, h, rfl⟩
  · rintro ⟨content, h, rfl⟩
    exact ⟨content, rest, h, rfl⟩

theorem read?_kind_custom (ht : IsCustom type) :
    read? (kind tags nested type) cs = some (k, rest) ↔
      ∃ content, read? (optional (customStyle tags nested)) cs = some (content, rest) ∧
        k = .custom type (content.getD .none) := by
  obtain ⟨hp, hs, hn⟩ := ht
  unfold kind
  rw [hp, hn]
  dsimp only
  rw [if_neg hs, read?_bind_eq_some]
  constructor
  · rintro ⟨content, _, h, e⟩
    cases e
    exact ⟨content, h, rfl⟩
  · rintro ⟨content, h, rfl⟩
    exact ⟨content, rest, h, rfl⟩

/-! ## Elements -/

variable {e : Element}

theorem read?_typed_eq_some : read? (typed tags nested) cs = some (k, rest) ↔
    ∃ type cs₁ cs₂, Word false cs type cs₁ ∧ Blanks cs₁ cs₂ ∧ StopsAt (!Text.isBlank ·) cs₂ ∧
      read? (kind tags nested type) cs₂ = some (k, rest) := by
  unfold typed
  rw [read?_bind_eq_some]
  constructor
  · rintro ⟨type, cs₁, hw, h⟩
    obtain ⟨_, cs₂, hb, h⟩ := read?_bind_eq_some.1 h
    obtain ⟨hb, stops⟩ := read?_blanks_eq_some.1 hb
    exact ⟨type, cs₁, cs₂, read?_word_eq_some.1 hw, hb, stops, h⟩
  · rintro ⟨type, cs₁, cs₂, hw, hb, stops, h⟩
    refine ⟨type, cs₁, read?_word_eq_some.2 hw, ?_⟩
    exact read?_bind_eq_some.2 ⟨(), cs₂, read?_blanks_eq_some.2 ⟨hb, stops⟩, h⟩

theorem read?_placeholder_eq_some : read? (placeholder tags nested) cs = some (e, rest) ↔
    ∃ cs₁ id cs₂, Blanks cs cs₁ ∧ Word false cs₁ id cs₂ ∧
      (Blanks cs₂ ('}' :: rest) ∧ e = .placeholder id .argument ∨
      ∃ cs₃ cs₄ k, Blanks cs₂ (',' :: cs₃) ∧ Blanks cs₃ cs₄ ∧
        read? (typed tags nested) cs₄ = some (k, rest) ∧ e = .placeholder id k) := by
  unfold placeholder
  rw [read?_bind_eq_some]
  constructor
  · rintro ⟨_, cs₁, hb, h₁⟩
    obtain ⟨id, cs₂, hw, h₂⟩ := read?_bind_eq_some.1 h₁
    obtain ⟨_, mid, hb', h₃⟩ := read?_bind_eq_some.1 h₂
    obtain ⟨closes, mid', hm, h₄⟩ := read?_bind_eq_some.1 h₃
    refine ⟨cs₁, id, cs₂, (read?_blanks_eq_some.1 hb).1, read?_word_eq_some.1 hw, ?_⟩
    have hb' := (read?_blanks_eq_some.1 hb').1
    obtain ⟨rfl, rfl⟩ | ⟨rfl, rfl, -⟩ := read?_mark?_eq_some.1 hm
    · cases h₄
      exact .inl ⟨hb', rfl⟩
    · rw [if_neg Bool.false_ne_true] at h₄
      obtain ⟨typed, cs₃, hm', h₅⟩ := read?_bind_eq_some.1 h₄
      obtain ⟨rfl, rfl⟩ | ⟨rfl, rfl, -⟩ := read?_mark?_eq_some.1 hm'
      · rw [if_pos rfl] at h₅
        obtain ⟨_, cs₄, hb₄, h₆⟩ := read?_bind_eq_some.1 h₅
        obtain ⟨k, _, hk, h₇⟩ := read?_bind_eq_some.1 h₆
        cases h₇
        exact .inr ⟨cs₃, cs₄, k, hb', (read?_blanks_eq_some.1 hb₄).1, hk, rfl⟩
      · cases h₅
  · rintro ⟨cs₁, id, cs₂, hb, hw, h⟩
    refine ⟨(), cs₁, read?_blanks_eq_some.2 ⟨hb, hw.stopsAt_blank⟩, ?_⟩
    refine read?_bind_eq_some.2 ⟨id, cs₂, read?_word_eq_some.2 hw, ?_⟩
    obtain ⟨hb', rfl⟩ | ⟨cs₃, cs₄, k, hb', hb₄, hk, rfl⟩ := h
    · refine read?_bind_eq_some.2 ⟨(), '}' :: rest,
        read?_blanks_eq_some.2 ⟨hb', stopsAt_blank_cons (by decide)⟩, ?_⟩
      exact read?_bind_eq_some.2 ⟨true, rest, read?_literal?_append _ _ _, rfl⟩
    · obtain ⟨type, cs₅, cs₆, hw₅, -⟩ := read?_typed_eq_some.1 hk
      refine read?_bind_eq_some.2 ⟨(), ',' :: cs₃,
        read?_blanks_eq_some.2 ⟨hb', stopsAt_blank_cons (by decide)⟩, ?_⟩
      refine read?_bind_eq_some.2 ⟨false, _, read?_literal?_of_not _ (by simp), ?_⟩
      refine read?_bind_eq_some.2 ⟨true, cs₃, read?_literal?_append _ _ _, ?_⟩
      refine read?_bind_eq_some.2 ⟨(), cs₄,
        read?_blanks_eq_some.2 ⟨hb₄, hw₅.stopsAt_blank⟩, ?_⟩
      exact read?_bind_eq_some.2 ⟨k, rest, hk, rfl⟩

theorem read?_closingTag_eq_some {id : String} (hid : id ≠ "") {u : Unit} :
    read? (closingTag id) cs = some (u, rest) ↔
      ∃ cs₁ cs₂, cs = '<' :: '/' :: cs₁ ∧ Word true cs₁ id cs₂ ∧ Blanks cs₂ ('>' :: rest) := by
  unfold closingTag
  rw [read?_bind, read?_ahead, Option.bind_some, read?_bind_eq_some]
  constructor
  · rintro ⟨_, cs₁, hm, h₁⟩
    obtain ⟨other, cs₂, hw, h₂⟩ := read?_bind_eq_some.1 h₁
    obtain rfl := read?_mark_eq_some.1 hm
    dsimp only at h₂
    rw [read?_ite] at h₂
    split at h₂
    · rename_i same
      obtain ⟨_, mid, hb, h₃⟩ := read?_bind_eq_some.1 h₂
      obtain rfl := read?_mark_eq_some.1 h₃
      cases other with
      | none => exact absurd same.symm hid
      | some other =>
        obtain rfl : other = id := same
        exact ⟨cs₁, cs₂, rfl, read?_word?_eq_some.1 hw, (read?_blanks_eq_some.1 hb).1⟩
    · cases h₂
  · rintro ⟨cs₁, cs₂, rfl, hw, hb⟩
    refine ⟨(), cs₁, read?_mark_eq_some.2 rfl, ?_⟩
    refine read?_bind_eq_some.2 ⟨some id, cs₂, read?_word?_eq_some.2 hw, ?_⟩
    dsimp only
    rw [read?_ite, if_pos Option.getD_some]
    refine read?_bind_eq_some.2 ⟨(), '>' :: rest,
      read?_blanks_eq_some.2 ⟨hb, stopsAt_blank_cons (by decide)⟩, ?_⟩
    exact read?_mark_eq_some.2 rfl

theorem read?_tag_eq_some : read? (tag nested scope) cs = some (e, rest) ↔
    ∃ id cs₁, Word true cs id cs₁ ∧
      (Blanks cs₁ ('/' :: '>' :: rest) ∧ e = .placeholder id .emptyTag ∨
      ∃ cs₂ children cs₃ cs₄, Blanks cs₁ ('>' :: cs₂) ∧
        read? (nested scope.inTag) cs₂ = some (children, '<' :: '/' :: cs₃) ∧
        Word true cs₃ id cs₄ ∧ Blanks cs₄ ('>' :: rest) ∧
        e = .placeholder id (.tag children)) := by
  unfold tag
  rw [read?_bind_eq_some]
  constructor
  · rintro ⟨id, cs₁, hw, h₁⟩
    obtain ⟨_, mid, hb, h₂⟩ := read?_bind_eq_some.1 h₁
    obtain ⟨empty, mid', hm, h₃⟩ := read?_bind_eq_some.1 h₂
    have hw := read?_word_eq_some.1 hw
    have hb := (read?_blanks_eq_some.1 hb).1
    refine ⟨id, cs₁, hw, ?_⟩
    obtain ⟨rfl, rfl⟩ | ⟨rfl, rfl, -⟩ := read?_mark?_eq_some.1 hm
    · cases h₃
      exact .inl ⟨hb, rfl⟩
    · rw [if_neg Bool.false_ne_true] at h₃
      obtain ⟨closes, cs₂, hm', h₄⟩ := read?_bind_eq_some.1 h₃
      obtain ⟨rfl, rfl⟩ | ⟨rfl, rfl, -⟩ := read?_mark?_eq_some.1 hm'
      · rw [if_pos rfl] at h₄
        obtain ⟨children, _, hn, h₅⟩ := read?_bind_eq_some.1 h₄
        obtain ⟨_, _, hc, h₆⟩ := read?_bind_eq_some.1 h₅
        cases h₆
        obtain ⟨cs₃, cs₄, rfl, hw', hb'⟩ := (read?_closingTag_eq_some hw.isWord.1).1 hc
        exact .inr ⟨cs₂, children, cs₃, cs₄, hb, hn, hw', hb', rfl⟩
      · cases h₄
  · rintro ⟨id, cs₁, hw, h⟩
    refine ⟨id, cs₁, read?_word_eq_some.2 hw, ?_⟩
    obtain ⟨hb, rfl⟩ | ⟨cs₂, children, cs₃, cs₄, hb, hn, hw', hb', rfl⟩ := h
    · refine read?_bind_eq_some.2 ⟨(), '/' :: '>' :: rest,
        read?_blanks_eq_some.2 ⟨hb, stopsAt_blank_cons (by decide)⟩, ?_⟩
      exact read?_bind_eq_some.2 ⟨true, rest, read?_literal?_append _ ['/', '>'] _, rfl⟩
    · refine read?_bind_eq_some.2 ⟨(), '>' :: cs₂,
        read?_blanks_eq_some.2 ⟨hb, stopsAt_blank_cons (by decide)⟩, ?_⟩
      refine read?_bind_eq_some.2 ⟨false, _, read?_literal?_of_not _ (by simp), ?_⟩
      refine read?_bind_eq_some.2 ⟨true, cs₂, read?_literal?_append _ _ _, ?_⟩
      refine read?_bind_eq_some.2 ⟨children, _, hn, ?_⟩
      refine read?_bind_eq_some.2 ⟨(), rest, ?_, rfl⟩
      exact (read?_closingTag_eq_some hw.isWord.1).2 ⟨cs₃, cs₄, rfl, hw', hb'⟩

theorem read?_element?_eq_some :
    read? (element? tags nested scope) cs = some (some e, rest) ↔
      (∃ content, e = .text content ∧ DerivesText tags scope cs content.toList rest ∧
        content ≠ "") ∨
      StopsAt (endsText tags scope) cs ∧
        (cs = '#' :: rest ∧ e = .hash ∨
        (∃ cs₁, cs = '<' :: cs₁ ∧ ¬ ['/'] <+: cs₁ ∧
          read? (tag nested scope) cs₁ = some (e, rest)) ∨
        ∃ cs₁, cs = '{' :: cs₁ ∧ read? (placeholder tags nested) cs₁ = some (e, rest)) := by
  unfold element?
  rw [read?_bind_eq_some]
  constructor
  · rintro ⟨_ | content, mid, ht, h₁⟩
    · obtain ⟨rfl, stops⟩ := read?_text?_eq_none.1 ht
      refine .inr ⟨stops, ?_⟩
      obtain ⟨_, _, ha, h₂⟩ := read?_bind_eq_some.1 h₁
      cases ha
      split at h₂
      · obtain ⟨_, _, hm, h₃⟩ := read?_bind_eq_some.1 h₂
        cases h₃
        rw [read?_mark?_cons] at hm
        cases hm
        exact .inl ⟨rfl, rfl⟩
      · rw [read?_ite] at h₂
        split at h₂ <;> cases h₂
      · rename_i tail noSlash
        obtain ⟨_, _, hm, h₃⟩ := read?_bind_eq_some.1 h₂
        obtain ⟨_, _, htag, h₄⟩ := read?_bind_eq_some.1 h₃
        cases h₄
        rw [read?_mark?_cons] at hm
        cases hm
        refine .inr (.inl ⟨tail, rfl, ?_, htag⟩)
        rintro ⟨after, rfl⟩
        exact noSlash after rfl
      · rename_i tail
        obtain ⟨_, _, hm, h₃⟩ := read?_bind_eq_some.1 h₂
        obtain ⟨_, _, hp, h₄⟩ := read?_bind_eq_some.1 h₃
        cases h₄
        rw [read?_mark?_cons] at hm
        cases hm
        exact .inr (.inr ⟨tail, rfl, hp⟩)
      · cases h₂
    · cases h₁
      exact .inl ⟨content, rfl, read?_text?_eq_some.1 ht⟩
  · rintro (⟨content, rfl, h⟩ | ⟨stops, h⟩)
    · exact ⟨some content, rest, read?_text?_eq_some.2 h, rfl⟩
    · refine ⟨none, cs, read?_text?_eq_none.2 ⟨rfl, stops⟩, ?_⟩
      refine read?_bind_eq_some.2 ⟨cs, cs, rfl, ?_⟩
      obtain ⟨rfl, rfl⟩ | ⟨cs₁, rfl, noSlash, h⟩ | ⟨cs₁, rfl, h⟩ := h
      · exact read?_bind_eq_some.2 ⟨true, rest, read?_literal?_append _ _ _, rfl⟩
      · split
        · rename_i other
          simp at other
        · rename_i slash
          obtain ⟨-, rfl⟩ := List.cons.inj slash
          exact absurd (List.prefix_append ['/'] _) noSlash
        · refine read?_bind_eq_some.2 ⟨true, cs₁, read?_mark?_cons _ _, ?_⟩
          exact read?_bind_eq_some.2 ⟨e, rest, h, rfl⟩
        · rename_i other
          simp at other
        · rename_i noTag _
          exact absurd rfl (noTag cs₁)
      · refine read?_bind_eq_some.2 ⟨true, cs₁, read?_literal?_append _ _ _, ?_⟩
        exact read?_bind_eq_some.2 ⟨e, rest, h, rfl⟩

/-- Where a message ends: at the end of the pattern, at a closing brace, and below the root at a
closing tag. -/
inductive EndsMessage (tags : Bool) (scope : Scope) : List Char → Prop
  | nil : EndsMessage tags scope []
  | brace {after} : EndsMessage tags scope ('}' :: after)
  | tag {after} : tags = true → scope ≠ .root → EndsMessage tags scope ('<' :: '/' :: after)

theorem EndsMessage.stopsAt (h : EndsMessage tags scope cs) : StopsAt (endsText tags scope) cs := by
  cases h with
  | nil => exact stopsAt_nil _
  | brace => exact stopsAt_cons.2 (by simp [endsText, isMark])
  | tag ht _ => exact stopsAt_cons.2 (by simp [endsText, isMark, ht])

theorem EndsMessage.read?_element? (h : EndsMessage tags scope cs) :
    read? (element? tags nested scope) cs = some (none, cs) := by
  unfold element?
  refine read?_bind_eq_some.2 ⟨none, cs, read?_text?_eq_none.2 ⟨rfl, h.stopsAt⟩, ?_⟩
  refine read?_bind_eq_some.2 ⟨cs, cs, rfl, ?_⟩
  cases h with
  | nil => rfl
  | brace => rfl
  | tag _ hr =>
    change read? (if scope = .root then _ else pure none) _ = _
    rw [read?_ite, if_neg hr]
    rfl

theorem rest_eq_of_read?_element? (h : read? (element? tags nested scope) cs = some (none, rest)) :
    rest = cs := by
  unfold element? at h
  obtain ⟨_ | content, mid, ht, h₁⟩ := read?_bind_eq_some.1 h
  · obtain ⟨rfl, -⟩ := read?_text?_eq_none.1 ht
    obtain ⟨_, _, ha, h₂⟩ := read?_bind_eq_some.1 h₁
    cases ha
    split at h₂
    · obtain ⟨_, _, -, h₃⟩ := read?_bind_eq_some.1 h₂
      cases h₃
    · rw [read?_ite] at h₂
      split at h₂ <;> cases h₂
      rfl
    · obtain ⟨_, _, -, h₃⟩ := read?_bind_eq_some.1 h₂
      obtain ⟨_, _, -, h₄⟩ := read?_bind_eq_some.1 h₃
      cases h₄
    · obtain ⟨_, _, -, h₃⟩ := read?_bind_eq_some.1 h₂
      obtain ⟨_, _, -, h₄⟩ := read?_bind_eq_some.1 h₃
      cases h₄
    · cases h₂
      rfl
  · cases h₁

end Grammar

end MessageFormat
