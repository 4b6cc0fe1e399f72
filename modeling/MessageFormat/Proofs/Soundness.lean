import MessageFormat.Proofs.Grammar

/-!
# What the readers read is derived by the grammar

The readers of one level are sound if the reader of nested messages is; `message` makes its way
down the levels one at a time.
-/

namespace MessageFormat.Grammar

open Reader

/-- A reader of nested messages that reads only what is derived below `depth`. -/
def SoundBelow (tags : Bool) (depth : Nat) (nested : Nested) : Prop :=
  ∀ {scope cs message rest}, read? (nested scope) cs = some (message, rest) →
    depth < maxDepth ∧ DerivesMessage tags scope (depth + 1) cs message rest

variable {tags : Bool} {scope : Scope} {depth : Nat} {nested : Nested} {cs rest : List Char}

theorem derivesOffset_of_read? {n : UInt32} {mid : List Char}
    (stops : StopsAt (!Text.isBlank ·) cs) (h : read? offset cs = some (n, mid))
    (hb : read? blanks mid = some ((), rest)) : DerivesOffset cs n rest := by
  have hb := (read?_blanks_eq_some.1 hb).1
  by_cases announced : offsetMark <+: cs
  · obtain ⟨cs, rfl⟩ := announced
    rw [read?_offset_append, Option.bind_eq_some_iff] at h
    obtain ⟨⟨_, cs₁⟩, hb₁, h⟩ := h
    obtain ⟨digits, run, hne, small, rfl⟩ := read?_offsetNumber_eq_some.1 h
    exact .present (read?_blanks_eq_some.1 hb₁).1 run hne small hb
  · rw [read?_offset_of_not announced] at h
    cases h
    rw [hb.eq_of_stopsAt stops]
    exact .absent announced

theorem derivesCases_of_read? (hn : SoundBelow tags depth nested) {branches : List Case}
    (h : read? (many (case? nested scope)) cs = some (branches, rest)) :
    DerivesCases tags scope depth cs branches rest := by
  refine read?_many_induction (fun h => (read?_case?_eq_none.1 h).1) (fun _ => .nil) ?_ h
  rintro cs ⟨selector, message⟩ mid branches rest hc ih
  obtain ⟨cs₁, cs₂, cs₃, hw, hb, hm, hb', -⟩ := read?_case?_eq_some.1 hc
  obtain ⟨small, derived⟩ := hn hm
  exact .cons hw hb small derived hb' ih

theorem derivesKind_of_read? (hn : SoundBelow tags depth nested) {type : String} {k : Kind}
    (h : read? (kind tags nested type) cs = some (k, rest)) :
    DerivesKind tags depth type cs k rest := by
  obtain ⟨plural, ht⟩ | rfl | ⟨simple, ht⟩ | ht := isCustom_or type
  · obtain ⟨cs₁, cs₂, n, cs₃, cs₄, branches, rfl, hb, stops, ho, hb', hc, rfl⟩ :=
      (read?_kind_plural ht).1 h
    obtain ⟨branches, hm, -, rfl, other⟩ := read?_cases_eq_some.1 hc
    exact .plural ht hb (derivesOffset_of_read? stops ho hb') (derivesCases_of_read? hn hm)
      (other (Option.some_ne_none _))
  · obtain ⟨cs₁, cs₂, branches, rfl, hb, -, hc, rfl⟩ := read?_kind_select.1 h
    obtain ⟨branches, hm, -, rfl, other⟩ := read?_cases_eq_some.1 hc
    exact .select hb (derivesCases_of_read? hn hm) (other (Option.some_ne_none _))
  · obtain ⟨content, ho, rfl⟩ := (read?_kind_simple ht).1 h
    obtain ⟨rfl, rfl⟩ | ⟨cs₁, cs₂, text, cs₃, rfl, hb, -, hs, hb', rfl⟩ :=
      read?_optional_eq_some.1 ho
    · exact .simple ht
    · obtain ⟨derived, hne⟩ := read?_style_eq_some.1 hs
      exact .simpleStyle ht hb derived hne hb'
  · obtain ⟨content, ho, rfl⟩ := (read?_kind_custom ht).1 h
    obtain ⟨rfl, rfl⟩ | ⟨cs₁, cs₂, content, cs₃, rfl, hb, -, hs, hb', rfl⟩ :=
      read?_optional_eq_some.1 ho
    · exact .custom ht
    · obtain ⟨opens, branches, rfl, hc⟩ | ⟨closed, text, rfl, ht'⟩ :=
        read?_customStyle_eq_some.1 hs
      · obtain ⟨branches, hm, stops, rfl, -⟩ := read?_cases_eq_some.1 hc
        have noBlank : StopsAt (!Text.isBlank ·) cs₃ := stops.mono fun c hc => by
          obtain rfl : c = '}' := by simpa using hc
          decide
        rw [← hb'.eq_of_stopsAt noBlank] at hm
        exact .customCases ht hb opens (derivesCases_of_read? hn hm)
      · obtain ⟨derived, hne⟩ := read?_style_eq_some.1 ht'
        exact .customStyle ht hb closed derived hne hb'

theorem scope_of_endsText_hash (h : endsText tags scope '#' = true) : scope = .plural := by
  have : Text.isBlank '#' = false := by decide
  simpa [endsText, isMark, this] using h

theorem tags_of_endsText (h : endsText tags scope '<' = true) : tags = true := by
  have : Text.isBlank '<' = false := by decide
  simpa [endsText, isMark, this] using h

theorem derivesElement_of_read? (hn : SoundBelow tags depth nested) {e : Element}
    (h : read? (element? tags nested scope) cs = some (some e, rest)) :
    DerivesElement tags scope depth cs e rest := by
  obtain ⟨content, rfl, derived, hne⟩ | ⟨stops, h⟩ := read?_element?_eq_some.1 h
  · exact .text derived hne
  obtain ⟨rfl, rfl⟩ | ⟨cs₁, rfl, -, ht⟩ | ⟨cs₁, rfl, hp⟩ := h
  · obtain rfl := scope_of_endsText_hash (stopsAt_cons.1 stops)
    exact .hash
  · have inTags := tags_of_endsText (stopsAt_cons.1 stops)
    obtain ⟨id, cs₂, hw, h⟩ := read?_tag_eq_some.1 ht
    obtain ⟨hb, rfl⟩ | ⟨cs₃, children, cs₄, cs₅, hb, hm, hw', hb', rfl⟩ := h
    · exact .emptyTag inTags hw hb
    · obtain ⟨small, derived⟩ := hn hm
      exact .tag inTags hw hb small derived hw' hb'
  · obtain ⟨cs₂, id, cs₃, hb, hw, h⟩ := read?_placeholder_eq_some.1 hp
    obtain ⟨hb', rfl⟩ | ⟨cs₄, cs₅, k, hb', hb₄, hk, rfl⟩ := h
    · exact .argument hb hw hb'
    · obtain ⟨type, cs₆, cs₇, hw', hb₆, -, hk⟩ := read?_typed_eq_some.1 hk
      exact .typed hb hw hb' hb₄ hw' hb₆ (derivesKind_of_read? hn hk)

theorem derivesMessage_of_read? (hn : SoundBelow tags depth nested) {message : Message}
    (h : read? (elements tags nested scope) cs = some (message, rest)) :
    DerivesMessage tags scope depth cs message rest := by
  refine read?_many_induction rest_eq_of_read?_element? (fun _ => .nil) ?_ h
  intro cs e mid es rest he ih
  exact .cons (derivesElement_of_read? hn he) ih

theorem soundBelow_message (tags : Bool) (room depth : Nat) (h : depth + room = maxDepth) :
    SoundBelow tags depth (message tags room) := by
  induction room generalizing depth with
  | zero =>
    intro scope cs message rest h
    cases h
  | succ room ih =>
    intro scope cs message rest h
    exact ⟨by omega, derivesMessage_of_read? (ih (depth + 1) (by omega)) h⟩

end MessageFormat.Grammar
