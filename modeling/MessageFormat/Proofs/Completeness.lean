import MessageFormat.Proofs.Soundness

/-!
# What the grammar derives is read

With soundness this gives `parse_eq_ok_iff_derives`: reading a pattern gives a message just if
the grammar derives it.
-/

namespace MessageFormat.Grammar

open Reader

variable {tags : Bool} {scope : Scope} {depth : Nat} {nested : Nested} {cs rest : List Char}

/-! ## Repetition -/

theorem repeatable_element? (hn : SoundBelow tags depth nested) :
    Repeatable (element? tags nested scope) where
  progress h := (derivesElement_of_read? hn h).length_lt
  nil := EndsMessage.nil.read?_element?

theorem repeatable_case? (hn : SoundBelow tags depth nested) :
    Repeatable (case? nested scope) where
  progress {cs branch rest} h := by
    obtain ⟨cs₁, cs₂, cs₃, hw, hb, hm, hb', -⟩ := read?_case?_eq_some.1 h
    have := hw.length_lt
    have := hb.length_le
    have := (hn hm).2.length_le
    have := hb'.length_le
    simp only [List.length_cons] at *
    omega
  nil := read?_case?_eq_none.2 ⟨rfl, stopsAt_nil _⟩

abbrev below (tags : Bool) (depth : Nat) : Nested := message tags (maxDepth - depth)

theorem soundBelow_below (h : depth ≤ maxDepth) : SoundBelow tags depth (below tags depth) :=
  soundBelow_message tags _ depth (Nat.add_sub_cancel' h)

theorem below_eq (h : depth < maxDepth) :
    below tags depth scope = elements tags (below tags (depth + 1)) scope := by
  have : maxDepth - depth = maxDepth - (depth + 1) + 1 := by omega
  rw [below, this]
  rfl

/-! ## Pieces without nested messages -/

theorem stopsAt_blank_of_derivesText {content : List Char}
    (h : DerivesText tags .style cs content rest) (hne : content ≠ []) :
    StopsAt (!Text.isBlank ·) cs := by
  cases cs with
  | nil => exact stopsAt_nil _
  | cons c cs =>
    rw [stopsAt_cons, Bool.not_eq_true']
    by_contra blank
    have ends : StopsAt (endsText tags .style) (c :: cs) :=
      stopsAt_cons.2 (by simp [endsText, Bool.not_eq_false _ ▸ blank])
    exact hne (derivesText_of_stopsAt h ends).1

theorem read?_offset_of_derives {n : UInt32} (h : DerivesOffset cs n rest)
    (stops : StopsAt (!Text.isBlank ·) rest) : StopsAt (!Text.isBlank ·) cs ∧
      ∃ mid, read? offset cs = some (n, mid) ∧ read? blanks mid = some ((), rest) := by
  cases h with
  | absent h =>
    exact ⟨stops, cs, read?_offset_of_not h, read?_blanks_eq_some.2 ⟨.refl _, stops⟩⟩
  | @present cs mid digits mid' _ hb run hne small hb' =>
    refine ⟨stopsAt_blank_cons (by decide), mid', ?_, read?_blanks_eq_some.2 ⟨hb', stops⟩⟩
    have digitAhead : StopsAt (!Text.isBlank ·) mid := by
      obtain ⟨d, digits, rfl⟩ := List.exists_cons_of_ne_nil hne
      rw [run.split]
      exact stopsAt_blank_cons (isBlank_of_isDigit (run.all d List.mem_cons_self))
    rw [read?_offset_append, (read?_blanks_eq_some (u := ())).2 ⟨hb, digitAhead⟩, Option.bind_some]
    exact read?_offsetNumber_eq_some.2 ⟨digits, run, hne, small, rfl⟩

theorem stopsAt_blank_of_derivesKind {type : String} {k : Kind}
    (h : DerivesKind tags depth type cs k rest) : StopsAt (!Text.isBlank ·) cs := by
  cases h <;> exact stopsAt_blank_cons (by decide)

theorem not_slash_of_word {id : String} (h : Word true cs id rest) : ¬ ['/'] <+: cs := by
  rintro ⟨tail, rfl⟩
  obtain ⟨c, word, split, hc⟩ := h.exists_cons
  obtain rfl : '/' = c := (List.cons.inj split).1
  exact absurd hc (by decide)

/-! ## One case for every rule -/

mutual

theorem read?_of_derivesMessage : ∀ {scope depth cs message rest},
    DerivesMessage tags scope depth cs message rest → EndsMessage tags scope rest →
    depth ≤ maxDepth →
    read? (elements tags (below tags depth) scope) cs = some (message, rest)
  | _, _, _, _, _, .nil, ends, hd => by
    rw [elements, (repeatable_element? (soundBelow_below hd)).read?_many, ends.read?_element?]
    rfl
  | _, _, _, _, _, .cons he hs, ends, hd => by
    have head := read?_of_derivesElement he hd
    have tail := read?_of_derivesMessage hs ends hd
    rw [elements] at tail ⊢
    rw [(repeatable_element? (soundBelow_below hd)).read?_many, head, Option.bind_some]
    dsimp only
    rw [tail]
    rfl

theorem read?_of_derivesElement : ∀ {scope depth cs e rest},
    DerivesElement tags scope depth cs e rest → depth ≤ maxDepth →
    read? (element? tags (below tags depth) scope) cs = some (some e, rest)
  | _, _, _, _, _, .text h hne, _ => read?_element?_eq_some.2 (.inl ⟨_, rfl, h, hne⟩)
  | _, _, _, _, _, .hash, _ =>
    read?_element?_eq_some.2 (.inr ⟨stopsAt_cons.2 (by simp [endsText, isMark]), .inl ⟨rfl, rfl⟩⟩)
  | _, _, _, _, _, .argument hb hw hb', _ => by
    refine read?_element?_eq_some.2 (.inr ⟨stopsAt_cons.2 (by simp [endsText, isMark]), ?_⟩)
    refine .inr (.inr ⟨_, rfl, read?_placeholder_eq_some.2 ⟨_, _, _, hb, hw, ?_⟩⟩)
    exact .inl ⟨hb', rfl⟩
  | _, _, _, _, _, .typed hb hw hb' hb₄ hw' hb₆ hk, hd => by
    have tail := read?_of_derivesKind hk hd
    refine read?_element?_eq_some.2 (.inr ⟨stopsAt_cons.2 (by simp [endsText, isMark]), ?_⟩)
    refine .inr (.inr ⟨_, rfl, read?_placeholder_eq_some.2 ⟨_, _, _, hb, hw, ?_⟩⟩)
    refine .inr ⟨_, _, _, hb', hb₄, read?_typed_eq_some.2 ?_, rfl⟩
    exact ⟨_, _, _, hw', hb₆, stopsAt_blank_of_derivesKind hk, tail⟩
  | _, _, _, _, _, .emptyTag ht hw hb, _ => by
    refine read?_element?_eq_some.2 (.inr ⟨stopsAt_cons.2 (by simp [endsText, isMark, ht]), ?_⟩)
    refine .inr (.inl ⟨_, rfl, not_slash_of_word hw, read?_tag_eq_some.2 ⟨_, _, hw, ?_⟩⟩)
    exact .inl ⟨hb, rfl⟩
  | scope, _, _, _, _, .tag ht hw hb hd hm hw' hb', _ => by
    have below_root : scope.inTag ≠ .root := by cases scope <;> decide
    have children := read?_of_derivesMessage hm (.tag ht below_root) hd
    rw [← below_eq hd] at children
    refine read?_element?_eq_some.2 (.inr ⟨stopsAt_cons.2 (by simp [endsText, isMark, ht]), ?_⟩)
    refine .inr (.inl ⟨_, rfl, not_slash_of_word hw, read?_tag_eq_some.2 ⟨_, _, hw, ?_⟩⟩)
    exact .inr ⟨_, _, _, _, hb, children, hw', hb', rfl⟩

theorem read?_of_derivesKind : ∀ {depth type cs k rest},
    DerivesKind tags depth type cs k rest → depth ≤ maxDepth →
    read? (kind tags (below tags depth) type) cs = some (k, rest)
  | _, _, _, _, _, .plural ht hb ho hc other, hd => by
    have branches := read?_of_derivesCases hc (stopsAt_cons.2 (by decide))
      (stopsAt_blank_cons (by decide)) hd
    obtain ⟨stops, mid, hn, hb'⟩ :=
      read?_offset_of_derives ho (hc.stopsAt_blank (stopsAt_blank_cons (by decide)))
    refine (read?_kind_plural ht).2 ⟨_, _, _, mid, _, _, rfl, hb, stops, hn, hb', ?_, rfl⟩
    exact read?_cases_eq_some.2 ⟨_, branches, stopsAt_cons.2 (by decide), rfl, fun _ => other⟩
  | _, _, _, _, _, .select hb hc other, hd => by
    have branches := read?_of_derivesCases hc (stopsAt_cons.2 (by decide))
      (stopsAt_blank_cons (by decide)) hd
    have stops := hc.stopsAt_blank (stopsAt_blank_cons (by decide))
    refine read?_kind_select.2 ⟨_, _, _, rfl, hb, stops, ?_, rfl⟩
    exact read?_cases_eq_some.2 ⟨_, branches, stopsAt_cons.2 (by decide), rfl, fun _ => other⟩
  | _, _, _, _, _, .simple ht, _ =>
    (read?_kind_simple ht).2 ⟨_, read?_optional_eq_some.2 (.inl ⟨rfl, rfl⟩), rfl⟩
  | _, _, _, _, _, .simpleStyle ht hb hs hne hb', _ => by
    have stops := stopsAt_blank_of_derivesText hs (by simpa using hne)
    refine (read?_kind_simple ht).2 ⟨_, read?_optional_eq_some.2 (.inr ?_), rfl⟩
    exact ⟨_, _, _, _, rfl, hb, stops, read?_style_eq_some.2 ⟨hs, hne⟩, hb', rfl⟩
  | _, _, _, _, _, .custom ht, _ =>
    (read?_kind_custom ht).2 ⟨_, read?_optional_eq_some.2 (.inl ⟨rfl, rfl⟩), rfl⟩
  | _, _, _, _, _, .customStyle ht hb closed hs hne hb', _ => by
    have stops := stopsAt_blank_of_derivesText hs (by simpa using hne)
    refine (read?_kind_custom ht).2 ⟨some (.text _), read?_optional_eq_some.2 (.inr ?_), rfl⟩
    refine ⟨_, _, _, _, rfl, hb, stops, read?_customStyle_eq_some.2 ?_, hb', rfl⟩
    exact .inr ⟨closed, _, rfl, read?_style_eq_some.2 ⟨hs, hne⟩⟩
  | _, _, _, _, _, .customCases ht hb opens hc, hd => by
    have branches := read?_of_derivesCases hc (stopsAt_cons.2 (by decide))
      (stopsAt_blank_cons (by decide)) hd
    have stops := hc.stopsAt_blank (stopsAt_blank_cons (by decide))
    refine (read?_kind_custom ht).2 ⟨some (.cases _), read?_optional_eq_some.2 (.inr ?_), rfl⟩
    refine ⟨_, _, _, _, rfl, hb, stops, read?_customStyle_eq_some.2 ?_, .refl _, rfl⟩
    exact .inl ⟨opens, _, rfl, read?_cases_eq_some.2
      ⟨_, branches, stopsAt_cons.2 (by decide), rfl, fun h => absurd rfl h⟩⟩

theorem read?_of_derivesCases : ∀ {scope depth cs branches rest},
    DerivesCases tags scope depth cs branches rest → StopsAt (endsWord false) rest →
    StopsAt (!Text.isBlank ·) rest → depth ≤ maxDepth →
    read? (many (case? (below tags depth) scope)) cs = some (branches, rest)
  | _, _, _, _, _, .nil, ends, _, hd => by
    rw [(repeatable_case? (soundBelow_below hd)).read?_many,
      read?_case?_eq_none.2 ⟨rfl, ends⟩]
    rfl
  | _, _, _, _, _, .cons hw hb hd' hm hb' hc, ends, stops, hd => by
    have message := read?_of_derivesMessage hm .brace hd'
    rw [← below_eq hd'] at message
    have head := (@read?_case?_eq_some _ _ _ _ ⟨_, _⟩).2
      ⟨_, _, _, hw, hb, message, hb', hc.stopsAt_blank stops⟩
    have tail := read?_of_derivesCases hc ends stops hd
    rw [(repeatable_case? (soundBelow_below hd)).read?_many, head, Option.bind_some]
    dsimp only
    rw [tail]
    rfl

end

end MessageFormat.Grammar

namespace MessageFormat

open Reader

/-! ## Whole patterns -/

theorem parse_eq_ok {tags : Bool} {pattern : String} {message : Message} :
    parse tags pattern = .ok message ↔
      read? (Grammar.elements tags (Grammar.below tags 0) .root) pattern.toList =
        some (message, []) := by
  have done : parse tags pattern = .ok message ↔
      ∃ rest, read? (Grammar.pattern tags) pattern.toList = some (message, rest) := by
    unfold parse read?
    cases Grammar.pattern tags pattern.toList with
    | done value rest tokens => simp [Reading.result?]
    | stopped fault rest tokens => simp [Reading.result?]
  rw [done]
  unfold Grammar.pattern
  constructor
  · rintro ⟨rest, h⟩
    obtain ⟨message, mid, hm, h₁⟩ := read?_bind_eq_some.1 h
    obtain ⟨_, _, ha, h₂⟩ := read?_bind_eq_some.1 h₁
    cases ha
    split at h₂
    · cases h₂
      exact hm
    · cases h₂
  · intro h
    refine ⟨[], read?_bind_eq_some.2 ⟨message, [], h, ?_⟩⟩
    exact read?_bind_eq_some.2 ⟨[], [], rfl, rfl⟩

theorem derives_of_parse {tags : Bool} {pattern : String} {message : Message}
    (h : parse tags pattern = .ok message) : Derives tags pattern message :=
  Grammar.derivesMessage_of_read? (Grammar.soundBelow_below (Nat.zero_le _)) (parse_eq_ok.1 h)

theorem parse_of_derives {tags : Bool} {pattern : String} {message : Message}
    (h : Derives tags pattern message) : parse tags pattern = .ok message :=
  parse_eq_ok.2 (Grammar.read?_of_derivesMessage h .nil (Nat.zero_le _))

/-- Reading a pattern gives a message just if the grammar derives it from the pattern. -/
theorem parse_eq_ok_iff_derives (tags : Bool) (pattern : String) (message : Message) :
    parse tags pattern = .ok message ↔ Derives tags pattern message :=
  ⟨derives_of_parse, parse_of_derives⟩

end MessageFormat
