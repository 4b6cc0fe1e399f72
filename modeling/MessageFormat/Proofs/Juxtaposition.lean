import MessageFormat.Proofs.Completeness
import MessageFormat.Proofs.Tokens

/-!
# Patterns one after the other

What the grammar derives from the front of a pattern does not depend on what follows it, as long as
the piece has an end of its own: a brace, a closing tag, or a character that ends the text. So a
pattern that ends in a placeholder can be followed by any other pattern: the two are read one after
the other, up to the same fault (`parse_append`).
-/

namespace MessageFormat

variable {cs rest taken : List Char}

/-! ## Pieces with more behind them -/

theorem ne_nil_of_length_le (h : rest.length ≤ cs.length) (ends : rest ≠ []) : cs ≠ [] :=
  List.ne_nil_of_length_pos (Nat.lt_of_lt_of_le (List.length_pos_iff.2 ends) h)

theorem StopsAt.append {p : Char → Bool} (h : StopsAt p rest) (ends : rest ≠ [])
    (more : List Char) : StopsAt p (rest ++ more) := by
  obtain ⟨c, rest, rfl⟩ := List.exists_cons_of_ne_nil ends
  exact stopsAt_cons.2 (stopsAt_cons.1 h)

theorem Run.append {p : Char → Bool} (h : Run p cs taken rest) (ends : rest ≠ [])
    (more : List Char) : Run p (cs ++ more) taken (rest ++ more) := by
  obtain ⟨rfl, all, longest⟩ := h
  exact ⟨List.append_assoc _ _ _, all, longest.append ends more⟩

theorem Blanks.append (h : Blanks cs rest) (more : List Char) :
    Blanks (cs ++ more) (rest ++ more) := by
  obtain ⟨w, blank, rfl⟩ := h
  exact ⟨w, blank, List.append_assoc _ _ _⟩

theorem Blanks.isSuffix (h : Blanks cs rest) : rest <:+ cs := by
  obtain ⟨w, -, rfl⟩ := h
  exact List.suffix_append _ _

theorem Word.append {inTag : Bool} {word : String} (h : Word inTag cs word rest)
    (ends : rest ≠ []) (more : List Char) : Word inTag (cs ++ more) word (rest ++ more) := by
  obtain ⟨rfl, isWord, longest⟩ := h
  exact ⟨List.append_assoc _ _ _, isWord, longest.append ends more⟩

theorem DerivesQuoted.append {content : List Char} (h : DerivesQuoted cs content rest)
    (ends : rest ≠ []) (more : List Char) : DerivesQuoted (cs ++ more) content (rest ++ more) := by
  induction h with
  | unclosed => exact absurd rfl ends
  | closed stops => exact .closed (stops.append ends more)
  | apostrophe _ ih => exact .apostrophe (ih ends)
  | literal hc _ ih => exact .literal hc (ih ends)

variable {tags : Bool} {scope : Scope} {depth : Nat}

theorem DerivesText.append {content : List Char} (h : DerivesText tags scope cs content rest)
    (ends : rest ≠ []) (more : List Char) :
    DerivesText tags scope (cs ++ more) content (rest ++ more) := by
  induction h with
  | done stops => exact .done (stops.append ends more)
  | literal hc stays _ ih => exact .literal hc stays (ih ends)
  | apostrophe _ ih => exact .apostrophe (ih ends)
  | lone next text ih =>
    exact .lone (next.append (ne_nil_of_length_le text.length_le ends) more) (ih ends)
  | quotation hc opens quoted text ih =>
    have inner := ne_nil_of_length_le text.length_le ends
    exact .quotation hc opens (quoted.append inner more) (ih ends)

theorem DerivesQuoted.isSuffix {content : List Char} (h : DerivesQuoted cs content rest) :
    rest <:+ cs := by
  induction h with
  | unclosed => exact List.suffix_refl _
  | closed _ => exact List.suffix_cons _ _
  | apostrophe _ ih => exact (ih.trans (List.suffix_cons _ _)).trans (List.suffix_cons _ _)
  | literal _ _ ih => exact ih.trans (List.suffix_cons _ _)

theorem DerivesText.isSuffix {content : List Char} (h : DerivesText tags scope cs content rest) :
    rest <:+ cs := by
  induction h with
  | done _ => exact List.suffix_refl _
  | literal _ _ _ ih => exact ih.trans (List.suffix_cons _ _)
  | apostrophe _ ih => exact (ih.trans (List.suffix_cons _ _)).trans (List.suffix_cons _ _)
  | lone _ _ ih => exact ih.trans (List.suffix_cons _ _)
  | quotation _ _ quoted _ ih => exact (ih.trans quoted.isSuffix).trans (List.suffix_cons _ _)

/-! ## What is decided by looking ahead -/

/-- What is no part of a list does not lie in front of one that goes on behind it. -/
theorem not_isPrefix_append {c : Char} {text : List Char} (h : ¬ text <+: cs) (mem : c ∈ cs)
    (absent : c ∉ text) (more : List Char) : ¬ text <+: cs ++ more := by
  intro front
  obtain inside | beyond := List.prefix_or_prefix_of_prefix front (List.prefix_append cs more)
  · exact h inside
  · exact absent (beyond.subset mem)

theorem OpensCase.append (h : OpensCase cs) (more : List Char) : OpensCase (cs ++ more) := by
  obtain ⟨selector, mid, rest, word, brace⟩ := h
  have after := ne_nil_of_length_le brace.length_le (List.cons_ne_nil _ _)
  exact ⟨selector, _, _, word.append after more, brace.append more⟩

theorem OpensCase.of_append {more : List Char} (h : OpensCase (cs ++ more)) (mem : '}' ∈ cs) :
    OpensCase cs := by
  obtain ⟨selector, mid, rest, ⟨split, isWord, longest⟩, w, blank, rfl⟩ := h
  have front : selector.toList ++ w ++ ['{'] <+: cs ++ more := ⟨rest, by rw [split]; simp⟩
  have absent : '}' ∉ selector.toList ++ w ++ ['{'] := by
    simp only [List.mem_append, List.mem_singleton, not_or]
    refine ⟨⟨fun inWord => ?_, fun inBlanks => ?_⟩, by decide⟩
    · exact absurd (isWord.2 _ inWord) (by decide)
    · exact absurd (blank _ inBlanks) (by decide)
  obtain ⟨after, rfl⟩ : selector.toList ++ w ++ ['{'] <+: cs := by
    by_contra outside
    exact not_isPrefix_append outside mem absent more front
  refine ⟨selector, w ++ '{' :: after, after, ⟨by simp, isWord, ?_⟩, w, blank, rfl⟩
  cases w with
  | nil => exact stopsAt_cons.2 (by decide)
  | cons c w => exact stopsAt_cons.2 (endsWord_of_isBlank (blank c List.mem_cons_self))

theorem DerivesOffset.append {offset : UInt32} (h : DerivesOffset cs offset rest)
    (mem : ∃ c ∈ rest, c ∉ offsetMark) (more : List Char) :
    DerivesOffset (cs ++ more) offset (rest ++ more) := by
  obtain ⟨c, mem, absent⟩ := mem
  cases h with
  | absent none => exact .absent (not_isPrefix_append none mem absent more)
  | present hb digits hne small hb' =>
    have after := ne_nil_of_length_le hb'.length_le (List.ne_nil_of_mem mem)
    exact .present (hb.append more) (digits.append after more) hne small (hb'.append more)

theorem DerivesCases.exists_notMem_offsetMark {branches : List Case}
    (h : DerivesCases tags scope depth cs branches ('}' :: rest)) :
    ∃ c ∈ cs, c ∉ offsetMark := by
  cases h with
  | nil => exact ⟨'}', List.mem_cons_self, by decide⟩
  | cons word blanks _ _ _ _ =>
    obtain ⟨w, -, rfl⟩ := blanks
    exact ⟨'{', by simp [word.split], by decide⟩

theorem DerivesKind.ne_nil {type : String} {kind : Kind}
    (h : DerivesKind tags depth type cs kind rest) : cs ≠ [] := by
  cases h <;> exact List.cons_ne_nil _ _

/-! ## Constructs with more behind them -/

/-- A message that is empty or ends in a placeholder. -/
def EndsInPlaceholder (message : Message) : Prop :=
  ∀ e ∈ message.getLast?, ∃ id kind, e = .placeholder id kind

theorem EndsInPlaceholder.tail {e : Element} {es : Message} (h : EndsInPlaceholder (e :: es)) :
    EndsInPlaceholder es := by
  intro last mem
  cases es with
  | nil => cases mem
  | cons e' es => exact h last (by rwa [List.getLast?_cons_cons])

/-- An element ends before the end of the pattern, or it ends the message. -/
theorem DerivesMessage.before_end {e : Element} {es : Message}
    (h : DerivesMessage tags scope depth cs es rest)
    (ends : rest ≠ [] ∨ EndsInPlaceholder (e :: es)) :
    cs ≠ [] ∨ ∃ id kind, e = .placeholder id kind := by
  cases h with
  | nil => exact ends.imp_right fun last => last e rfl
  | cons he _ => exact .inl (List.ne_nil_of_length_pos (Nat.zero_lt_of_lt he.length_lt))

-- A text runs on into whatever follows it, so a message ends where it did only in front of a
-- character that ends it or behind a placeholder.
mutual

theorem DerivesMessage.append : ∀ {scope depth cs message rest},
    DerivesMessage tags scope depth cs message rest → rest ≠ [] ∨ EndsInPlaceholder message →
    ∀ more, DerivesMessage tags scope depth (cs ++ more) message (rest ++ more)
  | _, _, _, _, _, .nil, _, _ => .nil
  | _, _, _, _, _, .cons he hs, ends, more =>
    .cons (he.append (hs.before_end ends) more)
      (hs.append (ends.imp_right EndsInPlaceholder.tail) more)

theorem DerivesElement.append : ∀ {scope depth cs e rest},
    DerivesElement tags scope depth cs e rest →
    rest ≠ [] ∨ (∃ id kind, e = .placeholder id kind) →
    ∀ more, DerivesElement tags scope depth (cs ++ more) e (rest ++ more)
  | _, _, _, _, _, .text h hne, .inl ends, more => .text (h.append ends more) hne
  | _, _, _, _, _, .text _ _, .inr placeholder, _ => nomatch placeholder
  | _, _, _, _, _, .hash, _, _ => .hash
  | _, _, _, _, _, .argument hb hw hb', _, more => by
    have after := ne_nil_of_length_le hb'.length_le (List.cons_ne_nil _ _)
    exact .argument (hb.append more) (hw.append after more) (hb'.append more)
  | _, _, _, _, _, .typed hb hw hb' hb₄ hw' hb₆ hk, _, more => by
    have afterId := ne_nil_of_length_le hb'.length_le (List.cons_ne_nil _ _)
    have afterType := ne_nil_of_length_le hb₆.length_le hk.ne_nil
    exact .typed (hb.append more) (hw.append afterId more) (hb'.append more) (hb₄.append more)
      (hw'.append afterType more) (hb₆.append more) (hk.append more)
  | _, _, _, _, _, .emptyTag ht hw hb, _, more => by
    have after := ne_nil_of_length_le hb.length_le (List.cons_ne_nil _ _)
    exact .emptyTag ht (hw.append after more) (hb.append more)
  | _, _, _, _, _, .tag ht hw hb hd hm hw' hb', _, more => by
    have after := ne_nil_of_length_le hb.length_le (List.cons_ne_nil _ _)
    have after' := ne_nil_of_length_le hb'.length_le (List.cons_ne_nil _ _)
    exact .tag ht (hw.append after more) (hb.append more) hd
      (hm.append (.inl (List.cons_ne_nil _ _)) more) (hw'.append after' more) (hb'.append more)

theorem DerivesKind.append : ∀ {depth type cs kind rest},
    DerivesKind tags depth type cs kind rest →
    ∀ more, DerivesKind tags depth type (cs ++ more) kind (rest ++ more)
  | _, _, _, _, _, .plural ht hb ho hc other, more => by
    have announced := ho.append hc.exists_notMem_offsetMark more
    exact .plural ht (hb.append more) announced (hc.append (List.cons_ne_nil _ _) more) other
  | _, _, _, _, _, .select hb hc other, more =>
    .select (hb.append more) (hc.append (List.cons_ne_nil _ _) more) other
  | _, _, _, _, _, .simple ht, _ => .simple ht
  | _, _, _, _, _, .simpleStyle ht hb hs hne hb', more => by
    have after := ne_nil_of_length_le hb'.length_le (List.cons_ne_nil _ _)
    exact .simpleStyle ht (hb.append more) (hs.append after more) hne (hb'.append more)
  | _, _, _, _, _, .custom ht, _ => .custom ht
  | _, _, _, _, _, .customStyle ht hb closed hs hne hb', more => by
    have after := ne_nil_of_length_le hb'.length_le (List.cons_ne_nil _ _)
    have brace : '}' ∈ _ := hs.isSuffix.subset (hb'.isSuffix.subset List.mem_cons_self)
    exact .customStyle ht (hb.append more) (fun opens => closed (opens.of_append brace))
      (hs.append after more) hne (hb'.append more)
  | _, _, _, _, _, .customCases ht hb opens hc, more =>
    .customCases ht (hb.append more) (opens.append more) (hc.append (List.cons_ne_nil _ _) more)

theorem DerivesCases.append : ∀ {scope depth cs branches rest},
    DerivesCases tags scope depth cs branches rest → rest ≠ [] →
    ∀ more, DerivesCases tags scope depth (cs ++ more) branches (rest ++ more)
  | _, _, _, _, _, .nil, _, _ => .nil
  | _, _, _, _, _, .cons hw hb hd hm hb' hc, ends, more => by
    have after := ne_nil_of_length_le hb.length_le (List.cons_ne_nil _ _)
    exact .cons (hw.append after more) (hb.append more) hd
      (hm.append (.inl (List.cons_ne_nil _ _)) more) (hb'.append more) (hc.append ends more)

end

/-! ## Readings that go on -/

def Reading.map {α β : Type} (f : α → β) : Reading α → Reading β
  | .done value rest tokens => .done (f value) rest tokens
  | .stopped fault rest tokens => .stopped fault rest tokens

theorem Reading.map_map {α β γ : Type} (f : α → β) (g : β → γ) (reading : Reading α) :
    (reading.map f).map g = reading.map fun a => g (f a) := by
  cases reading <;> rfl

theorem Reading.map_after {α β : Type} (f : α → β) (reading : Reading α) (tokens : List Token) :
    (reading.after tokens).map f = (reading.map f).after tokens := by
  cases reading <;> rfl

namespace Reader

variable {α β : Type}

theorem exists_done_of_read? {reader : Reader α} {a : α} (h : read? reader cs = some (a, rest)) :
    ∃ tokens, reader cs = .done a rest tokens := by
  unfold read? at h
  cases hr : reader cs with
  | done value rest' tokens =>
    rw [hr] at h
    cases h
    exact ⟨tokens, rfl⟩
  | stopped fault rest' tokens =>
    rw [hr] at h
    cases h

theorem bind_pure (reader : Reader α) (f : α → β) (cs : List Char) :
    (reader >>= fun a => pure (f a)) cs = (reader cs).map f := by
  cases hr : reader cs with
  | done a rest tokens =>
    rw [bind_done hr]
    exact congrArg (Reading.done (f a) rest) (List.append_nil tokens)
  | stopped fault rest tokens => exact bind_stopped hr

theorem Repeatable.atMost_eq {reader : Reader (Option α)} (h : Repeatable reader)
    (atEnd : reader [] = .done none [] []) {n m : Nat} {cs : List Char} (hn : cs.length ≤ n)
    (hm : cs.length ≤ m) : atMost reader n cs = atMost reader m cs := by
  have empty : ∀ k, atMost reader k [] = .done [] [] [] := by
    intro k
    cases k with
    | zero => rfl
    | succ k => exact bind_done atEnd
  induction n generalizing m cs with
  | zero =>
    obtain rfl := List.eq_nil_of_length_eq_zero (Nat.le_zero.1 hn)
    rw [empty, empty]
  | succ n ih =>
    cases m with
    | zero =>
      obtain rfl := List.eq_nil_of_length_eq_zero (Nat.le_zero.1 hm)
      rw [empty, empty]
    | succ m =>
      unfold atMost
      cases hr : reader cs with
      | stopped fault rest tokens => rw [bind_stopped hr, bind_stopped hr]
      | done value rest tokens =>
        rw [bind_done hr, bind_done hr]
        cases value with
        | none => rfl
        | some a =>
          have shorter := h.progress (by rw [read?, hr]; rfl)
          dsimp only
          rw [bind_pure, bind_pure, ih (m := m) (by omega) (by omega)]

theorem bind_of_map {reader : Reader α} {next : α → Reader β} {f : α → α} {g : β → β}
    {cs' : List Char} {tokens : List Token}
    (h : reader cs = ((reader cs').map f).after tokens)
    (hnext : ∀ a rest, next (f a) rest = (next a rest).map g) :
    (reader >>= next) cs = (((reader >>= next) cs').map g).after tokens := by
  cases hr : reader cs' with
  | stopped fault rest more =>
    rw [hr] at h
    rw [bind_stopped hr, bind_stopped h]
    rfl
  | done a rest more =>
    rw [hr] at h
    rw [bind_done hr, bind_done h, hnext, Reading.map_after, Reading.after_after]

/-- After a value the reading goes on as if the pattern started there. -/
theorem Repeatable.many_some {reader : Reader (Option α)} (h : Repeatable reader)
    (atEnd : reader [] = .done none [] []) {a : α} {tokens : List Token}
    (hr : reader cs = .done (some a) rest tokens) :
    many reader cs = ((many reader rest).map (a :: ·)).after tokens := by
  have shorter := h.progress (by rw [read?, hr]; rfl)
  have more := h.atMost_eq atEnd (Nat.le_refl _) (Nat.le_succ cs.length)
  rw [many, more, atMost, bind_done hr]
  dsimp only
  rw [bind_pure, h.atMost_eq atEnd (Nat.le_of_lt shorter) (Nat.le_refl _)]
  rfl

end Reader

namespace Grammar

open Reader

theorem element?_nil {nested : Nested} :
    element? tags nested scope [] = .done none [] [] := rfl

/-- The elements of a message that ends in front of `more`, then those that are read there. -/
theorem elements_append {message : Message} (h : DerivesMessage tags scope depth cs message rest)
    (ends : rest ≠ [] ∨ EndsInPlaceholder message) (small : depth ≤ maxDepth)
    (more : List Char) :
    ∃ tokens, elements tags (below tags depth) scope (cs ++ more) = Reading.after tokens
      ((elements tags (below tags depth) scope (rest ++ more)).map (message ++ ·)) := by
  induction message generalizing cs with
  | nil =>
    cases h
    refine ⟨[], ?_⟩
    generalize elements tags (below tags depth) scope (rest ++ more) = reading
    cases reading <;> rfl
  | cons e es ih =>
    cases h with
    | cons he hs =>
      have read := read?_of_derivesElement (he.append (hs.before_end ends) more) small
      obtain ⟨tokens, first⟩ := exists_done_of_read? read
      obtain ⟨tokens', others⟩ := ih hs (ends.imp_right EndsInPlaceholder.tail)
      have repeated : Repeatable (element? tags (below tags depth) scope) :=
        repeatable_element? (soundBelow_below small)
      refine ⟨tokens ++ tokens', ?_⟩
      rw [elements] at others ⊢
      rw [repeated.many_some element?_nil first, others, Reading.map_after, Reading.map_map,
        Reading.after_after]
      rfl

theorem pattern_append {message : Message} (h : DerivesMessage tags .root 0 cs message [])
    (ends : EndsInPlaceholder message) (more : List Char) :
    ∃ tokens, pattern tags (cs ++ more) =
      ((pattern tags more).map (message ++ ·)).after tokens := by
  obtain ⟨tokens, read⟩ := elements_append h (.inr ends) (Nat.zero_le _) more
  refine ⟨tokens, bind_of_map read fun es rest => ?_⟩
  cases rest <;> rfl

end Grammar

/-! ## Whole patterns -/

/-- A pattern that is read as a message that is empty or ends in a placeholder can be followed by
any other pattern: the messages are joined, and a fault of the second pattern moves by the length of
the first. -/
theorem parse_append {tags : Bool} {p q : String} {message : Message}
    (h : parse tags p = .ok message) (ends : EndsInPlaceholder message) :
    (∀ others, parse tags q = .ok others → parse tags (p ++ q) = .ok (message ++ others)) ∧
    ∀ error, parse tags q = .error error →
      ∃ error', parse tags (p ++ q) = .error error' ∧ error'.fault = error.fault ∧
        error'.message = error.message ∧ error'.expected? = error.expected? ∧
        error'.found = error.found ∧ error'.offset = error.offset + p.utf8ByteSize := by
  obtain ⟨tokens, read⟩ := Grammar.pattern_append (derives_of_parse h) ends q.toList
  rw [← String.toList_append] at read
  have tiles := Grammar.tiles_pattern tags q.toList
  cases hr : Grammar.pattern tags q.toList with
  | done others rest more =>
    rw [hr] at read
    rw [parse_of_done hr, parse_of_done read]
    constructor
    · rintro others ⟨⟩
      rfl
    · rintro error ⟨⟩
  | stopped fault rest more =>
    rw [hr] at read tiles
    obtain ⟨front, split, -⟩ := tiles
    have whole : (p ++ q).toList = (p.toList ++ front) ++ rest := by
      rw [String.toList_append, split, List.append_assoc]
    rw [parse_of_stopped hr, parse_of_stopped read]
    constructor
    · rintro others ⟨⟩
    · rintro error ⟨⟩
      refine ⟨_, rfl, rfl, rfl, rfl, rfl, ?_⟩
      rw [offset_ofRest whole, offset_ofRest split, byteLength_append, byteLength_toList,
        Nat.add_comm]

theorem parse_append_tag :
    let bold := [.placeholder "b" (.tag [.placeholder "n" (.plural .cardinal 0
      [⟨"other", [.hash]⟩])])]
    parse true "<b>{n, plural, other {#}}</b>" = .ok bold ∧
      parse true ("<b>{n, plural, other {#}}</b>" ++ "# '\x7b") =
        .ok (bold ++ [.text "# \x7b"]) ∧
      ∃ error, parse true ("<b>{n, plural, other {#}}</b>" ++ "# \x7bx") = .error error ∧
        error.message = "Expected , or \x7d but end of message pattern found" ∧
        error.expected? = some ", or \x7d" ∧ error.found = "end of message pattern" ∧
        error.offset = 33 := by
  intro bold
  have first : parse true "<b>{n, plural, other {#}}</b>" = .ok bold := by cbv
  have ends : EndsInPlaceholder bold := fun e last => by
    cases last
    exact ⟨_, _, rfl⟩
  have quoted : parse true "# '\x7b" = .ok [.text "# \x7b"] := by cbv
  have unclosed : parse true "# \x7bx" = .error (.ofRest "# \x7bx" [] .separator) := by cbv
  refine ⟨first, (parse_append first ends).1 _ quoted, ?_⟩
  obtain ⟨error, failed, -, message, expected, found, offset⟩ :=
    (parse_append first ends).2 _ unclosed
  refine ⟨error, failed, message.trans ?_, expected.trans ?_, found.trans ?_, offset.trans ?_⟩
  all_goals decide +kernel

end MessageFormat
