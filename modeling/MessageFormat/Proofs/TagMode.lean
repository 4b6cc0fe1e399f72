import MessageFormat.Proofs.Tokens

/-!
# Patterns without `<`

Whether tags are known makes a difference only at `<`. Without it the readers of both modes go the
same way (`Reader.Agree`): they take the same values and yield the same tokens, or they stop at the
same place with the same fault (`tokenizeOnto_tags_eq`).
-/

namespace MessageFormat

variable {scope : Scope} {quoted : Bool} {c : Char} {cs rest : List Char}

/-! ## Texts -/

theorem isMark_tags_eq (h : c ≠ '<') : isMark true scope c = isMark false scope c := by
  simp [isMark, h]

theorem endsText_tags_eq (h : c ≠ '<') : endsText true scope c = endsText false scope c := by
  rw [endsText, endsText, isMark_tags_eq h]

theorem opensQuote_tags_eq (h : c ≠ '<') :
    opensQuote true scope c = opensQuote false scope c := by
  rw [opensQuote, opensQuote, isMark_tags_eq h]

theorem readText_tags_eq (h : '<' ∉ cs) :
    readText true scope quoted cs = readText false scope quoted cs := by
  fun_induction readText true scope quoted cs with
  | case1 => rw [readText_nil]
  | case2 quoted cs ih =>
    have tail : '<' ∉ cs := by simpa using h
    rw [readText_apostrophe, ih tail]
  | case3 next cs hc ih =>
    have tail : '<' ∉ next :: cs := List.not_mem_of_not_mem_cons h
    rw [readText_close (stopsAt_cons.2 (by simpa using hc)), ih tail]
  | case4 quoted next cs hc hq ho ih =>
    obtain rfl : quoted = false := by simpa using hq
    have tail : '<' ∉ next :: cs := List.not_mem_of_not_mem_cons h
    rw [opensQuote_tags_eq (List.ne_of_not_mem_cons tail).symm] at ho
    rw [readText_open hc ho, ih tail]
  | case5 quoted next cs hc hq ho ih =>
    obtain rfl : quoted = false := by simpa using hq
    have tail : '<' ∉ next :: cs := List.not_mem_of_not_mem_cons h
    rw [opensQuote_tags_eq (List.ne_of_not_mem_cons tail).symm] at ho
    rw [readText_lone (stopsAt_cons.2 (by simpa using ⟨hc, by simpa using ho⟩)), ih tail]
  | case6 => rw [readText_close (stopsAt_nil _), readText_nil]; rfl
  | case7 quoted hq =>
    obtain rfl : quoted = false := by simpa using hq
    rw [readText_lone (stopsAt_nil _), readText_nil]
    rfl
  | case8 quoted c cs _ _ _ he =>
    obtain ⟨rfl, he⟩ : quoted = false ∧ endsText true scope c = true := by simpa using he
    rw [endsText_tags_eq (List.ne_of_not_mem_cons h).symm] at he
    rw [readText_done (stopsAt_cons.2 he)]
  | case9 quoted c cs h₁ h₂ h₃ he ih =>
    have tail : '<' ∉ cs := List.not_mem_of_not_mem_cons h
    have hc : c ≠ '\'' := by
      rintro rfl
      cases cs with
      | nil => exact h₃ rfl rfl
      | cons d cs => exact h₂ d cs rfl rfl
    have goesOn : quoted = true ∨ endsText false scope c = false := by
      rw [endsText_tags_eq (List.ne_of_not_mem_cons h).symm] at he
      cases quoted with
      | true => exact .inl rfl
      | false => exact .inr (by simpa using he)
    rw [readText_literal hc goesOn, ih tail]

namespace Reader

variable {α β : Type}

/-! ## Two readers at a time -/

/-- Both readers do the same on every pattern without `<`, tokens and faults included. -/
def Agree (reader other : Reader α) : Prop := ∀ cs, '<' ∉ cs → reader cs = other cs

theorem Agree.refl (reader : Reader α) : Agree reader reader := fun _ _ => rfl

theorem Tiles.not_mem_rest {reader : Reader α} {a : α} {tokens : List Token}
    (h : reader.Tiles) (hr : reader cs = .done a rest tokens) (hc : c ∉ cs) : c ∉ rest := by
  have passed := h cs
  rw [hr] at passed
  obtain rfl : texts tokens ++ rest = cs := passed
  exact fun inside => hc (List.mem_append_right _ inside)

theorem Agree.bind {reader other : Reader α} {next next' : α → Reader β} (h : Agree reader other)
    (tiles : other.Tiles) (hnext : ∀ a, Agree (next a) (next' a)) :
    Agree (reader >>= next) (other >>= next') := by
  intro cs plain
  cases hr : other cs with
  | done a rest tokens =>
    rw [bind_done hr, bind_done ((h cs plain).trans hr), hnext a rest (tiles.not_mem_rest hr plain)]
  | stopped fault rest tokens => rw [bind_stopped hr, bind_stopped ((h cs plain).trans hr)]

/-- What both modes read first does not tell them apart. -/
theorem Tiles.agree {reader : Reader α} {next next' : α → Reader β} (tiles : reader.Tiles)
    (hnext : ∀ a, Agree (next a) (next' a)) : Agree (reader >>= next) (reader >>= next') :=
  (Agree.refl reader).bind tiles hnext

theorem agree_ahead {next next' : List Char → Reader α}
    (h : ∀ cs, '<' ∉ cs → next cs cs = next' cs cs) :
    Agree (ahead >>= next) (ahead >>= next') := by
  intro cs plain
  have here : ahead cs = .done cs cs [] := rfl
  rw [bind_done here, bind_done here, h cs plain]

theorem Agree.ite {p : Prop} [Decidable p] {reader other reader' other' : Reader α}
    (h : Agree reader other) (h' : Agree reader' other') :
    Agree (if p then reader else reader') (if p then other else other') := by
  split
  · exact h
  · exact h'

theorem Agree.many {reader other : Reader (Option α)} (h : Agree reader other)
    (tiles : other.Tiles) : Agree (many reader) (many other) := by
  have bounded : ∀ count, Agree (atMost reader count) (atMost other count) := by
    intro count
    induction count with
    | zero => exact .refl _
    | succ count ih =>
      refine h.bind tiles fun value => ?_
      cases value with
      | none => exact .refl _
      | some value => exact ih.bind (tiles_atMost tiles count) fun _ => .refl _
  exact fun cs plain => bounded cs.length cs plain

end Reader

namespace Grammar

open Reader

variable {nested nested' : Nested}

/-! ## The grammar -/

theorem agree_text? (scope : Scope) (kind : TokenKind) :
    Agree (text? true scope kind) (text? false scope kind) := by
  intro cs plain
  rw [text?, text?, readText_tags_eq plain]

theorem agree_style : Agree (style true) (style false) := by
  refine (agree_text? .style .style).bind (tiles_text? .style) fun text => ?_
  cases text <;> exact .refl _

theorem agree_case? (h : Agree (nested scope) (nested' scope)) (tiles : (nested' scope).Tiles) :
    Agree (case? nested scope) (case? nested' scope) := by
  refine (tiles_word? .selector false).agree fun selector => ?_
  cases selector with
  | none => exact .refl _
  | some selector =>
    refine tiles_blanks.agree fun _ => (tiles_mark _ rfl).agree fun _ => ?_
    exact h.bind tiles fun _ => .refl _

theorem agree_cases (h : Agree (nested scope) (nested' scope)) (tiles : (nested' scope).Tiles)
    (owner : Option String) : Agree (cases nested scope owner) (cases nested' scope owner) :=
  ((agree_case? h tiles).many (tiles_case? tiles)).bind (tiles_many (tiles_case? tiles))
    fun _ => .refl _

theorem agree_customStyle (h : Agree (nested .branch) (nested' .branch))
    (tiles : (nested' .branch).Tiles) :
    Agree (customStyle true nested) (customStyle false nested') := by
  refine tiles_ahead.agree fun ahead => .ite ?_ ?_
  · exact (agree_cases h tiles none).bind (tiles_cases tiles none) fun _ => .refl _
  · exact agree_style.bind tiles_style fun _ => .refl _

theorem agree_optional {α : Type} {reader other : Reader α} (h : Agree reader other)
    (tiles : other.Tiles) : Agree (optional reader) (optional other) := by
  refine (tiles_mark? _).agree fun _ => .ite (.refl _) ?_
  refine (tiles_mark? _).agree fun _ => .ite ?_ (.refl _)
  exact tiles_blanks.agree fun _ => h.bind tiles fun _ => .refl _

theorem agree_kind (h : ∀ scope, Agree (nested scope) (nested' scope))
    (tiles : ∀ scope, (nested' scope).Tiles) (type : String) :
    Agree (kind true nested type) (kind false nested' type) := by
  unfold kind
  split
  · refine (tiles_casesSeparator type).agree fun _ => tiles_offset.agree fun _ => ?_
    refine tiles_blanks.agree fun _ => ?_
    exact (agree_cases (h .plural) (tiles .plural) _).bind (tiles_cases (tiles .plural) _)
      fun _ => .refl _
  · refine .ite ?_ ?_
    · refine (tiles_casesSeparator type).agree fun _ => ?_
      exact (agree_cases (h .branch) (tiles .branch) _).bind (tiles_cases (tiles .branch) _)
        fun _ => .refl _
    · split
      · exact (agree_optional agree_style tiles_style).bind (tiles_optional tiles_style)
          fun _ => .refl _
      · have custom := agree_customStyle (h .branch) (tiles .branch)
        have customTiles := @tiles_customStyle false _ (tiles .branch)
        exact (agree_optional custom customTiles).bind (tiles_optional customTiles) fun _ => .refl _

theorem agree_placeholder (h : ∀ scope, Agree (nested scope) (nested' scope))
    (tiles : ∀ scope, (nested' scope).Tiles) :
    Agree (placeholder true nested) (placeholder false nested') := by
  refine tiles_blanks.agree fun _ => (tiles_word .id false rfl).agree fun id => ?_
  refine tiles_blanks.agree fun _ => (tiles_mark? _).agree fun _ => .ite (.refl _) ?_
  refine (tiles_mark? _).agree fun _ => .ite ?_ (.refl _)
  refine tiles_blanks.agree fun _ => ?_
  have typed : Agree (typed true nested) (typed false nested') :=
    (tiles_word .type false rfl).agree fun type => tiles_blanks.agree fun _ =>
      agree_kind h tiles type
  have typedTiles : (Grammar.typed false nested').Tiles :=
    (tiles_word .type false rfl).bind fun type => tiles_blanks.bind fun _ => tiles_kind tiles type
  exact typed.bind typedTiles fun _ => .refl _

/-- No tag is reached without a `<` ahead, so that the two modes need not agree on tags. -/
theorem agree_element? (h : ∀ scope, Agree (nested scope) (nested' scope))
    (tiles : ∀ scope, (nested' scope).Tiles) (scope : Scope) :
    Agree (element? true nested scope) (element? false nested' scope) := by
  refine (agree_text? scope .text).bind (tiles_text? .text) fun text => ?_
  cases text with
  | some text => exact .refl _
  | none =>
    refine agree_ahead fun cs plain => ?_
    split
    · rfl
    · exact absurd List.mem_cons_self plain
    · exact absurd List.mem_cons_self plain
    · refine (tiles_mark? _).agree (fun _ => ?_) _ plain
      exact (agree_placeholder h tiles).bind (tiles_placeholder tiles) fun _ => .refl _
    · rfl

theorem agree_message (room : Nat) (scope : Scope) :
    Agree (message true room scope) (message false room scope) := by
  induction room generalizing scope with
  | zero => exact .refl _
  | succ room ih =>
    have tiles := tiles_message false room
    exact (agree_element? ih tiles scope).many (tiles_element? tiles)

theorem agree_pattern : Agree (pattern true) (pattern false) := by
  have tiles := tiles_message false maxDepth
  have elements := (agree_element? (agree_message maxDepth) tiles .root).many (tiles_element? tiles)
  exact elements.bind (tiles_many (tiles_element? tiles)) fun _ => .refl _

end Grammar

/-! ## Whole patterns -/

/-- A pattern without `<` is read the same in both modes: the same message or error, and the same
tokens, those in front of an error included. -/
theorem tokenizeOnto_tags_eq {pattern : String} (h : '<' ∉ pattern.toList) (tokens : List Token) :
    tokenizeOnto tokens true pattern = tokenizeOnto tokens false pattern ∧
      parse true pattern = parse false pattern := by
  have same := Grammar.agree_pattern pattern.toList h
  constructor
  · rw [tokenizeOnto, tokenizeOnto, same]
  · rw [parse, parse, same]

theorem tokenizeOnto_tags_eq_of_offset :
    '<' ∉ "'\x7b' {n, plural, offset:x other {#}}".toList ∧
      tokenizeOnto [] true "'\x7b' {n, plural, offset:x other {#}}" =
        tokenizeOnto [] false "'\x7b' {n, plural, offset:x other {#}}" ∧
      parse true "'\x7b' {n, plural, offset:x other {#}}" =
        parse false "'\x7b' {n, plural, offset:x other {#}}" :=
  ⟨by decide, tokenizeOnto_tags_eq (by decide) []⟩

end MessageFormat
