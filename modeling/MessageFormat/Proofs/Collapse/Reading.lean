import MessageFormat.Proofs.Collapse.Message
import MessageFormat.Proofs.Soundness

/-!
# Reading alike patterns

Collapsing a pattern changes no reading of it but for the blanks in texts and styles. A text is read
with its blanks, whether they are quoted or not (`Alike.readText`). Readers are compared two at a
time: on alike patterns either both fail, or they leave alike rests and values that are related.
-/

namespace MessageFormat

open Text (isBlank collapseFrom)

variable {tags quoted inRun : Bool} {scope : Scope} {c : Char} {cs ds : List Char}

/-! ## Texts -/

theorem endsText_of_isBlank (h : isBlank c = true) :
    endsText tags scope c = endsText tags scope ' ' := by
  simp [endsText, isMark_of_isBlank h, isMark_of_isBlank isBlank_space, h, isBlank_space]

theorem endsText_blank_iff (h : isBlank c = true) :
    endsText tags scope c = true ↔ scope = .style := by
  simp [endsText, isMark_of_isBlank h, h]

theorem opensQuote_of_isBlank (h : isBlank c = true) :
    opensQuote tags scope c = opensQuote tags scope ' ' := by
  simp [opensQuote, isMark_of_isBlank h, isMark_of_isBlank isBlank_space]

theorem ne_apostrophe_eq_of_isBlank (h : isBlank c = true) : (c != '\'') = (' ' != '\'') := by
  simpa using ne_apostrophe_of_isBlank h

theorem collapseFrom_false_cons (c : Char) (cs : List Char) :
    ∃ d ds, collapseFrom false (c :: cs) = d :: ds ∧ (d = c ∨ isBlank c = true ∧ d = ' ') := by
  cases hc : isBlank c with
  | false => exact ⟨c, _, collapseFrom_cons hc, .inl rfl⟩
  | true => exact ⟨' ', _, collapseFrom_cons_blank hc, .inr ⟨rfl, rfl⟩⟩

theorem StopsAt.collapse {p : Char → Bool} (hp : ∀ c, isBlank c = true → p c = p ' ')
    (h : StopsAt p cs) : StopsAt p (collapseFrom false cs) := by
  cases cs with
  | nil => exact stopsAt_nil p
  | cons c cs =>
    obtain ⟨d, ds, split, rfl | ⟨hc, rfl⟩⟩ := collapseFrom_false_cons c cs
    · rw [split]
      exact stopsAt_cons.2 (stopsAt_cons.1 h)
    · rw [split, stopsAt_cons, ← hp c hc]
      exact stopsAt_cons.1 h

-- The pattern may be collapsed in the middle of a run (`inRun`), and so may the text (`ended`): a
-- quoting apostrophe breaks a run of the pattern, but none of the text.
theorem readText_collapseFrom {ended : Bool} (h : inRun = true → ended = true)
    (hs : scope = .style → quoted = false → inRun = false) (cs : List Char) :
    collapseFrom ended (readText tags scope quoted (collapseFrom inRun cs)).content =
        collapseFrom ended (readText tags scope quoted cs).content ∧
      (readText tags scope quoted (collapseFrom inRun cs)).rest =
        collapseFrom false (readText tags scope quoted cs).rest := by
  have ink := isBlank_apostrophe
  have plain : ∀ {α : Prop}, false = true → α := nofun
  fun_induction readText tags scope quoted cs generalizing inRun ended with
  | case1 => exact ⟨by rw [collapseFrom, readText_nil], by rw [collapseFrom, readText_nil]; rfl⟩
  | case2 quoted cs ih =>
    obtain ⟨content, rest⟩ := @ih false false plain (fun _ _ => rfl)
    rw [collapseFrom_cons ink, collapseFrom_cons ink, readText_apostrophe]
    simp only [Span.apostrophe, collapseFrom_cons ink, content, rest, and_self]
  | case3 c cs hc ih =>
    have closes : StopsAt (· != '\'') (c :: cs) := stopsAt_cons.2 (by simpa using hc)
    have still := closes.collapse fun _ => ne_apostrophe_eq_of_isBlank
    rw [collapseFrom_cons ink, readText_close still]
    exact @ih false ended plain (fun _ _ => rfl)
  | case4 quoted c cs hc hq ho ih =>
    obtain rfl : quoted = false := by simpa using hq
    obtain ⟨d, ds, split, same⟩ := collapseFrom_false_cons c cs
    have opens : d ≠ '\'' ∧ opensQuote tags scope d = true := by
      obtain rfl | ⟨blank, rfl⟩ := same
      · exact ⟨hc, ho⟩
      · exact ⟨by decide, opensQuote_of_isBlank blank ▸ ho⟩
    rw [collapseFrom_cons ink, split, readText_open opens.1 opens.2, ← split]
    exact @ih false ended plain (fun _ _ => rfl)
  | case5 quoted c cs hc hq ho ih =>
    obtain rfl : quoted = false := by simpa using hq
    have opensNothing : StopsAt (fun c => c != '\'' && !opensQuote tags scope c) (c :: cs) :=
      stopsAt_cons.2 (by simpa using ⟨hc, by simpa using ho⟩)
    have lone := opensNothing.collapse fun d hd => by
      rw [ne_apostrophe_eq_of_isBlank hd, opensQuote_of_isBlank hd]
    obtain ⟨content, rest⟩ := @ih false false plain (fun _ _ => rfl)
    rw [collapseFrom_cons ink, readText_lone lone]
    simp only [Span.literal, collapseFrom_cons ink, content, rest, and_self]
  | case6 =>
    rw [collapseFrom_cons ink, collapseFrom, readText_close (stopsAt_nil _), readText_nil]
    exact ⟨rfl, rfl⟩
  | case7 quoted hq =>
    obtain rfl : quoted = false := by simpa using hq
    rw [collapseFrom_cons ink, collapseFrom, readText_lone (stopsAt_nil _), readText_nil]
    exact ⟨rfl, rfl⟩
  | case8 quoted c cs _ _ _ he =>
    obtain ⟨rfl, he⟩ : quoted = false ∧ endsText tags scope c = true := by simpa using he
    have here : collapseFrom inRun (c :: cs) = collapseFrom false (c :: cs) := by
      cases blank : isBlank c with
      | false => rw [collapseFrom_cons blank, collapseFrom_cons blank]
      | true => rw [hs ((endsText_blank_iff blank).1 he) rfl]
    have ends : StopsAt (endsText tags scope) (c :: cs) := stopsAt_cons.2 he
    rw [here, readText_done (ends.collapse fun _ => endsText_of_isBlank)]
    exact ⟨rfl, rfl⟩
  | case9 quoted c cs h₁ h₂ h₃ he ih =>
    have hc : c ≠ '\'' := by
      rintro rfl
      cases cs with
      | nil => exact h₃ rfl rfl
      | cons d cs => exact h₂ d cs rfl rfl
    have goesOn : quoted = true ∨ endsText tags scope c = false := by
      cases quoted with
      | true => exact .inl rfl
      | false => exact .inr (by simpa using he)
    cases blank : isBlank c with
    | false =>
      obtain ⟨content, rest⟩ := @ih false false plain (fun _ _ => rfl)
      rw [collapseFrom_cons blank, readText_literal hc goesOn]
      simp only [Span.literal, collapseFrom_cons blank, content, rest, and_self]
    | true =>
      have unstyled : scope = .style → quoted = false → true = false := by
        rintro styled rfl
        rw [(endsText_blank_iff blank).2 styled] at goesOn
        simp at goesOn
      obtain ⟨content, rest⟩ := @ih true true id unstyled
      have space := @readText_literal tags scope quoted ' ' (collapseFrom true cs) (by decide)
        (endsText_of_isBlank blank ▸ goesOn)
      rw [collapseFrom_cons_blank blank]
      cases inRun with
      | true =>
        rw [h rfl]
        simp only [Span.literal, collapseFrom_cons_blank blank, if_true, content, rest, and_self]
      | false =>
        rw [if_neg Bool.false_ne_true, space]
        simp only [Span.literal, collapseFrom_cons_blank blank,
          collapseFrom_cons_blank isBlank_space, content, rest, and_self]

theorem Alike.readText (h : Alike cs ds) :
    Alike (readText tags scope false cs).content (readText tags scope false ds).content ∧
      Alike (readText tags scope false cs).rest (readText tags scope false ds).rest := by
  have collapsed := @readText_collapseFrom tags false false scope false id fun _ _ => rfl
  obtain ⟨content, rest⟩ := collapsed cs
  obtain ⟨content', rest'⟩ := collapsed ds
  rw [show collapseFrom false cs = collapseFrom false ds from h] at content rest
  exact ⟨content.symm.trans content', rest.symm.trans rest'⟩

theorem Alike.eq_nil_iff (h : Alike cs ds) : cs = [] ↔ ds = [] := by
  constructor
  · rintro rfl
    exact h.of_nil
  · rintro rfl
    exact h.symm.of_nil

namespace Reader

variable {α β γ δ : Type} {R : α → β → Prop} {S : γ → δ → Prop}

/-! ## Two readers at a time -/

/-- On alike patterns both readers fail, or they read related values and leave alike rests. -/
def Parallel (R : α → β → Prop) (reader : Reader α) (other : Reader β) : Prop :=
  ∀ cs ds, Alike cs ds →
    Option.Rel (fun x y => R x.1 y.1 ∧ Alike x.2 y.2) (read? reader cs) (read? other ds)

theorem Parallel.bind {reader : Reader α} {other : Reader β} {next : α → Reader γ}
    {next' : β → Reader δ} (h : Parallel R reader other)
    (hnext : ∀ a b, R a b → Parallel S (next a) (next' b)) :
    Parallel S (reader >>= next) (other >>= next') := by
  intro cs ds alike
  have first := h cs ds alike
  rw [read?_bind, read?_bind]
  generalize read? reader cs = x at first ⊢
  generalize read? other ds = y at first ⊢
  cases first with
  | some related => exact hnext _ _ related.1 _ _ related.2
  | none => exact .none

/-- A value that both readers share is read before they differ. -/
theorem Parallel.bind_eq {reader : Reader α} {next : α → Reader γ} {next' : α → Reader δ}
    (h : Parallel Eq reader reader) (hnext : ∀ a, Parallel S (next a) (next' a)) :
    Parallel S (reader >>= next) (reader >>= next') :=
  h.bind fun a _ same => same ▸ hnext a

theorem parallel_pure {a : α} {b : β} (h : R a b) : Parallel R (pure a) (pure b) :=
  fun _ _ alike => .some ⟨h, alike⟩

theorem parallel_stop (fault fault' : Fault) : Parallel R (stop fault) (stop fault') :=
  fun _ _ _ => .none

theorem parallel_ahead : Parallel Alike ahead ahead :=
  fun _ _ alike => .some ⟨alike, alike⟩

theorem Parallel.ite {p q : Prop} [Decidable p] [Decidable q] {reader reader' : Reader α}
    {other other' : Reader β} (hpq : p ↔ q) (h : p → Parallel R reader other)
    (h' : ¬ p → Parallel R reader' other') :
    Parallel R (if p then reader else reader') (if q then other else other') := by
  by_cases hp : p
  · rw [if_pos hp, if_pos (hpq.1 hp)]
    exact h hp
  · rw [if_neg hp, if_neg (mt hpq.2 hp)]
    exact h' hp

theorem parallel_literal? {kind : TokenKind} {text : List Char}
    (ht : text.any isBlank = false) :
    Parallel Eq (literal? kind text) (literal? kind text) := by
  intro cs ds alike
  by_cases front : text <+: cs
  · obtain ⟨rest, rfl⟩ := front
    obtain ⟨rest', rfl⟩ := (alike.prefix_iff ht).1 (List.prefix_append text rest)
    rw [read?_literal?_append, read?_literal?_append]
    exact .some ⟨rfl, alike.of_append ht⟩
  · rw [read?_literal?_of_not kind front,
      read?_literal?_of_not kind (mt (alike.prefix_iff ht).2 front)]
    exact .some ⟨rfl, alike⟩

theorem parallel_mark? {text : List Char} (ht : text.any isBlank = false) :
    Parallel Eq (mark? text) (mark? text) :=
  parallel_literal? ht

theorem parallel_mark {text : List Char} (ht : text.any isBlank = false) (fault : Fault) :
    Parallel Eq (mark text fault) (mark text fault) :=
  (parallel_mark? ht).bind_eq fun _ =>
    .ite Iff.rfl (fun _ => parallel_pure rfl) fun _ => parallel_stop _ _

theorem parallel_run {kind : TokenKind} {p : Char → Bool}
    (hp : ∀ c, p c = true → isBlank c = false) : Parallel Eq (run kind p) (run kind p) := by
  intro cs ds alike
  obtain ⟨taken, left⟩ := alike.takeWhile hp
  rw [read?_run, read?_run, taken]
  exact .some ⟨rfl, left⟩

theorem parallel_blanks : Parallel Eq blanks blanks := by
  have skip : Parallel (fun _ _ => True) (run .space isBlank) (run .space isBlank) :=
    fun _ _ alike => .some ⟨trivial, alike.dropWhile_blank⟩
  exact skip.bind fun _ _ _ => parallel_pure rfl

theorem parallel_word? (kind : TokenKind) (inTag : Bool) :
    Parallel Eq (word? kind inTag) (word? kind inTag) :=
  (parallel_run fun _ => isBlank_of_not_endsWord).bind_eq fun _ => parallel_pure rfl

theorem parallel_word (kind : TokenKind) (inTag : Bool) (fault : Fault) :
    Parallel Eq (word kind inTag fault) (word kind inTag fault) := by
  refine (parallel_word? kind inTag).bind_eq fun taken => ?_
  cases taken with
  | none => exact parallel_stop _ _
  | some taken => exact parallel_pure rfl

theorem parallel_many {reader : Reader (Option α)} {R : α → α → Prop} (rep : Repeatable reader)
    (h : Parallel (Option.Rel R) reader reader) :
    Parallel (List.Forall₂ R) (many reader) (many reader) := by
  intro cs
  induction hn : cs.length using Nat.strong_induction_on generalizing cs with
  | _ n ih =>
    intro ds alike
    have first := h cs ds alike
    rw [rep.read?_many, rep.read?_many]
    generalize hx : read? reader cs = x at first ⊢
    generalize read? reader ds = y at first ⊢
    cases first with
    | none => exact .none
    | @some x y related =>
      obtain ⟨v, rest⟩ := x
      obtain ⟨w, rest'⟩ := y
      obtain ⟨same, left⟩ : Option.Rel R v w ∧ Alike rest rest' := related
      cases same with
      | none => exact .some ⟨.nil, left⟩
      | some head =>
        have tail := ih rest.length (hn ▸ rep.progress hx) rest rfl rest' left
        simp only [Option.bind_some]
        generalize read? (many reader) rest = xs at tail ⊢
        generalize read? (many reader) rest' = ys at tail ⊢
        cases tail with
        | none => exact .none
        | some more => exact .some ⟨.cons head more.1, more.2⟩

end Reader

end MessageFormat
