import MessageFormat.Pattern.Reader
import Mathlib

/-!
# What readers give

`read?` keeps of a reading its value and the rest of the pattern. Every reader has one lemma that
says when it gives a value, in terms of the pieces of the pattern: blanks, words and runs.
-/

namespace MessageFormat

/-! ## Pieces of a pattern -/

/-- The characters end here, or go on with one that has the property. -/
def StopsAt (p : Char → Bool) (cs : List Char) : Prop := ∀ c ∈ cs.head?, p c = true

theorem stopsAt_nil (p : Char → Bool) : StopsAt p [] := by
  intro c hc
  cases hc

theorem stopsAt_cons {p : Char → Bool} {c : Char} {cs : List Char} :
    StopsAt p (c :: cs) ↔ p c = true := by
  simp [StopsAt]

theorem StopsAt.mono {p q : Char → Bool} {cs : List Char} (h : StopsAt p cs)
    (hpq : ∀ c, p c = true → q c = true) : StopsAt q cs :=
  fun c hc => hpq c (h c hc)

/-- `Run p cs taken rest`: the longest run of characters with `p` in front of `cs` is `taken`. -/
structure Run (p : Char → Bool) (cs taken rest : List Char) : Prop where
  split : cs = taken ++ rest
  all : ∀ c ∈ taken, p c = true
  longest : StopsAt (!p ·) rest

theorem run_takeWhile (p : Char → Bool) (cs : List Char) :
    Run p cs (cs.takeWhile p) (cs.dropWhile p) := by
  refine ⟨List.takeWhile_append_dropWhile.symm, fun c hc => List.mem_takeWhile_imp hc, ?_⟩
  intro c hc
  have := List.head?_dropWhile_not p cs
  rw [hc] at this
  simpa using this

theorem Run.takeWhile_eq {p : Char → Bool} {cs taken rest : List Char} (h : Run p cs taken rest) :
    cs.takeWhile p = taken ∧ cs.dropWhile p = rest := by
  obtain ⟨rfl, all, longest⟩ := h
  induction taken with
  | nil =>
    cases rest with
    | nil => exact ⟨rfl, rfl⟩
    | cons c rest =>
      have hc : p c = false := by simpa using stopsAt_cons.1 longest
      simp [hc]
  | cons c taken ih =>
    obtain ⟨ih₁, ih₂⟩ := ih (fun d hd => all d (List.mem_cons_of_mem _ hd))
    have hc := all c List.mem_cons_self
    simp [hc, ih₁, ih₂]

/-- A run of blanks, not always the longest, in front of `rest`. -/
def Blanks (cs rest : List Char) : Prop :=
  ∃ w, (∀ c ∈ w, Text.isBlank c = true) ∧ cs = w ++ rest

theorem Blanks.refl (cs : List Char) : Blanks cs cs := ⟨[], by simp, rfl⟩

theorem Blanks.cons {c : Char} {cs rest : List Char} (hc : Text.isBlank c = true)
    (h : Blanks cs rest) : Blanks (c :: cs) rest := by
  obtain ⟨w, hw, rfl⟩ := h
  exact ⟨c :: w, by simpa [hc] using hw, rfl⟩

theorem Blanks.length_le {cs rest : List Char} (h : Blanks cs rest) :
    rest.length ≤ cs.length := by
  obtain ⟨w, -, rfl⟩ := h
  simp

theorem Blanks.eq_of_stopsAt {cs rest : List Char} (h : Blanks cs rest)
    (stops : StopsAt (!Text.isBlank ·) cs) : rest = cs := by
  obtain ⟨w, hw, rfl⟩ := h
  cases w with
  | nil => rfl
  | cons c w =>
    have blank := hw c List.mem_cons_self
    rw [List.cons_append, stopsAt_cons, blank] at stops
    cases stops

theorem Blanks.unique {cs rest rest' : List Char} (h : Blanks cs rest)
    (stops : StopsAt (!Text.isBlank ·) rest) (h' : Blanks cs rest')
    (stops' : StopsAt (!Text.isBlank ·) rest') : rest = rest' := by
  obtain ⟨w, all, split⟩ := h
  obtain ⟨w', all', split'⟩ := h'
  have run : Run Text.isBlank cs w rest := ⟨split, all, stops⟩
  have run' : Run Text.isBlank cs w' rest' := ⟨split', all', stops'⟩
  exact run.takeWhile_eq.2.symm.trans run'.takeWhile_eq.2

/-- What a word is made of: at least one character and none that ends a word. -/
def IsWord (inTag : Bool) (word : String) : Prop :=
  word ≠ "" ∧ ∀ c ∈ word.toList, endsWord inTag c = false

instance (inTag : Bool) (word : String) : Decidable (IsWord inTag word) :=
  decidable_of_iff (word ≠ "" ∧ word.toList.all (!endsWord inTag ·) = true) (by simp [IsWord])

/-- A word in front of `rest`, as long as it can be. -/
structure Word (inTag : Bool) (cs : List Char) (word : String) (rest : List Char) : Prop where
  split : cs = word.toList ++ rest
  isWord : IsWord inTag word
  longest : StopsAt (endsWord inTag) rest

theorem Word.length_lt {inTag : Bool} {cs rest : List Char} {word : String}
    (h : Word inTag cs word rest) : rest.length < cs.length := by
  have : word.toList ≠ [] := by simpa using h.isWord.1
  have := List.length_pos_iff.2 this
  rw [h.split, List.length_append]
  omega

theorem endsWord_of_isBlank {inTag : Bool} {c : Char} (h : Text.isBlank c = true) :
    endsWord inTag c = true := by
  simp [endsWord, h]

theorem IsWord.exists_cons {inTag : Bool} {word : String} (h : IsWord inTag word) :
    ∃ c cs, word.toList = c :: cs ∧ endsWord inTag c = false := by
  obtain ⟨hne, hall⟩ := h
  obtain ⟨c, cs, split⟩ := List.exists_cons_of_ne_nil (mt String.toList_eq_nil_iff.1 hne)
  exact ⟨c, cs, split, hall c (split ▸ List.mem_cons_self)⟩

theorem Word.exists_cons {inTag : Bool} {cs rest : List Char} {word : String}
    (h : Word inTag cs word rest) : ∃ c tail, cs = c :: tail ∧ endsWord inTag c = false := by
  obtain ⟨c, tail, split, hc⟩ := h.isWord.exists_cons
  exact ⟨c, tail ++ rest, by rw [h.split, split, List.cons_append], hc⟩

theorem Word.stopsAt_blank {inTag : Bool} {cs rest : List Char} {word : String}
    (h : Word inTag cs word rest) : StopsAt (!Text.isBlank ·) cs := by
  obtain ⟨c, tail, rfl, hc⟩ := h.exists_cons
  rw [stopsAt_cons, Bool.not_eq_true']
  by_contra blank
  rw [endsWord_of_isBlank (by simpa using blank)] at hc
  cases hc

theorem run_word_iff {inTag : Bool} {cs rest : List Char} {word : String} :
    Run (!endsWord inTag ·) cs word.toList rest ∧ word ≠ "" ↔ Word inTag cs word rest := by
  constructor
  · rintro ⟨⟨split, all, longest⟩, hne⟩
    exact ⟨split, ⟨hne, by simpa using all⟩, by simpa using longest⟩
  · rintro ⟨split, ⟨hne, all⟩, longest⟩
    exact ⟨⟨split, by simpa using all, by simpa using longest⟩, hne⟩

theorem Word.unique {inTag : Bool} {cs rest rest' : List Char} {word word' : String}
    (h : Word inTag cs word rest) (h' : Word inTag cs word' rest') :
    word = word' ∧ rest = rest' := by
  obtain ⟨taken, left⟩ := (run_word_iff.2 h).1.takeWhile_eq
  obtain ⟨taken', left'⟩ := (run_word_iff.2 h').1.takeWhile_eq
  exact ⟨String.toList_inj.1 (taken.symm.trans taken'), left.symm.trans left'⟩

/-! ## Values and rests -/

def Reading.result? {α : Type} : Reading α → Option (α × List Char)
  | .done value rest _ => some (value, rest)
  | .stopped _ _ _ => none

theorem Reading.result?_after {α : Type} (tokens : List Token) (reading : Reading α) :
    (reading.after tokens).result? = reading.result? := by
  cases reading <;> rfl

namespace Reader

variable {α β : Type}

/-- The value that a reader takes from the front of a pattern, with the rest. -/
def read? (reader : Reader α) (cs : List Char) : Option (α × List Char) :=
  (reader cs).result?

theorem read?_pure (a : α) (cs : List Char) : read? (pure a) cs = some (a, cs) := rfl

theorem read?_stop (fault : Fault) (cs : List Char) :
    read? (stop fault : Reader α) cs = none := rfl

theorem read?_ahead (cs : List Char) : read? ahead cs = some (cs, cs) := rfl

theorem read?_bind (reader : Reader α) (next : α → Reader β) (cs : List Char) :
    read? (reader >>= next) cs = (read? reader cs).bind fun x => read? (next x.1) x.2 := by
  change Reading.result? (Reader.bind reader next cs) = _
  unfold Reader.bind read?
  cases reader cs with
  | done value rest tokens => exact Reading.result?_after _ _
  | stopped fault rest tokens => rfl

theorem read?_bind_eq_some {reader : Reader α} {next : α → Reader β} {cs rest : List Char}
    {b : β} : read? (reader >>= next) cs = some (b, rest) ↔
      ∃ a mid, read? reader cs = some (a, mid) ∧ read? (next a) mid = some (b, rest) := by
  rw [read?_bind, Option.bind_eq_some_iff]
  simp only [Prod.exists]

theorem read?_ite (p : Prop) [Decidable p] (reader other : Reader α) (cs : List Char) :
    read? (if p then reader else other) cs = if p then read? reader cs else read? other cs := by
  split <;> rfl

/-! ## Marks, blanks and words -/

theorem read?_literal? (kind : TokenKind) (text cs : List Char) :
    read? (literal? kind text) cs =
      some (if text.isPrefixOf cs then (true, cs.drop text.length) else (false, cs)) := by
  unfold read? literal?
  split <;> rfl

theorem read?_literal?_append (kind : TokenKind) (text cs : List Char) :
    read? (literal? kind text) (text ++ cs) = some (true, cs) := by
  have : text.isPrefixOf (text ++ cs) = true := by simp
  rw [read?_literal?, if_pos this, List.drop_left]

theorem read?_literal?_of_not {text cs : List Char} (kind : TokenKind) (h : ¬ text <+: cs) :
    read? (literal? kind text) cs = some (false, cs) := by
  have : ¬ text.isPrefixOf cs = true := by simpa using h
  rw [read?_literal?, if_neg this]

theorem read?_literal?_eq_some {kind : TokenKind} {text cs rest : List Char} {b : Bool} :
    read? (literal? kind text) cs = some (b, rest) ↔
      b = true ∧ cs = text ++ rest ∨ b = false ∧ rest = cs ∧ ¬ text <+: cs := by
  by_cases h : text <+: cs
  · obtain ⟨tail, rfl⟩ := h
    rw [read?_literal?_append]
    simp [eq_comm]
  · rw [read?_literal?_of_not kind h]
    constructor
    · rintro ⟨⟩
      exact .inr ⟨rfl, rfl, h⟩
    · rintro (⟨-, rfl⟩ | ⟨rfl, rfl, -⟩)
      · exact absurd (List.prefix_append _ _) h
      · rfl

theorem read?_mark_eq_some {text cs rest : List Char} {fault : Fault} {u : Unit} :
    read? (mark text fault) cs = some (u, rest) ↔ cs = text ++ rest := by
  unfold mark mark?
  rw [read?_bind_eq_some]
  constructor
  · rintro ⟨b, mid, hb, h⟩
    obtain ⟨rfl, rfl⟩ | ⟨rfl, -, -⟩ := read?_literal?_eq_some.1 hb
    · obtain ⟨-, rfl⟩ := Prod.mk.inj (Option.some.inj h)
      rfl
    · exact nomatch h
  · rintro rfl
    exact ⟨true, rest, read?_literal?_append _ _ _, rfl⟩

theorem read?_run (kind : TokenKind) (p : Char → Bool) (cs : List Char) :
    read? (run kind p) cs = some (cs.takeWhile p, cs.dropWhile p) := rfl

theorem read?_run_eq_some {kind : TokenKind} {p : Char → Bool} {cs taken rest : List Char} :
    read? (run kind p) cs = some (taken, rest) ↔ Run p cs taken rest := by
  rw [read?_run]
  constructor
  · rintro ⟨⟩
    exact run_takeWhile p cs
  · intro h
    rw [h.takeWhile_eq.1, h.takeWhile_eq.2]

theorem read?_blanks_eq_some {cs rest : List Char} {u : Unit} :
    read? blanks cs = some (u, rest) ↔ Blanks cs rest ∧ StopsAt (!Text.isBlank ·) rest := by
  unfold blanks
  rw [read?_bind_eq_some]
  constructor
  · rintro ⟨w, mid, hw, h⟩
    obtain ⟨split, all, longest⟩ := read?_run_eq_some.1 hw
    obtain ⟨-, rfl⟩ := Prod.mk.inj (Option.some.inj h)
    exact ⟨⟨w, all, split⟩, longest⟩
  · rintro ⟨⟨w, all, split⟩, longest⟩
    exact ⟨w, rest, read?_run_eq_some.2 ⟨split, all, longest⟩, rfl⟩

theorem read?_word?_eq_some {kind : TokenKind} {inTag : Bool} {cs rest : List Char}
    {word : String} : read? (word? kind inTag) cs = some (some word, rest) ↔
      Word inTag cs word rest := by
  unfold word?
  rw [read?_bind_eq_some, ← run_word_iff]
  constructor
  · rintro ⟨taken, mid, ht, h⟩
    rw [read?_pure, Option.some.injEq, Prod.mk.injEq] at h
    obtain ⟨h, rfl⟩ := h
    split at h
    · cases h
    · rename_i hne
      cases h
      exact ⟨by simpa using read?_run_eq_some.1 ht, by simpa using hne⟩
  · rintro ⟨hr, hne⟩
    refine ⟨word.toList, rest, read?_run_eq_some.2 hr, ?_⟩
    simp [read?_pure, hne]

theorem read?_word?_eq_none {kind : TokenKind} {inTag : Bool} {cs rest : List Char} :
    read? (word? kind inTag) cs = some (none, rest) ↔ rest = cs ∧ StopsAt (endsWord inTag) cs := by
  unfold word?
  rw [read?_bind_eq_some]
  constructor
  · rintro ⟨taken, mid, ht, h⟩
    obtain ⟨rfl, -, longest⟩ := read?_run_eq_some.1 ht
    rw [read?_pure, Option.some.injEq, Prod.mk.injEq] at h
    obtain ⟨h, rfl⟩ := h
    split at h
    · rename_i he
      obtain rfl : taken = [] := by simpa using he
      exact ⟨rfl, by simpa using longest⟩
    · cases h
  · rintro ⟨rfl, h⟩
    exact ⟨[], rest, read?_run_eq_some.2 ⟨rfl, by simp, by simpa using h⟩, rfl⟩

theorem read?_word_eq_some {kind : TokenKind} {inTag : Bool} {fault : Fault}
    {cs rest : List Char} {w : String} :
    read? (word kind inTag fault) cs = some (w, rest) ↔ Word inTag cs w rest := by
  unfold word
  rw [read?_bind_eq_some, ← @read?_word?_eq_some kind]
  constructor
  · rintro ⟨a, mid, ha, h⟩
    cases a with
    | none => exact nomatch h
    | some a =>
      obtain ⟨rfl, rfl⟩ := Prod.mk.inj (Option.some.inj h)
      exact ha
  · intro h
    exact ⟨some w, rest, h, rfl⟩

/-! ## Repetition -/

/-- What holds of no value and is kept by one more value holds of all that `many` reads. -/
theorem read?_many_induction {reader : Reader (Option α)}
    {R : List Char → List α → List Char → Prop}
    (none_rest : ∀ {cs rest}, read? reader cs = some (none, rest) → rest = cs)
    (nil : ∀ cs, R cs [] cs)
    (cons : ∀ {cs a mid as rest}, read? reader cs = some (some a, mid) → R mid as rest →
      R cs (a :: as) rest) {cs : List Char} {as : List α} {rest : List Char}
    (h : read? (many reader) cs = some (as, rest)) : R cs as rest := by
  have bounded : ∀ n cs as rest, read? (atMost reader n) cs = some (as, rest) → R cs as rest := by
    intro n
    induction n with
    | zero =>
      intro cs as rest h
      cases h
      exact nil cs
    | succ n ih =>
      intro cs as rest h
      obtain ⟨_ | a, mid, hr, h⟩ := read?_bind_eq_some.1 h
      · cases h
        rw [none_rest hr]
        exact nil cs
      · obtain ⟨as, _, ht, h⟩ := read?_bind_eq_some.1 h
        cases h
        exact cons hr (ih mid as _ ht)
  exact bounded cs.length cs as rest h

/-- What `many` can repeat: a value takes at least one character, and there is none at the end. -/
structure Repeatable (reader : Reader (Option α)) : Prop where
  progress : ∀ {cs a rest}, read? reader cs = some (some a, rest) → rest.length < cs.length
  nil : read? reader [] = some (none, [])

theorem Repeatable.read?_atMost {reader : Reader (Option α)} (h : Repeatable reader) (n m : Nat)
    (cs : List Char) (hn : cs.length ≤ n) (hm : cs.length ≤ m) :
    read? (atMost reader n) cs = read? (atMost reader m) cs := by
  have atEnd : ∀ k, read? (atMost reader k) [] = some ([], []) := by
    intro k
    cases k with
    | zero => rfl
    | succ k => rw [atMost, read?_bind, h.nil]; rfl
  induction n generalizing m cs with
  | zero =>
    obtain rfl : cs = [] := List.eq_nil_of_length_eq_zero (Nat.le_zero.1 hn)
    rw [atEnd, atEnd]
  | succ n ih =>
    cases m with
    | zero =>
      obtain rfl : cs = [] := List.eq_nil_of_length_eq_zero (Nat.le_zero.1 hm)
      rw [atEnd, atEnd]
    | succ m =>
      simp only [atMost, read?_bind]
      cases hr : read? reader cs with
      | none => rfl
      | some x =>
        obtain ⟨_ | a, rest⟩ := x
        · rfl
        · have shorter := h.progress hr
          simp only [Option.bind_some, read?_bind]
          rw [ih m rest (by omega) (by omega)]

theorem Repeatable.read?_many {reader : Reader (Option α)} (h : Repeatable reader)
    (cs : List Char) : read? (many reader) cs =
      (read? reader cs).bind fun x => match x with
        | (none, rest) => some ([], rest)
        | (some a, rest) => (read? (many reader) rest).map fun y => (a :: y.1, y.2) := by
  change read? (atMost reader cs.length) cs = _
  rw [h.read?_atMost _ (cs.length + 1) cs (Nat.le_refl _) (Nat.le_succ _)]
  simp only [atMost, read?_bind]
  cases hr : read? reader cs with
  | none => rfl
  | some x =>
    obtain ⟨_ | a, rest⟩ := x
    · rfl
    · have shorter := h.progress hr
      have tail : read? (many reader) rest = read? (atMost reader cs.length) rest :=
        h.read?_atMost _ _ rest (Nat.le_refl _) (Nat.le_of_lt shorter)
      simp only [Option.bind_some, read?_bind, tail]
      cases read? (atMost reader cs.length) rest <;> rfl

end Reader

end MessageFormat
