import MessageFormat.Proofs.Cases
import MessageFormat.Proofs.Decimal
import MessageFormat.Proofs.RoundTrip.Element

/-!
# Printed cases

What is read of printed cases and of the kinds that hold them. The one thing that can go wrong is
in `rereads_mistaken`: without an offset in front of it, a selector may be taken for one.
-/

namespace MessageFormat.Grammar

open Reader

variable {tags : Bool} {scope : Scope} {nested : Nested} {s : String} {rest X mid : List Char}
  {p : Prop}

/-! ## Cases -/

theorem read?_case?_ne_none {after : List Char} (hw : Word false X s after) :
    read? (case? nested scope) X ≠ some (none, rest) := by
  intro hr
  obtain ⟨c, tail, split, hc⟩ := hw.exists_cons
  have ends := (read?_case?_eq_none.1 hr).2
  rw [split, stopsAt_cons, hc] at ends
  cases ends

theorem rereads_case {like : Message → Prop} {message : Message} {after : List Char}
    (hw : IsWord false s)
    (h : Rereads like (read? (nested scope) X) message ('}' :: after) p)
    (hb : Blanks after mid) (stops : StopsAt (!Text.isBlank ·) mid) :
    Rereads (fun v => ∃ c, v = some c ∧ c.selector = s)
      (read? (case? nested scope) (s.toList ++ ' ' :: '{' :: X)) (some ⟨s, message⟩) mid p := by
  have word : Word false (s.toList ++ ' ' :: '{' :: X) s (' ' :: '{' :: X) :=
    ⟨rfl, hw, stopsAt_cons.2 (by decide)⟩
  have space : Blanks (' ' :: '{' :: X) ('{' :: X) := .cons (by decide) (.refl _)
  have read : ∀ {c r}, read? (case? nested scope) (s.toList ++ ' ' :: '{' :: X) =
      some (some c, r) → c.selector = s ∧ read? (nested scope) X = some (c.message, '}' :: after) ∧
        r = mid := by
    intro c r hr
    obtain ⟨cs₁, cs₂, cs₃, hw', hb₁, hm, hb₂, stops₂⟩ := read?_case?_eq_some.1 hr
    obtain ⟨rfl, rfl⟩ := word.unique hw'
    obtain ⟨-, rfl⟩ := List.cons.inj
      (space.unique (stopsAt_blank_cons (by decide)) hb₁ (stopsAt_blank_cons (by decide)))
    obtain ⟨-, rfl⟩ := List.cons.inj (h.like hm).2
    exact ⟨rfl, hm, hb₂.unique stops₂ hb stops⟩
  constructor
  · intro v r hr
    cases v with
    | none => exact absurd hr (read?_case?_ne_none word)
    | some c =>
      obtain ⟨same, -, rfl⟩ := read hr
      exact ⟨⟨c, rfl, same⟩, rfl⟩
  · rw [← h.iff]
    constructor
    · intro hr
      exact (read hr).2.1
    · intro hm
      exact read?_case?_eq_some.2 ⟨_, X, after, word, space, hm, hb, stops⟩

theorem rereads_cases {branches : Cases} {owner : Option String}
    (nodup : (Cases.selectors branches).Nodup)
    (other : owner ≠ none → Cases.contains branches "other" = true)
    (h : Rereads (fun bs => Cases.selectors bs = Cases.selectors branches)
      (read? (many (case? nested scope)) X) branches ('}' :: rest) p) :
    Rereads (fun bs => Cases.selectors bs = Cases.selectors branches)
      (read? (cases nested scope owner) X) branches ('}' :: rest) p := by
  have collect : ∀ {bs : Cases}, Cases.selectors bs = Cases.selectors branches →
      Cases.ofList bs = bs := fun same => Cases.ofList_of_nodup (same ▸ nodup)
  constructor
  · intro bs mid hr
    obtain ⟨list, hm, -, rfl, -⟩ := read?_cases_eq_some.1 hr
    obtain ⟨same, rfl⟩ := h.like hm
    rw [collect same]
    exact ⟨same, rfl⟩
  · rw [← h.iff]
    constructor
    · intro hr
      obtain ⟨list, hm, -, value, -⟩ := read?_cases_eq_some.1 hr
      obtain ⟨same, -⟩ := h.like hm
      rw [value, collect same]
      exact hm
    · intro hm
      refine read?_cases_eq_some.2 ⟨branches, hm, stopsAt_cons.2 (by decide), ?_, other⟩
      exact (Cases.ofList_of_nodup nodup).symm

theorem rereads_select {like : Cases → Prop} {branches : Cases} {after : List Char}
    (hb : Blanks after X) (stops : StopsAt (!Text.isBlank ·) X)
    (h : Rereads like (read? (cases nested .branch (some "select")) X) branches ('}' :: rest) p) :
    Rereads (fun _ => True) (read? (kind tags nested "select") (',' :: after))
      (.select branches) rest p := by
  refine h.closed Kind.select (fun _ _ same => Kind.select.inj same) fun k r => ?_
  rw [read?_kind_select]
  constructor
  · rintro ⟨cs₁, cs₂, bs, split, hb₁, stops₁, hc, rfl⟩
    obtain ⟨-, rfl⟩ := List.cons.inj split
    rw [hb.unique stops hb₁ stops₁]
    exact ⟨bs, hc, rfl⟩
  · rintro ⟨bs, hc, rfl⟩
    exact ⟨after, X, bs, rfl, hb, stops, hc, rfl⟩

theorem rereads_plural {like : Cases → Prop} {type : PluralType} {n : UInt32} {branches : Cases}
    {after mid' : List Char} (hb : Blanks after X) (stops : StopsAt (!Text.isBlank ·) X)
    (ho : read? offset X = some (n, mid)) (hb' : read? blanks mid = some ((), mid'))
    (h : Rereads like (read? (cases nested .plural (some type.keyword)) mid') branches
      ('}' :: rest) p) :
    Rereads (fun _ => True) (read? (kind tags nested type.keyword) (',' :: after))
      (.plural type n branches) rest p := by
  refine h.closed (Kind.plural type n) (fun _ _ same => (Kind.plural.inj same).2.2) fun k r => ?_
  rw [read?_kind_plural (ofKeyword?_keyword type)]
  constructor
  · rintro ⟨cs₁, cs₂, n', cs₃, cs₄, bs, split, hb₁, stops₁, ho₁, hb₂, hc, rfl⟩
    obtain ⟨-, rfl⟩ := List.cons.inj split
    obtain rfl := hb.unique stops hb₁ stops₁
    rw [ho] at ho₁
    cases ho₁
    rw [hb'] at hb₂
    cases hb₂
    exact ⟨bs, hc, rfl⟩
  · rintro ⟨bs, hc, rfl⟩
    exact ⟨after, X, n, mid, mid', bs, rfl, hb, stops, ho, hb', hc, rfl⟩

theorem rereads_customCases {like : Cases → Prop} {type : String} {branches : Cases}
    {after : List Char} (ht : IsCustom type) (opens : OpensCase X) (hb : Blanks after X)
    (stops : StopsAt (!Text.isBlank ·) X)
    (h : Rereads like (read? (cases nested .branch none) X) branches ('}' :: rest) p) :
    Rereads (fun _ => True) (read? (kind tags nested type) (',' :: after))
      (.custom type (.cases branches)) rest p := by
  refine h.closed (fun bs => Kind.custom type (.cases bs))
    (fun _ _ same => CustomStyle.cases.inj (Kind.custom.inj same).2) fun k r => ?_
  rw [read?_kind_custom ht]
  constructor
  · rintro ⟨content, ho, rfl⟩
    obtain ⟨rfl, split⟩ | ⟨cs₁, cs₂, style, cs₃, split, hb₁, stops₁, hs, hb₂, rfl⟩ :=
      read?_optional_eq_some.1 ho
    · simp at split
    · obtain ⟨-, rfl⟩ := List.cons.inj split
      obtain rfl := hb.unique stops hb₁ stops₁
      obtain ⟨-, bs, rfl, hc⟩ | ⟨closed, -⟩ := read?_customStyle_eq_some.1 hs
      · obtain ⟨-, rfl⟩ := h.like hc
        obtain ⟨-, rfl⟩ := List.cons.inj (hb₂.eq_of_stopsAt (stopsAt_blank_cons (by decide)))
        exact ⟨bs, hc, rfl⟩
      · exact absurd opens closed
  · rintro ⟨bs, hc, rfl⟩
    refine ⟨some (.cases bs), read?_optional_eq_some.2 (.inr ?_), rfl⟩
    refine ⟨after, X, _, _, rfl, hb, stops, read?_customStyle_eq_some.2 ?_, .refl _, rfl⟩
    exact .inl ⟨opens, bs, rfl, hc⟩

/-! ## Offsets -/

theorem read?_offset_print {n : UInt32} (stops : StopsAt (!Decimal.isDigit ·) X) :
    read? offset (offsetMark ++ ((toString n.toNat).toList ++ X)) = some (n, X) := by
  have all : ∀ c ∈ Decimal.digits n.toNat, Decimal.isDigit c = true :=
    fun _ => Decimal.isDigit_of_mem_digits
  obtain ⟨d, ds, split⟩ := List.exists_cons_of_ne_nil (Decimal.digits_ne_nil n.toNat)
  have noSpace : read? blanks (Decimal.digits n.toNat ++ X) =
      some ((), Decimal.digits n.toNat ++ X) := by
    refine read?_blanks_eq_some.2 ⟨.refl _, ?_⟩
    rw [split]
    exact stopsAt_blank_cons (isBlank_of_isDigit (all d (by simp [split])))
  rw [Decimal.toList_toString, read?_offset_append, noSpace, Option.bind_some,
    read?_offsetNumber_eq_some]
  refine ⟨_, ⟨rfl, all, stops⟩, Decimal.digits_ne_nil _, ?_, ?_⟩
  · rw [Decimal.valueOf_digits]
    exact n.toNat_lt
  · rw [Decimal.valueOf_digits, UInt32.ofNat_toNat]

theorem exists_of_read?_offset {t : List Char} {n : UInt32}
    (blank : ∀ c ∈ t, Text.isBlank c = false)
    (h : read? offset (offsetMark ++ (t ++ ' ' :: '{' :: X)) = some (n, rest)) :
    ∃ digits t', t = digits ++ t' ∧ rest = t' ++ ' ' :: '{' :: X := by
  rw [read?_offset_append] at h
  obtain ⟨⟨_, mid⟩, hb, hn⟩ := Option.bind_eq_some_iff.1 h
  obtain ⟨digits, ⟨split, all, -⟩, hne, -, -⟩ := read?_offsetNumber_eq_some.1 hn
  obtain ⟨d, ds, rfl⟩ := List.exists_cons_of_ne_nil hne
  obtain ⟨space, stops⟩ := read?_blanks_eq_some.1 hb
  cases t with
  | nil =>
    have brace : Blanks (' ' :: '{' :: X) ('{' :: X) := .cons (by decide) (.refl _)
    rw [← brace.unique (stopsAt_blank_cons (by decide)) space stops] at split
    obtain ⟨rfl, -⟩ := List.cons.inj split
    exact absurd (all '{' List.mem_cons_self) (by decide)
  | cons c t =>
    have noSpace : StopsAt (!Text.isBlank ·) (c :: t ++ ' ' :: '{' :: X) :=
      stopsAt_blank_cons (blank c List.mem_cons_self)
    rw [space.eq_of_stopsAt noSpace] at split
    obtain ⟨extra, digits, left⟩ | ⟨t', word, left⟩ := List.append_eq_append_iff.1 split
    · cases extra with
      | nil =>
        refine ⟨c :: t, [], (List.append_nil _).symm, ?_⟩
        simpa using left.symm
      | cons e extra =>
        obtain ⟨rfl, -⟩ := List.cons.inj left
        exact absurd (all ' ' (by simp [digits])) (by decide)
    · exact ⟨d :: ds, t', word, left⟩

theorem read?_many_case?_rename {t : String} {branches : List Case}
    (rep : Repeatable (case? nested scope)) (hs : IsWord false s) (ht : IsWord false t)
    (h : read? (many (case? nested scope)) (t.toList ++ ' ' :: '{' :: X) =
      some (branches, rest)) :
    ∃ message more, branches = ⟨t, message⟩ :: more ∧
      read? (many (case? nested scope)) (s.toList ++ ' ' :: '{' :: X) =
        some (⟨s, message⟩ :: more, rest) := by
  have word : ∀ {w : String}, IsWord false w →
      Word false (w.toList ++ ' ' :: '{' :: X) w (' ' :: '{' :: X) :=
    fun hw => ⟨rfl, hw, stopsAt_cons.2 (by decide)⟩
  rw [rep.read?_many] at h
  obtain ⟨⟨_ | ⟨selector, message⟩, mid⟩, hc, hm⟩ := Option.bind_eq_some_iff.1 h
  · exact absurd hc (read?_case?_ne_none (word ht))
  · obtain ⟨⟨more, r⟩, hmore, value⟩ := Option.map_eq_some_iff.1 hm
    cases value
    obtain ⟨cs₁, cs₂, cs₃, hw, hb, hn, hb', stops⟩ := read?_case?_eq_some.1 hc
    obtain ⟨rfl, rfl⟩ := (word ht).unique hw
    have renamed : read? (case? nested scope) (s.toList ++ ' ' :: '{' :: X) =
        some (some ⟨s, message⟩, mid) :=
      read?_case?_eq_some.2 ⟨_, cs₂, cs₃, word hs, hb, hn, hb', stops⟩
    refine ⟨message, more, rfl, ?_⟩
    rw [rep.read?_many, renamed, Option.bind_some]
    dsimp only
    rw [hmore, Option.map_some]

/-- With less of the first selector the cases end at the same place, but are no longer the same. -/
theorem ne_of_read?_leftover {t : List Char} {message : Message} {branches list : List Case}
    {after : List Char} (rep : Repeatable (case? nested scope)) (hs : IsWord false s)
    (ht : IsWord false (String.ofList t)) (shorter : t.length < s.toList.length)
    (h : Rereads (fun bs => Cases.selectors bs = Cases.selectors (⟨s, message⟩ :: branches))
      (read? (many (case? nested scope)) (s.toList ++ ' ' :: '{' :: X))
      (⟨s, message⟩ :: branches) ('}' :: rest) p)
    (hm : read? (many (case? nested scope)) (t ++ ' ' :: '{' :: X) = some (list, after)) :
    after = '}' :: rest ∧ Cases.ofList list ≠ ⟨s, message⟩ :: branches := by
  rw [← @String.toList_ofList t] at hm
  obtain ⟨message', more, rfl, hm'⟩ := read?_many_case?_rename rep hs ht hm
  refine ⟨(h.like hm').2, ?_⟩
  intro same
  have head := Cases.head?_selectors_ofList ⟨String.ofList t, message'⟩ more
  rw [same] at head
  have word : s = String.ofList t := Option.some.inj head
  rw [word, String.toList_ofList] at shorter
  exact absurd shorter (Nat.lt_irrefl _)

/-- A selector that looks like an offset loses its front to it. What is left is no selector, or
another one than was printed. -/
theorem rereads_mistaken {type : PluralType} {n : UInt32} {message : Message}
    {branches : List Case} {after : List Char} (rep : Repeatable (case? nested .plural))
    (hs : IsWord false s) (mistaken : offsetMark <+: s.toList)
    (hb : Blanks after (s.toList ++ ' ' :: '{' :: X))
    (h : Rereads (fun bs => Cases.selectors bs = Cases.selectors (⟨s, message⟩ :: branches))
      (read? (many (case? nested .plural)) (s.toList ++ ' ' :: '{' :: X))
      (⟨s, message⟩ :: branches) ('}' :: rest) p) :
    Rereads (fun _ => True) (read? (kind tags nested type.keyword) (',' :: after))
      (.plural type n (⟨s, message⟩ :: branches)) rest False := by
  obtain ⟨t, split⟩ := mistaken
  have plain : ∀ c ∈ t, endsWord false c = false := by
    intro c hc
    exact hs.2 c (by simp [← split, hc])
  have blank : ∀ c ∈ t, Text.isBlank c = false := by
    intro c hc
    by_contra blank
    have := plain c hc
    rw [endsWord_of_isBlank (by simpa using blank)] at this
    cases this
  have noSpace : StopsAt (!Text.isBlank ·) (s.toList ++ ' ' :: '{' :: X) := by
    rw [← split]
    exact stopsAt_blank_cons (by decide)
  have read : ∀ {k r}, read? (kind tags nested type.keyword) (',' :: after) = some (k, r) →
      r = rest ∧ k ≠ .plural type n (⟨s, message⟩ :: branches) := by
    intro k r hk
    obtain ⟨cs₁, cs₂, n', cs₃, cs₄, bs, comma, hb₁, stops₁, ho, hb₂, hc, rfl⟩ :=
      (read?_kind_plural (ofKeyword?_keyword type)).1 hk
    obtain ⟨-, rfl⟩ := List.cons.inj comma
    obtain rfl := hb.unique noSpace hb₁ stops₁
    rw [← split, List.append_assoc] at ho
    obtain ⟨digits, t', rfl, rfl⟩ := exists_of_read?_offset blank ho
    obtain ⟨space, stops₂⟩ := read?_blanks_eq_some.1 hb₂
    obtain ⟨list, hm, -, rfl, -⟩ := read?_cases_eq_some.1 hc
    cases t' with
    | nil =>
      have brace : Blanks (' ' :: '{' :: X) ('{' :: X) := .cons (by decide) (.refl _)
      obtain rfl := brace.unique (stopsAt_blank_cons (by decide)) space stops₂
      rw [rep.read?_many, read?_case?_eq_none.2 ⟨rfl, stopsAt_cons.2 (by decide)⟩] at hm
      simp at hm
    | cons c t' =>
      have left : StopsAt (!Text.isBlank ·) (c :: t' ++ ' ' :: '{' :: X) :=
        stopsAt_blank_cons (blank c (by simp))
      obtain rfl := space.eq_of_stopsAt left
      have ht : IsWord false (String.ofList (c :: t')) := by
        refine ⟨by simp, ?_⟩
        rw [String.toList_ofList]
        intro d hd
        exact plain d (List.mem_append_right _ hd)
      have shorter : (c :: t').length < s.toList.length := by
        simp only [← split, offsetMark, List.length_append, List.length_cons, List.length_nil]
        omega
      obtain ⟨same, differs⟩ := ne_of_read?_leftover rep hs ht shorter h hm
      exact ⟨(List.cons.inj same).2, fun equal => differs (Kind.plural.inj equal).2.2⟩
  constructor
  · intro k r hk
    exact ⟨trivial, (read hk).1⟩
  · simp only [iff_false]
    intro hk
    exact (read hk).2 rfl

end MessageFormat.Grammar
