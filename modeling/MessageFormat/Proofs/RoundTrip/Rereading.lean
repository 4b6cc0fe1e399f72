import MessageFormat.Proofs.Reading

/-!
# Reading a printed piece

Reading what was printed never strays past it: whatever is read leaves the rest of the pattern
alone. What is read is the piece itself just if a condition on it holds.
-/

namespace MessageFormat

/-- Reading a printed `a` in front of `rest` gives something `like` it and leaves `rest`, unless it
fails; it gives `a` just if `p` holds. -/
structure Rereads {α : Type} (like : α → Prop) (result : Option (α × List Char)) (a : α)
    (rest : List Char) (p : Prop) : Prop where
  like : ∀ {b mid}, result = some (b, mid) → like b ∧ mid = rest
  iff : result = some (a, rest) ↔ p

variable {α β : Type} {cs rest : List Char} {like : α → Prop} {result : Option (α × List Char)}
  {a : α} {p q : Prop}

theorem Rereads.of_eq_some (h : result = some (a, rest)) (ha : like a) (hp : p) :
    Rereads like result a rest p where
  like {b mid} h' := by
    obtain ⟨rfl, rfl⟩ := Prod.mk.inj (Option.some.inj (h.symm.trans h'))
    exact ⟨ha, rfl⟩
  iff := iff_of_true h hp

theorem Rereads.imp {like' : α → Prop} (h : Rereads like result a rest p)
    (hl : ∀ b, like b → like' b) (hp : p ↔ q) : Rereads like' result a rest q where
  like h' := (h.like h').imp_left (hl _)
  iff := h.iff.trans hp

theorem Rereads.congr (h : Rereads like result a rest p) (hp : p ↔ q) :
    Rereads like result a rest q :=
  h.imp (fun _ hb => hb) hp

theorem Rereads.bind {f : α × List Char → Option (β × List Char)} {mid : List Char}
    {like' : β → Prop} (h : Rereads like result a mid p) (g : α → β)
    (step : ∀ b, like b → f (b, mid) = some (g b, rest) ∧ like' (g b))
    (inj : ∀ b, like b → g b = g a → b = a) :
    Rereads like' (result.bind f) (g a) rest p where
  like {v r} h' := by
    obtain ⟨⟨b, m⟩, hb, hv⟩ := Option.bind_eq_some_iff.1 h'
    obtain ⟨hl, rfl⟩ := h.like hb
    obtain ⟨done, hl'⟩ := step b hl
    rw [done] at hv
    cases hv
    exact ⟨hl', rfl⟩
  iff := by
    rw [← h.iff]
    constructor
    · intro h'
      obtain ⟨⟨b, m⟩, hb, hv⟩ := Option.bind_eq_some_iff.1 h'
      obtain ⟨hl, rfl⟩ := h.like hb
      rw [(step b hl).1] at hv
      have same := inj b hl (Prod.mk.inj (Option.some.inj hv)).1
      rw [hb, same]
    · intro h'
      rw [h', Option.bind_some]
      exact (step a (h.like h').1).1

theorem Rereads.closed {result' : Option (β × List Char)}
    (h : Rereads like result a ('}' :: rest) p) (g : α → β) (inj : Function.Injective g)
    (spec : ∀ b r, result' = some (b, r) ↔ ∃ a', result = some (a', '}' :: r) ∧ b = g a') :
    Rereads (fun _ => True) result' (g a) rest p where
  like {b r} hr := by
    obtain ⟨a', ha, -⟩ := (spec b r).1 hr
    exact ⟨trivial, (List.cons.inj (h.like ha).2).2⟩
  iff := by
    rw [← h.iff, spec]
    constructor
    · rintro ⟨a', ha, same⟩
      rwa [inj same]
    · intro ha
      exact ⟨a, ha, rfl⟩

open Reader in
theorem Rereads.many_cons {reader : Reader (Option α)} (rep : Repeatable reader)
    {l : α → Prop} {l' : List α → Prop} {as : List α} {mid : List Char}
    (head : Rereads (fun v => ∃ b, v = some b ∧ l b) (read? reader cs) (some a) mid p)
    (tail : Rereads l' (read? (many reader) mid) as rest q) :
    Rereads (fun bs => ∃ b bs', bs = b :: bs' ∧ l b ∧ l' bs') (read? (many reader) cs) (a :: as)
      rest (p ∧ q) where
  like {bs r} h := by
    rw [rep.read?_many] at h
    obtain ⟨⟨v, m⟩, hv, h⟩ := Option.bind_eq_some_iff.1 h
    obtain ⟨⟨b, rfl, hb⟩, rfl⟩ := head.like hv
    obtain ⟨⟨bs', r'⟩, hbs, h⟩ := Option.map_eq_some_iff.1 h
    obtain ⟨hl, rfl⟩ := tail.like hbs
    cases h
    exact ⟨⟨b, bs', rfl, hb, hl⟩, rfl⟩
  iff := by
    rw [rep.read?_many, ← head.iff, ← tail.iff]
    constructor
    · intro h
      obtain ⟨⟨v, m⟩, hv, h⟩ := Option.bind_eq_some_iff.1 h
      obtain ⟨⟨b, rfl, -⟩, rfl⟩ := head.like hv
      obtain ⟨⟨bs', r'⟩, hbs, h⟩ := Option.map_eq_some_iff.1 h
      cases h
      exact ⟨hv, hbs⟩
    · rintro ⟨hv, hbs⟩
      rw [hv, Option.bind_some]
      dsimp only
      rw [hbs, Option.map_some]

end MessageFormat
