import MessageFormat.Proofs.Reading

/-!
# Texts that differ only in blanks

Two texts are alike if they have the same characters up to the runs of blanks between them. They
stay alike when the same characters, the same run or all blanks are taken from the front of both,
and texts that are put together from alike pieces are alike (`Alike.append`).
-/

namespace MessageFormat

open Text (isBlank collapseFrom)

variable {c d : Char} {cs ds cs' ds' rest rest' : List Char} {inRun : Bool} {p : Char → Bool}

/-! ## Collapsing -/

theorem collapseFrom_cons_blank (hc : isBlank c = true) : collapseFrom inRun (c :: cs) =
    if inRun then collapseFrom true cs else ' ' :: collapseFrom true cs := by
  rw [collapseFrom, if_pos hc]

theorem collapseFrom_cons (hc : isBlank c = false) :
    collapseFrom inRun (c :: cs) = c :: collapseFrom false cs := by
  rw [collapseFrom, hc]
  rfl

theorem isBlank_space : isBlank ' ' = true := by decide

/-- Collapsing again changes nothing, unless the first time it was not known to be in a run. -/
theorem collapseFrom_collapseFrom {first : Bool} (h : first = true → inRun = true) :
    collapseFrom inRun (collapseFrom first cs) = collapseFrom inRun cs := by
  induction cs generalizing inRun first with
  | nil => rfl
  | cons c cs ih =>
    cases hc : isBlank c with
    | false => rw [collapseFrom_cons hc, collapseFrom_cons hc, collapseFrom_cons hc, ih id]
    | true =>
      have inside : collapseFrom true (collapseFrom true cs) = collapseFrom true cs := ih id
      rw [collapseFrom_cons_blank hc, collapseFrom_cons_blank hc]
      cases first with
      | true =>
        rw [h rfl]
        exact inside
      | false =>
        rw [if_neg Bool.false_ne_true, collapseFrom_cons_blank isBlank_space, inside]

/-- A piece may be collapsed where it stands. -/
theorem collapseFrom_append (cs ds : List Char) :
    collapseFrom inRun (collapseFrom inRun cs ++ collapseFrom false ds) =
      collapseFrom inRun (cs ++ ds) := by
  induction cs generalizing inRun with
  | nil => exact collapseFrom_collapseFrom (fun h => nomatch h)
  | cons c cs ih =>
    cases hc : isBlank c with
    | false =>
      rw [collapseFrom_cons hc, List.cons_append, List.cons_append, collapseFrom_cons hc,
        collapseFrom_cons hc, ih]
    | true =>
      rw [List.cons_append, collapseFrom_cons_blank hc, collapseFrom_cons_blank hc]
      cases inRun with
      | true => exact ih
      | false =>
        rw [if_neg Bool.false_ne_true, if_neg Bool.false_ne_true, List.cons_append,
          collapseFrom_cons_blank isBlank_space, if_neg Bool.false_ne_true, ih]

theorem collapseFrom_true (cs : List Char) :
    collapseFrom true cs = collapseFrom false (cs.dropWhile isBlank) := by
  induction cs with
  | nil => rfl
  | cons c cs ih =>
    cases hc : isBlank c with
    | false => rw [collapseFrom_cons hc, List.dropWhile_cons_of_neg (by simp [hc]),
        collapseFrom_cons hc]
    | true => rw [collapseFrom_cons_blank hc, if_pos rfl, List.dropWhile_cons_of_pos hc, ih]

/-! ## Alike texts -/

/-- The same characters up to the runs of blanks between them. -/
def Alike (cs ds : List Char) : Prop :=
  collapseFrom false cs = collapseFrom false ds

@[refl]
theorem Alike.refl (cs : List Char) : Alike cs cs := rfl

theorem Alike.symm (h : Alike cs ds) : Alike ds cs := Eq.symm h

theorem Alike.trans (h : Alike cs ds) (h' : Alike ds rest) : Alike cs rest := Eq.trans h h'

theorem alike_collapse (cs : List Char) : Alike cs (collapseFrom false cs) :=
  (collapseFrom_collapseFrom id).symm

theorem Alike.append (h : Alike cs ds) (h' : Alike cs' ds') : Alike (cs ++ cs') (ds ++ ds') := by
  unfold Alike at *
  rw [← collapseFrom_append, h, h', collapseFrom_append]

theorem Alike.cons (c : Char) (h : Alike cs ds) : Alike (c :: cs) (c :: ds) :=
  (Alike.refl [c]).append h

theorem Alike.of_nil (h : Alike [] ds) : ds = [] := by
  cases ds with
  | nil => rfl
  | cons d ds =>
    unfold Alike at h
    cases hd : isBlank d with
    | false =>
      rw [collapseFrom_cons hd] at h
      cases h
    | true =>
      rw [collapseFrom_cons_blank hd] at h
      cases h

theorem Alike.exists_cons (hc : isBlank c = false) (h : Alike (c :: cs) ds) :
    ∃ ds', ds = c :: ds' ∧ Alike cs ds' := by
  cases ds with
  | nil => cases h.symm.of_nil
  | cons d ds =>
    unfold Alike at h
    rw [collapseFrom_cons hc] at h
    cases hd : isBlank d with
    | false =>
      rw [collapseFrom_cons hd] at h
      obtain ⟨rfl, tail⟩ := List.cons.inj h
      exact ⟨ds, rfl, tail⟩
    | true =>
      rw [collapseFrom_cons_blank hd, if_neg Bool.false_ne_true] at h
      obtain ⟨rfl, -⟩ := List.cons.inj h
      exact absurd hc (by decide)

theorem Alike.of_cons (hc : isBlank c = false) (h : Alike (c :: cs) (d :: ds)) :
    c = d ∧ Alike cs ds := by
  obtain ⟨tail, split, htail⟩ := h.exists_cons hc
  obtain ⟨rfl, rfl⟩ := List.cons.inj split
  exact ⟨rfl, htail⟩

theorem not_alike_cons (hc : isBlank c = false) (hne : c ≠ d) : ¬ Alike (c :: cs) (d :: ds) :=
  fun h => hne (h.of_cons hc).1

theorem Alike.head_iff {x : Char} (hx : isBlank x = false) (h : Alike (c :: cs) (d :: ds)) :
    c = x ↔ d = x := by
  constructor
  · rintro rfl
    exact (h.of_cons hx).1.symm
  · rintro rfl
    exact (h.symm.of_cons hx).1.symm

/-- A character at the front that is told by a property of no blank. -/
theorem Alike.stopsAt (hp : ∀ c, p c = true → isBlank c = false) (h : Alike cs ds)
    (stops : StopsAt p cs) : StopsAt p ds := by
  cases cs with
  | nil =>
    rw [h.of_nil]
    exact stopsAt_nil p
  | cons c cs =>
    have hc := stopsAt_cons.1 stops
    obtain ⟨ds, rfl, -⟩ := h.exists_cons (hp c hc)
    exact stopsAt_cons.2 hc

theorem Alike.dropWhile_blank (h : Alike cs ds) :
    Alike (cs.dropWhile isBlank) (ds.dropWhile isBlank) := by
  have again : ∀ cs, collapseFrom true (collapseFrom false cs) = collapseFrom true cs :=
    fun _ => collapseFrom_collapseFrom fun _ => rfl
  unfold Alike at *
  rw [← collapseFrom_true, ← collapseFrom_true, ← again cs, h, again]

theorem Alike.takeWhile (hp : ∀ c, p c = true → isBlank c = false) (h : Alike cs ds) :
    cs.takeWhile p = ds.takeWhile p ∧ Alike (cs.dropWhile p) (ds.dropWhile p) := by
  induction cs generalizing ds with
  | nil =>
    rw [h.of_nil]
    exact ⟨rfl, rfl⟩
  | cons c cs ih =>
    cases hc : p c with
    | true =>
      obtain ⟨ds, rfl, tail⟩ := h.exists_cons (hp c hc)
      obtain ⟨taken, left⟩ := ih tail
      simp [hc, taken, left]
    | false =>
      have ends : StopsAt (!p ·) ds := by
        intro d hd
        by_contra other
        have inside : p d = true := by simpa using other
        obtain ⟨ds, rfl⟩ := List.head?_eq_some_iff.1 hd
        have back := h.symm.stopsAt hp (stopsAt_cons.2 inside)
        rw [stopsAt_cons, hc] at back
        cases back
      have run : Run p ds [] ds := ⟨rfl, by simp, ends⟩
      simp [hc, run.takeWhile_eq, h]

/-! ## Pieces of alike patterns -/

theorem Alike.run {taken : List Char} (hp : ∀ c, p c = true → isBlank c = false)
    (h : Alike cs ds) (hr : Run p cs taken rest) :
    ∃ rest', Run p ds taken rest' ∧ Alike rest rest' := by
  obtain ⟨rfl, rfl⟩ := hr.takeWhile_eq
  obtain ⟨taken, left⟩ := h.takeWhile hp
  refine ⟨ds.dropWhile p, ?_, left⟩
  rw [taken]
  exact run_takeWhile p ds

theorem isBlank_of_not_endsWord {inTag : Bool} (h : (!endsWord inTag c) = true) :
    isBlank c = false := by
  cases hc : isBlank c with
  | false => rfl
  | true =>
    rw [endsWord_of_isBlank hc] at h
    cases h

theorem Alike.word {inTag : Bool} {word : String} (h : Alike cs ds)
    (hw : Word inTag cs word rest) : ∃ rest', Word inTag ds word rest' ∧ Alike rest rest' := by
  obtain ⟨hr, hne⟩ := run_word_iff.2 hw
  obtain ⟨rest', hr', left⟩ := h.run (fun _ => isBlank_of_not_endsWord) hr
  exact ⟨rest', run_word_iff.1 ⟨hr', hne⟩, left⟩

theorem Alike.of_words {inTag : Bool} {word word' : String} (h : Alike cs ds)
    (hw : Word inTag cs word rest) (hw' : Word inTag ds word' rest') :
    word = word' ∧ Alike rest rest' := by
  obtain ⟨_, hw'', left⟩ := h.word hw
  obtain ⟨rfl, rfl⟩ := hw''.unique hw'
  exact ⟨rfl, left⟩

theorem Blanks.dropWhile_eq (h : Blanks cs rest) (stops : StopsAt (!isBlank ·) rest) :
    cs.dropWhile isBlank = rest := by
  obtain ⟨w, blank, split⟩ := h
  have run : Run isBlank cs w rest := ⟨split, blank, stops⟩
  exact run.takeWhile_eq.2

theorem Alike.of_blanks (h : Alike cs ds) (hb : Blanks cs rest)
    (stops : StopsAt (!isBlank ·) rest) (hb' : Blanks ds rest')
    (stops' : StopsAt (!isBlank ·) rest') : Alike rest rest' := by
  have dropped := h.dropWhile_blank
  rwa [hb.dropWhile_eq stops, hb'.dropWhile_eq stops'] at dropped

/-- A space in front of both, with no other blank behind it. -/
theorem Alike.of_space (h : Alike (' ' :: cs) (' ' :: ds)) (stops : StopsAt (!isBlank ·) cs)
    (stops' : StopsAt (!isBlank ·) ds) : Alike cs ds :=
  h.of_blanks (.cons isBlank_space (.refl cs)) stops (.cons isBlank_space (.refl ds)) stops'

theorem Alike.prefix_iff {text : List Char} (ht : text.any isBlank = false) (h : Alike cs ds) :
    text <+: cs ↔ text <+: ds := by
  have forward : ∀ {cs ds}, Alike cs ds → text <+: cs → text <+: ds := by
    intro cs ds h front
    induction text generalizing cs ds with
    | nil => exact List.nil_prefix
    | cons c text ih =>
      rw [List.any_cons, Bool.or_eq_false_iff] at ht
      obtain ⟨tail, rfl⟩ := front
      obtain ⟨ds, rfl, left⟩ := h.exists_cons ht.1
      exact List.cons_prefix_cons.2 ⟨rfl, ih ht.2 left (List.prefix_append text tail)⟩
  exact ⟨forward h, forward h.symm⟩

theorem Alike.of_append {text : List Char} (ht : text.any isBlank = false)
    (h : Alike (text ++ cs) (text ++ ds)) : Alike cs ds := by
  induction text with
  | nil => exact h
  | cons c text ih =>
    rw [List.any_cons, Bool.or_eq_false_iff] at ht
    exact ih ht.2 (h.of_cons ht.1).2

end MessageFormat
