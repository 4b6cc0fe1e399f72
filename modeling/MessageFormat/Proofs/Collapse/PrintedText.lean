import MessageFormat.Proofs.Collapse.Reading

/-!
# Printed texts can be told apart

A printed text may be read as another one, with some apostrophes doubled (`reread`). Still no two
texts are read as the same, so that alike patterns that start with a printed text start with alike
texts, and the same of styles.
-/

namespace MessageFormat

open Text (isBlank collapseFrom)

variable {tags : Bool} {scope : Scope} {mark : Char → Bool} {c : Char} {cs ds X Y : List Char}

/-! ## Texts that are read again -/

theorem reread_mark (hc : mark c = true) (quoting : Quoting) : reread mark quoting (c :: cs) =
    (if quoting = .closing then ['\''] else []) ++ c :: reread mark .inside cs := by
  rw [reread, if_pos hc]

/-- Any other character is read as it is, wherever the reader stands. -/
theorem exists_reread_cons (hc : mark c = false) (quoting : Quoting) :
    ∃ next, ∀ cs, reread mark quoting (c :: cs) = c :: reread mark next cs := by
  by_cases ha : c = '\''
  · refine ⟨if quoting = .outside then .outside else .closing, fun cs => ?_⟩
    rw [reread, hc, if_neg Bool.false_ne_true, if_pos ha]
  · refine ⟨.outside, fun cs => ?_⟩
    rw [reread, hc, if_neg Bool.false_ne_true, if_neg ha]

theorem reread_literal (hm : mark c = false) (hc : c ≠ '\'') (quoting : Quoting) :
    reread mark quoting (c :: cs) = c :: reread mark .outside cs := by
  rw [reread, hm, if_neg Bool.false_ne_true, if_neg hc]

theorem reread_collapseFrom {inRun : Bool} {quoting : Quoting}
    (blank : ∀ c, isBlank c = true → mark c = false) (h : inRun = true → quoting = .outside)
    (cs : List Char) : collapseFrom inRun (reread mark quoting cs) =
      reread mark quoting (collapseFrom inRun cs) := by
  induction cs generalizing inRun quoting with
  | nil => rfl
  | cons c cs ih =>
    cases hc : isBlank c with
    | true =>
      have plain := ne_apostrophe_of_isBlank hc
      have inside := @ih true .outside fun _ => rfl
      rw [reread_literal (blank c hc) plain, collapseFrom_cons_blank hc,
        collapseFrom_cons_blank hc, inside]
      cases inRun with
      | true => rw [h rfl, if_pos rfl, if_pos rfl]
      | false =>
        rw [if_neg Bool.false_ne_true, if_neg Bool.false_ne_true,
          reread_literal (blank ' ' isBlank_space) (by decide)]
    | false =>
      have later := fun quoting => @ih false quoting nofun
      rw [collapseFrom_cons hc]
      cases hm : mark c with
      | true =>
        rw [reread_mark hm, reread_mark hm]
        cases quoting <;>
          simp [collapseFrom_cons hc, collapseFrom_cons isBlank_apostrophe, later]
      | false =>
        obtain ⟨next, read⟩ := exists_reread_cons hm quoting
        rw [read, read, collapseFrom_cons hc, later]

/-- Inside a quotation that is about to end, a mark is read with an apostrophe in front of it. -/
theorem reread_closing_ne (hm : mark '\'' = false) (hc : mark c = true) :
    reread mark .closing ds ≠ c :: cs := by
  have differ : ∀ {d}, mark d = false → d ≠ c := by
    rintro _ hd rfl
    rw [hc] at hd
    cases hd
  intro same
  cases ds with
  | nil => cases same
  | cons d ds =>
    cases hd : mark d with
    | true =>
      rw [reread_mark hd] at same
      exact differ hm (List.cons.inj same).1
    | false =>
      obtain ⟨next, read⟩ := exists_reread_cons hd .closing
      rw [read] at same
      exact differ hd (List.cons.inj same).1

theorem reread_mark_ne (hm : mark '\'' = false) (quoting : Quoting) {d : Char}
    (hc : mark c = true) (hd : mark d = false) :
    reread mark quoting (c :: cs) ≠ reread mark quoting (d :: ds) := by
  obtain ⟨next, read⟩ := exists_reread_cons hd quoting
  have differ : c ≠ d := by
    rintro rfl
    rw [hc] at hd
    cases hd
  intro same
  rw [reread_mark hc] at same
  cases quoting with
  | outside =>
    rw [read] at same
    exact differ (List.cons.inj same).1
  | inside =>
    rw [read] at same
    exact differ (List.cons.inj same).1
  | closing =>
    obtain rfl : '\'' = d := by
      rw [read] at same
      exact (List.cons.inj same).1
    rw [reread, hd] at same
    exact reread_closing_ne hm hc (List.cons.inj same).2.symm

theorem reread_injective (hm : mark '\'' = false) (quoting : Quoting) :
    Function.Injective (reread mark quoting) := by
  intro cs
  induction cs generalizing quoting with
  | nil =>
    intro ds same
    by_contra hne
    exact reread_ne_nil (Ne.symm hne) same.symm
  | cons c cs ih =>
    intro ds same
    cases ds with
    | nil => exact absurd same (reread_ne_nil (List.cons_ne_nil c cs))
    | cons d ds =>
      cases hc : mark c <;> cases hd : mark d
      · obtain ⟨next, read⟩ := exists_reread_cons hc quoting
        obtain ⟨next', read'⟩ := exists_reread_cons hd quoting
        obtain ⟨rfl, -⟩ := List.cons.inj ((read cs).symm.trans (same.trans (read' ds)))
        rw [read, read] at same
        rw [ih next (List.cons.inj same).2]
      · exact absurd same.symm (reread_mark_ne hm quoting hd hc)
      · exact absurd same (reread_mark_ne hm quoting hc hd)
      · rw [reread_mark hc, reread_mark hd, List.append_cancel_left_eq] at same
        obtain ⟨rfl, tail⟩ := List.cons.inj same
        rw [ih _ tail]

/-- What is read again has more apostrophes than the text, or is the text. -/
theorem count_reread (mark : Char → Bool) (quoting : Quoting) (cs : List Char) :
    cs.count '\'' < (reread mark quoting cs).count '\'' ∨ reread mark quoting cs = cs := by
  induction cs generalizing quoting with
  | nil => exact .inr rfl
  | cons c cs ih =>
    cases hc : mark c with
    | true =>
      rw [reread_mark hc]
      rcases ih .inside with more | same
      · left
        cases quoting <;> simp [List.count_cons] <;> omega
      · rw [same]
        cases quoting <;> simp
    | false =>
      obtain ⟨next, read⟩ := exists_reread_cons hc quoting
      rw [read]
      rcases ih next with more | same
      · left
        rw [List.count_cons, List.count_cons]
        omega
      · rw [same]
        exact .inr rfl

theorem alike_of_reread (hm : mark '\'' = false) (blank : ∀ c, isBlank c = true → mark c = false)
    (h : Alike (reread mark .outside cs) (reread mark .outside ds)) : Alike cs ds := by
  unfold Alike at h
  rw [reread_collapseFrom blank (fun _ => rfl), reread_collapseFrom blank (fun _ => rfl)] at h
  exact reread_injective hm _ h

theorem count_apostrophe_collapseFrom {inRun : Bool} (cs : List Char) :
    (collapseFrom inRun cs).count '\'' = cs.count '\'' := by
  induction cs generalizing inRun with
  | nil => rfl
  | cons c cs ih =>
    cases hc : isBlank c with
    | false => rw [collapseFrom_cons hc, List.count_cons, List.count_cons, ih]
    | true =>
      have plain := ne_apostrophe_of_isBlank hc
      rw [collapseFrom_cons_blank hc, List.count_cons_of_ne plain]
      split
      · exact ih
      · rw [List.count_cons_of_ne (by decide), ih]

theorem reread_eq_of_alike (h : Alike (reread mark .outside cs) cs) :
    reread mark .outside cs = cs := by
  rcases count_reread mark .outside cs with more | same
  · have equal := congrArg (List.count '\'') h
    rw [count_apostrophe_collapseFrom, count_apostrophe_collapseFrom] at equal
    omega
  · exact same

/-! ## Printed texts and styles -/

theorem alike_of_print_text {s t : String} (hs : scope ≠ .style)
    (stops : StopsAt (endsText tags scope) X) (stops' : StopsAt (endsText tags scope) Y)
    (h : Alike (Print.text tags scope s ++ X) (Print.text tags scope t ++ Y)) :
    Alike s.toList t.toList ∧ Alike X Y := by
  obtain ⟨content, rest⟩ := @Alike.readText tags scope _ _ h
  obtain ⟨again, left⟩ := derivesText_iff.1 (derivesText_print hs stops s)
  obtain ⟨again', left'⟩ := derivesText_iff.1 (derivesText_print hs stops' t)
  rw [again, again'] at content
  rw [left, left'] at rest
  exact ⟨alike_of_reread (isMark_apostrophe tags scope) (fun _ => isMark_of_isBlank) content, rest⟩

theorem alike_of_styleText {s t : String}
    (h : Alike (styleText s ++ '}' :: X) (styleText t ++ '}' :: Y)) :
    Alike s.toList t.toList ∧ Alike X Y := by
  obtain ⟨content, rest⟩ := @Alike.readText true .style _ _ h
  obtain ⟨again, left⟩ := derivesText_iff.1 (@derivesText_styleText true X s)
  obtain ⟨again', left'⟩ := derivesText_iff.1 (@derivesText_styleText true Y t)
  rw [again, again'] at content
  rw [left, left'] at rest
  exact ⟨content, (rest.of_cons (by decide)).2⟩

end MessageFormat
