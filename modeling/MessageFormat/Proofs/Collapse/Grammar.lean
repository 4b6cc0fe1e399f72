import MessageFormat.Proofs.Collapse.Reading
import MessageFormat.Proofs.Completeness

/-!
# Parsing alike patterns

Every reader of the grammar is parallel to itself, up to collapsing what it reads. So of two alike
patterns either none is a message, or both are and the messages are the same once they are
collapsed (`parse_alike`).
-/

namespace MessageFormat

variable {tags : Bool} {scope : Scope} {depth : Nat} {cs ds : List Char}

theorem Alike.opensCase (h : Alike cs ds) : OpensCase cs ↔ OpensCase ds := by
  have forward : ∀ {cs ds}, Alike cs ds → OpensCase cs → OpensCase ds := by
    rintro cs ds h ⟨selector, mid, rest, hw, hb⟩
    have stops : StopsAt (!Text.isBlank ·) ('{' :: rest) := stopsAt_blank_cons (by decide)
    obtain ⟨mid', hw', left⟩ := h.word hw
    have behind := left.dropWhile_blank
    rw [hb.dropWhile_eq stops] at behind
    obtain ⟨rest', split, -⟩ := behind.exists_cons (by decide)
    have space := run_takeWhile Text.isBlank mid'
    rw [split] at space
    exact ⟨selector, mid', rest', hw', _, space.all, space.split⟩
  exact ⟨forward h, forward h.symm⟩

theorem collapseCases_eq_of_forall₂ {branches branches' : List Case}
    (h : List.Forall₂ (fun c d => c.collapse = d.collapse) branches branches') :
    collapseCases branches = collapseCases branches' := by
  induction h with
  | nil => rfl
  | cons head _ ih => rw [collapseCases, collapseCases, head, ih]

theorem collapseElements_eq_of_forall₂ {es fs : List Element}
    (h : List.Forall₂ (fun e f => e.collapse = f.collapse) es fs) :
    collapseElements es = collapseElements fs := by
  induction h with
  | nil => rfl
  | cons head _ ih => rw [collapseElements, collapseElements, head, ih]

namespace Grammar

open Reader

/-! ## Texts and marks -/

theorem parallel_text? (kind : TokenKind) :
    Parallel (Option.Rel fun s t => Text.collapse s = Text.collapse t) (text? tags scope kind)
      (text? tags scope kind) := by
  intro cs ds alike
  obtain ⟨content, rest⟩ := @Alike.readText tags scope cs ds alike
  have empty : (readText tags scope false cs).raw = [] ↔
      (readText tags scope false ds).raw = [] := by
    rw [readText_raw_eq_nil, readText_raw_eq_nil, content.eq_nil_iff]
  rw [read?_text?, read?_text?]
  simp only [List.isEmpty_iff]
  by_cases none : (readText tags scope false cs).raw = []
  · rw [if_pos none, if_pos (empty.1 none)]
    exact .some ⟨.none, alike⟩
  · rw [if_neg none, if_neg (mt empty.2 none)]
    refine .some ⟨.some (collapse_eq_iff.2 ?_), rest⟩
    rwa [String.toList_ofList, String.toList_ofList]

theorem parallel_style : Parallel (fun s t => Text.collapse s = Text.collapse t) (style tags)
    (style tags) := by
  refine (parallel_text? .style).bind fun s t same => ?_
  cases same with
  | none => exact parallel_stop _ _
  | some same => exact parallel_pure same

theorem parallel_casesSeparator (type : String) :
    Parallel Eq (casesSeparator type) (casesSeparator type) := by
  refine (parallel_mark? (by decide)).bind_eq fun b => .ite Iff.rfl (fun _ => parallel_blanks) ?_
  intro _
  refine parallel_ahead.bind fun cs ds _ => ?_
  split <;> split <;> exact parallel_stop _ _

theorem parallel_offsetNumber : Parallel Eq offsetNumber offsetNumber := by
  refine (parallel_run fun _ => isBlank_of_isDigit).bind_eq fun digits => ?_
  refine .ite Iff.rfl (fun _ => parallel_stop _ _) fun _ => ?_
  exact .ite Iff.rfl (fun _ => parallel_pure rfl) fun _ => parallel_stop _ _

theorem parallel_offset : Parallel Eq offset offset := by
  refine parallel_ahead.bind fun cs ds alike => .ite ?_ (fun _ => ?_) fun _ => parallel_pure rfl
  · rw [List.isPrefixOf_iff_prefix, List.isPrefixOf_iff_prefix]
    exact alike.prefix_iff (by decide)
  · refine (parallel_literal? (by decide)).bind_eq fun _ => ?_
    refine (parallel_mark? (by decide)).bind_eq fun _ => ?_
    exact parallel_blanks.bind_eq fun _ => parallel_offsetNumber

/-! ## Cases -/

variable {nested : Nested}

theorem parallel_case?
    (h : Parallel (fun m n => m.collapse = n.collapse) (nested scope) (nested scope)) :
    Parallel (Option.Rel fun c d => c.collapse = d.collapse) (case? nested scope)
      (case? nested scope) := by
  refine (parallel_word? .selector false).bind_eq fun selector => ?_
  cases selector with
  | none => exact parallel_pure .none
  | some selector =>
    refine parallel_blanks.bind_eq fun _ => ?_
    refine (parallel_mark (by decide) _).bind_eq fun _ => h.bind fun m n same => ?_
    refine (parallel_mark (by decide) _).bind_eq fun _ => parallel_blanks.bind_eq fun _ => ?_
    exact parallel_pure (.some (congrArg (Case.mk selector) same))

theorem parallel_complete (owner : Option String) {branches branches' : Cases}
    (same : collapseCases branches = collapseCases branches') :
    Parallel (fun cs ds => collapseCases cs = collapseCases ds) (complete owner branches)
      (complete owner branches') := by
  cases owner with
  | none => exact parallel_pure same
  | some type =>
    refine .ite ?_ (fun _ => parallel_pure same) fun _ => parallel_stop _ _
    rw [Cases.contains_eq_of_collapse same]

theorem parallel_cases (hn : SoundBelow tags depth nested)
    (h : Parallel (fun m n => m.collapse = n.collapse) (nested scope) (nested scope))
    (owner : Option String) :
    Parallel (fun cs ds => collapseCases cs = collapseCases ds) (cases nested scope owner)
      (cases nested scope owner) := by
  refine (parallel_many (repeatable_case? hn) (parallel_case? h)).bind fun bs bs' same => ?_
  have collected : collapseCases (Cases.ofList bs) = collapseCases (Cases.ofList bs') := by
    rw [← Cases.ofList_collapse, collapseCases_eq_of_forall₂ same, Cases.ofList_collapse]
  have done := parallel_complete owner collected
  refine parallel_ahead.bind fun cs ds alike => ?_
  cases cs with
  | nil =>
    rw [alike.of_nil]
    exact done
  | cons c cs =>
    cases ds with
    | nil => cases alike.symm.of_nil
    | cons d ds =>
      exact .ite (alike.head_iff (by decide)) (fun _ => done) fun _ => parallel_stop _ _

/-! ## Kinds -/

theorem parallel_customStyle (hn : SoundBelow tags depth nested)
    (h : ∀ scope, Parallel (fun m n => m.collapse = n.collapse) (nested scope) (nested scope)) :
    Parallel (fun s t => s.collapse = t.collapse) (customStyle tags nested)
      (customStyle tags nested) := by
  refine parallel_ahead.bind fun cs ds alike => .ite ?_ (fun _ => ?_) fun _ => ?_
  · rw [opensCase_eq_true, opensCase_eq_true, alike.opensCase]
  · refine (parallel_cases hn (h .branch) none).bind fun bs bs' same => ?_
    exact parallel_pure (congrArg CustomStyle.cases same)
  · exact parallel_style.bind fun s t same => parallel_pure (congrArg CustomStyle.text same)

theorem parallel_optional {α : Type} {R : α → α → Prop} {reader : Reader α}
    (h : Parallel R reader reader) :
    Parallel (Option.Rel R) (optional reader) (optional reader) := by
  refine (parallel_mark? (by decide)).bind_eq fun _ => ?_
  refine .ite Iff.rfl (fun _ => parallel_pure .none) fun _ => ?_
  refine (parallel_mark? (by decide)).bind_eq fun _ => ?_
  refine .ite Iff.rfl (fun _ => ?_) fun _ => parallel_stop _ _
  refine parallel_blanks.bind_eq fun _ => h.bind fun a b related => ?_
  refine parallel_blanks.bind_eq fun _ => (parallel_mark (by decide) _).bind_eq fun _ => ?_
  exact parallel_pure (.some related)

theorem parallel_kind (hn : SoundBelow tags depth nested)
    (h : ∀ scope, Parallel (fun m n => m.collapse = n.collapse) (nested scope) (nested scope))
    (type : String) : Parallel (fun k l => k.collapse = l.collapse) (kind tags nested type)
      (kind tags nested type) := by
  unfold kind
  split
  · rename_i plural _
    refine (parallel_casesSeparator type).bind_eq fun _ => parallel_offset.bind_eq fun n => ?_
    refine parallel_blanks.bind_eq fun _ => ?_
    refine (parallel_cases hn (h .plural) _).bind fun bs bs' same => ?_
    refine (parallel_mark (by decide) _).bind_eq fun _ => ?_
    exact parallel_pure (congrArg (Kind.plural plural n) same)
  · refine .ite Iff.rfl (fun _ => ?_) fun _ => ?_
    · refine (parallel_casesSeparator type).bind_eq fun _ => ?_
      refine (parallel_cases hn (h .branch) _).bind fun bs bs' same => ?_
      refine (parallel_mark (by decide) _).bind_eq fun _ => ?_
      exact parallel_pure (congrArg Kind.select same)
    · split
      · rename_i simple _
        refine (parallel_optional parallel_style).bind fun s t same => parallel_pure ?_
        cases same with
        | none => rfl
        | some same => exact congrArg (fun text => Kind.simple simple (some text)) same
      · refine (parallel_optional (parallel_customStyle hn h)).bind fun s t same => parallel_pure ?_
        cases same with
        | none => rfl
        | some same => exact congrArg (Kind.custom type) same

/-! ## Elements -/

theorem parallel_placeholder (hn : SoundBelow tags depth nested)
    (h : ∀ scope, Parallel (fun m n => m.collapse = n.collapse) (nested scope) (nested scope)) :
    Parallel (fun e f => e.collapse = f.collapse) (placeholder tags nested)
      (placeholder tags nested) := by
  refine parallel_blanks.bind_eq fun _ => (parallel_word _ _ _).bind_eq fun id => ?_
  refine parallel_blanks.bind_eq fun _ => (parallel_mark? (by decide)).bind_eq fun _ => ?_
  refine .ite Iff.rfl (fun _ => parallel_pure rfl) fun _ => ?_
  refine (parallel_mark? (by decide)).bind_eq fun _ => ?_
  refine .ite Iff.rfl (fun _ => ?_) fun _ => parallel_stop _ _
  have typed : Parallel (fun k l => k.collapse = l.collapse) (typed tags nested)
      (typed tags nested) :=
    (parallel_word _ _ _).bind_eq fun type => parallel_blanks.bind_eq fun _ =>
      parallel_kind hn h type
  refine parallel_blanks.bind_eq fun _ => typed.bind fun k l same => ?_
  exact parallel_pure (congrArg (Element.placeholder id) same)

theorem parallel_closingTag (id : String) : Parallel Eq (closingTag id) (closingTag id) := by
  refine parallel_ahead.bind fun cs ds _ => (parallel_mark (by decide) _).bind_eq fun _ => ?_
  refine (parallel_word? _ _).bind_eq fun other => .ite Iff.rfl (fun _ => ?_) fun _ => ?_
  · exact parallel_blanks.bind_eq fun _ => parallel_mark (by decide) _
  · exact fun _ _ _ => .none

theorem parallel_tag
    (h : Parallel (fun m n => m.collapse = n.collapse) (nested scope.inTag) (nested scope.inTag)) :
    Parallel (fun e f => e.collapse = f.collapse) (tag nested scope) (tag nested scope) := by
  refine (parallel_word _ _ _).bind_eq fun id => parallel_blanks.bind_eq fun _ => ?_
  refine (parallel_mark? (by decide)).bind_eq fun _ => ?_
  refine .ite Iff.rfl (fun _ => parallel_pure rfl) fun _ => ?_
  refine (parallel_mark? (by decide)).bind_eq fun _ => ?_
  refine .ite Iff.rfl (fun _ => ?_) fun _ => parallel_stop _ _
  refine h.bind fun m n same => (parallel_closingTag id).bind_eq fun _ => ?_
  exact parallel_pure (congrArg (fun children => Element.placeholder id (.tag children)) same)

theorem parallel_element? (hn : SoundBelow tags depth nested)
    (h : ∀ scope, Parallel (fun m n => m.collapse = n.collapse) (nested scope) (nested scope)) :
    Parallel (Option.Rel fun e f => e.collapse = f.collapse) (element? tags nested scope)
      (element? tags nested scope) := by
  refine (parallel_text? .text).bind fun s t same => ?_
  cases same with
  | some same => exact parallel_pure (.some (congrArg Element.text same))
  | none =>
    refine parallel_ahead.bind fun cs ds alike => ?_
    split
    · obtain ⟨ds, rfl, -⟩ := alike.exists_cons (by decide)
      exact (parallel_mark? (by decide)).bind_eq fun _ => parallel_pure (.some rfl)
    · obtain ⟨ds, rfl, left⟩ := alike.exists_cons (by decide)
      obtain ⟨ds, rfl, -⟩ := left.exists_cons (by decide)
      exact .ite Iff.rfl (fun _ => parallel_stop _ _) fun _ => parallel_pure .none
    · rename_i noSlash
      obtain ⟨ds, rfl, left⟩ := alike.exists_cons (by decide)
      split
      · rename_i other
        cases other
      · rename_i slash
        obtain ⟨-, rfl⟩ := List.cons.inj slash
        obtain ⟨after, rfl, -⟩ := left.symm.exists_cons (by decide)
        exact absurd rfl (noSlash after)
      · refine (parallel_mark? (by decide)).bind_eq fun _ => ?_
        exact (parallel_tag (h _)).bind fun e f same => parallel_pure (.some same)
      · rename_i other
        cases other
      · rename_i noTag _
        exact absurd rfl (noTag ds)
    · obtain ⟨ds, rfl, -⟩ := alike.exists_cons (by decide)
      refine (parallel_mark? (by decide)).bind_eq fun _ => ?_
      exact (parallel_placeholder hn h).bind fun e f same => parallel_pure (.some same)
    · rename_i noHash _ noTag noBrace
      split
      · obtain ⟨cs, rfl, -⟩ := alike.symm.exists_cons (by decide)
        exact absurd rfl (noHash cs)
      · obtain ⟨cs, rfl, -⟩ := alike.symm.exists_cons (by decide)
        exact absurd rfl (noTag cs)
      · obtain ⟨cs, rfl, -⟩ := alike.symm.exists_cons (by decide)
        exact absurd rfl (noTag cs)
      · obtain ⟨cs, rfl, -⟩ := alike.symm.exists_cons (by decide)
        exact absurd rfl (noBrace cs)
      · exact parallel_pure .none

theorem parallel_elements (hn : SoundBelow tags depth nested)
    (h : ∀ scope, Parallel (fun m n => m.collapse = n.collapse) (nested scope) (nested scope)) :
    Parallel (fun m n => m.collapse = n.collapse) (elements tags nested scope)
      (elements tags nested scope) := by
  intro cs ds alike
  have separate : Repeatable (element? tags nested scope) := repeatable_element? hn
  have read := parallel_many separate (parallel_element? hn h) cs ds alike
  rw [elements]
  generalize read? (many (element? tags nested scope)) cs = x at read ⊢
  generalize read? (many (element? tags nested scope)) ds = y at read ⊢
  cases read with
  | none => exact .none
  | some related => exact .some ⟨collapseElements_eq_of_forall₂ related.1, related.2⟩

theorem parallel_message (tags : Bool) (room depth : Nat) (hd : depth + room = maxDepth)
    (scope : Scope) : Parallel (fun m n => m.collapse = n.collapse) (message tags room scope)
      (message tags room scope) := by
  induction room generalizing depth scope with
  | zero => exact parallel_stop _ _
  | succ room ih =>
    exact parallel_elements (soundBelow_message tags room (depth + 1) (by omega))
      (ih (depth + 1) (by omega))

end Grammar

open Reader

/-- Alike patterns are both no messages or the same message up to collapsing. -/
theorem parse_alike {pattern other : String} (h : Alike pattern.toList other.toList)
    {message : Message} (hp : parse tags pattern = .ok message) :
    ∃ again, parse tags other = .ok again ∧ message.collapse = again.collapse := by
  have below := Grammar.parallel_message tags maxDepth 0 (Nat.zero_add _)
  have whole : Parallel (fun m n => m.collapse = n.collapse)
      (Grammar.elements tags (Grammar.below tags 0) .root)
      (Grammar.elements tags (Grammar.below tags 0) .root) :=
    Grammar.parallel_elements (Grammar.soundBelow_below (Nat.zero_le _)) below
  have read := whole pattern.toList other.toList h
  rw [parse_eq_ok.1 hp] at read
  generalize hy : read? _ other.toList = y at read
  cases read with
  | @some _ y related =>
    obtain ⟨again, rest⟩ := y
    obtain ⟨same, left⟩ : message.collapse = again.collapse ∧ Alike [] rest := related
    obtain rfl := left.of_nil
    exact ⟨again, parse_eq_ok.2 hy, same⟩

end MessageFormat
