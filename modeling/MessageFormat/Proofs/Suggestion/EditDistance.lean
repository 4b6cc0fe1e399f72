import MessageFormat.Suggestion
import Mathlib

/-!
# Edit distance

The distance of two texts is the least number of characters that have to be replaced, inserted or
removed to turn one into the other (`Suggestion.isLeast_editDistance`). It is worked out row by row:
a row holds the distances of what has been read of the source to all fronts of the target (`Row`).
-/

namespace MessageFormat.Suggestion

/-- Turning one text into another, with the number of characters that are not kept. -/
inductive Edits : Nat → List Char → List Char → Prop where
  | done : Edits 0 [] []
  | keep {n : Nat} {s t : List Char} (c : Char) : Edits n s t → Edits n (c :: s) (c :: t)
  | replace {n : Nat} {s t : List Char} (c d : Char) :
      Edits n s t → Edits (n + 1) (c :: s) (d :: t)
  | insert {n : Nat} {s t : List Char} (d : Char) : Edits n s t → Edits (n + 1) s (d :: t)
  | remove {n : Nat} {s t : List Char} (c : Char) : Edits n s t → Edits (n + 1) (c :: s) t

/-- The least number of edits. -/
def Distance (s t : List Char) (n : Nat) : Prop :=
  IsLeast {k | Edits k s t} n

variable {s t : List Char} {c d : Char} {m n : Nat}

namespace Edits

theorem refl (s : List Char) : Edits 0 s s := by
  induction s with
  | nil => exact done
  | cons c s ih => exact keep c ih

theorem eq_of_zero (h : Edits 0 s t) : s = t := by
  induction s generalizing t with
  | nil =>
    cases h
    rfl
  | cons c s ih =>
    cases h with
    | keep _ rest => rw [ih rest]

theorem append {s' t' : List Char} (h : Edits m s t) (h' : Edits n s' t') :
    Edits (m + n) (s ++ s') (t ++ t') := by
  induction h with
  | done => rwa [Nat.zero_add]
  | keep c _ ih => exact keep c ih
  | replace c d _ ih => exact Nat.succ_add_eq_add_succ _ n ▸ replace c d ih
  | insert d _ ih => exact Nat.succ_add_eq_add_succ _ n ▸ insert d ih
  | remove c _ ih => exact Nat.succ_add_eq_add_succ _ n ▸ remove c ih

theorem reverse (h : Edits n s t) : Edits n s.reverse t.reverse := by
  induction h with
  | done => exact done
  | keep c _ ih => simpa using ih.append (keep c done)
  | replace c d _ ih => simpa using ih.append (replace c d done)
  | insert d _ ih => simpa using ih.append (insert d done)
  | remove c _ ih => simpa using ih.append (remove c done)

end Edits

namespace Distance

theorem of_reverse (h : Distance s.reverse t.reverse n) : Distance s t n := by
  refine ⟨?_, fun k edits => h.2 (Edits.reverse edits)⟩
  have least : Edits n s.reverse.reverse t.reverse.reverse := Edits.reverse h.1
  rwa [List.reverse_reverse, List.reverse_reverse] at least

theorem nil_nil : Distance [] [] 0 :=
  ⟨.done, fun _ _ => Nat.zero_le _⟩

theorem nil_cons (h : Distance [] t n) (d : Char) : Distance [] (d :: t) (n + 1) := by
  refine ⟨.insert d h.1, fun k edits => ?_⟩
  cases edits with
  | insert _ rest => exact Nat.succ_le_succ (h.2 rest)

theorem cons_nil (h : Distance s [] n) (c : Char) : Distance (c :: s) [] (n + 1) := by
  refine ⟨.remove c h.1, fun k edits => ?_⟩
  cases edits with
  | remove _ rest => exact Nat.succ_le_succ (h.2 rest)

theorem nil_left (t : List Char) : Distance [] t t.length := by
  induction t with
  | nil => exact nil_nil
  | cons d t ih => exact ih.nil_cons d

/-- The step of the table: the last edit inserts, removes, or replaces or keeps. -/
theorem cons_cons {left up diagonal : Nat} (hl : Distance (c :: s) t left)
    (hu : Distance s (d :: t) up) (hd : Distance s t diagonal) :
    Distance (c :: s) (d :: t)
      (min (min (left + 1) (up + 1)) (if c = d then diagonal else diagonal + 1)) := by
  constructor
  · have crossed : Edits (if c = d then diagonal else diagonal + 1) (c :: s) (d :: t) := by
      split_ifs with same
      · exact same ▸ .keep c hd.1
      · exact .replace c d hd.1
    rcases min_choice (min (left + 1) (up + 1)) (if c = d then diagonal else diagonal + 1) with
      least | least
    · rcases min_choice (left + 1) (up + 1) with inner | inner
      · rw [least, inner]
        exact .insert d hl.1
      · rw [least, inner]
        exact .remove c hu.1
    · rw [least]
      exact crossed
  · intro k edits
    cases edits with
    | keep _ rest =>
      rw [if_pos rfl]
      exact (min_le_right _ _).trans (hd.2 rest)
    | replace _ _ rest =>
      refine (min_le_right _ _).trans ?_
      have bound := hd.2 rest
      split_ifs
      · exact bound.trans (Nat.le_succ _)
      · exact Nat.succ_le_succ bound
    | insert _ rest =>
      exact ((min_le_left _ _).trans (min_le_left _ _)).trans (Nat.succ_le_succ (hl.2 rest))
    | remove _ rest =>
      exact ((min_le_left _ _).trans (min_le_right _ _)).trans (Nat.succ_le_succ (hu.2 rest))

end Distance

/-! ## Rows -/

/-- Distances of a source to fronts of a target, from one front on. The source and the fronts are
read backwards, so that the next character of each is put in front. -/
inductive Row (source : List Char) : List Char → List Char → List Nat → Prop where
  | last {front : List Char} {n : Nat} : Distance source front n → Row source front [] [n]
  | cell {front ahead : List Char} {n : Nat} {row : List Nat} {d : Char} :
      Distance source front n → Row source (d :: front) ahead row →
        Row source front (d :: ahead) (n :: row)

namespace Row

variable {source front ahead target : List Char} {row above : List Nat} {left diagonal : Nat}

theorem rowFrom (h : Row source front ahead (diagonal :: above))
    (first : Distance (c :: source) front left) :
    Row (c :: source) front ahead
      (left :: Suggestion.rowFrom c left ahead (diagonal :: above)) := by
  induction ahead generalizing front left diagonal above with
  | nil => exact .last first
  | cons d ahead ih =>
    cases h with
    | cell here behind =>
      cases behind with
      | last up => exact .cell first (.last (first.cons_cons up here))
      | cell up behind => exact .cell first (ih (.cell up behind) (first.cons_cons up here))

theorem nextRow (h : Row source [] target row) (c : Char) :
    Row (c :: source) [] target (Suggestion.nextRow target row c) := by
  cases h with
  | last here => exact rowFrom (.last here) (here.cons_nil c)
  | cell here behind => exact rowFrom (.cell here behind) (here.cons_nil c)

theorem foldl_nextRow (h : Row source [] target row) (rest : List Char) :
    Row (rest.reverse ++ source) [] target (rest.foldl (Suggestion.nextRow target) row) := by
  induction rest generalizing source row with
  | nil => exact h
  | cons c rest ih =>
    rw [List.reverse_cons, List.append_assoc, List.foldl_cons]
    exact ih (h.nextRow c)

theorem of_nil (front ahead : List Char) :
    Row [] front ahead (List.range' front.length (ahead.length + 1)) := by
  induction ahead generalizing front with
  | nil => exact .last (.nil_left front)
  | cons d ahead ih => exact .cell (.nil_left front) (ih (d :: front))

theorem distance_getLastD (h : Row source front ahead row) (n : Nat) :
    Distance source (ahead.reverse ++ front) (row.getLastD n) := by
  induction h generalizing n with
  | last here => exact here
  | cell _ _ ih =>
    rw [List.reverse_cons, List.append_assoc, List.getLastD_cons]
    exact ih _

end Row

/-! ## The distance -/

/-- The edit distance is the least number of edits. -/
theorem isLeast_editDistance (source target : String) :
    IsLeast {n | Edits n source.toList target.toList} (editDistance source target) := by
  have start : Row [] [] target.toList (List.range (target.length + 1)) := by
    rw [List.range_eq_range', ← String.length_toList]
    exact .of_nil [] target.toList
  have whole := (start.foldl_nextRow source.toList).distance_getLastD 0
  rw [List.append_nil, List.append_nil] at whole
  exact whole.of_reverse

theorem editDistance_eq_zero_iff {source target : String} :
    editDistance source target = 0 ↔ source = target := by
  have least := isLeast_editDistance source target
  constructor
  · intro zero
    rw [zero] at least
    exact String.toList_inj.1 (Edits.eq_of_zero least.1)
  · rintro rfl
    exact Nat.le_zero.1 (least.2 (Edits.refl source.toList))

end MessageFormat.Suggestion
