import MessageFormat.Message.Basic
import Mathlib.Data.Finset.Card

/-!
# Collecting cases

A selector that is given again takes no new place and changes no other entry (`insert_of_mem`). So
the selectors that are collected are distinct, they stand in the order in which each was first given,
and what is looked up is what was given last. Main statement: `ofList_collects`.
-/

namespace MessageFormat.Cases

variable {cs : Cases} {c : Case} {s : String} {m : Message}

theorem contains_iff : contains cs s = true ↔ s ∈ selectors cs := by
  simp [contains, get?, selectors]

/-! ## One case -/

theorem selectors_insert_of_mem (h : s ∈ selectors cs) :
    selectors (insert cs s m) = selectors cs := by
  induction cs with
  | nil => cases h
  | cons c cs ih =>
    rw [insert]
    split
    · rename_i same
      simp [selectors, same]
    · rename_i differ
      have later : s ∈ selectors cs := by
        rcases List.mem_cons.1 h with rfl | later
        · exact absurd rfl differ
        · exact later
      simpa [selectors] using ih later

theorem insert_of_not_mem (h : s ∉ selectors cs) : insert cs s m = cs ++ [⟨s, m⟩] := by
  induction cs with
  | nil => rfl
  | cons c cs ih =>
    obtain ⟨differ, later⟩ : ¬ c.selector = s ∧ s ∉ selectors cs := by
      simpa [selectors, eq_comm] using h
    rw [insert, if_neg differ, ih later]
    rfl

/-- A selector that is present keeps its place, and all other entries stay as they are. -/
theorem insert_of_mem (nodup : (selectors cs).Nodup) (h : s ∈ selectors cs) :
    insert cs s m = cs.map fun c => if c.selector = s then ⟨s, m⟩ else c := by
  induction cs with
  | nil => cases h
  | cons c cs ih =>
    obtain ⟨absent, nodup⟩ := List.nodup_cons.1 nodup
    rw [insert, List.map_cons]
    by_cases here : c.selector = s
    · have untouched : ∀ d ∈ cs, (if d.selector = s then ⟨s, m⟩ else d) = d := by
        intro d hd
        refine if_neg fun same => absent ?_
        exact List.mem_map.2 ⟨d, hd, same.trans here.symm⟩
      rw [if_pos here, if_pos here, List.map_congr_left untouched, List.map_id']
    · have later : s ∈ selectors cs := (List.mem_cons.1 h).resolve_left fun same => here same.symm
      rw [if_neg here, if_neg here, ih nodup later]

theorem get?_cons (c : Case) (cs : Cases) (s : String) :
    get? (c :: cs) s = if c.selector = s then some c.message else get? cs s := by
  rw [get?, List.find?_cons]
  split_ifs with same <;> simp [same, get?]

theorem get?_insert (cs : Cases) (s t : String) (m : Message) :
    get? (insert cs s m) t = if s = t then some m else get? cs t := by
  induction cs with
  | nil => exact get?_cons ⟨s, m⟩ [] t
  | cons c cs ih =>
    rw [insert, get?_cons c]
    by_cases present : c.selector = s
    · rw [if_pos present, get?_cons, present]
      split_ifs <;> rfl
    · rw [if_neg present, get?_cons, ih]
      by_cases here : c.selector = t
      · have other : s ≠ t := fun same => present (here.trans same.symm)
        rw [if_pos here, if_pos here, if_neg other]
      · rw [if_neg here, if_neg here]

theorem mem_of_mem_insert (h : c ∈ insert cs s m) : c ∈ cs ∨ c = ⟨s, m⟩ := by
  induction cs with
  | nil => exact .inr (by simpa [insert] using h)
  | cons d cs ih =>
    rw [insert] at h
    split at h
    · rcases List.mem_cons.1 h with rfl | later
      · exact .inr rfl
      · exact .inl (List.mem_cons_of_mem _ later)
    · rcases List.mem_cons.1 h with rfl | later
      · exact .inl List.mem_cons_self
      · exact (ih later).imp_left (List.mem_cons_of_mem _)

theorem nodup_selectors_insert (h : (selectors cs).Nodup) :
    (selectors (insert cs s m)).Nodup := by
  by_cases present : s ∈ selectors cs
  · rwa [selectors_insert_of_mem present]
  · rw [insert_of_not_mem present, selectors, List.map_append, List.nodup_append]
    refine ⟨h, by simp, ?_⟩
    intro t old u new same
    obtain rfl : u = s := by simpa using new
    exact present (same ▸ old)

theorem head?_selectors_insert {t : String} (h : (selectors cs).head? = some s) :
    (selectors (insert cs t m)).head? = some s := by
  by_cases present : t ∈ selectors cs
  · rwa [selectors_insert_of_mem present]
  · rw [insert_of_not_mem present, selectors, List.map_append, List.head?_append]
    exact Option.or_eq_some_iff.2 (.inl h)

/-! ## All cases of a list -/

def insertAll (cs : Cases) (list : List Case) : Cases :=
  list.foldl (fun collected c => insert collected c.selector c.message) cs

theorem ofList_eq_insertAll (list : List Case) : ofList list = insertAll [] list := rfl

theorem insertAll_cons (cs : Cases) (c : Case) (list : List Case) :
    insertAll cs (c :: list) = insertAll (insert cs c.selector c.message) list := rfl

theorem mem_of_mem_insertAll {list : List Case} (h : c ∈ insertAll cs list) :
    c ∈ cs ∨ c ∈ list := by
  induction list generalizing cs with
  | nil => exact .inl h
  | cons d list ih =>
    obtain ⟨selector, message⟩ := d
    rcases ih h with old | new
    · rcases mem_of_mem_insert old with older | rfl
      · exact .inl older
      · exact .inr List.mem_cons_self
    · exact .inr (List.mem_cons_of_mem _ new)

theorem nodup_selectors_insertAll {list : List Case} (h : (selectors cs).Nodup) :
    (selectors (insertAll cs list)).Nodup := by
  induction list generalizing cs with
  | nil => exact h
  | cons d list ih => exact ih (nodup_selectors_insert h)

theorem head?_selectors_insertAll {list : List Case} (h : (selectors cs).head? = some s) :
    (selectors (insertAll cs list)).head? = some s := by
  induction list generalizing cs with
  | nil => exact h
  | cons d list ih => exact ih (head?_selectors_insert h)

theorem insertAll_of_nodup {list : List Case} (h : (selectors (cs ++ list)).Nodup) :
    insertAll cs list = cs ++ list := by
  induction list generalizing cs with
  | nil => exact (List.append_nil cs).symm
  | cons d list ih =>
    obtain ⟨selector, message⟩ := d
    have fresh : selector ∉ selectors cs := by
      intro present
      rw [selectors, List.map_append, List.nodup_append] at h
      exact h.2.2 selector present selector List.mem_cons_self rfl
    rw [insertAll_cons, insert_of_not_mem fresh, ih (by simpa using h)]
    simp

theorem mem_of_mem_ofList {list : List Case} (h : c ∈ ofList list) : c ∈ list := by
  rcases mem_of_mem_insertAll h with old | new
  · cases old
  · exact new

theorem nodup_selectors_ofList (list : List Case) : (selectors (ofList list)).Nodup :=
  nodup_selectors_insertAll List.nodup_nil

theorem head?_selectors_ofList (c : Case) (list : List Case) :
    (selectors (ofList (c :: list))).head? = some c.selector := by
  rw [ofList_eq_insertAll, insertAll_cons]
  exact head?_selectors_insertAll rfl

theorem ofList_of_nodup {list : List Case} (h : (selectors list).Nodup) : ofList list = list :=
  insertAll_of_nodup h

theorem ofList_append_singleton (list : List Case) (c : Case) :
    ofList (list ++ [c]) = insert (ofList list) c.selector c.message :=
  List.foldl_append ..

/-- What is looked up is what was inserted last. -/
theorem get?_ofList (list : List Case) (s : String) :
    get? (ofList list) s = (list.reverse.find? (·.selector = s)).map (·.message) := by
  induction list using List.reverseRecOn with
  | nil => rfl
  | append_singleton list c ih =>
    rw [ofList_append_singleton, get?_insert, ih, List.reverse_append, List.reverse_singleton,
      List.singleton_append, List.find?_cons]
    split_ifs with same <;> simp [same]

theorem get?_ofList_eq_some_iff {list : List Case} : get? (ofList list) s = some m ↔
    ∃ before behind, list = before ++ ⟨s, m⟩ :: behind ∧ ∀ c ∈ behind, c.selector ≠ s := by
  rw [get?_ofList, Option.map_eq_some_iff]
  simp only [List.find?_eq_some_iff_append]
  constructor
  · rintro ⟨⟨t, m⟩, ⟨same, behind, before, split, others⟩, rfl⟩
    obtain rfl : t = s := by simpa using same
    refine ⟨before.reverse, behind.reverse, ?_, ?_⟩
    · rw [← List.reverse_reverse list, split]
      simp
    · simpa using others
  · rintro ⟨before, behind, rfl, others⟩
    exact ⟨⟨s, m⟩, ⟨by simp, behind.reverse, before.reverse, by simp, by simpa using others⟩, rfl⟩

theorem get?_ofList_eq_none_iff {list : List Case} :
    get? (ofList list) s = none ↔ ∀ c ∈ list, c.selector ≠ s := by
  simp [get?_ofList]

theorem mem_selectors_ofList {list : List Case} :
    s ∈ selectors (ofList list) ↔ ∃ c ∈ list, c.selector = s := by
  rw [← contains_iff, contains, Option.isSome_iff_ne_none, ne_eq, get?_ofList_eq_none_iff]
  push Not
  rfl

/-- The first place of a selector in a list. -/
def firstPlace (list : List Case) (s : String) : Nat :=
  list.findIdx (·.selector = s)

theorem firstPlace_lt_iff {list : List Case} :
    firstPlace list s < list.length ↔ s ∈ selectors (ofList list) := by
  simp [firstPlace, mem_selectors_ofList]

theorem firstPlace_append {list : List Case} (more : List Case)
    (h : s ∈ selectors (ofList list)) : firstPlace (list ++ more) s = firstPlace list s := by
  have before := firstPlace_lt_iff.2 h
  rw [firstPlace] at before
  rw [firstPlace, firstPlace, List.findIdx_append, if_pos before]

theorem firstPlace_append_singleton {list : List Case}
    (h : c.selector ∉ selectors (ofList list)) :
    firstPlace (list ++ [c]) c.selector = list.length := by
  have none := firstPlace_lt_iff.not.2 h
  rw [firstPlace] at none
  rw [firstPlace, List.findIdx_append, if_neg none]
  simp

theorem pairwise_selectors_ofList (list : List Case) :
    (selectors (ofList list)).Pairwise (firstPlace list · < firstPlace list ·) := by
  induction list using List.reverseRecOn with
  | nil => exact .nil
  | append_singleton list c ih =>
    have kept : (selectors (ofList list)).Pairwise
        (firstPlace (list ++ [c]) · < firstPlace (list ++ [c]) ·) := by
      refine ih.imp_of_mem fun hs ht less => ?_
      rwa [firstPlace_append _ hs, firstPlace_append _ ht]
    rw [ofList_append_singleton]
    by_cases present : c.selector ∈ selectors (ofList list)
    · rwa [selectors_insert_of_mem present]
    · rw [insert_of_not_mem present, selectors, List.map_append, List.pairwise_append]
      refine ⟨kept, List.pairwise_singleton .., fun s hs t new => ?_⟩
      obtain rfl : t = c.selector := by simpa using new
      rw [firstPlace_append _ hs, firstPlace_append_singleton present]
      exact firstPlace_lt_iff.2 hs

theorem length_ofList (list : List Case) :
    (ofList list).length = (list.map (·.selector)).toFinset.card := by
  have same : (selectors (ofList list)).toFinset = (list.map (·.selector)).toFinset := by
    ext s
    rw [List.mem_toFinset, List.mem_toFinset, mem_selectors_ofList, List.mem_map]
  rw [← same, List.toFinset_card_of_nodup (nodup_selectors_ofList list), selectors, List.length_map]

/-- Cases that are inserted one after the other stand in the order in which their selectors were
first given, each once and with the message it was last given. To insert one of them again changes
its message only. -/
theorem ofList_collects (list : List Case) :
    (selectors (ofList list)).Nodup ∧
    (∀ s, s ∈ selectors (ofList list) ↔ ∃ c ∈ list, c.selector = s) ∧
    (selectors (ofList list)).Pairwise (firstPlace list · < firstPlace list ·) ∧
    (∀ s m, get? (ofList list) s = some m ↔
      ∃ before behind, list = before ++ ⟨s, m⟩ :: behind ∧ ∀ c ∈ behind, c.selector ≠ s) ∧
    (∀ s, get? (ofList list) s = none ↔ ∀ c ∈ list, c.selector ≠ s) ∧
    (∀ s, contains (ofList list) s = true ↔ ∃ c ∈ list, c.selector = s) ∧
    (ofList list).length = (list.map (·.selector)).toFinset.card ∧
    ∀ s ∈ selectors (ofList list), ∀ m,
      insert (ofList list) s m = (ofList list).map fun c => if c.selector = s then ⟨s, m⟩ else c :=
  ⟨nodup_selectors_ofList list, fun _ => mem_selectors_ofList, pairwise_selectors_ofList list,
    fun _ _ => get?_ofList_eq_some_iff, fun _ => get?_ofList_eq_none_iff,
    fun _ => contains_iff.trans mem_selectors_ofList, length_ofList list,
    fun _ present _ => insert_of_mem (nodup_selectors_ofList list) present⟩

theorem ofList_collects_repeated :
    let list : List Case := [⟨"one", []⟩, ⟨"other", []⟩, ⟨"one", [.hash]⟩]
    selectors (ofList list) = ["one", "other"] ∧ get? (ofList list) "one" = some [.hash] ∧
      "other" ∈ selectors (ofList list) ∧
      insert (ofList list) "other" [.hash] = [⟨"one", [.hash]⟩, ⟨"other", [.hash]⟩] := by
  intro list
  obtain ⟨-, -, -, found, -, -, -, replaced⟩ := ofList_collects list
  have selected : selectors (ofList list) = ["one", "other"] := by decide
  have present : "other" ∈ selectors (ofList list) := by simp [selected]
  have last : list = [⟨"one", []⟩, ⟨"other", []⟩] ++ ⟨"one", [.hash]⟩ :: [] := rfl
  refine ⟨selected, (found _ _).2 ⟨_, _, last, by simp⟩, present, ?_⟩
  rw [replaced "other" present]
  rfl

end MessageFormat.Cases
