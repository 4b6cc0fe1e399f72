import MessageFormat.DateTime.Options
import Mathlib

/-!
# Skeletons one after the other

A skeleton is scanned from one place to the next: inside a quotation, inside a run of a letter, or
between the two. Where no quotation is open and the last letter does not go on, what follows is read
as if it stood alone (`runsFrom_append`), and every run sets its options whatever is set already
(`setField?_eq`). So the options of two skeletons are merged, those of the later one in front, and
parts that set different options can change places (`read?_append_eq_merge`).
-/

namespace MessageFormat

/-! ## Options -/

namespace DateTimeOptions

/-- The options of both, where those of `later` stand in front of those of `earlier`. -/
def override (earlier later : DateTimeOptions) : DateTimeOptions where
  era := later.era.or earlier.era
  year := later.year.or earlier.year
  month := later.month.or earlier.month
  weekday := later.weekday.or earlier.weekday
  day := later.day.or earlier.day
  hour := later.hour.or earlier.hour
  minute := later.minute.or earlier.minute
  second := later.second.or earlier.second
  hour12 := later.hour12.or earlier.hour12
  timeZoneName := later.timeZoneName.or earlier.timeZoneName

/-- No option is set by both. -/
structure Disjoint (options other : DateTimeOptions) : Prop where
  era : options.era = none ∨ other.era = none
  year : options.year = none ∨ other.year = none
  month : options.month = none ∨ other.month = none
  weekday : options.weekday = none ∨ other.weekday = none
  day : options.day = none ∨ other.day = none
  hour : options.hour = none ∨ other.hour = none
  minute : options.minute = none ∨ other.minute = none
  second : options.second = none ∨ other.second = none
  hour12 : options.hour12 = none ∨ other.hour12 = none
  timeZoneName : options.timeZoneName = none ∨ other.timeZoneName = none

instance (options other : DateTimeOptions) : Decidable (options.Disjoint other) :=
  decidable_of_iff ((options.era = none ∨ other.era = none) ∧
      (options.year = none ∨ other.year = none) ∧ (options.month = none ∨ other.month = none) ∧
      (options.weekday = none ∨ other.weekday = none) ∧ (options.day = none ∨ other.day = none) ∧
      (options.hour = none ∨ other.hour = none) ∧ (options.minute = none ∨ other.minute = none) ∧
      (options.second = none ∨ other.second = none) ∧
      (options.hour12 = none ∨ other.hour12 = none) ∧
      (options.timeZoneName = none ∨ other.timeZoneName = none))
    ⟨fun ⟨era, year, month, weekday, day, hour, minute, second, hour12, zone⟩ =>
      ⟨era, year, month, weekday, day, hour, minute, second, hour12, zone⟩,
    fun ⟨era, year, month, weekday, day, hour, minute, second, hour12, zone⟩ =>
      ⟨era, year, month, weekday, day, hour, minute, second, hour12, zone⟩⟩

variable {options other : DateTimeOptions}

theorem override_assoc (a b c : DateTimeOptions) :
    (a.override b).override c = a.override (b.override c) := by
  simp only [override, Option.or_assoc]

theorem default_override (options : DateTimeOptions) :
    DateTimeOptions.override {} options = options := by
  simp only [override, Option.or_none]

theorem or_comm_of_none {α : Type} {a b : Option α} (h : a = none ∨ b = none) :
    b.or a = a.or b := by
  obtain rfl | rfl := h
  · rw [Option.or_none, Option.none_or]
  · rw [Option.or_none, Option.none_or]

theorem Disjoint.override_comm (h : options.Disjoint other) :
    options.override other = other.override options := by
  simp only [override, or_comm_of_none h.era, or_comm_of_none h.year, or_comm_of_none h.month,
    or_comm_of_none h.weekday, or_comm_of_none h.day, or_comm_of_none h.hour,
    or_comm_of_none h.minute, or_comm_of_none h.second, or_comm_of_none h.hour12,
    or_comm_of_none h.timeZoneName]

theorem Disjoint.symm (h : options.Disjoint other) : other.Disjoint options :=
  ⟨h.era.symm, h.year.symm, h.month.symm, h.weekday.symm, h.day.symm, h.hour.symm, h.minute.symm,
    h.second.symm, h.hour12.symm, h.timeZoneName.symm⟩

end DateTimeOptions

namespace Skeleton

/-- What two skeletons set, where the options of `later` stand in front; none if neither sets
one. -/
def merge (earlier later : Option DateTimeOptions) : Option DateTimeOptions :=
  Option.merge DateTimeOptions.override earlier later

theorem merge_none (options : Option DateTimeOptions) : merge options none = options :=
  Option.merge_none_right

theorem none_merge (options : Option DateTimeOptions) : merge none options = options :=
  Option.merge_none_left

theorem merge_assoc (a b c : Option DateTimeOptions) :
    merge (merge a b) c = merge a (merge b c) := by
  cases a <;> cases b <;> cases c <;> simp [merge, DateTimeOptions.override_assoc]

/-- No option is set by both skeletons. -/
def Disjoint (p q : String) : Prop := ∀ a ∈ read? p, ∀ b ∈ read? q, a.Disjoint b

instance (p q : String) : Decidable (Disjoint p q) := inferInstanceAs (Decidable (∀ a ∈ _, _))

theorem Disjoint.symm {p q : String} (h : Disjoint p q) : Disjoint q p :=
  fun a ha b hb => (h b hb a ha).symm

theorem Disjoint.merge_comm {p q : String} (h : Disjoint p q) :
    merge (read? p) (read? q) = merge (read? q) (read? p) := by
  cases hp : read? p with
  | none => rw [none_merge, merge_none]
  | some a =>
    cases hq : read? q with
    | none => rw [none_merge, merge_none]
    | some b => exact congrArg some (h a hp b hq).override_comm

/-! ## Runs -/

/-- What a run sets does not hang on what is set already. -/
theorem setField?_eq (options : DateTimeOptions) (letter : Char) (length : Nat) :
    setField? options letter length = (setField? {} letter length).map options.override := by
  unfold setField?
  split <;> simp [DateTimeOptions.override]

theorem setFields_cons (options : Option DateTimeOptions) (run : Char × Nat)
    (runs : List (Char × Nat)) :
    setFields options (run :: runs) =
      setFields (merge options (setField? {} run.1 run.2)) runs := by
  rw [setFields, List.foldl_cons, setField?_eq]
  congr 1
  cases options with
  | none =>
    cases setField? {} run.1 run.2 with
    | none => rfl
    | some set => exact congrArg some set.default_override
  | some options => cases setField? {} run.1 run.2 <;> rfl

theorem setFields_eq_merge (options : Option DateTimeOptions) (runs : List (Char × Nat)) :
    setFields options runs = merge options (setFields none runs) := by
  induction runs generalizing options with
  | nil => exact (merge_none options).symm
  | cons run runs ih =>
    rw [setFields_cons, setFields_cons, ih, ih (merge none _), none_merge, merge_assoc]

/-! ## Places -/

def Place.next : Place → Char → Place
  | .quoted, c => if c = '\'' then .between else .quoted
  | .between, c => if c = '\'' then .quoted else .run c 1
  | .run letter length, c =>
      if c = letter then .run letter (length + 1) else if c = '\'' then .quoted else .run c 1

/-- The run that ends in front of a character. -/
def Place.ended : Place → Char → List (Char × Nat)
  | .run letter length, c => if c = letter then [] else [(letter, length)]
  | _, _ => []

theorem runsFrom_cons (place : Place) (c : Char) (cs : List Char) :
    runsFrom place (c :: cs) = place.ended c ++ runsFrom (place.next c) cs := by
  cases place with
  | quoted => rw [runsFrom]; simp only [Place.ended, Place.next]; split <;> rfl
  | between => rw [runsFrom]; simp only [Place.ended, Place.next]; split <;> rfl
  | run letter length =>
    rw [runsFrom]
    simp only [Place.ended, Place.next]
    split
    · rfl
    · split <;> rfl

def placeAfter (cs : List Char) : Place := cs.foldl Place.next .between

/-- Nothing that is open at a place goes on in what follows. -/
def Place.StopsBefore (cs : List Char) : Place → Prop
  | .quoted => False
  | .run letter _ => letter ∉ cs.head?
  | .between => True

theorem Place.StopsBefore.runsFrom {place : Place} {cs : List Char} (h : place.StopsBefore cs) :
    runsFrom place cs = runsFrom place [] ++ runsFrom .between cs := by
  cases place with
  | quoted => exact h.elim
  | between => rfl
  | run letter length =>
    cases cs with
    | nil => rfl
    | cons c cs =>
      have other : c ≠ letter := by simpa [Place.StopsBefore] using h
      have same : (Place.run letter length).next c = Place.between.next c := if_neg other
      rw [runsFrom_cons, runsFrom_cons, Place.ended, if_neg other, same]
      rfl

/-- From the end of `cs` on, what follows is read as if it stood alone. -/
theorem runsFrom_append {place : Place} {cs rest : List Char}
    (h : (cs.foldl Place.next place).StopsBefore rest) :
    runsFrom place (cs ++ rest) = runsFrom place cs ++ runsFrom .between rest := by
  induction cs generalizing place with
  | nil => exact h.runsFrom
  | cons c cs ih => rw [List.cons_append, runsFrom_cons, runsFrom_cons, ih h, List.append_assoc]

/-- What is known at a place about the characters in front of it. -/
def Place.Follows (cs : List Char) : Place → Prop
  | .quoted => Odd (cs.count '\'')
  | .run letter _ => Even (cs.count '\'') ∧ letter ∈ cs.getLast? ∧ letter ≠ '\''
  | .between => Even (cs.count '\'')

theorem Place.Follows.next {place : Place} {cs : List Char} (h : place.Follows cs) (c : Char) :
    (place.next c).Follows (cs ++ [c]) := by
  have count : (cs ++ [c]).count '\'' = cs.count '\'' + if c = '\'' then 1 else 0 := by
    simp [List.count_singleton]
  have last : c ∈ (cs ++ [c]).getLast? := by simp
  have opens (even : Even (cs.count '\'')) :
      (if c = '\'' then Place.quoted else .run c 1).Follows (cs ++ [c]) := by
    split
    · rename_i quote
      rw [Place.Follows, count, if_pos quote]
      exact even.add_one
    · rename_i other
      refine ⟨?_, last, other⟩
      rwa [count, if_neg other]
  cases place with
  | quoted =>
    rw [Place.next]
    split
    · rename_i quote
      rw [Place.Follows, count, if_pos quote]
      exact Odd.add_one h
    · rename_i other
      rwa [Place.Follows, count, if_neg other]
  | between => exact opens h
  | run letter length =>
    obtain ⟨even, -, letterOther⟩ := h
    rw [Place.next]
    split
    · rename_i same
      subst same
      refine ⟨?_, last, letterOther⟩
      rwa [count, if_neg letterOther]
    · exact opens even

theorem follows_placeAfter (cs : List Char) : (placeAfter cs).Follows cs := by
  induction cs using List.reverseRecOn with
  | nil => exact Even.zero
  | append_singleton cs c ih =>
    rw [placeAfter, List.foldl_append]
    exact ih.next c

/-! ## Skeletons -/

/-- The skeleton leaves no quotation open. -/
def Closed (p : String) : Prop := Even (p.toList.count '\'')

/-- The skeleton leaves no quotation open, and it ends in an apostrophe or not in the first
character of `q`. -/
def EndsBefore (p q : String) : Prop :=
  Closed p ∧ ∀ c ∈ p.toList.getLast?, c = '\'' ∨ c ∉ q.toList.head?

instance (p : String) : Decidable (Closed p) := inferInstanceAs (Decidable (Even _))

instance (p q : String) : Decidable (EndsBefore p q) :=
  have : Decidable (∀ c ∈ p.toList.getLast?, c = '\'' ∨ c ∉ q.toList.head?) :=
    Option.decidableForallMem _
  inferInstanceAs (Decidable (_ ∧ _))

theorem EndsBefore.stopsBefore {p q : String} (h : EndsBefore p q) :
    (placeAfter p.toList).StopsBefore q.toList := by
  obtain ⟨closed, last⟩ := h
  have follows := follows_placeAfter p.toList
  cases hp : placeAfter p.toList with
  | quoted =>
    rw [hp] at follows
    exact (Nat.not_even_iff_odd.2 follows closed).elim
  | between => trivial
  | run letter length =>
    rw [hp] at follows
    exact (last letter follows.2.1).resolve_left follows.2.2

theorem read?_append {p q : String} (h : EndsBefore p q) :
    read? (p ++ q) = merge (read? p) (read? q) := by
  rw [read?, String.toList_append, runsFrom_append h.stopsBefore, setFields, List.foldl_append]
  exact setFields_eq_merge _ _

theorem runsFrom_quoted {cs : List Char} (h : '\'' ∉ cs) (rest : List Char) :
    runsFrom .quoted (cs ++ rest) = runsFrom .quoted rest := by
  induction cs with
  | nil => rfl
  | cons c cs ih =>
    obtain ⟨other, tail⟩ := List.ne_and_not_mem_of_not_mem_cons h
    rw [List.cons_append, runsFrom, if_neg other.symm, ih tail]

theorem read?_quotation {quoted : String} (h : '\'' ∉ quoted.toList) :
    read? ("'" ++ quoted ++ "'") = none := by
  have opening : ("'" ++ quoted ++ "'").toList = '\'' :: (quoted.toList ++ ['\'']) := by
    simp
  rw [read?, opening, runsFrom, if_pos rfl, runsFrom_quoted h]
  rfl

/-- Text between apostrophes sets nothing, and it parts what stands around it. -/
theorem read?_append_quotation {p quoted : String} (hp : Closed p) (hq : '\'' ∉ quoted.toList)
    (q : String) :
    read? (p ++ ("'" ++ quoted ++ "'") ++ q) = merge (read? p) (read? q) := by
  have before : EndsBefore p ("'" ++ quoted ++ "'") :=
    ⟨hp, fun c _ => by simpa [eq_comm] using eq_or_ne c '\''⟩
  have closed : Closed (p ++ ("'" ++ quoted ++ "'")) := by
    have two : (p ++ ("'" ++ quoted ++ "'")).toList.count '\'' = p.toList.count '\'' + 2 := by
      simp [List.count_eq_zero.2 hq]
    rw [Closed, two]
    exact hp.add even_two
  have after : EndsBefore (p ++ ("'" ++ quoted ++ "'")) q := by
    have last : (p ++ ("'" ++ quoted ++ "'")).toList.getLast? = some '\'' := by
      simp [List.getLast?_cons]
    exact ⟨closed, fun c hc => .inl (Option.some.inj (hc.symm.trans last))⟩
  rw [read?_append after, read?_append before, read?_quotation hq, merge_none]

theorem read?_join {parts : List String} (filled : ∀ part ∈ parts, part ≠ "")
    (chain : parts.IsChain EndsBefore) :
    read? (String.join parts) =
      parts.foldr (fun part options => merge (read? part) options) none := by
  induction parts with
  | nil => rfl
  | cons p parts ih =>
    obtain ⟨first, tail⟩ := List.isChain_cons.1 chain
    rw [List.foldr_cons, ← ih (fun part h => filled part (.tail _ h)) tail, String.join_cons]
    cases parts with
    | nil =>
      have nothing : read? (String.join []) = none := rfl
      rw [nothing, merge_none, String.join_nil, String.append_empty]
    | cons q parts =>
      obtain ⟨closed, last⟩ := first q rfl
      have letters : q.toList ≠ [] := by simpa using filled q (by simp)
      refine read?_append ⟨closed, ?_⟩
      rwa [String.join_cons, String.toList_append, List.head?_append_of_ne_nil _ letters]

theorem foldr_merge_perm {parts parts' : List String} (perm : parts.Perm parts')
    (disjoint : parts.Pairwise Disjoint) :
    parts.foldr (fun part options => merge (read? part) options) none =
      parts'.foldr (fun part options => merge (read? part) options) none := by
  have symmetric : Std.Symm Disjoint := ⟨fun _ _ => Disjoint.symm⟩
  refine perm.foldr_eq' (fun p hp q hq options => ?_) none
  obtain rfl | differ := eq_or_ne p q
  · rfl
  · rw [← merge_assoc, ← merge_assoc, (disjoint.forall hp hq differ).merge_comm]

/-- Skeletons one after the other set what each of them sets, the later one in front; so text
between apostrophes sets nothing, and parts that set different options can be written in any
order. -/
theorem read?_append_eq_merge :
    (∀ p q, EndsBefore p q → read? (p ++ q) = merge (read? p) (read? q)) ∧
      (∀ p quoted q, Closed p → '\'' ∉ quoted.toList →
        read? (p ++ ("'" ++ quoted ++ "'") ++ q) = merge (read? p) (read? q)) ∧
      ∀ parts parts' : List String, parts.Perm parts' → (∀ part ∈ parts, part ≠ "") →
        parts.IsChain EndsBefore → parts'.IsChain EndsBefore → parts.Pairwise Disjoint →
        read? (String.join parts) = read? (String.join parts') := by
  refine ⟨fun p q => read?_append, fun p quoted q hp hq => read?_append_quotation hp hq q, ?_⟩
  intro parts parts' perm filled chain chain' disjoint
  have filled' : ∀ part ∈ parts', part ≠ "" := fun part h => filled part (perm.mem_iff.2 h)
  rw [read?_join filled chain, read?_join filled' chain', foldr_merge_perm perm disjoint]

theorem read?_append_eq_merge_clock :
    EndsBefore "HH'h'" "h MMM 'd" ∧
      read? ("HH'h'" ++ "h MMM 'd") =
        some { month := some .short, hour := some .numeric, hour12 := some true } ∧
      ["HH:", "mm ", "d."].Pairwise Disjoint ∧
      read? (String.join ["HH:", "mm ", "d."]) = read? (String.join ["d.", "mm ", "HH:"]) := by
  have parts : ["HH:", "mm ", "d."].Pairwise Disjoint := by decide
  have reversed : ["HH:", "mm ", "d."].Perm ["d.", "mm ", "HH:"] := by decide
  refine ⟨by decide, ?_, parts, ?_⟩
  · rw [read?_append_eq_merge.1 _ _ (by decide)]
    decide
  · exact read?_append_eq_merge.2.2 _ _ reversed (by decide) (by decide) (by decide) parts

end Skeleton

end MessageFormat
