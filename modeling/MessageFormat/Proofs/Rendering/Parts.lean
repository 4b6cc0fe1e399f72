import MessageFormat.Rendering.Renderer
import Mathlib

/-!
# Parts and their text

What the sink of parts has collected is what was written to it with neighbouring texts joined
(`Part.writeAll_ofParts`), and the sink of text has collected the text of all that
(`Part.writeAll_ofText`). Joining leaves that text as it is (`Part.flattenAll_joinTexts`) and leaves no
texts to be joined at any depth (`Part.normal_joinTexts`). So a message that is rendered to text is the
text of its parts (`Renderer.text_eq_flattenAll_parts`).
-/

namespace MessageFormat

namespace Part

variable {part : Part} {parts : List Part}

def isText : Part → Bool
  | text _ => true
  | _ => false

mutual

def flatten (undefinedText : String) : Part → String
  | text s => s
  | value v => Sink.valueText undefinedText v
  | tag _ children => flattenAll undefinedText children
  | emptyTag _ => ""

def flattenAll (undefinedText : String) : List Part → String
  | [] => ""
  | part :: parts => part.flatten undefinedText ++ flattenAll undefinedText parts

end

/-! ## One part in front of others -/

/-- Puts a part in front. Empty text is dropped and text joins the text that follows. -/
def cons (part : Part) (parts : List Part) : List Part :=
  match part, parts with
  | text s, text t :: rest => if s = "" then parts else text (s ++ t) :: rest
  | text s, _ => if s = "" then parts else text s :: parts
  | _, _ => part :: parts

theorem cons_empty (parts : List Part) : cons (text "") parts = parts := by
  cases parts with
  | nil => rfl
  | cons next rest => cases next <;> rfl

/-- A part that is put in front is dropped, joins the first one or stays by itself. -/
theorem cons_cases (part : Part) (parts : List Part) :
    (part = text "" ∧ cons part parts = parts) ∨
    (∃ s t rest, s ≠ "" ∧ part = text s ∧ parts = text t :: rest ∧
      cons part parts = text (s ++ t) :: rest) ∨
    (part ≠ text "" ∧ (part.isText = true → ∀ next ∈ parts.head?, next.isText = false) ∧
      cons part parts = part :: parts) := by
  cases part with
  | text s =>
    by_cases empty : s = ""
    · rw [empty]
      exact .inl ⟨rfl, cons_empty parts⟩
    · refine .inr ?_
      cases parts with
      | nil => exact .inr ⟨by simp [empty], by simp, by simp [cons, empty]⟩
      | cons next rest =>
        cases next with
        | text t => exact .inl ⟨s, t, rest, empty, rfl, rfl, by simp [cons, empty]⟩
        | value v => exact .inr ⟨by simp [empty], by simp [isText], by simp [cons, empty]⟩
        | tag name children =>
          exact .inr ⟨by simp [empty], by simp [isText], by simp [cons, empty]⟩
        | emptyTag name => exact .inr ⟨by simp [empty], by simp [isText], by simp [cons, empty]⟩
  | value v => exact .inr (.inr ⟨nofun, nofun, rfl⟩)
  | tag name children => exact .inr (.inr ⟨nofun, nofun, rfl⟩)
  | emptyTag name => exact .inr (.inr ⟨nofun, nofun, rfl⟩)

theorem cons_text_cons_text (s t : String) (parts : List Part) :
    cons (text s) (cons (text t) parts) = cons (text (s ++ t)) parts := by
  cases parts with
  | nil => by_cases hs : s = "" <;> by_cases ht : t = "" <;> simp [cons, hs, ht]
  | cons next rest =>
    cases next <;> by_cases hs : s = "" <;> by_cases ht : t = "" <;>
      simp [cons, hs, ht, String.append_assoc]

theorem flattenAll_cons (undefinedText : String) (part : Part) (parts : List Part) :
    flattenAll undefinedText (cons part parts) =
      part.flatten undefinedText ++ flattenAll undefinedText parts := by
  obtain ⟨rfl, dropped⟩ | ⟨s, t, rest, -, rfl, rfl, joins⟩ | ⟨-, -, stays⟩ := cons_cases part parts
  · rw [dropped, flatten, String.empty_append]
  · rw [joins, flattenAll, flattenAll, flatten, flatten, flatten, String.append_assoc]
  · rw [stays, flattenAll]

mutual

/-- The parts inside a part, one list for each tag at every depth. -/
def levels : Part → List (List Part)
  | text _ => []
  | value _ => []
  | tag _ children => children :: levelsAll children
  | emptyTag _ => []

def levelsAll : List Part → List (List Part)
  | [] => []
  | part :: parts => part.levels ++ levelsAll parts

end

theorem levelsAll_cons (part : Part) (parts : List Part) :
    levelsAll (cons part parts) = part.levels ++ levelsAll parts := by
  obtain ⟨rfl, dropped⟩ | ⟨s, t, rest, -, rfl, rfl, joins⟩ | ⟨-, -, stays⟩ := cons_cases part parts
  · rw [dropped, levels, List.nil_append]
  · simp only [joins, levelsAll, levels, List.nil_append]
  · rw [stays, levelsAll]

/-- No text is empty and no two texts are neighbours. -/
def Normal (parts : List Part) : Prop :=
  text "" ∉ parts ∧ parts.IsChain fun part next => ¬ (part.isText = true ∧ next.isText = true)

theorem normal_nil : Normal [] := ⟨List.not_mem_nil, .nil⟩

theorem normal_cons_iff : Normal (part :: parts) ↔
    part ≠ text "" ∧ (part.isText = true → ∀ next ∈ parts.head?, next.isText = false) ∧
      Normal parts := by
  simp only [Normal, List.mem_cons, not_or, List.isChain_cons, not_and, Bool.not_eq_true]
  constructor
  · rintro ⟨⟨first, others⟩, apart, chain⟩
    exact ⟨Ne.symm first, fun isText next here => apart next here isText, others, chain⟩
  · rintro ⟨first, apart, others, chain⟩
    exact ⟨⟨Ne.symm first, others⟩, fun next here isText => apart isText next here, chain⟩

theorem Normal.cons (h : Normal parts) : Normal (cons part parts) := by
  obtain ⟨-, dropped⟩ | ⟨s, t, rest, filled, rfl, rfl, joins⟩ | ⟨filled, apart, stays⟩ :=
    cons_cases part parts
  · rwa [dropped]
  · -- The joined text stands where the second one stood.
    obtain ⟨-, apart, rest⟩ := normal_cons_iff.1 h
    rw [joins]
    exact normal_cons_iff.2 ⟨by simp [filled], apart, rest⟩
  · rw [stays]
    exact normal_cons_iff.2 ⟨filled, apart, h⟩

theorem Normal.cons_eq (h : Normal (part :: parts)) : Part.cons part parts = part :: parts := by
  obtain ⟨filled, apart, -⟩ := normal_cons_iff.1 h
  obtain ⟨rfl, -⟩ | ⟨s, t, rest, -, rfl, rfl, -⟩ | ⟨-, -, stays⟩ := cons_cases part parts
  · exact absurd rfl filled
  · cases apart rfl (text t) rfl
  · exact stays

theorem Normal.foldr_cons (h : Normal parts) : parts.foldr Part.cons [] = parts := by
  induction parts with
  | nil => rfl
  | cons part parts ih => rw [List.foldr_cons, ih (normal_cons_iff.1 h).2.2, h.cons_eq]

/-! ## Joining all parts -/

mutual

def joined : Part → Part
  | text s => text s
  | value v => value v
  | tag name children => tag name (joinTexts children)
  | emptyTag name => emptyTag name

/-- The parts with neighbouring texts joined and empty ones dropped, at every depth. -/
def joinTexts : List Part → List Part
  | [] => []
  | part :: parts => cons part.joined (joinTexts parts)

end

mutual

theorem flatten_joined (undefinedText : String) :
    (part : Part) → part.joined.flatten undefinedText = part.flatten undefinedText
  | text _ => rfl
  | value _ => rfl
  | tag _ children => flattenAll_joinTexts undefinedText children
  | emptyTag _ => rfl

theorem flattenAll_joinTexts (undefinedText : String) : (parts : List Part) →
    flattenAll undefinedText (joinTexts parts) = flattenAll undefinedText parts
  | [] => rfl
  | part :: parts => by
    rw [joinTexts, flattenAll_cons, flatten_joined undefinedText part,
      flattenAll_joinTexts undefinedText parts, flattenAll]

end

mutual

theorem normal_joined : (part : Part) → ∀ level ∈ part.joined.levels, Normal level
  | text _ => by simp [joined, levels]
  | value _ => by simp [joined, levels]
  | tag _ children => by
    rw [joined, levels]
    exact normal_joinTexts children
  | emptyTag _ => by simp [joined, levels]

theorem normal_joinTexts : (parts : List Part) →
    ∀ level ∈ joinTexts parts :: levelsAll (joinTexts parts), Normal level
  | [] => by simp [joinTexts, levelsAll, normal_nil]
  | part :: parts => by
    obtain ⟨here, below⟩ := List.forall_mem_cons.1 (normal_joinTexts parts)
    rw [joinTexts, levelsAll_cons, List.forall_mem_cons, List.forall_mem_append]
    exact ⟨here.cons, normal_joined part, below⟩

end

/-! ## Writing to a sink -/

open Sink (ofParts ofText pushText)

mutual

theorem write_ofText (undefinedText : String) : (part : Part) → (written : String) →
    (ofText undefinedText).write part written = written ++ part.flatten undefinedText
  | text _, _ => rfl
  | value _, _ => rfl
  | tag _ children, written => writeAll_ofText undefinedText children written
  | emptyTag _, _ => String.append_empty.symm

theorem writeAll_ofText (undefinedText : String) : (parts : List Part) → (written : String) →
    (ofText undefinedText).writeAll parts written = written ++ flattenAll undefinedText parts
  | [], _ => String.append_empty.symm
  | part :: parts, written => by
    rw [Sink.writeAll, writeAll_ofText undefinedText parts, write_ofText undefinedText part,
      flattenAll, String.append_assoc]

end

theorem foldr_cons_pushText (parts : List Part) (s : String) (rest : List Part) :
    (pushText parts s).foldr cons rest = parts.foldr cons (cons (text s) rest) := by
  fun_induction pushText parts s with
  | case1 => rw [cons_empty]
  | case2 s filled => rw [List.foldr_cons, List.foldr_nil, List.foldr_nil]
  | case3 last s =>
    rw [List.foldr_cons, List.foldr_cons, List.foldr_nil, List.foldr_nil, cons_text_cons_text]
  | case4 first others s _ ih => rw [List.foldr_cons, List.foldr_cons, ih]

theorem exists_pushText_cons (first : Part) (rest : List Part) (s : String) :
    ∃ next others, pushText (first :: rest) s = next :: others ∧ next.isText = first.isText := by
  cases rest with
  | nil => cases first <;> exact ⟨_, _, rfl, rfl⟩
  | cons second more => exact ⟨first, pushText (second :: more) s, by simp [pushText], rfl⟩

theorem Normal.pushText (h : Normal parts) (s : String) : Normal (pushText parts s) := by
  fun_induction Sink.pushText parts s with
  | case1 => exact h
  | case2 s filled => exact normal_cons_iff.2 ⟨by simpa using filled, fun _ => nofun, normal_nil⟩
  | case3 last s =>
    have filled : last ≠ "" := fun empty => (normal_cons_iff.1 h).1 (congrArg text empty)
    exact normal_cons_iff.2 ⟨by simp [filled], fun _ => nofun, normal_nil⟩
  | case4 first others s alone ih =>
    obtain ⟨filled, apart, rest⟩ := normal_cons_iff.1 h
    refine normal_cons_iff.2 ⟨filled, fun isText next here => ?_, ih rest⟩
    cases others with
    | nil =>
      -- The text would have been added to the first part if that were a text.
      cases first with
      | text last => exact absurd rfl (alone last rfl)
      | value _ => cases isText
      | tag _ _ => cases isText
      | emptyTag _ => cases isText
    | cons second more =>
      obtain ⟨next', others, pushed, same⟩ := exists_pushText_cons second more s
      rw [pushed] at here
      cases here
      exact same.trans (apart isText second rfl)

theorem Normal.append_singleton (h : Normal parts) (other : part.isText = false) :
    Normal (parts ++ [part]) := by
  obtain ⟨filled, chain⟩ := h
  refine ⟨?_, List.isChain_append.2 ⟨chain, .singleton part, ?_⟩⟩
  · rw [List.mem_append, List.mem_singleton]
    rintro (inside | rfl)
    · exact filled inside
    · cases other
  · rintro last - next here ⟨-, isText⟩
    cases here
    exact Bool.noConfusion (other.symm.trans isText)

mutual

/-- What is written to parts that are joined stands behind them, joined as well. -/
theorem write_ofParts : (part : Part) → {written : List Part} → Normal written →
    Normal (ofParts.write part written) ∧
      ∀ rest, (ofParts.write part written).foldr cons rest =
        written.foldr cons (cons part.joined rest)
  | text s, written, h => ⟨h.pushText s, foldr_cons_pushText written s⟩
  | value v, written, h => ⟨h.append_singleton rfl, fun _ => List.foldr_append ..⟩
  | tag name children, written, h => by
    have inside : ofParts.writeAll children [] = joinTexts children :=
      writeAll_ofParts children normal_nil
    have behind : ofParts.write (tag name children) written =
        written ++ [(tag name children).joined] := by
      rw [joined, ← inside]
      rfl
    rw [behind]
    exact ⟨h.append_singleton rfl, fun _ => List.foldr_append ..⟩
  | emptyTag name, written, h => ⟨h.append_singleton rfl, fun _ => List.foldr_append ..⟩

theorem writeAll_ofParts : (parts : List Part) → {written : List Part} → Normal written →
    ofParts.writeAll parts written = written.foldr cons (joinTexts parts)
  | [], written, h => h.foldr_cons.symm
  | part :: parts, written, h => by
    obtain ⟨normal, behind⟩ := write_ofParts part h
    rw [Sink.writeAll, joinTexts, writeAll_ofParts parts normal, behind]

end

end Part

/-! ## Rendered messages -/

namespace Prepared

theorem parts_eq_joinTexts (prepared : Prepared) (args : Args) :
    prepared.parts args = Part.joinTexts (prepared.rendering ⟨args, none⟩) :=
  Part.writeAll_ofParts _ Part.normal_nil

theorem flattenAll_parts (prepared : Prepared) (args : Args) :
    Part.flattenAll prepared.undefinedText (prepared.parts args) = prepared.text args := by
  rw [parts_eq_joinTexts, Part.flattenAll_joinTexts, text, Part.writeAll_ofText, String.empty_append]

end Prepared

end MessageFormat
