import MessageFormat.Proofs.Grammar

/-!
# Tokens cover the pattern

The tokens that a reader yields are the characters that it passed, one after the other
(`Reader.Tiles`). This is so for every reader of the grammar, where it is done and where it stops,
so that nothing is emitted twice or left out on the way to a fault (`tokenizeOnto_covers`). Only a
closing tag of another id is passed and then reported at its start.
-/

namespace MessageFormat

variable {cs front rest taken : List Char} {fault : Fault}

/-- The characters of some tokens. -/
def texts (tokens : List Token) : List Char :=
  tokens.flatMap (·.text.toList)

theorem texts_append (tokens more : List Token) :
    texts (tokens ++ more) = texts tokens ++ texts more :=
  List.flatMap_append

theorem texts_singleton (kind : TokenKind) (cs : List Char) :
    texts [⟨kind, String.ofList cs⟩] = cs := by
  simp [texts]

/-- What was taken of a pattern with a fault between `front` and `rest`: the front, and the start of
a closing tag whose id is not the one of the tag that is open. -/
def Fault.Covers (front rest taken : List Char) : Fault → Prop
  | .mismatchedTag id other => other ≠ id ∧ taken = front ++ '<' :: '/' :: other.toList ∧
      ∃ after, rest = '<' :: '/' :: (other.toList ++ after) ∧ StopsAt (endsWord true) after
  | _ => taken = front

theorem Fault.Covers.append (h : fault.Covers front rest taken) (cs : List Char) :
    fault.Covers (cs ++ front) rest (cs ++ taken) := by
  cases fault with
  | mismatchedTag id other =>
    obtain ⟨differ, rfl, closing⟩ := h
    exact ⟨differ, (List.append_assoc _ _ _).symm, closing⟩
  | _ => exact congrArg (cs ++ ·) h

/-- Whether more was taken of the pattern than what lies in front of the fault. -/
def Fault.isMismatch : Fault → Bool
  | .mismatchedTag _ _ => true
  | _ => false

theorem Fault.covers_nil (h : fault.isMismatch = false) : fault.Covers [] rest [] := by
  cases fault with
  | mismatchedTag id other => cases h
  | _ => rfl

def Reading.Tiles {α : Type} (cs : List Char) : Reading α → Prop
  | .done _ rest tokens => texts tokens ++ rest = cs
  | .stopped fault rest tokens =>
      ∃ front, cs = front ++ rest ∧ fault.Covers front rest (texts tokens)

theorem Reading.Tiles.after {α : Type} {reading : Reading α} (h : reading.Tiles cs)
    (tokens : List Token) : (reading.after tokens).Tiles (texts tokens ++ cs) := by
  cases reading with
  | done value rest more =>
    obtain rfl : texts more ++ rest = cs := h
    change texts (tokens ++ more) ++ rest = _
    rw [texts_append, List.append_assoc]
  | stopped fault rest more =>
    obtain ⟨front, rfl, covers⟩ := h
    refine ⟨texts tokens ++ front, (List.append_assoc _ _ _).symm, ?_⟩
    rw [texts_append]
    exact covers.append _

theorem Reading.after_after {α : Type} (reading : Reading α) (tokens more : List Token) :
    (reading.after more).after tokens = reading.after (tokens ++ more) := by
  cases reading <;> simp [Reading.after]

namespace Reader

variable {α β : Type}

theorem bind_done {reader : Reader α} {next : α → Reader β} {a : α} {tokens : List Token}
    (h : reader cs = .done a rest tokens) : (reader >>= next) cs = (next a rest).after tokens := by
  change Reader.bind reader next cs = _
  rw [Reader.bind, h]

theorem bind_stopped {reader : Reader α} {next : α → Reader β} {tokens : List Token}
    (h : reader cs = .stopped fault rest tokens) :
    (reader >>= next) cs = .stopped fault rest tokens := by
  change Reader.bind reader next cs = _
  rw [Reader.bind, h]

/-- The tokens that are yielded are what was passed of the pattern. -/
def Tiles (reader : Reader α) : Prop := ∀ cs, (reader cs).Tiles cs

theorem Tiles.bind {reader : Reader α} {next : α → Reader β} (h : reader.Tiles)
    (hnext : ∀ a, (next a).Tiles) : (reader >>= next).Tiles := by
  intro cs
  have passed := h cs
  cases hr : reader cs with
  | done a rest tokens =>
    rw [hr] at passed
    obtain rfl : texts tokens ++ rest = cs := passed
    rw [bind_done hr]
    exact (hnext a rest).after tokens
  | stopped fault rest tokens =>
    rw [bind_stopped hr]
    rwa [hr] at passed

theorem tiles_pure (a : α) : (pure a : Reader α).Tiles := fun _ => rfl

theorem tiles_stop (h : fault.isMismatch = false) : (stop fault : Reader α).Tiles :=
  fun _ => ⟨[], rfl, Fault.covers_nil h⟩

theorem tiles_ahead : ahead.Tiles := fun _ => rfl

theorem Tiles.ite {p : Prop} [Decidable p] {reader other : Reader α} (h : p → reader.Tiles)
    (h' : ¬ p → other.Tiles) : (if p then reader else other).Tiles := by
  split
  · exact h ‹p›
  · exact h' ‹¬ p›

theorem tiles_literal? (kind : TokenKind) (text : List Char) : (literal? kind text).Tiles := by
  intro cs
  unfold literal?
  split
  · rename_i front
    obtain ⟨rest, rfl⟩ := List.isPrefixOf_iff_prefix.1 front
    change texts _ ++ _ = _
    rw [texts_singleton, List.drop_left]
  · rfl

theorem tiles_mark? (text : List Char) : (mark? text).Tiles := tiles_literal? .mark text

theorem tiles_mark (text : List Char) (h : fault.isMismatch = false) :
    (mark text fault).Tiles :=
  (tiles_mark? text).bind fun _ => .ite (fun _ => tiles_pure _) fun _ => tiles_stop h

theorem texts_run (kind : TokenKind) (cs : List Char) :
    texts (if cs.isEmpty then [] else [⟨kind, String.ofList cs⟩]) = cs := by
  cases cs with
  | nil => rfl
  | cons c cs => exact texts_singleton kind _

theorem tiles_run (kind : TokenKind) (p : Char → Bool) : (run kind p).Tiles := by
  intro cs
  change texts _ ++ _ = _
  rw [texts_run]
  exact List.takeWhile_append_dropWhile

theorem tiles_blanks : blanks.Tiles := (tiles_run _ _).bind fun _ => tiles_pure _

theorem tiles_word? (kind : TokenKind) (inTag : Bool) : (word? kind inTag).Tiles :=
  (tiles_run _ _).bind fun _ => tiles_pure _

theorem tiles_word (kind : TokenKind) (inTag : Bool) (h : fault.isMismatch = false) :
    (word kind inTag fault).Tiles := by
  refine (tiles_word? kind inTag).bind fun taken => ?_
  cases taken with
  | none => exact tiles_stop h
  | some taken => exact tiles_pure _

theorem tiles_atMost {reader : Reader (Option α)} (h : reader.Tiles) (count : Nat) :
    (atMost reader count).Tiles := by
  induction count with
  | zero => exact tiles_pure _
  | succ count ih =>
    refine h.bind fun value => ?_
    cases value with
    | none => exact tiles_pure _
    | some value => exact ih.bind fun _ => tiles_pure _

theorem tiles_many {reader : Reader (Option α)} (h : reader.Tiles) : (many reader).Tiles :=
  fun cs => tiles_atMost h cs.length cs

end Reader

namespace Grammar

open Reader

variable {tags : Bool} {scope : Scope} {nested : Nested}

/-! ## Texts and marks -/

theorem tiles_text? (kind : TokenKind) : (text? tags scope kind).Tiles := by
  intro cs
  unfold text?
  dsimp only
  split
  · rfl
  · change texts _ ++ _ = _
    rw [texts_singleton, readText_raw_append]

theorem tiles_style : (style tags).Tiles := by
  refine (tiles_text? .style).bind fun text => ?_
  cases text with
  | none => exact tiles_stop rfl
  | some text => exact tiles_pure _

theorem tiles_casesSeparator (type : String) : (casesSeparator type).Tiles := by
  refine (tiles_mark? _).bind fun _ => .ite (fun _ => tiles_blanks) fun _ => ?_
  refine tiles_ahead.bind fun ahead => ?_
  split <;> exact tiles_stop rfl

theorem tiles_offsetNumber : offsetNumber.Tiles := by
  refine (tiles_run _ _).bind fun digits => .ite (fun _ => tiles_stop rfl) fun _ => ?_
  exact .ite (fun _ => tiles_pure _) fun _ => tiles_stop rfl

theorem tiles_offset : offset.Tiles := by
  refine tiles_ahead.bind fun ahead => .ite (fun _ => ?_) fun _ => tiles_pure _
  refine (tiles_literal? _ _).bind fun _ => (tiles_mark? _).bind fun _ => ?_
  exact tiles_blanks.bind fun _ => tiles_offsetNumber

/-! ## Cases and kinds -/

theorem tiles_case? (h : (nested scope).Tiles) : (case? nested scope).Tiles := by
  refine (tiles_word? _ _).bind fun selector => ?_
  cases selector with
  | none => exact tiles_pure _
  | some selector =>
    refine tiles_blanks.bind fun _ => (tiles_mark _ rfl).bind fun _ => h.bind fun _ => ?_
    exact (tiles_mark _ rfl).bind fun _ => tiles_blanks.bind fun _ => tiles_pure _

theorem tiles_complete (owner : Option String) (collected : Cases) :
    (complete owner collected).Tiles := by
  cases owner with
  | none => exact tiles_pure _
  | some type => exact .ite (fun _ => tiles_pure _) fun _ => tiles_stop rfl

theorem tiles_cases (h : (nested scope).Tiles) (owner : Option String) :
    (cases nested scope owner).Tiles := by
  refine (tiles_many (tiles_case? h)).bind fun list => tiles_ahead.bind fun ahead => ?_
  cases ahead with
  | nil => exact tiles_complete _ _
  | cons c ahead =>
    exact .ite (fun _ => tiles_complete _ _) fun _ => tiles_stop rfl

theorem tiles_customStyle (h : (nested .branch).Tiles) : (customStyle tags nested).Tiles := by
  refine tiles_ahead.bind fun ahead => .ite (fun _ => ?_) fun _ => ?_
  · exact (tiles_cases h none).bind fun _ => tiles_pure _
  · exact tiles_style.bind fun _ => tiles_pure _

theorem tiles_optional {α : Type} {reader : Reader α} (h : reader.Tiles) :
    (optional reader).Tiles := by
  refine (tiles_mark? _).bind fun _ => .ite (fun _ => tiles_pure _) fun _ => ?_
  refine (tiles_mark? _).bind fun _ => .ite (fun _ => ?_) fun _ => tiles_stop rfl
  refine tiles_blanks.bind fun _ => h.bind fun _ => tiles_blanks.bind fun _ => ?_
  exact (tiles_mark _ rfl).bind fun _ => tiles_pure _

theorem tiles_kind (h : ∀ scope, (nested scope).Tiles) (type : String) :
    (kind tags nested type).Tiles := by
  unfold kind
  split
  · refine (tiles_casesSeparator type).bind fun _ => tiles_offset.bind fun _ => ?_
    refine tiles_blanks.bind fun _ => (tiles_cases (h .plural) _).bind fun _ => ?_
    exact (tiles_mark _ rfl).bind fun _ => tiles_pure _
  · refine .ite (fun _ => ?_) fun _ => ?_
    · refine (tiles_casesSeparator type).bind fun _ => (tiles_cases (h .branch) _).bind fun _ => ?_
      exact (tiles_mark _ rfl).bind fun _ => tiles_pure _
    · split
      · exact (tiles_optional tiles_style).bind fun _ => tiles_pure _
      · exact (tiles_optional (tiles_customStyle (h .branch))).bind fun _ => tiles_pure _

/-! ## Elements -/

theorem tiles_placeholder (h : ∀ scope, (nested scope).Tiles) :
    (placeholder tags nested).Tiles := by
  have typed : (typed tags nested).Tiles :=
    (tiles_word _ _ rfl).bind fun type => tiles_blanks.bind fun _ => tiles_kind h type
  refine tiles_blanks.bind fun _ => (tiles_word _ _ rfl).bind fun _ => ?_
  refine tiles_blanks.bind fun _ => (tiles_mark? _).bind fun _ => ?_
  refine .ite (fun _ => tiles_pure _) fun _ => (tiles_mark? _).bind fun _ => ?_
  refine .ite (fun _ => ?_) fun _ => tiles_stop rfl
  exact tiles_blanks.bind fun _ => typed.bind fun _ => tiles_pure _

def closingTokens (word : List Char) : List Token :=
  ⟨.mark, String.ofList ['<', '/']⟩ ::
    if word.isEmpty then [] else [⟨.id, String.ofList word⟩]

theorem texts_closingTokens (word : List Char) :
    texts (closingTokens word) = '<' :: '/' :: word := by
  rw [closingTokens, ← List.singleton_append, texts_append, texts_singleton, texts_run]
  rfl

/-- A closing tag that is passed up to the end of its id. -/
theorem closingTag_append (id : String) {word after : List Char}
    (h : Run (!endsWord true ·) cs word after) :
    closingTag id ('<' :: '/' :: cs) =
      ((if String.ofList word = id then blanks >>= fun _ => mark ['>'] .tagEnd
        else stopAt (.mismatchedTag id (String.ofList word)) ('<' :: '/' :: cs)) after).after
        (closingTokens word) := by
  have start : mark ['<', '/'] (.closingTag id) ('<' :: '/' :: cs) =
      .done () cs [⟨.mark, String.ofList ['<', '/']⟩] := rfl
  have name : word? .id true cs = .done (if word.isEmpty then none else some (String.ofList word))
      after (if word.isEmpty then [] else [⟨.id, String.ofList word⟩]) := by
    obtain ⟨rfl, rfl⟩ := h.takeWhile_eq
    exact (bind_done rfl).trans (congrArg (Reading.done _ _) (List.append_nil _))
  have found : (if word.isEmpty then none else some (String.ofList word)).getD "" =
      String.ofList word := by
    cases word <;> rfl
  unfold closingTag
  rw [bind_done (rfl : ahead _ = .done _ _ []), bind_done start, bind_done name, found]
  rw [Reading.after_after, Reading.after_after]
  rfl

theorem closingTag_of_not (id : String) (h : ¬ ['<', '/'] <+: cs) :
    closingTag id cs = .stopped (.closingTag id) cs [] := by
  have absent : mark? ['<', '/'] cs = .done false cs [] := by
    rw [mark?, literal?, if_neg (by simpa using h)]
  have start : mark ['<', '/'] (.closingTag id) cs = .stopped (.closingTag id) cs [] :=
    bind_done absent
  unfold closingTag
  rw [bind_done (rfl : ahead _ = .done _ _ []), bind_stopped start]
  rfl

-- A mismatch is reported at a place that the reader has passed already, so that this step by itself
-- tiles nothing: what was passed before it is the start of the closing tag.
theorem tiles_closingTag (id : String) : (closingTag id).Tiles := by
  intro cs
  by_cases start : ['<', '/'] <+: cs
  · obtain ⟨behind, rfl⟩ := start
    have run := run_takeWhile (!endsWord true ·) behind
    generalize behind.takeWhile (!endsWord true ·) = word at run
    generalize behind.dropWhile (!endsWord true ·) = after at run
    change Reading.Tiles ('<' :: '/' :: behind) (closingTag id ('<' :: '/' :: behind))
    rw [closingTag_append id run, run.split]
    by_cases same : String.ofList word = id
    · have closed : (blanks >>= fun _ => mark ['>'] .tagEnd).Tiles :=
        tiles_blanks.bind fun _ => tiles_mark _ rfl
      have whole := (closed after).after (closingTokens word)
      rw [texts_closingTokens] at whole
      rw [if_pos same]
      exact whole
    · rw [if_neg same]
      refine ⟨[], rfl, same, ?_, after, ?_, ?_⟩
      · rw [List.append_nil, texts_closingTokens, String.toList_ofList, List.nil_append]
      · rw [String.toList_ofList]
      · simpa using run.longest
  · rw [closingTag_of_not id start]
    exact ⟨[], rfl, rfl⟩

theorem tiles_tag (h : (nested scope.inTag).Tiles) : (tag nested scope).Tiles := by
  refine (tiles_word _ _ rfl).bind fun id => tiles_blanks.bind fun _ => ?_
  refine (tiles_mark? _).bind fun _ => .ite (fun _ => tiles_pure _) fun _ => ?_
  refine (tiles_mark? _).bind fun _ => .ite (fun _ => ?_) fun _ => tiles_stop rfl
  exact h.bind fun _ => (tiles_closingTag id).bind fun _ => tiles_pure _

theorem tiles_element? (h : ∀ scope, (nested scope).Tiles) :
    (element? tags nested scope).Tiles := by
  refine (tiles_text? .text).bind fun text => ?_
  cases text with
  | some text => exact tiles_pure _
  | none =>
    refine tiles_ahead.bind fun ahead => ?_
    split
    · exact (tiles_mark? _).bind fun _ => tiles_pure _
    · exact .ite (fun _ => tiles_stop rfl) fun _ => tiles_pure _
    · exact (tiles_mark? _).bind fun _ => (tiles_tag (h _)).bind fun _ => tiles_pure _
    · exact (tiles_mark? _).bind fun _ => (tiles_placeholder h).bind fun _ => tiles_pure _
    · exact tiles_pure _

theorem tiles_message (tags : Bool) (room : Nat) (scope : Scope) :
    (message tags room scope).Tiles := by
  induction room generalizing scope with
  | zero => exact tiles_stop rfl
  | succ room ih => exact tiles_many (tiles_element? ih)

theorem tiles_pattern (tags : Bool) : (pattern tags).Tiles := by
  refine (tiles_many (tiles_element? (tiles_message tags maxDepth))).bind fun message => ?_
  refine tiles_ahead.bind fun ahead => ?_
  cases ahead with
  | nil => exact tiles_pure _
  | cons c ahead => exact tiles_stop rfl

theorem rest_of_pattern {message : Message} {tokens : List Token}
    (h : pattern tags cs = .done message rest tokens) : rest = [] := by
  have read : read? (pattern tags) cs = some (message, rest) := by
    rw [read?, h]
    rfl
  unfold pattern at read
  obtain ⟨_, mid, -, after⟩ := read?_bind_eq_some.1 read
  obtain ⟨_, _, here, done⟩ := read?_bind_eq_some.1 after
  cases here
  split at done
  · cases done
    rfl
  · cases done

end Grammar

/-! ## Places in bytes -/

theorem byteLength_cons (c : Char) (cs : List Char) :
    byteLength (c :: cs) = c.utf8Size + byteLength cs := by
  have shift : ∀ n, cs.foldl (fun length c => length + c.utf8Size) n = n + byteLength cs := by
    unfold byteLength
    induction cs with
    | nil => simp
    | cons d cs ih =>
      intro n
      rw [List.foldl_cons, List.foldl_cons, ih, ih (0 + _)]
      omega
  rw [byteLength, List.foldl_cons, shift, Nat.zero_add]

theorem byteLength_eq_utf8Len (cs : List Char) : byteLength cs = String.utf8Len cs := by
  induction cs with
  | nil => rfl
  | cons c cs ih => rw [byteLength_cons, String.utf8Len_cons, ih, Nat.add_comm]

theorem byteLength_append (cs rest : List Char) :
    byteLength (cs ++ rest) = byteLength cs + byteLength rest := by
  simp only [byteLength_eq_utf8Len, String.utf8Len_append]

theorem byteLength_toList (s : String) : byteLength s.toList = s.utf8ByteSize := by
  rw [byteLength_eq_utf8Len, ← String.utf8ByteSize_ofList, String.ofList_toList]

/-- The characters in the first bytes of a text. -/
def takeBytes : Nat → List Char → List Char
  | _, [] => []
  | size, c :: cs => if c.utf8Size ≤ size then c :: takeBytes (size - c.utf8Size) cs else []

theorem takeBytes_append (front rest : List Char) :
    takeBytes (byteLength front) (front ++ rest) = front := by
  induction front with
  | nil =>
    cases rest with
    | nil => rfl
    | cons c rest =>
      have positive := c.utf8Size_pos
      rw [List.nil_append, takeBytes, if_neg (by simp [byteLength]; omega)]
  | cons c front ih =>
    rw [byteLength_cons, List.cons_append, takeBytes, if_pos (Nat.le_add_right _ _),
      Nat.add_sub_cancel_left, ih]

theorem offset_ofRest {pattern : String} (h : pattern.toList = front ++ rest) (fault : Fault) :
    (SyntaxError.ofRest pattern rest fault).offset = byteLength front := by
  simp [SyntaxError.ofRest, h]

/-! ## Whole patterns -/

theorem parse_of_done {tags : Bool} {pattern : String} {message : Message} {tokens : List Token}
    (h : Grammar.pattern tags pattern.toList = .done message rest tokens) :
    parse tags pattern = .ok message := by
  rw [parse, h]

theorem parse_of_stopped {tags : Bool} {pattern : String} {tokens : List Token}
    (h : Grammar.pattern tags pattern.toList = .stopped fault rest tokens) :
    parse tags pattern = .error (.ofRest pattern rest fault) := by
  rw [parse, h]

theorem Fault.Covers.isPrefix (h : fault.Covers front rest taken) : taken <+: front ++ rest := by
  cases fault with
  | mismatchedTag id other =>
    obtain ⟨-, rfl, after, rfl, -⟩ := h
    exact ⟨after, by simp⟩
  | _ =>
    obtain rfl : taken = front := h
    exact List.prefix_append _ _

/-- What is appended to the tokens covers the pattern, or covers it up to the place of the error. -/
theorem tokenizeOnto_covers (tokens : List Token) (tags : Bool) (pattern : String) :
    (tokenizeOnto tokens tags pattern).2 = parse tags pattern ∧
      ∃ appended, (tokenizeOnto tokens tags pattern).1 = tokens ++ appended ∧
        texts appended <+: pattern.toList ∧
        match parse tags pattern with
        | .ok _ => texts appended = pattern.toList
        | .error error => ∃ rest, pattern.toList = takeBytes error.offset pattern.toList ++ rest ∧
            byteLength (takeBytes error.offset pattern.toList) = error.offset ∧
            error.fault.Covers (takeBytes error.offset pattern.toList) rest (texts appended) := by
  have tiles := Grammar.tiles_pattern tags pattern.toList
  unfold tokenizeOnto parse
  cases hr : Grammar.pattern tags pattern.toList with
  | done message rest more =>
    rw [hr] at tiles
    obtain rfl := Grammar.rest_of_pattern hr
    have whole : texts more ++ [] = pattern.toList := tiles
    rw [List.append_nil] at whole
    exact ⟨rfl, more, rfl, whole ▸ List.prefix_refl _, whole⟩
  | stopped fault rest more =>
    rw [hr] at tiles
    obtain ⟨front, split, covers⟩ := tiles
    have offset := offset_ofRest split fault
    have taken :
        takeBytes (SyntaxError.ofRest pattern rest fault).offset pattern.toList = front := by
      rw [offset, split, takeBytes_append]
    refine ⟨rfl, more, rfl, split ▸ covers.isPrefix, rest, ?_⟩
    rw [taken]
    exact ⟨split, offset.symm, covers⟩

end MessageFormat
