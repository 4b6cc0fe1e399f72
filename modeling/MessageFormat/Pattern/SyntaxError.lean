import MessageFormat.Pattern.Scope

/-!
Faults of patterns: what can be wrong at a place, what was looked for there, what stands there and
how that is worded. Lines and columns count from one, columns in characters, offsets in UTF-8 bytes.
-/

namespace MessageFormat

/-! ## Faults -/

/-- The deepest nesting of messages and tags. -/
def maxDepth : Nat := 32

inductive Fault where
  | trailing
  | placeholderId
  | separator
  | placeholderType
  | subMessages (type : String)
  | styleName
  | offsetNumber
  | offsetTooLarge (digits : String)
  | selector
  | subMessageStart
  | subMessageEnd
  | missingOther (type : String)
  | closingBrace
  | tagEnd
  | closingTag (id : String)
  | mismatchedTag (id other : String)
  | strayClosingTag (id : String)
  | tooDeep
deriving DecidableEq, Repr

def closingTagText (id : String) : String :=
  "</" ++ id ++ ">"

namespace Fault

def expected? : Fault → Option String
  | trailing => none
  | placeholderId => some "placeholder id"
  | separator => some ", or \x7d"
  | placeholderType => some "placeholder type"
  | subMessages type => some (type ++ " sub-messages")
  | styleName => some "placeholder style name"
  | offsetNumber => some "offset number"
  | offsetTooLarge _ => some "offset number"
  | selector => some "sub-message selector"
  | subMessageStart => some "\x7b to start sub-message"
  | subMessageEnd => some "\x7d to end sub-message"
  | missingOther _ => some "\"other\" sub-message"
  | closingBrace => some "\x7d"
  | tagEnd => some ">"
  | closingTag id => some (closingTagText id)
  | mismatchedTag id _ => some (closingTagText id)
  | strayClosingTag _ => none
  | tooDeep => none

def found? : Fault → Option String
  | offsetTooLarge digits => some digits
  | mismatchedTag _ other => some (closingTagText other)
  | strayClosingTag id => some (closingTagText id)
  | _ => none

def message (found : String) : Fault → String
  | offsetTooLarge digits => "Offset " ++ digits ++ " is too large"
  | missingOther type => "\"other\" sub-message must be specified in " ++ type
  | strayClosingTag id =>
      "Unexpected closing tag " ++ closingTagText id ++ " without matching opening tag"
  | tooDeep => "Nesting deeper than " ++ toString maxDepth ++ " levels"
  | fault =>
      match fault.expected? with
      | some expected => "Expected " ++ expected ++ " but " ++ found ++ " found"
      | none => "Unexpected " ++ found ++ " found"

end Fault

/-! ## Places -/

structure Position where
  line : Nat
  column : Nat
deriving DecidableEq, Repr

def Position.after (consumed : List Char) : Position where
  line := consumed.count '\n' + 1
  column := (consumed.reverse.takeWhile (· != '\n')).length + 1

def byteLength (cs : List Char) : Nat :=
  cs.foldl (fun length c => length + c.utf8Size) 0

/-! ## Errors -/

/-- What stands at the front of the rest of a pattern: a word, else a single character. -/
def describe (rest : List Char) : String :=
  match rest with
  | [] => "end of message pattern"
  | c :: _ =>
      let word := rest.takeWhile (!endsWord false ·)
      if word.isEmpty then String.ofList [c] else String.ofList word

structure SyntaxError where
  pattern : String
  fault : Fault
  found : String
  offset : Nat
  position : Position
deriving DecidableEq, Repr

namespace SyntaxError

def ofRest (pattern : String) (rest : List Char) (fault : Fault) : SyntaxError :=
  let consumed := pattern.toList.take (pattern.toList.length - rest.length)
  { pattern
    fault
    found := fault.found?.getD (describe rest)
    offset := byteLength consumed
    position := .after consumed }

def expected? (error : SyntaxError) : Option String :=
  error.fault.expected?

def message (error : SyntaxError) : String :=
  error.fault.message error.found

def text (error : SyntaxError) : String :=
  error.message ++ " at " ++ toString error.position.line ++ ":" ++
    toString error.position.column ++ " in " ++ error.pattern

end SyntaxError

end MessageFormat
