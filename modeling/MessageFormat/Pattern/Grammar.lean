import MessageFormat.Decimal
import MessageFormat.Message.Basic
import MessageFormat.Pattern.Scope
import MessageFormat.Pattern.Reader
import MessageFormat.Pattern.SyntaxError

/-!
The grammar of patterns. The readers of this module take the reader of nested messages as an
argument, so that each of them describes one level; `message` ties them together, one level of
depth at a time.
-/

namespace MessageFormat.Grammar

open Reader

abbrev Nested := Scope → Reader Message

def text? (tags : Bool) (scope : Scope) (kind : TokenKind) : Reader (Option String) :=
  fun cs =>
    let span := readText tags scope false cs
    if span.raw.isEmpty then .done none cs []
    else .done (some (String.ofList span.content)) span.rest [⟨kind, String.ofList span.raw⟩]

def style (tags : Bool) : Reader String := do
  match ← text? tags .style .style with
  | some text => return text
  | none => stop .styleName

def casesSeparator (type : String) : Reader Unit := do
  if ← mark? [','] then blanks
  else match ← ahead with
    | '}' :: _ => stop (.subMessages type)
    | _ => stop .separator

def offsetNumber : Reader UInt32 := do
  let digits ← run .number Decimal.isDigit
  if digits.isEmpty then stop .offsetNumber
  else if Decimal.valueOf digits < 2 ^ 32 then return UInt32.ofNat (Decimal.valueOf digits)
  else stop (.offsetTooLarge (String.ofList digits))

def offsetWord : List Char := ['o', 'f', 'f', 's', 'e', 't']

def offset : Reader UInt32 := do
  if (offsetWord ++ [':']).isPrefixOf (← ahead) then
    let _ ← literal? .offset offsetWord
    let _ ← mark? [':']
    blanks
    offsetNumber
  else return 0

/-- A selector with its message, if a selector lies ahead, and the blanks that follow. -/
def case? (nested : Nested) (scope : Scope) : Reader (Option Case) := do
  match ← word? .selector false with
  | none => return none
  | some selector =>
      blanks
      mark ['{'] .subMessageStart
      let message ← nested scope
      mark ['}'] .subMessageEnd
      blanks
      return some ⟨selector, message⟩

/-- With an owner, the type that requires it, there has to be a message for `other`. -/
def complete (owner : Option String) (cases : Cases) : Reader Cases :=
  match owner with
  | none => return cases
  | some type => if Cases.contains cases "other" then return cases else stop (.missingOther type)

/-- The messages of a placeholder up to its closing brace. -/
def cases (nested : Nested) (scope : Scope) (owner : Option String) : Reader Cases := do
  let cases := Cases.ofList (← many (case? nested scope))
  match ← ahead with
  | [] => pure ()
  | c :: _ => if c = '}' then pure () else stop .selector
  complete owner cases

def opensCase (cs : List Char) : Bool :=
  let rest := cs.dropWhile (!endsWord false ·)
  !(cs.takeWhile (!endsWord false ·)).isEmpty && ['{'].isPrefixOf (rest.dropWhile Text.isBlank)

/-- The style of a custom type: messages if a selector with a brace lies ahead, else a text. -/
def customStyle (tags : Bool) (nested : Nested) : Reader CustomStyle := do
  if opensCase (← ahead) then return .cases (← cases nested .branch none)
  else return .text (← style tags)

def optional {α : Type} (reader : Reader α) : Reader (Option α) := do
  if ← mark? ['}'] then return none
  else if ← mark? [','] then
    blanks
    let value ← reader
    blanks
    mark ['}'] .closingBrace
    return some value
  else stop .separator

def kind (tags : Bool) (nested : Nested) (type : String) : Reader Kind :=
  match PluralType.ofKeyword? type with
  | some plural => do
      casesSeparator type
      let offset ← offset
      blanks
      let cases ← cases nested .plural (some type)
      mark ['}'] .closingBrace
      return .plural plural offset cases
  | none =>
      if type = "select" then do
        casesSeparator type
        let cases ← cases nested .branch (some type)
        mark ['}'] .closingBrace
        return .select cases
      else match SimpleType.ofName? type with
        | some simple => do return .simple simple (← optional (style tags))
        | none => do return .custom type ((← optional (customStyle tags nested)).getD .none)

def typed (tags : Bool) (nested : Nested) : Reader Kind := do
  let type ← word .type false .placeholderType
  blanks
  kind tags nested type

def placeholder (tags : Bool) (nested : Nested) : Reader Element := do
  blanks
  let id ← word .id false .placeholderId
  blanks
  if ← mark? ['}'] then return .placeholder id .argument
  else if ← mark? [','] then
    blanks
    return .placeholder id (← typed tags nested)
  else stop .separator

def closingTag (id : String) : Reader Unit := do
  let start ← ahead
  mark ['<', '/'] (.closingTag id)
  let other := (← word? .id true).getD ""
  if other = id then
    blanks
    mark ['>'] .tagEnd
  else stopAt (.mismatchedTag id other) start

def tag (nested : Nested) (scope : Scope) : Reader Element := do
  let id ← word .id true .placeholderId
  blanks
  if ← mark? ['/', '>'] then return .placeholder id .emptyTag
  else if ← mark? ['>'] then
    let children ← nested scope.inTag
    closingTag id
    return .placeholder id (.tag children)
  else stop .tagEnd

/-- An element, unless the message ends here. A closing tag ends it, except at the root, where
nothing was opened. -/
def element? (tags : Bool) (nested : Nested) (scope : Scope) : Reader (Option Element) := do
  match ← text? tags scope .text with
  | some text => return some (.text text)
  | none =>
      match ← ahead with
      | '#' :: _ =>
          let _ ← mark? ['#']
          return some .hash
      | '<' :: '/' :: rest =>
          if scope = .root then
            stop (.strayClosingTag (String.ofList (rest.takeWhile (!endsWord true ·))))
          else return none
      | '<' :: _ =>
          let _ ← mark? ['<']
          return some (← tag nested scope)
      | '{' :: _ =>
          let _ ← mark? ['{']
          return some (← placeholder tags nested)
      | _ => return none

def elements (tags : Bool) (nested : Nested) (scope : Scope) : Reader Message :=
  many (element? tags nested scope)

/-- A nested message, inside which messages nest less than `depth` deep. -/
def message (tags : Bool) : Nat → Nested
  | 0, _ => stop .tooDeep
  | depth + 1, scope => elements tags (message tags depth) scope

def pattern (tags : Bool) : Reader Message := do
  let message ← elements tags (message tags maxDepth) .root
  match ← ahead with
  | [] => return message
  | _ => stop .trailing

end MessageFormat.Grammar

namespace MessageFormat

def parse (tags : Bool) (pattern : String) : Except SyntaxError Message :=
  match Grammar.pattern tags pattern.toList with
  | .done message _ _ => .ok message
  | .stopped fault rest _ => .error (.ofRest pattern rest fault)

/-- Reads a pattern and appends the tokens that were passed, also those in front of a fault. -/
def tokenizeOnto (tokens : List Token) (tags : Bool) (pattern : String) :
    List Token × Except SyntaxError Message :=
  match Grammar.pattern tags pattern.toList with
  | .done message _ more => (tokens ++ more, .ok message)
  | .stopped fault rest more => (tokens ++ more, .error (.ofRest pattern rest fault))

def tokenize (tags : Bool) (pattern : String) : List Token × Except SyntaxError Message :=
  tokenizeOnto [] tags pattern

end MessageFormat
