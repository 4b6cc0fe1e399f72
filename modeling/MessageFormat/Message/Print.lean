import MessageFormat.Message.Basic
import MessageFormat.Pattern.Scope

/-!
The canonical pattern of a message. Apostrophes are doubled, runs of special characters are
quoted, and every message under a selector stands on a line of its own with the selectors aligned
on the right.
-/

namespace MessageFormat.Print

/-- The characters of a text; `quoting` holds inside a quotation. -/
def textFrom (tags : Bool) (scope : Scope) (quoting : Bool) : List Char → List Char
  | [] => if quoting then ['\''] else []
  | c :: rest =>
      let special := isMark tags scope c
      (if special = quoting then [] else ['\'']) ++
        (if c = '\'' then ['\'', '\''] else [c]) ++ textFrom tags scope special rest

def text (tags : Bool) (scope : Scope) (content : String) : List Char :=
  textFrom tags scope false content.toList

def doubled (cs : List Char) : List Char :=
  cs.flatMap fun c => if c = '\'' then ['\'', '\''] else [c]

def quotesStyle (c : Char) : Bool :=
  Text.isBlank c || c == '{' || c == '}' || c == '<'

def style (content : String) : List Char :=
  let cs := content.toList
  if cs.isEmpty then []
  else if cs.any quotesStyle then [',', ' ', '\''] ++ doubled cs ++ ['\'']
  else [',', ' '] ++ doubled cs

def indent (depth : Nat) : List Char :=
  List.replicate (2 * depth) ' '

def aligned (width : Nat) (selector : List Char) : List Char :=
  List.replicate (width - selector.length) ' ' ++ selector

def selectorWidth (cases : Cases) : Nat :=
  cases.foldl (fun width c => max width c.selector.toList.length) 0

def opening (id type : String) : List Char :=
  '{' :: id.toList ++ [',', ' '] ++ type.toList

mutual

def element (tags : Bool) (scope : Scope) (depth : Nat) : Element → List Char
  | .text content => text tags scope content
  | .hash => ['#']
  | .placeholder id k => kind tags scope (depth + 1) id k

def kind (tags : Bool) (scope : Scope) (depth : Nat) (id : String) : Kind → List Char
  | .argument => '{' :: id.toList ++ ['}']
  | .simple type none => opening id type.name ++ ['}']
  | .simple type (some content) => opening id type.name ++ style content ++ ['}']
  | .plural type offset cs =>
      opening id type.keyword ++ [','] ++
        (if offset = 0 then [] else " offset:".toList ++ (toString offset.toNat).toList) ++
        cases tags .plural depth (selectorWidth cs) cs
  | .select cs =>
      opening id "select" ++ [','] ++ cases tags .branch depth (selectorWidth cs) cs
  | .custom type content => opening id type ++ custom tags depth content
  | .tag children =>
      let inner := if scope = .plural then .plural else .branch
      '<' :: id.toList ++ ['>'] ++ message tags inner depth children ++
        ['<', '/'] ++ id.toList ++ ['>']
  | .emptyTag => '<' :: id.toList ++ ['/', '>']

/-- The rest of a custom placeholder after its type; messages are left out if there are none. -/
def custom (tags : Bool) (depth : Nat) : CustomStyle → List Char
  | .none => ['}']
  | .text content => style content ++ ['}']
  | .cases [] => ['}']
  | .cases (c :: cs) => ',' :: cases tags .branch depth (selectorWidth (c :: cs)) (c :: cs)

def cases (tags : Bool) (scope : Scope) (depth width : Nat) : List Case → List Char
  | [] => '\n' :: indent (depth - 1) ++ ['}']
  | c :: cs => case tags scope depth width c ++ cases tags scope depth width cs

def case (tags : Bool) (scope : Scope) (depth width : Nat) : Case → List Char
  | ⟨selector, es⟩ =>
      '\n' :: indent depth ++ aligned width selector.toList ++ [' ', '{'] ++
        message tags scope depth es ++ ['}']

def message (tags : Bool) (scope : Scope) (depth : Nat) : List Element → List Char
  | [] => []
  | e :: es => element tags scope depth e ++ message tags scope depth es

end

end MessageFormat.Print

namespace MessageFormat

/-- The pattern of a message, for readers that know tags if `tags` holds or the message has any. -/
def Message.print (tags : Bool) (message : Message) : String :=
  String.ofList (Print.message (tags || message.hasTags) .root 0 message)

end MessageFormat
