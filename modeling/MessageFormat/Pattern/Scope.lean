import MessageFormat.Text.Blank

/-!
Texts in a pattern. The enclosing construct decides which characters end a text. Two apostrophes
stand for one; an apostrophe in front of a special character opens a quotation, which lasts to the
next single apostrophe or to the end of the pattern; any other apostrophe stands for itself.
-/

namespace MessageFormat

/-! ## Special characters -/

inductive Scope where
  | root
  /-- A message of a plural, where the number mark is special. -/
  | plural
  | branch
  | tag
  /-- A style, which ends at a blank. -/
  | style
deriving DecidableEq, Repr

/-- The scope of the children of a tag: the number mark stays special inside a plural. -/
def Scope.inTag : Scope → Scope
  | .plural => .plural
  | _ => .tag

/-- Whether a character is syntax for a scope, apart from a style's blanks. -/
def isMark (tags : Bool) (scope : Scope) (c : Char) : Bool :=
  c == '{' || c == '}' || (scope == .plural && c == '#') || (tags && c == '<')

def endsText (tags : Bool) (scope : Scope) (c : Char) : Bool :=
  isMark tags scope c || (scope == .style && Text.isBlank c)

/-- Whether an apostrophe in front of a character opens a quotation. -/
def opensQuote (tags : Bool) (scope : Scope) (c : Char) : Bool :=
  scope == .style || isMark tags scope c

def endsWord (inTag : Bool) (c : Char) : Bool :=
  c == '{' || c == '}' || c == ',' || c == '#' || c == '\'' || Text.isBlank c ||
    (inTag && (c == '<' || c == '>' || c == '/'))

/-! ## Quotations -/

structure Span where
  content : List Char
  raw : List Char
  rest : List Char
deriving DecidableEq

namespace Span

def literal (c : Char) (span : Span) : Span :=
  { span with content := c :: span.content, raw := c :: span.raw }

def mark (span : Span) : Span :=
  { span with raw := '\'' :: span.raw }

def apostrophe (span : Span) : Span :=
  { span with content := '\'' :: span.content, raw := '\'' :: '\'' :: span.raw }

end Span

/-- Reads text up to the first character that ends it; `quoted` holds inside a quotation. -/
def readText (tags : Bool) (scope : Scope) (quoted : Bool) : List Char → Span
  | [] => ⟨[], [], []⟩
  | '\'' :: '\'' :: rest => (readText tags scope quoted rest).apostrophe
  | '\'' :: next :: rest =>
      if quoted then (readText tags scope false (next :: rest)).mark
      else if opensQuote tags scope next then (readText tags scope true (next :: rest)).mark
      else (readText tags scope false (next :: rest)).literal '\''
  | ['\''] => if quoted then ⟨[], ['\''], []⟩ else ⟨['\''], ['\''], []⟩
  | c :: rest =>
      if !quoted && endsText tags scope c then ⟨[], [], c :: rest⟩
      else (readText tags scope quoted rest).literal c

end MessageFormat
