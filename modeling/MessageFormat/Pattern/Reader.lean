import MessageFormat.Pattern.SyntaxError
import MessageFormat.Pattern.Scope

/-!
Readers take a value from the front of a pattern. A reading is done, with the rest of the pattern,
or stopped at a fault; either way it yields the tokens that it passed, which say for highlighting what
the pieces of the pattern are.
-/

namespace MessageFormat

/-! ## Tokens -/

inductive TokenKind where
  | text
  | space
  | id
  | type
  | style
  | offset
  | number
  | selector
  | mark
deriving DecidableEq, Repr

def TokenKind.name : TokenKind → String
  | .text => "text"
  | .space => "space"
  | .id => "id"
  | .type => "type"
  | .style => "style"
  | .offset => "offset"
  | .number => "number"
  | .selector => "selector"
  | .mark => "syntax"

structure Token where
  kind : TokenKind
  text : String
deriving DecidableEq, Repr

/-! ## Readers -/

inductive Reading (α : Type) where
  | done (value : α) (rest : List Char) (tokens : List Token)
  | stopped (fault : Fault) (rest : List Char) (tokens : List Token)

def Reading.after {α : Type} (tokens : List Token) : Reading α → Reading α
  | .done value rest more => .done value rest (tokens ++ more)
  | .stopped fault rest more => .stopped fault rest (tokens ++ more)

def Reader (α : Type) : Type := List Char → Reading α

namespace Reader

variable {α β : Type}

protected def pure (value : α) : Reader α :=
  fun cs => .done value cs []

protected def bind (reader : Reader α) (next : α → Reader β) : Reader β :=
  fun cs =>
    match reader cs with
    | .done value rest tokens => (next value rest).after tokens
    | .stopped fault rest tokens => .stopped fault rest tokens

instance : Monad Reader where
  pure := Reader.pure
  bind := Reader.bind

def stop (fault : Fault) : Reader α :=
  fun cs => .stopped fault cs []

/-- Stops at another place, in front of `rest`. -/
def stopAt (fault : Fault) (rest : List Char) : Reader α :=
  fun _ => .stopped fault rest []

def ahead : Reader (List Char) :=
  fun cs => .done cs cs []

def literal? (kind : TokenKind) (text : List Char) : Reader Bool :=
  fun cs =>
    if text.isPrefixOf cs then
      .done true (cs.drop text.length) [⟨kind, String.ofList text⟩]
    else .done false cs []

def mark? (mark : List Char) : Reader Bool :=
  literal? .mark mark

def mark (mark : List Char) (fault : Fault) : Reader Unit := do
  if ← mark? mark then return ()
  stop fault

/-- Takes the longest run of characters with a property; an empty run gives no token. -/
def run (kind : TokenKind) (p : Char → Bool) : Reader (List Char) :=
  fun cs =>
    let taken := cs.takeWhile p
    .done taken (cs.dropWhile p) (if taken.isEmpty then [] else [⟨kind, String.ofList taken⟩])

def blanks : Reader Unit := do
  let _ ← run .space Text.isBlank

def word? (kind : TokenKind) (inTag : Bool) : Reader (Option String) := do
  let taken ← run kind (!endsWord inTag ·)
  return if taken.isEmpty then none else some (String.ofList taken)

def word (kind : TokenKind) (inTag : Bool) (fault : Fault) : Reader String := do
  match ← word? kind inTag with
  | some taken => return taken
  | none => stop fault

def atMost (reader : Reader (Option α)) : Nat → Reader (List α)
  | 0 => return []
  | count + 1 => do
      match ← reader with
      | some value => return value :: (← atMost reader count)
      | none => return []

/-- Reads values until there is none. A value takes at least one character, so there are no more of
them than characters ahead. -/
def many (reader : Reader (Option α)) : Reader (List α) :=
  fun cs => atMost reader cs.length cs

end Reader

end MessageFormat
