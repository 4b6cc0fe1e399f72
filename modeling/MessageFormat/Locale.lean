import MessageFormat.Text.Blank

/-!
Locale tags. A requested tag is tried as it is and then with subtags taken off its end; the first
candidate that is available wins.
-/

namespace MessageFormat.Locale

def normalizeChars (cs : List Char) : List Char :=
  (Text.trimChars cs).map fun c => if c = '_' then '-' else c.toLower

def normalize (tag : String) : String :=
  String.ofList (normalizeChars tag.toList)

def beforeLastHyphen? : List Char → Option (List Char)
  | [] => none
  | c :: rest =>
      match beforeLastHyphen? rest with
      | some front => some (c :: front)
      | none => if c = '-' then some [] else none

def endsInSingleton (cs : List Char) : Bool :=
  match cs.reverse with
  | c :: '-' :: _ => c != '-' && c.utf8Size == 1
  | _ => false

/-- A tag without its last subtag, nor a subtag of one byte that this leaves at the end. -/
def shorten? (cs : List Char) : Option (List Char) :=
  match beforeLastHyphen? cs with
  | none => none
  | some front =>
      if endsInSingleton front then some (front.take (front.length - 2)) else some front

/-- A tag and what is left of it by shortening, at most `count` tags, down to an empty one. -/
def chainFrom : Nat → List Char → List (List Char)
  | 0, _ => []
  | count + 1, cs =>
      if cs.isEmpty then []
      else match shorten? cs with
        | some shorter => cs :: chainFrom count shorter
        | none => [cs]

def chain (tag : String) : List String :=
  let cs := normalizeChars tag.toList
  (chainFrom cs.length cs).map String.ofList

def candidates (requested : List String) : List String :=
  requested.flatMap chain

def closest? (requested : List String) (isAvailable : String → Bool) : Option String :=
  (candidates requested).find? isAvailable

def offered (requested : List String) (isAvailable : String → Bool) : List String :=
  let refused := (candidates requested).takeWhile (!isAvailable ·)
  refused ++ (closest? requested isAvailable).toList

end MessageFormat.Locale
