/-!
Blank characters: the pattern grammar skips one set of them, values read from text are trimmed of
another. `collapse` squeezes every run of pattern blanks into one space.
-/

namespace MessageFormat.Text

def inRanges (ranges : List (Nat × Nat)) (c : Char) : Bool :=
  ranges.any fun range => range.1 ≤ c.toNat && c.toNat ≤ range.2

def blankRanges : List (Nat × Nat) :=
  [(0x09, 0x0D), (0x20, 0x20), (0x85, 0x85), (0xA0, 0xA0), (0x180E, 0x180E), (0x2000, 0x200D),
   (0x2028, 0x2029), (0x202F, 0x202F), (0x205F, 0x205F), (0x2060, 0x2060), (0x3000, 0x3000),
   (0xFEFF, 0xFEFF)]

def isBlank (c : Char) : Bool :=
  inRanges blankRanges c

def collapseFrom (inRun : Bool) : List Char → List Char
  | [] => []
  | c :: rest =>
      if isBlank c then
        if inRun then collapseFrom true rest else ' ' :: collapseFrom true rest
      else c :: collapseFrom false rest

def collapse (text : String) : String :=
  String.ofList (collapseFrom false text.toList)

def whiteSpaceRanges : List (Nat × Nat) :=
  [(0x09, 0x0D), (0x20, 0x20), (0x85, 0x85), (0xA0, 0xA0), (0x1680, 0x1680), (0x2000, 0x200A),
   (0x2028, 0x2029), (0x202F, 0x202F), (0x205F, 0x205F), (0x3000, 0x3000)]

def isWhiteSpace (c : Char) : Bool :=
  inRanges whiteSpaceRanges c

def trimChars (cs : List Char) : List Char :=
  ((cs.dropWhile isWhiteSpace).reverse.dropWhile isWhiteSpace).reverse

def trim (text : String) : String :=
  String.ofList (trimChars text.toList)

end MessageFormat.Text
