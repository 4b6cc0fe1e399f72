import MessageFormat.Message.Print
import MessageFormat.Pattern.Grammar

/-!
Ids of messages that are derived from their patterns: by normalizing, as a slug, with a checksum.
Every scheme is total: a pattern with a fault is taken as plain text.
-/

namespace MessageFormat

/-! ## Checksums -/

namespace Checksum

def shiftBit (register : UInt32) : UInt32 :=
  if register &&& 1 = 1 then (register >>> 1) ^^^ 0xEDB88320 else register >>> 1

def shiftByte (register : UInt32) (byte : UInt8) : UInt32 :=
  Nat.repeat shiftBit 8 (register ^^^ byte.toUInt32)

def crc32 (bytes : List UInt8) : UInt32 :=
  bytes.foldl shiftByte 0xFFFFFFFF ^^^ 0xFFFFFFFF

def utf8 (cs : List Char) : List UInt8 :=
  cs.flatMap String.utf8EncodeChar

def hex (value : UInt32) : List Char :=
  let ds := Nat.toDigits 16 value.toNat
  List.replicate (8 - ds.length) '0' ++ ds

end Checksum

/-! ## Slugs -/

namespace Slug

def maxLength : Nat := 50

def latinSpelling? : Char → Option String
  | 'À' | 'Á' | 'Â' | 'Ã' | 'Ä' | 'Å' => some "A"
  | 'Æ' => some "AE"
  | 'Ç' => some "C"
  | 'È' | 'É' | 'Ê' | 'Ë' => some "E"
  | 'Ì' | 'Í' | 'Î' | 'Ï' => some "I"
  | 'Ð' => some "D"
  | 'Ñ' => some "N"
  | 'Ò' | 'Ó' | 'Ô' | 'Õ' | 'Ö' | 'Ø' => some "O"
  | 'Ù' | 'Ú' | 'Û' | 'Ü' => some "U"
  | 'Ý' => some "Y"
  | 'Þ' => some "TH"
  | 'ß' => some "ss"
  | 'à' | 'á' | 'â' | 'ã' | 'ä' | 'å' => some "a"
  | 'æ' => some "ae"
  | 'ç' => some "c"
  | 'è' | 'é' | 'ê' | 'ë' => some "e"
  | 'ì' | 'í' | 'î' | 'ï' => some "i"
  | 'ð' => some "d"
  | 'ñ' => some "n"
  | 'ò' | 'ó' | 'ô' | 'õ' | 'ö' | 'ø' => some "o"
  | 'ù' | 'ú' | 'û' | 'ü' => some "u"
  | 'ý' | 'ÿ' => some "y"
  | 'þ' => some "th"
  | _ => none

def spellLatin (cs : List Char) : List Char :=
  cs.flatMap fun c =>
    match latinSpelling? c with
    | some spelling => spelling.toList
    | none => [c]

def finishWord (collected : List Char) : List (List Char) :=
  if collected.isEmpty then [] else [collected.reverse]

/-- The words of a text after some characters of a word, collected in reverse. -/
def wordsFrom (collected : List Char) : List Char → List (List Char)
  | [] => finishWord collected
  | c :: rest =>
      if c.isAlphanum then wordsFrom (c :: collected) rest
      else finishWord collected ++ wordsFrom [] rest

def words (cs : List Char) : List (List Char) :=
  wordsFrom [] cs

def ofText (text : String) : String :=
  let lowered := (words (spellLatin text.toList)).map (·.map Char.toLower)
  String.ofList ((List.intercalate ['_'] lowered).take maxLength)

end Slug

/-! ## Schemes -/

namespace Identifier

def normalized (pattern : String) : String :=
  match parse false pattern with
  | .ok message => Text.collapse (message.print false)
  | .error _ => Text.collapse pattern

def slug (pattern : String) : String :=
  Slug.ofText (normalized pattern)

/-- The length of some characters in UTF-16 code units: two for one past the first 65536. -/
def utf16Length (cs : List Char) : Nat :=
  cs.foldl (fun length c => length + if c.toNat < 0x10000 then 1 else 2) 0

def checksum (pattern : String) : UInt32 :=
  let cs := (normalized pattern).toList
  Checksum.crc32 (Checksum.utf8 ((toString (utf16Length cs)).toList ++ ':' :: cs))

def slugWithChecksum (pattern : String) : String :=
  slug pattern ++ "_" ++ String.ofList (Checksum.hex (checksum pattern))

inductive Scheme where
  | literal
  | normalized
  | slug
  | slugWithChecksum
  | custom (derive : String → String)

def Scheme.idOf : Scheme → String → String
  | .literal, pattern => pattern
  | .normalized, pattern => Identifier.normalized pattern
  | .slug, pattern => Identifier.slug pattern
  | .slugWithChecksum, pattern => Identifier.slugWithChecksum pattern
  | .custom derive, pattern => derive pattern

end Identifier

end MessageFormat
