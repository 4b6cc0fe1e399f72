import MessageFormat.Plural.Rule

/-!
The plural rules of every supported locale.
-/

namespace MessageFormat.Plural

def cardinalRules : List (List String × List Rule) :=
  [
    (["af", "az", "bg", "el", "eu", "fo", "ha", "hu", "ka", "kk", "ku", "ky", "lb", "ml", "mn",
      "mr", "nb", "ne", "nn", "no", "or", "ps", "so", "sq", "ta", "te", "tk", "tr", "ug", "uz",
      "xh"],
      [⟨.one, [[.is .n [1]]]⟩]),
    (["am", "as", "bn", "fa", "gu", "hi", "kn", "vi", "zu"],
      [⟨.one, [[.is .i [0]], [.is .n [1]]]⟩]),
    (["ar"],
      [⟨.zero, [[.is .n [0]]]⟩,
       ⟨.one, [[.is .n [1]]]⟩,
       ⟨.two, [[.is .n [2]]]⟩,
       ⟨.few, [[.mod .n 100 [⟨3, 10⟩]]]⟩,
       ⟨.many, [[.mod .n 100 [⟨11, 99⟩]]]⟩]),
    (["ast", "de", "en", "et", "fi", "fy", "ia", "lij", "nl", "sc", "sv", "sw", "ur"],
      [⟨.one, [[.is .i [1], .is .v [0]]]⟩]),
    (["be"],
      [⟨.one, [[.mod .n 10 [1], .modNot .n 100 [11]]]⟩,
       ⟨.few, [[.mod .n 10 [⟨2, 4⟩], .modNot .n 100 [⟨12, 14⟩]]]⟩,
       ⟨.many, [[.mod .n 10 [0]], [.mod .n 10 [⟨5, 9⟩]], [.mod .n 100 [⟨11, 14⟩]]]⟩]),
    (["bo", "dz", "ff", "id", "ig", "ii", "io", "ja", "jv", "kab", "kea", "km", "ko", "lo", "ms",
      "my", "sah", "ses", "sg", "th", "to", "wo", "yi", "yo", "yue", "zh"], []),
    (["bs", "hr", "sr"],
      [⟨.one, [
          [.is .v [0], .mod .i 10 [1], .modNot .i 100 [11]],
          [.mod .f 10 [1], .modNot .f 100 [11]]]⟩,
       ⟨.few, [
          [.is .v [0], .mod .i 10 [⟨2, 4⟩], .modNot .i 100 [⟨12, 14⟩]],
          [.mod .f 10 [⟨2, 4⟩], .modNot .f 100 [⟨12, 14⟩]]]⟩]),
    (["ca", "gl", "it", "pt-pt"],
      [⟨.one, [[.is .i [1], .is .v [0]]]⟩,
       ⟨.many, [
          [.is .e [0], .isNot .i [0], .mod .i 1000000 [0], .is .v [0]],
          [.isNot .e [⟨0, 5⟩]]]⟩]),
    (["cs", "sk"],
      [⟨.one, [[.is .i [1], .is .v [0]]]⟩,
       ⟨.few, [[.is .i [⟨2, 4⟩], .is .v [0]]]⟩,
       ⟨.many, [[.isNot .v [0]]]⟩]),
    (["cy"],
      [⟨.zero, [[.is .n [0]]]⟩,
       ⟨.one, [[.is .n [1]]]⟩,
       ⟨.two, [[.is .n [2]]]⟩,
       ⟨.few, [[.is .n [3]]]⟩,
       ⟨.many, [[.is .n [6]]]⟩]),
    (["da"],
      [⟨.one, [[.is .n [1]], [.isNot .t [0], .is .i [0, 1]]]⟩]),
    (["es"],
      [⟨.one, [[.is .n [1]]]⟩,
       ⟨.many, [
          [.is .e [0], .isNot .i [0], .mod .i 1000000 [0], .is .v [0]],
          [.isNot .e [⟨0, 5⟩]]]⟩]),
    (["fil"],
      [⟨.one, [
          [.is .v [0], .is .i [1, 2, 3]],
          [.is .v [0], .modNot .i 10 [4, 6, 9]],
          [.isNot .v [0], .modNot .f 10 [4, 6, 9]]]⟩]),
    (["fr", "pt"],
      [⟨.one, [[.is .i [⟨0, 1⟩]]]⟩,
       ⟨.many, [
          [.is .e [0], .isNot .i [0], .mod .i 1000000 [0], .is .v [0]],
          [.isNot .e [⟨0, 5⟩]]]⟩]),
    (["ga"],
      [⟨.one, [[.is .n [1]]]⟩,
       ⟨.two, [[.is .n [2]]]⟩,
       ⟨.few, [[.is .n [⟨3, 6⟩]]]⟩,
       ⟨.many, [[.is .n [⟨7, 10⟩]]]⟩]),
    (["gd"],
      [⟨.one, [[.is .n [1, 11]]]⟩,
       ⟨.two, [[.is .n [2, 12]]]⟩,
       ⟨.few, [[.is .n [⟨3, 10⟩, ⟨13, 19⟩]]]⟩]),
    (["he"],
      [⟨.one, [[.is .i [1], .is .v [0]], [.is .i [0], .isNot .v [0]]]⟩,
       ⟨.two, [[.is .i [2], .is .v [0]]]⟩]),
    (["hy"],
      [⟨.one, [[.is .i [0, 1]]]⟩]),
    (["is"],
      [⟨.one, [
          [.is .t [0], .mod .i 10 [1], .modNot .i 100 [11]],
          [.mod .t 10 [1], .modNot .t 100 [11]]]⟩]),
    (["lt"],
      [⟨.one, [[.mod .n 10 [1], .modNot .n 100 [⟨11, 19⟩]]]⟩,
       ⟨.few, [[.mod .n 10 [⟨2, 9⟩], .modNot .n 100 [⟨11, 19⟩]]]⟩,
       ⟨.many, [[.isNot .f [0]]]⟩]),
    (["lv"],
      [⟨.zero, [
          [.mod .n 10 [0]],
          [.mod .n 100 [⟨11, 19⟩]],
          [.is .v [2], .mod .f 100 [⟨11, 19⟩]]]⟩,
       ⟨.one, [
          [.mod .n 10 [1], .modNot .n 100 [11]],
          [.is .v [2], .mod .f 10 [1], .modNot .f 100 [11]],
          [.isNot .v [2], .mod .f 10 [1]]]⟩]),
    (["mk"],
      [⟨.one, [
          [.is .v [0], .mod .i 10 [1], .modNot .i 100 [11]],
          [.mod .f 10 [1], .modNot .f 100 [11]]]⟩]),
    (["mt"],
      [⟨.one, [[.is .n [1]]]⟩,
       ⟨.two, [[.is .n [2]]]⟩,
       ⟨.few, [[.is .n [0]], [.mod .n 100 [⟨3, 10⟩]]]⟩,
       ⟨.many, [[.mod .n 100 [⟨11, 19⟩]]]⟩]),
    (["pl"],
      [⟨.one, [[.is .i [1], .is .v [0]]]⟩,
       ⟨.few, [[.is .v [0], .mod .i 10 [⟨2, 4⟩], .modNot .i 100 [⟨12, 14⟩]]]⟩,
       ⟨.many, [
          [.is .v [0], .isNot .i [1], .mod .i 10 [⟨0, 1⟩]],
          [.is .v [0], .mod .i 10 [⟨5, 9⟩]],
          [.is .v [0], .mod .i 100 [⟨12, 14⟩]]]⟩]),
    (["ro"],
      [⟨.one, [[.is .i [1], .is .v [0]]]⟩,
       ⟨.few, [[.isNot .v [0]], [.is .n [0]], [.isNot .n [1], .mod .n 100 [⟨1, 19⟩]]]⟩]),
    (["ru", "uk"],
      [⟨.one, [[.is .v [0], .mod .i 10 [1], .modNot .i 100 [11]]]⟩,
       ⟨.few, [[.is .v [0], .mod .i 10 [⟨2, 4⟩], .modNot .i 100 [⟨12, 14⟩]]]⟩,
       ⟨.many, [
          [.is .v [0], .mod .i 10 [0]],
          [.is .v [0], .mod .i 10 [⟨5, 9⟩]],
          [.is .v [0], .mod .i 100 [⟨11, 14⟩]]]⟩]),
    (["si"],
      [⟨.one, [[.is .n [0, 1]], [.is .i [0], .is .f [1]]]⟩]),
    (["sl"],
      [⟨.one, [[.is .v [0], .mod .i 100 [1]]]⟩,
       ⟨.two, [[.is .v [0], .mod .i 100 [2]]]⟩,
       ⟨.few, [[.is .v [0], .mod .i 100 [⟨3, 4⟩]], [.isNot .v [0]]]⟩])
  ]

def ordinalRules : List (List String × List Rule) :=
  [
    (["af"],
      [⟨.few, [[.mod .i 100 [⟨2, 19⟩]]]⟩]),
    (["am", "ar", "ast", "bo", "bs", "cs", "da", "de", "dz", "el", "et", "eu", "fa", "ff", "fi",
      "fo", "fy", "gl", "ha", "he", "hr", "ia", "id", "ig", "ii", "io", "is", "ja", "jv", "kab",
      "kea", "km", "kn", "ko", "ku", "ky", "lb", "lt", "lv", "ml", "mn", "mt", "my", "nb", "nl",
      "nn", "no", "pl", "ps", "pt", "pt-pt", "ru", "sah", "ses", "sg", "si", "sk", "sl", "so",
      "sr", "sw", "ta", "te", "th", "to", "tr", "ug", "ur", "uz", "wo", "xh", "yi", "yo", "yue",
      "zh", "zu"], []),
    (["as", "bn"],
      [⟨.one, [[.is .n [1, 5, 7, 8, 9, 10]]]⟩,
       ⟨.two, [[.is .n [2, 3]]]⟩,
       ⟨.few, [[.is .n [4]]]⟩,
       ⟨.many, [[.is .n [6]]]⟩]),
    (["az"],
      [⟨.one, [[.mod .i 10 [1, 2, 5, 7, 8]], [.mod .i 100 [20, 50, 70, 80]]]⟩,
       ⟨.few, [
          [.mod .i 10 [3, 4]],
          [.mod .i 1000 [100, 200, 300, 400, 500, 600, 700, 800, 900]]]⟩,
       ⟨.many, [[.is .i [0]], [.mod .i 10 [6]], [.mod .i 100 [40, 60, 90]]]⟩]),
    (["be"],
      [⟨.few, [[.mod .n 10 [2, 3], .modNot .n 100 [12, 13]]]⟩]),
    (["bg"],
      [⟨.one, [[.mod .i 10 [1], .modNot .i 100 [11]]]⟩,
       ⟨.two, [[.mod .i 10 [2], .modNot .i 100 [12]]]⟩,
       ⟨.few, [[.mod .i 10 [3, 4], .modNot .i 100 [13, 14]]]⟩]),
    (["ca"],
      [⟨.one, [[.is .n [1, 3]]]⟩,
       ⟨.two, [[.is .n [2]]]⟩,
       ⟨.few, [[.is .n [4]]]⟩]),
    (["cy"],
      [⟨.zero, [[.is .n [0, 7, 8, 9]]]⟩,
       ⟨.one, [[.is .n [1]]]⟩,
       ⟨.two, [[.is .n [2]]]⟩,
       ⟨.few, [[.is .n [3, 4]]]⟩,
       ⟨.many, [[.is .n [5, 6]]]⟩]),
    (["en"],
      [⟨.one, [[.mod .n 10 [1], .modNot .n 100 [11]]]⟩,
       ⟨.two, [[.mod .n 10 [2], .modNot .n 100 [12]]]⟩,
       ⟨.few, [[.mod .n 10 [3], .modNot .n 100 [13]]]⟩]),
    (["es"],
      [⟨.one, [[.mod .n 10 [1, 3], .modNot .n 100 [11]]]⟩]),
    (["fil", "fr", "ga", "hy", "lo", "ms", "ro", "vi"],
      [⟨.one, [[.is .n [1]]]⟩]),
    (["gd"],
      [⟨.one, [[.is .n [1, 11]]]⟩,
       ⟨.two, [[.is .n [2, 12]]]⟩,
       ⟨.few, [[.is .n [3, 13]]]⟩]),
    (["gu", "hi"],
      [⟨.one, [[.is .n [1]]]⟩,
       ⟨.two, [[.is .n [2, 3]]]⟩,
       ⟨.few, [[.is .n [4]]]⟩,
       ⟨.many, [[.is .n [6]]]⟩]),
    (["hu"],
      [⟨.one, [[.is .n [1, 5]]]⟩]),
    (["it", "sc"],
      [⟨.many, [[.is .n [11, 8, 80, 800]]]⟩]),
    (["ka"],
      [⟨.one, [[.is .i [1]]]⟩,
       ⟨.many, [[.is .i [0]], [.mod .i 100 [⟨2, 20⟩, 40, 60, 80]]]⟩]),
    (["kk"],
      [⟨.many, [[.mod .n 10 [6]], [.mod .n 10 [9]], [.mod .n 10 [0], .isNot .n [0]]]⟩]),
    (["lij"],
      [⟨.many, [[.is .n [11, 8, ⟨80, 89⟩, ⟨800, 899⟩]]]⟩]),
    (["mk"],
      [⟨.one, [[.mod .i 10 [1], .modNot .i 100 [11]]]⟩,
       ⟨.two, [[.mod .i 10 [2], .modNot .i 100 [12]]]⟩,
       ⟨.many, [[.mod .i 10 [7, 8], .modNot .i 100 [17, 18]]]⟩]),
    (["mr"],
      [⟨.one, [[.is .n [1]]]⟩,
       ⟨.two, [[.is .n [2, 3]]]⟩,
       ⟨.few, [[.is .n [4]]]⟩]),
    (["ne"],
      [⟨.one, [[.is .n [⟨1, 4⟩]]]⟩]),
    (["or"],
      [⟨.one, [[.is .n [1, 5, ⟨7, 9⟩]]]⟩,
       ⟨.two, [[.is .n [2, 3]]]⟩,
       ⟨.few, [[.is .n [4]]]⟩,
       ⟨.many, [[.is .n [6]]]⟩]),
    (["sq"],
      [⟨.one, [[.is .n [1]]]⟩,
       ⟨.many, [[.mod .n 10 [4], .modNot .n 100 [14]]]⟩]),
    (["sv"],
      [⟨.one, [[.mod .n 10 [1, 2], .modNot .n 100 [11, 12]]]⟩]),
    (["tk"],
      [⟨.few, [[.mod .n 10 [6, 9]], [.is .n [10]]]⟩]),
    (["uk"],
      [⟨.few, [[.mod .n 10 [3], .modNot .n 100 [13]]]⟩])
  ]

def supportedLocales : List String :=
  ["af", "am", "ar", "as", "ast", "az", "be", "bg", "bn", "bo", "bs", "ca", "cs", "cy", "da",
   "de", "dz", "el", "en", "es", "et", "eu", "fa", "ff", "fi", "fil", "fo", "fr", "fy", "ga",
   "gd", "gl", "gu", "ha", "he", "hi", "hr", "hu", "hy", "ia", "id", "ig", "ii", "io", "is",
   "it", "ja", "jv", "ka", "kab", "kea", "kk", "km", "kn", "ko", "ku", "ky", "lb", "lij", "lo",
   "lt", "lv", "mk", "ml", "mn", "mr", "ms", "mt", "my", "nb", "ne", "nl", "nn", "no", "or",
   "pl", "ps", "pt", "pt-pt", "ro", "ru", "sah", "sc", "ses", "sg", "si", "sk", "sl", "so", "sq",
   "sr", "sv", "sw", "ta", "te", "th", "tk", "to", "tr", "ug", "uk", "ur", "uz", "vi", "wo",
   "xh", "yi", "yo", "yue", "zh", "zu"]

end MessageFormat.Plural
