/-!
# Families of spellings

The Uthmani script writes some letters in more than one way. A letter of a query that has such
spellings is searched for as its family; the other letters stand for themselves.
-/

set_option autoImplicit false

namespace VerseSearch.Letters

/-- A letter, or the article with the letter after it, whose spelling varies. -/
inductive Family where
  /-- Alef, lam and thal: the article fused with the relative pronoun. -/
  | articleRelative
  /-- Alef, lam and lam: the article before a lam, as in the divine name. -/
  | articleLam
  | alef
  | yeh
  | alefMaksura
  /-- Hamza on its own or on an alef, a waw or a yeh. -/
  | hamza
  | alefMadda
  | waw
  | noon
deriving DecidableEq, Repr

namespace Family

/-- The family of a single letter. -/
def ofLetter? : Char → Option Family
  | '\u0627' => some .alef
  | '\u064A' => some .yeh
  | '\u0649' => some .alefMaksura
  | '\u0621' | '\u0623' | '\u0624' | '\u0626' => some .hamza
  | '\u0622' => some .alefMadda
  | '\u0648' => some .waw
  | '\u0646' => some .noon
  | _ => none

/-- The spellings of the family, as the text of a regular expression. -/
def expansion : Family → String
  | .articleRelative => "\u0671\u0644\u0651\u064E\u0630\u0650"
  | .articleLam =>
    "(?:(?:\u0627\u0653|\u0671)\u0644\u0644\u0651|" ++
      "\u0671\u0644\u0651\u064E(?=.[\u0652\u064E\u0670]))"
  | .alef => "(?:[\u0627\u0670\u0671]|\u0648\u0670|\u0649\u0670)"
  | .yeh => "(?:\u0627\u06DF[^ ]|[\u0649\u064A\u06E6\u0640](?![\u0670\u0654]))"
  | .alefMaksura => "(?:[\u0627\u06E6\u0670\u0649](?![\u064E\u0652\u0651]))"
  | .hamza => "[\u0654\u0626\u0621\u0625\u0624\u0623]"
  | .alefMadda =>
    "(?:\u0621\u064E\u0627|\u0654\u064E\u0627|\u0622|\u0654\u064E\u0640\u0670)"
  | .waw => "[\u0648\u06E5]"
  | .noon => "(?:\u064A\u06DF)?[\u0646\u06E8]"

/-- The letters of a query that the family is written for. A hamza may have been written on any
seat. -/
def letters : Family → List Char
  | .articleRelative => ['\u0627', '\u0644', '\u0630']
  | .articleLam => ['\u0627', '\u0644', '\u0644']
  | .alef => ['\u0627']
  | .yeh => ['\u064A']
  | .alefMaksura => ['\u0649']
  | .hamza => ['\u0621']
  | .alefMadda => ['\u0622']
  | .waw => ['\u0648']
  | .noon => ['\u0646']

end Family

end VerseSearch.Letters
