import SiteCompiler.Text.Category

namespace SiteCompiler.Text.Letter

open Category

def isAlphanumeric (c : Char) : Bool :=
  letters.contains c || decimalDigits.contains c || letterNumbers.contains c
    || otherNumbers.contains c || otherAlphabetic.contains c

def otherStarts : List Char :=
  ['\u1885', '\u1886', '\u2118', '\u212e', '\u309b', '\u309c']

/-- Characters that can stand in an identifier although they are neither letters nor digits. -/
def otherParts : List Char :=
  ['\u00b7', '\u0387', '\u1369', '\u136a', '\u136b', '\u136c', '\u136d', '\u136e', '\u136f',
    '\u1370', '\u1371', '\u19da', '\u200c', '\u200d', '\u30fb', '\uff65']

def startsIdentifier (c : Char) : Bool :=
  c ≠ '\u2e2f' && (letters.contains c || letterNumbers.contains c) || otherStarts.contains c

def continuesIdentifier (c : Char) : Bool :=
  startsIdentifier c || nonspacingMarks.contains c || spacingMarks.contains c
    || decimalDigits.contains c || connectors.contains c || otherParts.contains c

end SiteCompiler.Text.Letter
