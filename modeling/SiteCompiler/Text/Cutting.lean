namespace SiteCompiler.Text

/-- The pieces between the separators; there is one more than there are separators. -/
def pieces (sep : Char) (s : String) : List String :=
  (s.toList.splitOn sep).map String.ofList

def segments (s : String) : List String :=
  (pieces '/' s).filter (· ≠ "")

def cutFirst? (p : Char → Bool) (s : String) : Option (String × String) :=
  match s.toList.dropWhile (fun c => !p c) with
  | [] => none
  | _ :: rest => some (.ofList (s.toList.takeWhile fun c => !p c), .ofList rest)

def cutLast? (p : Char → Bool) (s : String) : Option (String × String) :=
  match s.toList.reverse.dropWhile (fun c => !p c) with
  | [] => none
  | _ :: rest =>
    some (.ofList rest.reverse, .ofList (s.toList.reverse.takeWhile fun c => !p c).reverse)

def before (p : Char → Bool) (s : String) : String :=
  .ofList (s.toList.takeWhile fun c => !p c)

def afterLast (sep : Char) (s : String) : String :=
  .ofList (s.toList.reverse.takeWhile (· ≠ sep)).reverse

def startsWith (s beginning : String) : Bool :=
  beginning.toList.isPrefixOf s.toList

def endsWith (s ending : String) : Bool :=
  ending.toList.isSuffixOf s.toList

def dropStart? (beginning s : String) : Option String :=
  (beginning.toList.isPrefixOf? s.toList).map String.ofList

def dropEnd? (ending s : String) : Option String :=
  (ending.toList.isSuffixOf? s.toList).map String.ofList

def trimStart (p : Char → Bool) (s : String) : String :=
  .ofList (s.toList.dropWhile p)

def trimEnd (p : Char → Bool) (s : String) : String :=
  .ofList (s.toList.reverse.dropWhile p).reverse

def occursIn [BEq α] (needle : List α) : List α → Bool
  | [] => needle.isEmpty
  | c :: rest => needle.isPrefixOf (c :: rest) || occursIn needle rest

def contains (s needle : String) : Bool :=
  occursIn needle.toList s.toList

/-- Writes `new` for every `old` that a scan from the left meets; the first argument counts the
characters of a match that are still to be passed over. -/
def replaceFrom [BEq α] (old new : List α) : Nat → List α → List α
  | _, [] => []
  | k + 1, _ :: rest => replaceFrom old new k rest
  | 0, c :: rest =>
    if old.isPrefixOf (c :: rest) then new ++ replaceFrom old new (old.length - 1) rest
    else c :: replaceFrom old new 0 rest

def replace (old new s : String) : String :=
  .ofList (replaceFrom old.toList new.toList 0 s.toList)

def isBlank (c : Char) : Bool :=
  let n := c.toNat
  (0x09 ≤ n && n ≤ 0x0d) || n = 0x20 || n = 0x85 || n = 0xa0 || n = 0x1680
    || (0x2000 ≤ n && n ≤ 0x200a) || n = 0x2028 || n = 0x2029 || n = 0x202f || n = 0x205f
    || n = 0x3000

def trim (s : String) : String :=
  trimEnd isBlank (trimStart isBlank s)

def lowerAscii (s : String) : String :=
  .ofList (s.toList.map Char.toLower)

end SiteCompiler.Text
