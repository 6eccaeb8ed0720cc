/-!
# Blank characters

The characters of the Unicode property White_Space, and the trimming and splitting that go by them.
-/

namespace Interop.Text

/-- The Unicode property White_Space. -/
def isBlank (c : Char) : Bool :=
  let n := c.toNat
  (9 ≤ n && n ≤ 13) || n == 0x20 || n == 0x85 || n == 0xA0 || n == 0x1680 ||
    (0x2000 ≤ n && n ≤ 0x200A) || n == 0x2028 || n == 0x2029 || n == 0x202F || n == 0x205F ||
    n == 0x3000

def dropEndWhile (p : Char → Bool) (s : String) : String :=
  String.ofList (s.toList.reverse.dropWhile p).reverse

def stripWhile (p : Char → Bool) (s : String) : String :=
  dropEndWhile p (String.ofList (s.toList.dropWhile p))

def trimEnd (s : String) : String :=
  dropEndWhile isBlank s

def trim (s : String) : String :=
  stripWhile isBlank s

def wordsFrom (word : List Char) : List Char → List (List Char)
  | [] => if word.isEmpty then [] else [word.reverse]
  | c :: cs =>
    if isBlank c then
      if word.isEmpty then wordsFrom [] cs else word.reverse :: wordsFrom [] cs
    else wordsFrom (c :: word) cs

/-- The maximal stretches of non-blank characters, in order. -/
def words (s : String) : List String :=
  (wordsFrom [] s.toList).map String.ofList

end Interop.Text
