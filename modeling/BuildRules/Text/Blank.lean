/-!
# Blank characters

The characters with the Unicode property `White_Space`, and the trimming of text by them.
-/

namespace BuildRules.Text

/-- Whether a character has the Unicode property `White_Space`. -/
def isBlank (c : Char) : Bool :=
  let n := c.toNat
  (9 ≤ n && n ≤ 13) || n == 0x20 || n == 0x85 || n == 0xA0 || n == 0x1680
    || (0x2000 ≤ n && n ≤ 0x200A) || n == 0x2028 || n == 0x2029 || n == 0x202F
    || n == 0x205F || n == 0x3000

/-- Whether a text has no other than blank characters. -/
def allBlank (s : String) : Bool := s.toList.all isBlank

def anyBlank (s : String) : Bool := s.toList.any isBlank

/-- The text without the blank characters at its two ends. -/
def trim (s : String) : String :=
  String.ofList ((s.toList.dropWhile isBlank).reverse.dropWhile isBlank).reverse

end BuildRules.Text
