import FileChores.Text.CodeRange

/-!
# White space around a text

The Unicode property White_Space, and the text without it at either end.
-/

namespace FileChores.Text.Blank

def ranges : List (Nat × Nat) :=
  [(0x9, 0xd), (0x20, 0x20), (0x85, 0x85), (0xa0, 0xa0), (0x1680, 0x1680), (0x2000, 0x200a),
   (0x2028, 0x2029), (0x202f, 0x202f), (0x205f, 0x205f), (0x3000, 0x3000)]

end FileChores.Text.Blank

namespace FileChores.Text

def isBlank (c : Char) : Bool :=
  CodeRange.covers Blank.ranges c.toNat

/-- The text from its first to its last character that is not white space. -/
def trim (s : String) : String :=
  .ofList (((s.toList.dropWhile isBlank).reverse.dropWhile isBlank).reverse)

end FileChores.Text
