/-! Which characters are blank, and how blank edges of a text are taken off. -/

namespace MarkdownExcerpt.Text

/-- The characters with the Unicode property White_Space, as ranges of code points. -/
def whiteSpaceRanges : List (Nat × Nat) :=
  [(0x09, 0x0D), (0x20, 0x20), (0x85, 0x85), (0xA0, 0xA0), (0x1680, 0x1680), (0x2000, 0x200A),
    (0x2028, 0x2029), (0x202F, 0x202F), (0x205F, 0x205F), (0x3000, 0x3000)]

/-- The four information separators, which are blank too but have no White_Space property. -/
def separatorRanges : List (Nat × Nat) := [(0x1C, 0x1F)]

def inRanges (ranges : List (Nat × Nat)) (c : Char) : Bool :=
  ranges.any fun range => range.1 ≤ c.toNat && c.toNat ≤ range.2

def isWhiteSpace (c : Char) : Bool := inRanges whiteSpaceRanges c

/-- Blank characters are White_Space and the information separators. -/
def isBlank (c : Char) : Bool := isWhiteSpace c || inRanges separatorRanges c

example : (whiteSpaceRanges.map fun r => r.2 + 1 - r.1).sum = 25 := by decide

example : isBlank '\x1c' ∧ ¬isWhiteSpace '\x1c' ∧ ¬isBlank '\u200b' ∧ ¬isBlank '\ufeff' := by
  decide

def trimStart (cs : List Char) : List Char := cs.dropWhile isBlank

def trimEnd (cs : List Char) : List Char := (cs.reverse.dropWhile isBlank).reverse

/-- A text without its blank edges. -/
def trim (text : String) : String := String.ofList (trimEnd (trimStart text.toList))

example : trim " \ta b\u3000" = "a b" := by decide

end MarkdownExcerpt.Text
