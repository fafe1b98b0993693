/-!
Blank characters: those with the White_Space property of Unicode.
-/

namespace PhotoTags.Text

/-- The ranges of code points that have the White_Space property. -/
def blankRanges : List (Nat × Nat) :=
  [(0x9, 0xD), (0x20, 0x20), (0x85, 0x85), (0xA0, 0xA0), (0x1680, 0x1680), (0x2000, 0x200A),
   (0x2028, 0x2029), (0x202F, 0x202F), (0x205F, 0x205F), (0x3000, 0x3000)]

def inRanges (ranges : List (Nat × Nat)) (c : Char) : Bool :=
  ranges.any fun range => range.1 ≤ c.toNat && c.toNat ≤ range.2

def isBlank (c : Char) : Bool :=
  inRanges blankRanges c

example : blankRanges.foldl (fun count range => count + (range.2 + 1 - range.1)) 0 = 25 := by decide

end PhotoTags.Text
