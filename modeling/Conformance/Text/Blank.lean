set_option autoImplicit false

/-! # Blanks and lines

The Unicode property `White_Space`, the trimming of text at blanks and at line ends, and the
splitting of a text into lines.
-/

namespace Conformance

def blankRanges : List (Nat × Nat) :=
  [(0x09, 0x0D), (0x20, 0x20), (0x85, 0x85), (0xA0, 0xA0), (0x1680, 0x1680), (0x2000, 0x200A),
   (0x2028, 0x2029), (0x202F, 0x202F), (0x205F, 0x205F), (0x3000, 0x3000)]

/-- The characters of the Unicode property `White_Space`. -/
def isBlank (c : Char) : Bool :=
  blankRanges.any fun (first, last) => first ≤ c.toNat && c.toNat ≤ last

/-- The list without its longest tail of elements that satisfy `p`. -/
def dropTail {α : Type} (p : α → Bool) (xs : List α) : List α :=
  (xs.reverse.dropWhile p).reverse

def trimBlanks (cs : List Char) : List Char := dropTail isBlank (cs.dropWhile isBlank)

def isLineEnd (c : Char) : Bool := c = '\r' || c = '\n'

def trimLineEnds (text : String) : String := String.ofList (dropTail isLineEnd text.toList)

/-- The lines of a text: the pieces between newlines, without the empty piece after a final one. -/
def linesOf : List Char → List (List Char)
  | [] => []
  | c :: cs =>
    if c = '\n' then [] :: linesOf cs
    else match linesOf cs with
      | [] => [[c]]
      | line :: rest => (c :: line) :: rest

end Conformance
