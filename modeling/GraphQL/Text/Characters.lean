/-! Character classes of the language. Between tokens, blanks, line ends, commas, byte
order marks and comments are ignored; names are made of ASCII letters, digits and
underscores. White space, which block strings trim, is the Unicode property. -/
namespace GraphQL.Text

def isNameStart (c : Char) : Bool := c == '_' || c.isAlpha

def isNamePart (c : Char) : Bool := c == '_' || c.isAlphanum

def isByteOrderMark (c : Char) : Bool := c == '\ufeff'

def isLineEnd (c : Char) : Bool := c == '\n' || c == '\r'

def isIgnored (c : Char) : Bool :=
  c == ' ' || c == '\t' || c == ',' || isLineEnd c || isByteOrderMark c

def whiteSpaceRanges : List (Nat × Nat) :=
  [(0x09, 0x0d), (0x20, 0x20), (0x85, 0x85), (0xa0, 0xa0), (0x1680, 0x1680),
   (0x2000, 0x200a), (0x2028, 0x2029), (0x202f, 0x202f), (0x205f, 0x205f), (0x3000, 0x3000)]

def isWhiteSpace (c : Char) : Bool :=
  whiteSpaceRanges.any fun range => range.1 ≤ c.toNat && c.toNat ≤ range.2

theorem name_start_part (c : Char) (h : isNameStart c = true) : isNamePart c = true := by
  simp only [isNameStart, isNamePart, Char.isAlphanum, Bool.or_eq_true] at h ⊢
  rcases h with h | h
  · exact Or.inl h
  · exact Or.inr (Or.inl h)

end GraphQL.Text
