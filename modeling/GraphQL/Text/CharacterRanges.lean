/-! Classes of characters by ranges: each range is given by the numbers of its first and
its last character. -/
namespace GraphQL.CharacterRanges

def within (ranges : List (Nat × Nat)) (c : Char) : Bool :=
  ranges.any fun range => range.1 ≤ c.toNat && c.toNat ≤ range.2

end GraphQL.CharacterRanges
