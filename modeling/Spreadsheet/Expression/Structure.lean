import Spreadsheet.Expression

/-!
Sameness of structure. Two expressions have the same structure when they differ at most in positions,
labels, spellings and the case of function names.
-/

namespace Spreadsheet.Expression

mutual

/-- Whether two expressions mean the same. -/
def sameStructure : Expression → Expression → Bool
  | .literal _ v _, .literal _ w _ => v == w
  | .imaginary _ x _, .imaginary _ y _ => x == y
  | .complex _ a _, .complex _ b _ => a == b
  | .cell a, .cell b => a.target == b.target
  | .range _ a, .range _ b => a.first.target == b.first.target && a.last.target == b.last.target
  | .identifier _ a, .identifier _ b => a == b
  | .operator _ a, .operator _ b => a == b
  | .unary _ s a, .unary _ t b => s == t && sameStructure a b
  | .binary _ s a b, .binary _ t c d => s == t && sameStructure a c && sameStructure b d
  | .call _ f as, .call _ g bs => Text.equalIgnoringCase f g && sameStructures as bs
  | .group _ as x, .group _ bs y => x == y && sameStructures as bs
  | .array _ a, .array _ b => Value.equalColumns a b
  | .missing _, .missing _ => true
  | _, _ => false

/-- Whether two lists have equally many members that mean the same one by one. -/
def sameStructures : List Expression → List Expression → Bool
  | [], [] => true
  | a :: as, b :: bs => sameStructure a b && sameStructures as bs
  | _, _ => false

end

end Spreadsheet.Expression
