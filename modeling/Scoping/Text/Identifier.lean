import Scoping.Text.XidStart
import Scoping.Text.XidContinue

/-!
Identifiers in the sense of Unicode Annex 31, with a leading underscore
allowed. Every name that enters a syntax tree has passed this check.
-/

namespace Scoping.Text

/-- Whether a code point lies in one of the closed ranges. -/
def inRanges (ranges : List (Nat × Nat)) (code : Nat) : Bool :=
  ranges.any fun (low, high) => low ≤ code && code ≤ high

/-- The property `XID_Start`. -/
def isXidStart (c : Char) : Bool := inRanges xidStartRanges c.toNat

/-- The property `XID_Continue`. -/
def isXidContinue (c : Char) : Bool := inRanges xidContinueRanges c.toNat

/-- A first character that is `_` or `XID_Start`, then `XID_Continue` only. -/
def isIdentifier (text : String) : Bool :=
  match text.toList with
  | [] => false
  | first :: rest => (first == '_' || isXidStart first) && rest.all isXidContinue

end Scoping.Text
