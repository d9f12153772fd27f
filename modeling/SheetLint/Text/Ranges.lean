/-!
Sets of characters given by ascending, closed ranges of code points.
-/
namespace SheetLint.Text

abbrev Ranges := List (Nat × Nat)

def Ranges.hasCode : Ranges → Nat → Bool
  | [], _ => false
  | (lo, hi) :: rest, n => if n < lo then false else if n ≤ hi then true else hasCode rest n

def Ranges.has (ranges : Ranges) (c : Char) : Bool := ranges.hasCode c.toNat

end SheetLint.Text
