/-!
# Ranges of code points

A class of characters is listed as the ranges of code points in it, each with its first and its
last member, in increasing order.
-/

namespace ViewRollout.Text

abbrev Ranges := List (Nat × Nat)

def Ranges.contains (ranges : Ranges) (c : Char) : Bool :=
  ranges.any fun (first, last) => first ≤ c.toNat && c.toNat ≤ last

end ViewRollout.Text
