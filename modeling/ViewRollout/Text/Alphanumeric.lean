import ViewRollout.Text.AlphanumericTable

/-!
# Letters and numbers

The letters and the numbers of any script. Unlike the characters of words they take in numbers that
are no digits, such as fractions, and leave out joiners, connectors and the marks that are not
counted as letters.
-/

namespace ViewRollout.Text

def isAlphanumeric (c : Char) : Bool :=
  if c.toNat < 0x80 then c.isAlphanum else alphanumericRanges.contains c

end ViewRollout.Text
