/-! Whole numbers as doubles hold them. A double keeps 53 significant bits: a number that has more
goes to the nearest that has not, and from halfway between two to the even one. -/
namespace ComponentFile.Double

def spacing (n : Nat) : Nat := 1 <<< (n.log2 + 1 - 53)

def nearest (n : Nat) : Nat :=
  let unit := spacing n
  let below := n / unit
  let left := n % unit
  if unit < 2 * left ∨ (2 * left = unit ∧ below % 2 = 1) then (below + 1) * unit else below * unit

def isFinite (n : Nat) : Bool := nearest n < 1 <<< 1024

def powerOfTen (k : Nat) : Nat := nearest (Nat.pow 10 k)

def largestPower : Nat := 308

end ComponentFile.Double
