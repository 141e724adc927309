/-! Machine words: which whole numbers they hold. -/
namespace ComponentFile.Word

def size32 : Nat := 4294967296

def size64 : Nat := 18446744073709551616

def fits32 (i : Int) : Bool := 0 ≤ i && i < 4294967296

theorem fits32Exact {i : Int} : fits32 i = true ↔ 0 ≤ i ∧ i < size32 := by
  simp [fits32, size32]

def fitsSigned64 (i : Int) : Bool := -9223372036854775808 ≤ i && i < 9223372036854775808

end ComponentFile.Word
