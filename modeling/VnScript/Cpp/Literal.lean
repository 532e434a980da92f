import VnScript.Decimal.Notation
import VnScript.Text.Quoted

namespace VnScript.Cpp

/-- A literal as a text of its own, not as an array of characters. -/
def ownedLiteral (s : String) : String := "std::string(" ++ Text.quoted s ++ ")"

def floatLiteral (bits : UInt32) : String := Decimal.FloatFormat.single.text bits.toNat ++ "f"

def doubleLiteral (bits : UInt64) : String := Decimal.FloatFormat.double.text bits.toNat

end VnScript.Cpp
