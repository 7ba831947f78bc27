import CleanWeb.Wallet.Bytes32

/-!
# Addresses

An address as text: how alloy prints it, and how it reads it back.
-/

namespace CleanWeb
namespace Address

variable (hex : HexCodec)

/-- `format!("{:#x}", address)`. -/
def display (a : Address) : String :=
  hex.address.display a

/-- `Address::from_str`. -/
def fromStr (s : String) : Option Address :=
  hex.address.fromStr s

theorem display_injective : Function.Injective (display hex) := by
  intro a b h
  have hparse := congrArg hex.address.fromStr h
  rw [display, display, hex.address.fromStr_display, hex.address.fromStr_display] at hparse
  exact Option.some.inj hparse

end Address
end CleanWeb
