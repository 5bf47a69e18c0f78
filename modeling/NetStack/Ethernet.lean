import NetStack.Types

/-! Ethernet frames (`include/ether.h`), as far as switching and address resolution read
and write them. -/
namespace NetStack

/-- A hardware address of `ETH_ALEN` bytes. -/
abbrev Mac := Vector U8 6

/-- A frame: `struct ether_header` and what follows it. -/
structure EtherFrame where
  etherDhost : Mac
  etherShost : Mac
  etherType : U16
  body : List U8
deriving DecidableEq, Repr

end NetStack
