/-! # Colours

  A colour is the number `0xRRGGBB`. Bricks and struct definitions that are not
  given a colour of their own take one from a palette, which repeats. -/

namespace ByteBricks

/-- A colour as `0xRRGGBB`; larger numbers are kept as they are. -/
abbrev Color := UInt32

namespace Color

/-- The colours handed out to bricks that have not chosen one. -/
def palette : Vector Color 8 :=
  #v[0x4e79a7, 0xf28e2b, 0xe15759, 0x76b7b2, 0x59a14f, 0xedc948, 0xb07aa1, 0xff9da7]

/-- The `i`-th colour of the palette, which starts over after its last one. -/
def ofPalette (i : Nat) : Color :=
  palette.get ⟨i % 8, Nat.mod_lt i (by decide)⟩

/-- The lower case hexadecimal digits of a colour, at least six of them. -/
def hex (c : Color) : String :=
  let digits := Nat.toDigits 16 c.toNat
  String.ofList (List.replicate (6 - digits.length) '0' ++ digits)

end Color

end ByteBricks
