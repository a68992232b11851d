import ByteBricks.Execution.Run
import ByteBricks.Json

/-! # Reports

  What the command line writes about a wall: its bricks, its struct definitions and
  the bricks that it refused. The members of all objects are in alphabetical order. -/

namespace ByteBricks.CommandLine

/-- A colour as it is written on web pages. -/
def colorText (c : Color) : String := "#" ++ c.hex

/-- What is written about a brick of a wall. -/
def brickJson (w : Wall) (b : Brick) : Json :=
  .object [
    ("color", .string (colorText b.color)),
    ("name", .string b.name.text),
    ("size", .number b.size.toNat),
    ("start", .number b.start.toInt),
    ("type", ((w.typeInfo? b.type).map (Json.string ·.name)).getD .null)]

/-- What is written about a struct definition of a wall. -/
def definitionJson (w : Wall) (d : Definition) : Json :=
  .object [
    ("color", .string (colorText d.color)),
    ("members", .array (d.members.map (brickJson w))),
    ("name", .string d.name.text),
    ("size", .number d.size.toNat)]

/-- What is written about a wall and the bricks that it refused. -/
def annotationJson (w : Wall) (rejected : List Rejection) : Json :=
  .object [
    ("bricks", .array (w.bricks.map (brickJson w))),
    ("rejected", .array (rejected.map (Json.string ·.message))),
    ("structs", .array (w.definitions.map (definitionJson w)))]

end ByteBricks.CommandLine
