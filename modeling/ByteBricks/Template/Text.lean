import ByteBricks.Template

/-! # The Text of a Template

  A template is written one statement to a line, with every operation in
  parentheses. -/

namespace ByteBricks.Template

/-- The text of a reference to a field. -/
def Access.text : Access → String
  | .field name => name.text
  | .member owner part => owner.text ++ "." ++ part.text

/-- The text of an expression. -/
def Expr.text : Expr → String
  | .literal _ value => toString value.toInt
  | .access _ _ field => field.text
  | .element _ _ _ field index => field.text ++ "[" ++ index.text ++ "]"
  | .arith _ _ op lhs rhs => "(" ++ lhs.text ++ " " ++ op.symbol ++ " " ++ rhs.text ++ ")"

/-- The text of a declaration. -/
def Declaration.text (d : Declaration) : String :=
  match d.count with
  | none => d.typeName.text ++ " " ++ d.name.text
  | some count => d.typeName.text ++ "[" ++ count.text ++ "] " ++ d.name.text

/-- A text in braces, each part of which is followed by a semicolon. -/
def braced (parts : List String) : String :=
  "\x7b" ++ String.join (parts.map fun part => " " ++ part ++ ";") ++ " \x7d"

mutual

/-- The text of a statement. -/
def Statement.text : Statement → String
  | .struct _ name members =>
    "struct " ++ name.text ++ " " ++ braced (members.map Declaration.text)
  | .field d => d.text
  | .block _ body => braced (Statement.texts body)
  | .expression e => e.text
  | .scriptEnd _ => "<end>"

/-- The texts of statements. -/
def Statement.texts : List Statement → List String
  | [] => []
  | s :: rest => s.text :: Statement.texts rest

end

/-- The text of a template. -/
def text (t : Template) : String := String.intercalate "\n" (Statement.texts t.statements)

end ByteBricks.Template
