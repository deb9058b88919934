import TreeHeaders.Catalogue.Load

set_option autoImplicit false

/-!
# The Lox catalogue

The expressions and statements of the Lox tree-walking interpreter: the catalogue that is used
when no other one is given.
-/

namespace TreeHeaders.Lox

/-- A variant from its name and its fields as pairs of type and name. -/
def variant (name : String) (fields : List (String × String)) : VariantDeclaration :=
  { name, fields := fields.map fun (type, name) => { type, name } }

/-- The expressions, which produce a value. -/
def expressions : FamilyDeclaration where
  basename := "Expr"
  result := some "ExprResult"
  render := true
  variants :=
    [variant "Assign" [("Token", "name"), ("Expr", "val")],
     variant "Binary" [("Expr", "left"), ("Expr", "right"), ("Token", "op")],
     variant "Ternary" [("Expr", "cond"), ("Expr", "left"), ("Expr", "right")],
     variant "Call" [("Expr", "callee"), ("Token", "paren"), ("[Expr]", "args")],
     variant "Group" [("Expr", "expr")],
     variant "BoolLiteral" [("bool", "value")],
     variant "StrLiteral" [("string", "value")],
     variant "NullLiteral" [],
     variant "NumLiteral" [("number", "value")],
     variant "Logical" [("Expr", "left"), ("Expr", "right"), ("Token", "op")],
     variant "Variable" [("Token", "name")],
     variant "Unary" [("Expr", "right"), ("Token", "op")]]

/-- The statements, which are run for their effects. -/
def statements : FamilyDeclaration where
  basename := "Stmt"
  render := true
  variants :=
    [variant "Block" [("[Stmt]", "statements")],
     variant "Expression" [("Expr", "expression")],
     variant "If" [("Expr", "condition"), ("Stmt", "then"), ("Stmt", "else_br")],
     variant "While" [("Expr", "condition"), ("Stmt", "body")],
     variant "Var" [("Token", "name"), ("Expr", "initialiser")]]

/-- The declarations, expressions first. -/
def declarations : List FamilyDeclaration :=
  [expressions, statements]

/-- The catalogue of Lox. -/
def catalogue : Except Violation Catalogue :=
  Catalogue.load declarations

/-- The declarations break no rule. -/
theorem catalogue_isOk : catalogue.isOk = true := by
  decide +kernel

end TreeHeaders.Lox
