import TypedScript.Script.Tree

/-!
# The text of script expressions

Every binary and unary operation is printed in parentheses.  A string is printed between double
quotes; quotes, backslashes and ASCII control characters are written with a backslash, all other
characters as they are.
-/

namespace TypedScript.Script

/-! ## literals -/

def hexDigit (n : Nat) : Char := Nat.digitChar n

/-- one character of a string literal -/
def literalChar (c : Char) : List Char :=
  if c = '"' then ['\\', '"']
  else if c = '\\' then ['\\', '\\']
  else if c = '\n' then ['\\', 'n']
  else if c = '\t' then ['\\', 't']
  else if c = '\r' then ['\\', 'r']
  else if c = '\x00' then ['\\', '0']
  else if c.toNat < 0x20 || c.toNat = 0x7F then
    ['\\', 'x', hexDigit (c.toNat / 16), hexDigit (c.toNat % 16)]
  else [c]

/-- a string literal as a list of characters -/
def literalChars (cs : List Char) : List Char := '"' :: (cs.flatMap literalChar ++ ['"'])

/-- a string literal -/
def stringLiteral (s : String) : String := String.ofList (literalChars s.toList)

def literalText : Literal → String
  | .integer n => toString n
  | .long digits => digits ++ "n"
  | .string s => stringLiteral s
  | .boolean b => if b then "true" else "false"
  | .null => "null"

/-- the operators that are not written as in the source: `^`, `==` and `!=` -/
def operatorText : BinaryOp → String
  | .power => "**"
  | .equals => "==="
  | .notEquals => "!=="
  | op => op.symbol

/-! ## expressions -/

def commas (texts : List String) : String := ", ".intercalate texts

mutual

def Expr.text : Expr → String
  | .literal v => literalText v
  | .ident name => name
  | .binary op l r => "(" ++ l.text ++ " " ++ operatorText op ++ " " ++ r.text ++ ")"
  | .truncate q => "Math.trunc(" ++ q.text ++ ")"
  | .unary op x => "(" ++ op.symbol ++ x.text ++ ")"
  | .group x => "(" ++ x.text ++ ")"
  | .call f as => f.text ++ "(" ++ commas (Expr.texts as) ++ ")"
  | .construct f as => "new " ++ f.text ++ "(" ++ commas (Expr.texts as) ++ ")"
  | .await x => "(await " ++ x.text ++ ")"
  | .subscript b i => b.text ++ "[" ++ i.text ++ "]"
  | .member o name => o.text ++ "." ++ name
  | .array es => "[" ++ commas (Expr.texts es) ++ "]"
  | .newSet es => "new Set([" ++ commas (Expr.texts es) ++ "])"
  | .object [] => "\x7b\x7d"
  | .object (e :: es) => "\x7b " ++ commas (Expr.entryTexts (e :: es)) ++ " \x7d"

def Expr.texts : List Expr → List String
  | [] => []
  | e :: es => e.text :: Expr.texts es

def Expr.entryTexts : List (Expr × Expr) → List String
  | [] => []
  | (k, v) :: es => (k.text ++ ": " ++ v.text) :: Expr.entryTexts es

end

theorem Expr.texts_eq_map (es : List Expr) : Expr.texts es = es.map Expr.text := by
  induction es with
  | nil => rfl
  | cons e es ih => simp [Expr.texts, ih]

end TypedScript.Script
