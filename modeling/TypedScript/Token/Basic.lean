import TypedScript.Source

/-!
# Tokens

A token is a keyword, a punctuation mark, a literal or an identifier, with the text it stands for
and its place.  Every token list ends with a token of kind `eof`.

Keywords and marks are enumerations of their own: their spellings are what the scanner looks for,
and their names are what messages and listings call them.
-/

namespace TypedScript

/-! ## keywords -/

inductive Keyword where
  | kwLet | kwConst | kwFn | kwAsync | kwAwait | kwClass | kwReturn | kwIf | kwElse | kwWhile
  | kwFor | kwSwitch | kwCase | kwDefault | kwBreak | kwContinue | kwPrint | kwTrue | kwFalse
  | kwNull
  deriving DecidableEq, Repr, Inhabited

namespace Keyword

def all : List Keyword :=
  [kwLet, kwConst, kwFn, kwAsync, kwAwait, kwClass, kwReturn, kwIf, kwElse, kwWhile, kwFor,
   kwSwitch, kwCase, kwDefault, kwBreak, kwContinue, kwPrint, kwTrue, kwFalse, kwNull]

def spelling : Keyword → String
  | kwLet => "let"
  | kwConst => "const"
  | kwFn => "fn"
  | kwAsync => "async"
  | kwAwait => "await"
  | kwClass => "class"
  | kwReturn => "return"
  | kwIf => "if"
  | kwElse => "else"
  | kwWhile => "while"
  | kwFor => "for"
  | kwSwitch => "switch"
  | kwCase => "case"
  | kwDefault => "default"
  | kwBreak => "break"
  | kwContinue => "continue"
  | kwPrint => "print"
  | kwTrue => "true"
  | kwFalse => "false"
  | kwNull => "null"

def name : Keyword → String
  | kwLet => "Let"
  | kwConst => "Const"
  | kwFn => "Fn"
  | kwAsync => "Async"
  | kwAwait => "Await"
  | kwClass => "Class"
  | kwReturn => "Return"
  | kwIf => "If"
  | kwElse => "Else"
  | kwWhile => "While"
  | kwFor => "For"
  | kwSwitch => "Switch"
  | kwCase => "Case"
  | kwDefault => "Default"
  | kwBreak => "Break"
  | kwContinue => "Continue"
  | kwPrint => "Print"
  | kwTrue => "True"
  | kwFalse => "False"
  | kwNull => "Null"

theorem mem_all (k : Keyword) : k ∈ all := by cases k <;> decide

/-- the keyword spelled `word`, if `word` is reserved -/
def ofSpelling? (word : String) : Option Keyword := all.find? fun k => k.spelling == word

end Keyword

/-! ## marks -/

inductive Mark where
  | openBracket | closeBracket | openCurly | closeCurly | openParen | closeParen
  | assignment | equals | not | notEquals | less | lessEquals | greater | greaterEquals
  | or | and | dot | ellipsis | semicolon | colon | question | comma | arrow
  | plusPlus | minusMinus | plusEquals | minusEquals
  | plus | dash | slash | star | percent | caret
  deriving DecidableEq, Repr, Inhabited

namespace Mark

/-- every mark; a mark stands before the shorter marks that begin like it -/
def all : List Mark :=
  [openBracket, closeBracket, openCurly, closeCurly, openParen, closeParen, equals, notEquals, not,
   assignment, lessEquals, less, greaterEquals, greater, or, and, ellipsis, dot, semicolon, colon,
   question, comma, plusPlus, arrow, minusMinus, plusEquals, minusEquals, plus, dash, slash, star,
   percent, caret]

def spelling : Mark → String
  | openBracket => "["
  | closeBracket => "]"
  | openCurly => "\x7b"
  | closeCurly => "\x7d"
  | openParen => "("
  | closeParen => ")"
  | assignment => "="
  | equals => "=="
  | not => "!"
  | notEquals => "!="
  | less => "<"
  | lessEquals => "<="
  | greater => ">"
  | greaterEquals => ">="
  | or => "||"
  | and => "&&"
  | dot => "."
  | ellipsis => "..."
  | semicolon => ";"
  | colon => ":"
  | question => "?"
  | comma => ","
  | arrow => "->"
  | plusPlus => "++"
  | minusMinus => "--"
  | plusEquals => "+="
  | minusEquals => "-="
  | plus => "+"
  | dash => "-"
  | slash => "/"
  | star => "*"
  | percent => "%"
  | caret => "^"

def name : Mark → String
  | openBracket => "OpenBracket"
  | closeBracket => "CloseBracket"
  | openCurly => "OpenCurly"
  | closeCurly => "CloseCurly"
  | openParen => "OpenParen"
  | closeParen => "CloseParen"
  | assignment => "Assignment"
  | equals => "Equals"
  | not => "Not"
  | notEquals => "NotEquals"
  | less => "Less"
  | lessEquals => "LessEquals"
  | greater => "Greater"
  | greaterEquals => "GreaterEquals"
  | or => "Or"
  | and => "And"
  | dot => "Dot"
  | ellipsis => "Ellipsis"
  | semicolon => "Semicolon"
  | colon => "Colon"
  | question => "Question"
  | comma => "Comma"
  | arrow => "Arrow"
  | plusPlus => "PlusPlus"
  | minusMinus => "MinusMinus"
  | plusEquals => "PlusEquals"
  | minusEquals => "MinusEquals"
  | plus => "Plus"
  | dash => "Dash"
  | slash => "Slash"
  | star => "Star"
  | percent => "Percent"
  | caret => "Caret"

theorem mem_all (m : Mark) : m ∈ all := by cases m <;> decide

end Mark

/-! ## token kinds -/

inductive TokenKind where
  | eof
  | number
  | longNumber
  | string
  | identifier
  | mark (m : Mark)
  | keyword (k : Keyword)
  deriving DecidableEq, Repr, Inhabited

namespace TokenKind

def all : List TokenKind :=
  [eof, number, longNumber, string, identifier] ++ Mark.all.map mark ++ Keyword.all.map keyword

def name : TokenKind → String
  | eof => "EOF"
  | number => "Number"
  | longNumber => "LongNumber"
  | string => "String"
  | identifier => "Identifier"
  | mark m => m.name
  | keyword k => k.name

end TokenKind

/-! ## tokens -/

structure Token where
  kind : TokenKind
  value : String
  span : Span
  deriving DecidableEq, Repr, Inhabited

namespace Token

/-- the end marker, placed at the empty span `s` -/
def endOf (s : Span) : Token := ⟨.eof, "EOF", s⟩

/-- a listing of one token -/
def listing (t : Token) : String :=
  "Token \x7b\nkind: " ++ t.kind.name ++ ",\nvalue: " ++ t.value ++ "\x7d"

end Token

end TypedScript
