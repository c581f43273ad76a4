import TypedScript.Grammar.Statements

/-!
# Writing trees as tokens

The converse of reading: a tree as the list of lexemes that stands for it, a lexeme being a token
without its place.  Parentheses are written only where the binding powers ask for them.

A left associative operator takes an operand of its own power on the left only, `^` takes one on the
right only.  A statement that would start with an opening curly bracket would be read as a block, so
its first expression is put in parentheses.
-/

namespace TypedScript

/-! ## lexemes -/

/-- a token without its place -/
abbrev Lexeme := TokenKind × String

def Token.lexeme (t : Token) : Lexeme := (t.kind, t.value)

def Mark.lexeme (m : Mark) : Lexeme := (.mark m, m.spelling)

def Keyword.lexeme (k : Keyword) : Lexeme := (.keyword k, k.spelling)

def nameLexeme (x : String) : Lexeme := (.identifier, x)

def commas : List (List Lexeme) → List Lexeme
  | [] => []
  | [w] => w
  | w :: ws => w ++ Mark.comma.lexeme :: commas ws

def inParens (w : List Lexeme) : List Lexeme :=
  Mark.openParen.lexeme :: (w ++ [Mark.closeParen.lexeme])

def inBrackets (w : List Lexeme) : List Lexeme :=
  Mark.openBracket.lexeme :: (w ++ [Mark.closeBracket.lexeme])

def inCurly (w : List Lexeme) : List Lexeme :=
  Mark.openCurly.lexeme :: (w ++ [Mark.closeCurly.lexeme])

/-! ## written types -/

mutual

def TypeTerm.lexemes : TypeTerm → List Lexeme
  | .named x => [nameLexeme x]
  | .generic x as =>
    nameLexeme x :: Mark.less.lexeme :: (commas (TypeTerm.phrases as) ++ [Mark.greater.lexeme])
  | .nullable a => a.lexemes ++ [Mark.question.lexeme]

def TypeTerm.phrases : List TypeTerm → List (List Lexeme)
  | [] => []
  | a :: as => a.lexemes :: TypeTerm.phrases as

end

theorem TypeTerm.phrases_eq_map (as : List TypeTerm) :
    TypeTerm.phrases as = as.map TypeTerm.lexemes := by
  induction as with
  | nil => rfl
  | cons a as ih => rw [TypeTerm.phrases, ih, List.map_cons]

/-! ## binding powers -/

/-- how tightly an operator binds its operands -/
def BinaryOp.binding : BinaryOp → Power
  | and | or => .logical
  | less | lessEquals | greater | greaterEquals | equals | notEquals => .relational
  | add | subtract => .additive
  | multiply | divide | modulo => .multiplicative
  | power => .exponent

def BinaryOp.leftLeast (op : BinaryOp) : Nat :=
  if op = .power then op.binding.rank + 1 else op.binding.rank

def BinaryOp.rightLeast (op : BinaryOp) : Nat :=
  if op = .power then op.binding.rank else op.binding.rank + 1

/-- how tightly the outermost form of an expression binds; `await` is a prefix of a call -/
def Expr.binding : Expr → Power
  | .binary op _ _ _ => op.binding
  | .unary _ _ _ => .unary
  | .call _ _ true _ _ => .unary
  | _ => .call

/-- in parentheses, if `e` binds less tightly than its place asks for -/
def enclosed (least : Nat) (e : Expr) (w : List Lexeme) : List Lexeme :=
  if e.binding.rank < least then inParens w else w

/-! ## expressions -/

def Literal.lexeme : Literal → Lexeme
  | .integer n => (.number, toString n)
  | .long digits => (.longNumber, digits)
  | .string s => (.string, s)
  | .boolean true => Keyword.kwTrue.lexeme
  | .boolean false => Keyword.kwFalse.lexeme
  | .null => Keyword.kwNull.lexeme

/-- a tuple of one member keeps a comma, which tells it from an expression in parentheses -/
def Collection.lexemes : Collection → List (List Lexeme) → List Lexeme
  | .array, ws => inBrackets (commas ws)
  | .set, ws => inCurly (commas ws)
  | .tuple, [w] => inParens (w ++ [Mark.comma.lexeme])
  | .tuple, ws => inParens (commas ws)

mutual

def Expr.lexemes : Expr → List Lexeme
  | .literal v _ => [v.lexeme]
  | .name x _ => [nameLexeme x.name]
  | .binary op left right _ =>
    enclosed op.leftLeast left left.lexemes ++
      op.mark.lexeme :: enclosed op.rightLeast right right.lexemes
  | .unary op operand _ => op.mark.lexeme :: enclosed Power.unary.rank operand operand.lexemes
  | .call callee arguments awaited _ _ =>
    (if awaited then [Keyword.kwAwait.lexeme] else []) ++
      (enclosed Power.call.rank callee callee.lexemes ++
        inParens (commas (Expr.phrases arguments)))
  | .subscript base index _ =>
    enclosed Power.call.rank base base.lexemes ++ inBrackets index.lexemes
  | .member object x _ =>
    enclosed Power.call.rank object object.lexemes ++ [Mark.dot.lexeme, nameLexeme x.name]
  | .collection form elements _ => form.lexemes (Expr.phrases elements)
  | .dict entries _ => inCurly (commas (Expr.entryPhrases entries))

def Expr.phrases : List Expr → List (List Lexeme)
  | [] => []
  | e :: es => e.lexemes :: Expr.phrases es

def Expr.entryPhrases : List (Expr × Expr) → List (List Lexeme)
  | [] => []
  | (k, v) :: es => (k.lexemes ++ Mark.colon.lexeme :: v.lexemes) :: Expr.entryPhrases es

end

theorem Expr.phrases_eq_map (es : List Expr) : Expr.phrases es = es.map Expr.lexemes := by
  induction es with
  | nil => rfl
  | cons e es ih => rw [Expr.phrases, ih, List.map_cons]

theorem Expr.entryPhrases_eq_map (es : List (Expr × Expr)) :
    Expr.entryPhrases es = es.map fun e => e.1.lexemes ++ Mark.colon.lexeme :: e.2.lexemes := by
  induction es with
  | nil => rfl
  | cons e es ih => rw [Expr.entryPhrases, ih, List.map_cons]

/-- expressions with commas between -/
def listed (es : List Expr) : List Lexeme := commas (es.map Expr.lexemes)

/-- an expression at the start of a statement, where an opening curly bracket starts a block -/
def Expr.firstLexemes (e : Expr) : List Lexeme :=
  if e.lexemes.head?.map Prod.fst = some (.mark .openCurly) then inParens e.lexemes else e.lexemes

/-! ## declarations -/

def typeLexemes (m : Mark) : Option TypeTerm → List Lexeme
  | none => []
  | some t => m.lexeme :: t.lexemes

def Declarator.lexemes (d : Declarator) : List Lexeme :=
  nameLexeme d.name :: typeLexemes .colon d.written

def Parameter.lexemes (p : Parameter) : List Lexeme :=
  nameLexeme p.name :: Mark.colon.lexeme :: (p.written.lexemes ++
    match p.default with
    | none => []
    | some e => Mark.assignment.lexeme :: e.lexemes)

def parameterLexemes (ps : List Parameter) : List Lexeme :=
  inParens (commas (ps.map Parameter.lexemes))

def FunctionHead.lexemes (h : FunctionHead) : List Lexeme :=
  (if h.async then [Keyword.kwAsync.lexeme] else []) ++
    Keyword.kwFn.lexeme :: nameLexeme h.name ::
      (parameterLexemes h.parameters ++ typeLexemes .arrow h.returns)

/-- a class without parameters is written without parentheses -/
def ClassHead.lexemes (h : ClassHead) : List Lexeme :=
  Keyword.kwClass.lexeme :: nameLexeme h.name ::
    (if h.parameters.isEmpty then [] else parameterLexemes h.parameters)

def Update.lexemes : Update Expr → List Lexeme
  | .increment => [Mark.plusPlus.lexeme]
  | .decrement => [Mark.minusMinus.lexeme]
  | .increase e => Mark.plusEquals.lexeme :: e.lexemes
  | .decrease e => Mark.minusEquals.lexeme :: e.lexemes

def ForHead.lexemes (h : ForHead) : List Lexeme :=
  Keyword.kwLet.lexeme :: (h.index.lexemes ++ Mark.assignment.lexeme :: (h.init.lexemes ++
    Mark.semicolon.lexeme :: (h.test.lexemes ++ Mark.semicolon.lexeme ::
      nameLexeme h.target.name :: h.update.lexemes)))

/-! ## statements -/

def valueLexemes (values : List Expr) : List Lexeme :=
  if values.isEmpty then [] else Mark.assignment.lexeme :: listed values

def targetLexemes : List Expr → List Lexeme
  | [] => []
  | t :: ts => commas (t.firstLexemes :: ts.map Expr.lexemes)

mutual

def Stmt.lexemes : Stmt → List Lexeme
  | .expression e => e.firstLexemes ++ [Mark.semicolon.lexeme]
  | .declare constant ds values =>
    (if constant then Keyword.kwConst.lexeme else Keyword.kwLet.lexeme) ::
      (commas (ds.map Declarator.lexemes) ++ (valueLexemes values ++ [Mark.semicolon.lexeme]))
  | .assign targets values =>
    targetLexemes targets ++ Mark.assignment.lexeme :: (listed values ++ [Mark.semicolon.lexeme])
  | .function h body => h.lexemes ++ inCurly (bodyLexemes body)
  | .classDef h body => h.lexemes ++ inCurly (bodyLexemes body)
  | .conditional branches otherwise =>
    branchLexemes [Keyword.kwIf.lexeme] branches ++ elseLexemes otherwise
  | .whileLoop condition body =>
    Keyword.kwWhile.lexeme :: (condition.lexemes ++ inCurly (bodyLexemes body))
  | .forLoop h body => Keyword.kwFor.lexeme :: (inParens h.lexemes ++ inCurly (bodyLexemes body))
  | .rangeLoop start stop body =>
    Keyword.kwFor.lexeme :: (inParens (start.lexemes ++ Mark.ellipsis.lexeme :: stop.lexemes) ++
      inCurly (bodyLexemes body))
  | .switch scrutinee cases otherwise =>
    Keyword.kwSwitch.lexeme :: (inParens scrutinee.lexemes ++
      inCurly (caseLexemes cases ++ defaultLexemes otherwise))
  | .breakLoop => [Keyword.kwBreak.lexeme, Mark.semicolon.lexeme]
  | .continueLoop => [Keyword.kwContinue.lexeme, Mark.semicolon.lexeme]
  | .returnValue none => [Keyword.kwReturn.lexeme, Mark.semicolon.lexeme]
  | .returnValue (some e) => Keyword.kwReturn.lexeme :: (e.lexemes ++ [Mark.semicolon.lexeme])
  | .print e => Keyword.kwPrint.lexeme :: (e.lexemes ++ [Mark.semicolon.lexeme])
  | .block body => inCurly (bodyLexemes body)

def bodyLexemes : List Stmt → List Lexeme
  | [] => []
  | s :: ss => s.lexemes ++ bodyLexemes ss

/-- the branches of a conditional; `opening` is how the first one starts -/
def branchLexemes (opening : List Lexeme) : List (Guarded Stmt) → List Lexeme
  | [] => []
  | ⟨guard, body⟩ :: gs =>
    opening ++ (guard.lexemes ++ (inCurly (bodyLexemes body) ++
      branchLexemes [Keyword.kwElse.lexeme, Keyword.kwIf.lexeme] gs))

def elseLexemes : Option (List Stmt) → List Lexeme
  | none => []
  | some body => Keyword.kwElse.lexeme :: inCurly (bodyLexemes body)

def caseLexemes : List (Guarded Stmt) → List Lexeme
  | [] => []
  | ⟨guard, body⟩ :: gs =>
    Keyword.kwCase.lexeme :: (guard.lexemes ++ Mark.colon.lexeme :: (bodyLexemes body ++
      caseLexemes gs))

def defaultLexemes : Option (List Stmt) → List Lexeme
  | none => []
  | some body => Keyword.kwDefault.lexeme :: Mark.colon.lexeme :: bodyLexemes body

end

theorem bodyLexemes_eq_flatMap (body : List Stmt) : bodyLexemes body = body.flatMap Stmt.lexemes := by
  induction body with
  | nil => rfl
  | cons s ss ih => rw [bodyLexemes, ih, List.flatMap_cons]

def Program.lexemes (p : Program) : List Lexeme := bodyLexemes p

/-! ## the trees that can be written -/

/-- a word that is not reserved -/
def isName (x : String) : Bool :=
  match x.toList with
  | [] => false
  | c :: cs => Text.isWordStart c && cs.all Text.isWordPart && (Keyword.ofSpelling? x).isNone

/-- a run of digits -/
def isNumeral (x : String) : Bool := !x.toList.isEmpty && x.toList.all Text.isDigit

def Literal.WellFormed : Literal → Prop
  | .integer n => 0 ≤ n ∧ n < Text.signBound
  | .long digits => isNumeral digits
  | _ => True

inductive TypeTerm.WellFormed : TypeTerm → Prop
  | named : isName x → WellFormed (.named x)
  | generic {as : List TypeTerm} : isName x → as ≠ [] → (∀ a ∈ as, WellFormed a) → WellFormed (.generic x as)
  | nullable : WellFormed a → WellFormed (.nullable a)

/-- nothing is annotated, every name is a name, and sets are not empty -/
inductive Expr.WellFormed : Expr → Prop
  | literal {v : Literal} : v.WellFormed → WellFormed (.literal v none)
  | name : isName x → WellFormed (.name (.ofName x) none)
  | binary {op : BinaryOp} {left right : Expr} :
    WellFormed left → WellFormed right → WellFormed (.binary op left right none)
  | unary {op : UnaryOp} {operand : Expr} :
    WellFormed operand → WellFormed (.unary op operand none)
  | call : WellFormed callee → (∀ a ∈ arguments, WellFormed a) →
    WellFormed (.call callee arguments awaited false none)
  | subscript : WellFormed base → WellFormed index → WellFormed (.subscript base index none)
  | member : WellFormed object → isName x → WellFormed (.member object (.ofName x) none)
  | collection : (form = .set → elements ≠ []) → (∀ e ∈ elements, WellFormed e) →
    WellFormed (.collection form elements none)
  | dict : (∀ e ∈ entries, WellFormed e.1) → (∀ e ∈ entries, WellFormed e.2) → WellFormed (.dict entries none)

structure Declarator.WellFormed (d : Declarator) : Prop where
  name : isName d.name
  written : ∀ t ∈ d.written, t.WellFormed
  id : d.id = none
  type : d.type = none

structure Parameter.WellFormed (p : Parameter) : Prop where
  name : isName p.name
  written : p.written.WellFormed
  default : ∀ e ∈ p.default, e.WellFormed
  id : p.id = none
  type : p.type = none

structure FunctionHead.WellFormed (h : FunctionHead) : Prop where
  name : isName h.name
  id : h.id = none
  parameters : ∀ p ∈ h.parameters, p.WellFormed
  returns : ∀ t ∈ h.returns, t.WellFormed

structure ClassHead.WellFormed (h : ClassHead) : Prop where
  name : isName h.name
  id : h.id = none
  parameters : ∀ p ∈ h.parameters, p.WellFormed

def Update.WellFormed : Update Expr → Prop
  | .increment => True
  | .decrement => True
  | .increase e => e.WellFormed
  | .decrease e => e.WellFormed

structure ForHead.WellFormed (h : ForHead) : Prop where
  index : h.index.WellFormed
  init : h.init.WellFormed
  test : h.test.WellFormed
  name : isName h.target.name
  target : h.target.resolution = none
  update : h.update.WellFormed

/-- the parts are well formed, and a statement that lists names, targets, values or branches has at
least one of them -/
inductive Stmt.WellFormed : Stmt → Prop
  | expression {e : Expr} : e.WellFormed → WellFormed (.expression e)
  | declare {constant : Bool} {ds : List Declarator} {values : List Expr} :
    ds ≠ [] → (∀ d ∈ ds, d.WellFormed) → (∀ e ∈ values, e.WellFormed) →
      WellFormed (.declare constant ds values)
  | assign : targets ≠ [] → values ≠ [] → (∀ e ∈ targets, e.WellFormed) → (∀ e ∈ values, e.WellFormed) →
    WellFormed (.assign targets values)
  | function {h : FunctionHead} {body : List Stmt} :
    h.WellFormed → (∀ s ∈ body, WellFormed s) → WellFormed (.function h body)
  | classDef {h : ClassHead} {body : List Stmt} :
    h.WellFormed → (∀ s ∈ body, WellFormed s) → WellFormed (.classDef h body)
  | conditional {branches : List (Guarded Stmt)} {otherwise : Option (List Stmt)} :
    branches ≠ [] → (∀ b ∈ branches, b.guard.WellFormed) →
      (∀ b ∈ branches, ∀ s ∈ b.body, WellFormed s) →
      (∀ body ∈ otherwise, ∀ s ∈ body, WellFormed s) → WellFormed (.conditional branches otherwise)
  | whileLoop {condition : Expr} {body : List Stmt} :
    condition.WellFormed → (∀ s ∈ body, WellFormed s) → WellFormed (.whileLoop condition body)
  | forLoop {h : ForHead} {body : List Stmt} :
    h.WellFormed → (∀ s ∈ body, WellFormed s) → WellFormed (.forLoop h body)
  | rangeLoop {start stop : Expr} {body : List Stmt} :
    start.WellFormed → stop.WellFormed → (∀ s ∈ body, WellFormed s) →
      WellFormed (.rangeLoop start stop body)
  | switch {scrutinee : Expr} {cases : List (Guarded Stmt)} {otherwise : Option (List Stmt)} :
    scrutinee.WellFormed → (∀ b ∈ cases, b.guard.WellFormed) →
      (∀ b ∈ cases, ∀ s ∈ b.body, WellFormed s) →
      (∀ body ∈ otherwise, ∀ s ∈ body, WellFormed s) →
      WellFormed (.switch scrutinee cases otherwise)
  | breakLoop : WellFormed .breakLoop
  | continueLoop : WellFormed .continueLoop
  | returnValue : (∀ e ∈ value, e.WellFormed) → WellFormed (.returnValue value)
  | print {e : Expr} : e.WellFormed → WellFormed (.print e)
  | block : (∀ s ∈ body, WellFormed s) → WellFormed (.block body)

def Program.WellFormed (p : Program) : Prop := ∀ s ∈ p, s.WellFormed

end TypedScript
