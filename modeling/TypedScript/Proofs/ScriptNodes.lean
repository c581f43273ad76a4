import Mathlib.Data.List.Forall2
import TypedScript.Proofs.ScriptReading
import TypedScript.Proofs.Writing

/-!
# The nodes of a script

The text of a script reads as nodes that follow its tree: every bracket that is printed is closed, and
every name is read as one word.
-/

namespace TypedScript.Script

open List

/-! ## legible trees -/

/-- a word that starts with a digit is a number -/
def isNumber (w : String) : Bool := w.toList.head?.any Text.isDigit

/-- a word that announces no name, does not wait and is no number -/
structure IsName (x : String) : Prop where
  word : IsWord x
  notKeyword : x ∉ keywords
  notAwait : x ≠ "await"
  notNumber : isNumber x = false

/-- every name is a word -/
class ByWords (N : String → Prop) : Prop where
  word {x : String} : N x → IsWord x

instance : ByWords IsWord := ⟨id⟩

instance : ByWords IsName := ⟨IsName.word⟩

def Literal.Legible : Literal → Prop
  | .long digits => isNumeral digits = true
  | _ => True

section
variable (N : String → Prop)

mutual

def Expr.LegibleBy : Expr → Prop
  | .literal v => Literal.Legible v
  | .ident x => N x
  | .binary _ l r => l.LegibleBy ∧ r.LegibleBy
  | .truncate q => q.LegibleBy
  | .unary _ x => x.LegibleBy
  | .group x => x.LegibleBy
  | .call f as => f.LegibleBy ∧ Expr.AllLegibleBy as
  | .construct f as => f.LegibleBy ∧ Expr.AllLegibleBy as
  | .await x => x.LegibleBy
  | .subscript b i => b.LegibleBy ∧ i.LegibleBy
  | .member o x => o.LegibleBy ∧ N x
  | .array es => Expr.AllLegibleBy es
  | .newSet es => Expr.AllLegibleBy es
  | .object entries => Expr.EntriesLegibleBy entries

def Expr.AllLegibleBy : List Expr → Prop
  | [] => True
  | e :: es => e.LegibleBy ∧ Expr.AllLegibleBy es

def Expr.EntriesLegibleBy : List (Expr × Expr) → Prop
  | [] => True
  | (k, v) :: es => k.LegibleBy ∧ v.LegibleBy ∧ Expr.EntriesLegibleBy es

end

structure Param.LegibleBy (p : Param) : Prop where
  name : N p.name
  default : ∀ e ∈ p.default, e.LegibleBy N

def updateLegibleBy : Update Expr → Prop
  | .increment => True
  | .decrement => True
  | .increase e => e.LegibleBy N
  | .decrease e => e.LegibleBy N

mutual

def Stmt.LegibleBy : Stmt → Prop
  | .expression e => e.LegibleBy N
  | .declare _ names values => (∀ x ∈ names, N x) ∧ Expr.AllLegibleBy N values
  | .assign targets values => Expr.AllLegibleBy N targets ∧ Expr.AllLegibleBy N values
  | .function _ name params body => N name ∧ (∀ p ∈ params, p.LegibleBy N) ∧ BodyLegibleBy body
  | .constructor name params fields =>
    N name ∧ (∀ p ∈ params, p.LegibleBy N) ∧ ∀ f ∈ fields, N f
  | .attach constructor method => N constructor ∧ N method
  | .conditional branches otherwise =>
    branches ≠ [] ∧ BranchesLegibleBy branches ∧ OtherwiseLegibleBy otherwise
  | .whileLoop condition body => condition.LegibleBy N ∧ BodyLegibleBy body
  | .forLoop index init test target update body => N index ∧ init.LegibleBy N ∧ test.LegibleBy N ∧
      N target ∧ updateLegibleBy N update ∧ BodyLegibleBy body
  | .switch cases otherwise => BranchesLegibleBy cases ∧ OtherwiseLegibleBy otherwise
  | .breakLoop => True
  | .continueLoop => True
  | .returnValue value => ∀ e ∈ value, e.LegibleBy N
  | .print e => e.LegibleBy N
  | .block body => BodyLegibleBy body

def BodyLegibleBy : List Stmt → Prop
  | [] => True
  | s :: ss => s.LegibleBy ∧ BodyLegibleBy ss

def BranchesLegibleBy : List (Guarded Stmt) → Prop
  | [] => True
  | ⟨guard, body⟩ :: gs => guard.LegibleBy N ∧ BodyLegibleBy body ∧ BranchesLegibleBy gs

def OtherwiseLegibleBy : Option (List Stmt) → Prop
  | none => True
  | some body => BodyLegibleBy body

end

end

abbrev Expr.Legible : Expr → Prop := Expr.LegibleBy IsName

abbrev Expr.AllLegible : List Expr → Prop := Expr.AllLegibleBy IsName

abbrev Expr.EntriesLegible : List (Expr × Expr) → Prop := Expr.EntriesLegibleBy IsName

abbrev Param.Legible : Param → Prop := Param.LegibleBy IsName

abbrev updateLegible : Update Expr → Prop := updateLegibleBy IsName

abbrev Stmt.Legible : Stmt → Prop := Stmt.LegibleBy IsName

abbrev BodyLegible : List Stmt → Prop := BodyLegibleBy IsName

abbrev BranchesLegible : List (Guarded Stmt) → Prop := BranchesLegibleBy IsName

abbrev OtherwiseLegible : Option (List Stmt) → Prop := OtherwiseLegibleBy IsName

/-! ## nodes of expressions -/

def markNodes (text : String) : List Node := text.toList.map .mark

/-- nodes with commas between them -/
def commaNodes : List (List Node) → List Node
  | [] => []
  | [ns] => ns
  | ns :: ms :: rest => ns ++ .mark ',' :: commaNodes (ms :: rest)

def literalNodes : Literal → List Node
  | .integer (.ofNat n) => [.word (toString n)]
  | .integer (.negSucc n) => [.mark '-', .word (toString (n + 1))]
  | .long digits => [.word (digits ++ "n")]
  | .string _ => [.quoted]
  | .boolean b => [.word (if b then "true" else "false")]
  | .null => [.word "null"]

mutual

def Expr.nodes : Expr → List Node
  | .literal v => literalNodes v
  | .ident x => [.word x]
  | .binary op l r => [.group .paren (l.nodes ++ (markNodes (operatorText op) ++ r.nodes))]
  | .truncate q => [.word "Math", .mark '.', .word "trunc", .group .paren q.nodes]
  | .unary op x => [.group .paren (markNodes op.symbol ++ x.nodes)]
  | .group x => [.group .paren x.nodes]
  | .call f as => f.nodes ++ [.group .paren (commaNodes (Expr.allNodes as))]
  | .construct f as => .word "new" :: (f.nodes ++ [.group .paren (commaNodes (Expr.allNodes as))])
  | .await x => [.group .paren (.word "await" :: x.nodes)]
  | .subscript b i => b.nodes ++ [.group .square i.nodes]
  | .member o x => o.nodes ++ [.mark '.', .word x]
  | .array es => [.group .square (commaNodes (Expr.allNodes es))]
  | .newSet es =>
    [.word "new", .word "Set", .group .paren [.group .square (commaNodes (Expr.allNodes es))]]
  | .object entries => [.group .curly (commaNodes (Expr.entryNodes entries))]

def Expr.allNodes : List Expr → List (List Node)
  | [] => []
  | e :: es => e.nodes :: Expr.allNodes es

def Expr.entryNodes : List (Expr × Expr) → List (List Node)
  | [] => []
  | (k, v) :: es => (k.nodes ++ .mark ':' :: v.nodes) :: Expr.entryNodes es

end

theorem Expr.allNodes_eq_map (es : List Expr) : Expr.allNodes es = es.map Expr.nodes := by
  induction es with
  | nil => rfl
  | cons e es ih => rw [Expr.allNodes, ih, map_cons]

/-! ## texts and nodes -/

variable {as bs : List Atom} {t : String} {ts : List String}

def ReadsNodes (t : String) (ns : List Node) : Prop := Reads t (flattenAll ns)

theorem Reads.of_eq (h : Reads t as) (heq : bs = as) : Reads t bs :=
  heq ▸ h

theorem IsWord.readsNodes (h : IsWord x) : ReadsNodes x [.word x] := h.reads

theorem flattenAll_map_mark (cs : List Char) : flattenAll (cs.map .mark) = cs.map .mark := by
  induction cs with
  | nil => rfl
  | cons c cs ih => rw [map_cons, flattenAll, ih]; rfl

theorem closes_operatorText (op : BinaryOp) :
    Closes (operatorText op) (flattenAll (markNodes (operatorText op))) := by
  rw [markNodes, flattenAll_map_mark]
  cases op <;> decide

theorem closes_symbol (op : UnaryOp) : Closes op.symbol (flattenAll (markNodes op.symbol)) := by
  rw [markNodes, flattenAll_map_mark]
  cases op <;> decide

theorem isWord_long (h : isNumeral digits = true) : IsWord (digits ++ "n") := by
  obtain ⟨_, hdigits⟩ := Bool.and_eq_true_iff.mp h
  refine ⟨by simp, fun c hc => ?_⟩
  rw [String.toList_append, mem_append] at hc
  rcases hc with hc | hc
  · exact isWordPart_of_isDigit (all_eq_true.mp hdigits c hc)
  · rw [mem_singleton.mp hc]
    decide

theorem readsNodes_literal (h : Literal.Legible v) : ReadsNodes (literalText v) (literalNodes v) := by
  cases v with
  | integer n =>
    cases n with
    | ofNat m => exact (isWord_toString m).reads
    | negSucc m =>
      have hsign : Closes "-" [.mark '-'] := by decide
      exact hsign.reads_append (isWord_toString (m + 1)).reads
  | long digits => exact (isWord_long h).reads
  | string s => exact (closes_stringLiteral s).reads
  | boolean b => cases b <;> exact (isWord_of_all (by decide) (by decide)).reads
  | null => exact (isWord_of_all (by decide) (by decide)).reads

theorem readsNodes_commas (h : List.Forall₂ ReadsNodes ts nss) : ReadsNodes (commas ts) (commaNodes nss) := by
  unfold commas
  induction h with
  | nil => exact closes_empty.reads
  | @cons t ns ts nss ht hts ih =>
    cases hts with
    | nil =>
      rw [String.intercalate_singleton]
      exact ht
    | cons hu hus =>
      have hcomma : Closes ", " [.mark ','] := by decide
      rw [String.intercalate_cons_cons]
      refine ((ht.closes_append hcomma (by decide)).reads_append ih).of_eq ?_
      simp [commaNodes, flattenAll, Node.flatten]

/-! ## brackets -/

variable {ns : List Node}

theorem closes_openParen : Closes "(" [.opening .paren] := by decide

theorem closes_closeParen : Closes ")" [.closing .paren] := by decide

theorem closes_openSquare : Closes "[" [.opening .square] := by decide

theorem closes_closeSquare : Closes "]" [.closing .square] := by decide

theorem Closes.enclose (hfirst : Closes first as) (h : ReadsNodes t ns) (hlast : Closes last bs)
    (hapart : startsApart last = true) : Closes (first ++ t ++ last) (as ++ flattenAll ns ++ bs) :=
  (hfirst.reads_append h).closes_append hlast hapart

variable {N : String → Prop} [ByWords N]

set_option linter.unusedSectionVars false

mutual

theorem Expr.reads (e : Expr) (h : e.LegibleBy N) : ReadsNodes e.text e.nodes := by
  match e, h with
  | .literal v, h => exact readsNodes_literal h
  | .ident x, h => exact (ByWords.word h).reads
  | .binary op l r, h =>
    have hblank : Closes " " [] := by decide
    have hleft := (closes_openParen.enclose (l.reads h.1) hblank (by decide)).append
      (closes_operatorText op)
    have hall := (hleft.append hblank).enclose (r.reads h.2) closes_closeParen (by decide)
    rw [Expr.text]
    refine hall.reads.of_eq ?_
    simp [Expr.nodes, flattenAll, Node.flatten]
  | .truncate q, h =>
    have hfirst : Closes "Math.trunc(" [.word "Math", .mark '.', .word "trunc", .opening .paren] := by
      decide
    have hall := hfirst.enclose (q.reads h) closes_closeParen (by decide)
    rw [Expr.text]
    refine hall.reads.of_eq ?_
    simp [Expr.nodes, flattenAll, Node.flatten]
  | .unary op x, h =>
    have hall := (closes_openParen.append (closes_symbol op)).enclose (x.reads h) closes_closeParen
      (by decide)
    rw [Expr.text]
    refine hall.reads.of_eq ?_
    simp [Expr.nodes, flattenAll, Node.flatten]
  | .group x, h =>
    have hall := closes_openParen.enclose (x.reads h) closes_closeParen (by decide)
    rw [Expr.text]
    refine hall.reads.of_eq ?_
    simp [Expr.nodes, flattenAll, Node.flatten]
  | .call f as, h =>
    have hall := ((f.reads h.1).closes_append closes_openParen (by decide)).enclose
      (readsNodes_commas (Expr.reads_all as h.2)) closes_closeParen (by decide)
    rw [Expr.text]
    refine hall.reads.of_eq ?_
    simp [Expr.nodes, flattenAll, Node.flatten]
  | .construct f as, h =>
    have hnew : Closes "new " [.word "new"] := by decide
    have hcallee := hnew.enclose (f.reads h.1) closes_openParen (by decide)
    have hall := hcallee.enclose (readsNodes_commas (Expr.reads_all as h.2)) closes_closeParen
      (by decide)
    rw [Expr.text]
    refine hall.reads.of_eq ?_
    simp [Expr.nodes, flattenAll, Node.flatten]
  | .await x, h =>
    have hawait : Closes "(await " [.opening .paren, .word "await"] := by decide
    have hall := hawait.enclose (x.reads h) closes_closeParen (by decide)
    rw [Expr.text]
    refine hall.reads.of_eq ?_
    simp [Expr.nodes, flattenAll, Node.flatten]
  | .subscript b i, h =>
    have hall := ((b.reads h.1).closes_append closes_openSquare (by decide)).enclose (i.reads h.2)
      closes_closeSquare (by decide)
    rw [Expr.text]
    refine hall.reads.of_eq ?_
    simp [Expr.nodes, flattenAll, Node.flatten]
  | .member o x, h =>
    have hdot : Closes "." [.mark '.'] := by decide
    have hall := ((o.reads h.1).closes_append hdot (by decide)).reads_append (ByWords.word h.2).reads
    rw [Expr.text]
    refine hall.of_eq ?_
    simp [Expr.nodes, flattenAll, Node.flatten]
  | .array es, h =>
    have hall := closes_openSquare.enclose (readsNodes_commas (Expr.reads_all es h)) closes_closeSquare
      (by decide)
    rw [Expr.text]
    refine hall.reads.of_eq ?_
    simp [Expr.nodes, flattenAll, Node.flatten]
  | .newSet es, h =>
    have hset : Closes "new Set([" [.word "new", .word "Set", .opening .paren, .opening .square] := by
      decide
    have hend : Closes "])" [.closing .square, .closing .paren] := by decide
    have hall := hset.enclose (readsNodes_commas (Expr.reads_all es h)) hend (by decide)
    rw [Expr.text]
    refine hall.reads.of_eq ?_
    simp [Expr.nodes, flattenAll, Node.flatten]
  | .object [], _ =>
    have hempty : Closes "\x7b\x7d" [.opening .curly, .closing .curly] := by decide
    exact hempty.reads
  | .object (e :: es), h =>
    have hfirst : Closes "\x7b " [.opening .curly] := by decide
    have hlast : Closes " \x7d" [.closing .curly] := by decide
    have hall := hfirst.enclose (readsNodes_commas (Expr.reads_entries (e :: es) h)) hlast (by decide)
    rw [Expr.text]
    refine hall.reads.of_eq ?_
    simp [Expr.nodes, flattenAll, Node.flatten]

theorem Expr.reads_all (es : List Expr) (h : Expr.AllLegibleBy N es) :
    List.Forall₂ ReadsNodes (Expr.texts es) (Expr.allNodes es) := by
  match es, h with
  | [], _ => exact .nil
  | e :: es, h => exact .cons (e.reads h.1) (Expr.reads_all es h.2)

theorem Expr.reads_entries (es : List (Expr × Expr)) (h : Expr.EntriesLegibleBy N es) :
    List.Forall₂ ReadsNodes (Expr.entryTexts es) (Expr.entryNodes es) := by
  match es, h with
  | [], _ => exact .nil
  | (k, v) :: es, h =>
    have hcolon : Closes ": " [.mark ':'] := by decide
    have hentry := ((k.reads h.1).closes_append hcolon (by decide)).reads_append (v.reads h.2.1)
    refine .cons (hentry.of_eq ?_) (Expr.reads_entries es h.2.2)
    simp [flattenAll, Node.flatten]

end

/-! ## nodes of statements -/

def destructureNodes (targets values : List (List Node)) : List Node :=
  match targets, values with
  | [t], [v] => t ++ .mark '=' :: v
  | ts, vs => [.group .square (commaNodes ts), .mark '=', .group .square (commaNodes vs)]

def nameNodes (names : List String) : List (List Node) := names.map fun x => [.word x]

def declarationNodes (constant : Bool) (names : List String) (values : List Expr) : List Node :=
  .word (if constant then "const" else "let") ::
    ((if values.isEmpty then commaNodes (nameNodes names)
      else destructureNodes (nameNodes names) (Expr.allNodes values)) ++ [.mark ';'])

def Param.nodes (p : Param) : List Node :=
  match p.default with
  | some e => .word p.name :: .mark '=' :: e.nodes
  | none => [.word p.name]

def functionNodes (async : Bool) (name : String) (params : List Param) (body : List Node) :
    List Node :=
  (if async then [.word "async", .word "function"] else [.word "function"]) ++
    [.word name, .group .paren (commaNodes (params.map Param.nodes)), .group .curly body]

/-- a variable that is copied onto an object -/
def fieldNodes (f : String) : List Node :=
  [.word "this", .mark '.', .word f, .mark '=', .word f, .mark ';']

def updateNodes (target : String) : Update Expr → List Node
  | .increment => [.word target, .mark '+', .mark '+']
  | .decrement => [.word target, .mark '-', .mark '-']
  | .increase e => .word target :: .mark '+' :: .mark '=' :: e.nodes
  | .decrease e => .word target :: .mark '-' :: .mark '=' :: e.nodes

/-- what stands between the parentheses of a loop with an index -/
def headerNodes (index : String) (init test : Expr) (target : String) (update : Update Expr) :
    List Node :=
  .word "let" :: .word index :: .mark '=' :: (init.nodes ++ .mark ';' :: (test.nodes ++
    .mark ';' :: updateNodes target update))

mutual

def Stmt.nodes : Stmt → List Node
  | .expression e => e.nodes ++ [.mark ';']
  | .declare constant names values => declarationNodes constant names values
  | .assign targets values =>
    destructureNodes (Expr.allNodes targets) (Expr.allNodes values) ++ [.mark ';']
  | .function async name params body => functionNodes async name params (bodyNodes body)
  | .constructor name params fields => functionNodes false name params (fields.flatMap fieldNodes)
  | .attach constructor method =>
    [.word constructor, .mark '.', .word "prototype", .mark '.', .word method, .mark '=', .word method,
      .mark ';']
  | .conditional branches otherwise => branchNodes [.word "if"] branches ++ otherwiseNodes otherwise
  | .whileLoop condition body =>
    [.word "while", .group .paren condition.nodes, .group .curly (bodyNodes body)]
  | .forLoop index init test target update body =>
    [.word "for", .group .paren (headerNodes index init test target update),
      .group .curly (bodyNodes body)]
  | .switch cases otherwise =>
    [.word "switch", .group .paren [.word "true"],
      .group .curly (caseNodes cases ++ defaultNodes otherwise)]
  | .breakLoop => [.word "break", .mark ';']
  | .continueLoop => [.word "continue", .mark ';']
  | .returnValue none => [.word "return", .mark ';']
  | .returnValue (some e) => .word "return" :: (e.nodes ++ [.mark ';'])
  | .print e => [.word "console", .mark '.', .word "log", .group .paren e.nodes, .mark ';']
  | .block body => [.group .curly (bodyNodes body)]

def bodyNodes : List Stmt → List Node
  | [] => []
  | s :: ss => s.nodes ++ bodyNodes ss

/-- the branches of a conditional; `opening` is how the first one starts -/
def branchNodes (opening : List Node) : List (Guarded Stmt) → List Node
  | [] => []
  | ⟨guard, body⟩ :: gs => opening ++ .group .paren guard.nodes :: .group .curly (bodyNodes body) ::
      branchNodes [.word "else", .word "if"] gs

def otherwiseNodes : Option (List Stmt) → List Node
  | none => []
  | some body => [.word "else", .group .curly (bodyNodes body)]

def caseNodes : List (Guarded Stmt) → List Node
  | [] => []
  | ⟨guard, body⟩ :: gs => .word "case" :: (guard.nodes ++ .mark ':' :: (bodyNodes body ++
      .word "break" :: .mark ';' :: caseNodes gs))

def defaultNodes : Option (List Stmt) → List Node
  | none => []
  | some body => .word "default" :: .mark ':' :: bodyNodes body

end

/-! ## parts of lines -/

variable {names : List String} {update : Update Expr} {target : String}

theorem closes_semicolon : Closes ";" [.mark ';'] := by decide

theorem closes_assignment : Closes " = " [.mark '='] := by decide

theorem closes_braced : Closes ") \x7b" [.closing .paren, .opening .curly] := by decide

theorem reads_all_map (h : Expr.AllLegibleBy N es) :
    List.Forall₂ ReadsNodes (es.map Expr.text) (Expr.allNodes es) :=
  Expr.texts_eq_map es ▸ Expr.reads_all es h

theorem reads_names (h : ∀ x ∈ names, N x) : List.Forall₂ ReadsNodes names (nameNodes names) := by
  induction names with
  | nil => exact .nil
  | cons x names ih =>
    exact .cons (ByWords.word (h x mem_cons_self)).reads
      (ih fun y hy => h y (mem_cons_of_mem x hy))

theorem readsNodes_destructure (ht : List.Forall₂ ReadsNodes ts tns) (hv : List.Forall₂ ReadsNodes vs vns) :
    ReadsNodes (destructure ts vs) (destructureNodes tns vns) := by
  have hlists : ReadsNodes ("[" ++ commas ts ++ "] = [" ++ commas vs ++ "]")
      [.group .square (commaNodes tns), .mark '=', .group .square (commaNodes vns)] := by
    have hmiddle : Closes "] = [" [.closing .square, .mark '=', .opening .square] := by decide
    have hall := (closes_openSquare.enclose (readsNodes_commas ht) hmiddle (by decide)).enclose
      (readsNodes_commas hv) closes_closeSquare (by decide)
    refine hall.reads.of_eq ?_
    simp [flattenAll, Node.flatten]
  -- one target and one value stand without brackets
  cases ht with
  | nil => exact hlists
  | cons h hts =>
    cases hts with
    | cons _ _ => exact hlists
    | nil =>
      cases hv with
      | nil => exact hlists
      | cons h' hvs =>
        cases hvs with
        | cons _ _ => exact hlists
        | nil =>
          refine ((h.closes_append closes_assignment (by decide)).reads_append h').of_eq ?_
          simp [destructureNodes, flattenAll, Node.flatten]

theorem readsNodes_declaration (hnames : ∀ x ∈ names, N x) (hvalues : Expr.AllLegibleBy N values) :
    ReadsNodes (declarationText constant names (values.map Expr.text))
      (declarationNodes constant names values) := by
  have hkeyword : Closes (if constant then "const " else "let ")
      [.word (if constant then "const" else "let")] := by cases constant <;> decide
  have hlist : ReadsNodes (if (values.map Expr.text).isEmpty then commas names
        else destructure names (values.map Expr.text))
      (if values.isEmpty then commaNodes (nameNodes names)
        else destructureNodes (nameNodes names) (Expr.allNodes values)) := by
    rw [isEmpty_map]
    split
    · exact readsNodes_commas (reads_names hnames)
    · exact readsNodes_destructure (reads_names hnames) (reads_all_map hvalues)
  refine (hkeyword.enclose hlist closes_semicolon (by decide)).reads.of_eq ?_
  simp [declarationNodes, flattenAll, Node.flatten]

theorem Param.reads {p : Param} (h : p.LegibleBy N) : ReadsNodes p.text p.nodes := by
  obtain ⟨name, default⟩ := p
  cases default with
  | none => exact (ByWords.word h.name).reads
  | some e =>
    refine (((ByWords.word h.name).reads.closes_append closes_assignment (by decide)).reads_append
      (e.reads (h.default e rfl))).of_eq ?_
    simp [Param.nodes, flattenAll, Node.flatten]

theorem reads_params {ps : List Param} (h : ∀ p ∈ ps, p.LegibleBy N) :
    List.Forall₂ ReadsNodes (ps.map Param.text) (ps.map Param.nodes) := by
  induction ps with
  | nil => exact .nil
  | cons p ps ih =>
    exact .cons (Param.reads (h p mem_cons_self))
      (ih fun p' hp' => h p' (mem_cons_of_mem p hp'))

theorem readsNodes_update (htarget : N target)
    (h : updateLegibleBy N update) : ReadsNodes (updateText target update) (updateNodes target update) := by
  cases update with
  | increment =>
    have hplus : Closes "++" [.mark '+', .mark '+'] := by decide
    exact ((ByWords.word htarget).reads.closes_append hplus (by decide)).reads
  | decrement =>
    have hminus : Closes "--" [.mark '-', .mark '-'] := by decide
    exact ((ByWords.word htarget).reads.closes_append hminus (by decide)).reads
  | increase e =>
    have hplus : Closes " += " [.mark '+', .mark '='] := by decide
    exact ((ByWords.word htarget).reads.closes_append hplus (by decide)).reads_append (e.reads h)
  | decrease e =>
    have hminus : Closes " -= " [.mark '-', .mark '='] := by decide
    exact ((ByWords.word htarget).reads.closes_append hminus (by decide)).reads_append (e.reads h)

/-! ## headers -/

/-- a line that opens a block behind the nodes `ns` -/
def ReadsHeader (t : String) (ns : List Node) : Prop :=
  Reads t (flattenAll ns ++ [.opening .curly])

theorem readsHeader_function {async : Bool} {name : String} {params : List Param}
    (hname : N name) (hparams : ∀ p ∈ params, p.LegibleBy N) :
    ReadsHeader (functionHeader async name params)
      ((if async then [.word "async", .word "function"] else [.word "function"]) ++
        [.word name, .group .paren (commaNodes (params.map Param.nodes))]) := by
  have hkeyword : Closes (if async then "async function " else "function ")
      (flattenAll (if async then [.word "async", .word "function"] else [.word "function"])) := by
    cases async <;> decide
  have hstart := hkeyword.enclose (ByWords.word hname).readsNodes closes_openParen (by decide)
  have hall := hstart.enclose (readsNodes_commas (reads_params hparams)) closes_braced (by decide)
  refine hall.reads.of_eq ?_
  simp [flattenAll, Node.flatten]

theorem readsHeader_for {init test : Expr} (hindex : N index) (hinit : init.LegibleBy N)
    (htest : test.LegibleBy N) (htarget : N target) (hupdate : updateLegibleBy N update) :
    ReadsHeader (forHeader index init test target update)
      [.word "for", .group .paren (headerNodes index init test target update)] := by
  have hfor : Closes "for (let " [.word "for", .opening .paren, .word "let"] := by decide
  have hnext : Closes "; " [.mark ';'] := by decide
  have hindexed := hfor.enclose (ByWords.word hindex).readsNodes closes_assignment (by decide)
  have htested := (hindexed.enclose (init.reads hinit) hnext (by decide)).enclose (test.reads htest)
    hnext (by decide)
  have hall := htested.enclose (readsNodes_update htarget hupdate) closes_braced (by decide)
  refine hall.reads.of_eq ?_
  simp [headerNodes, flattenAll, Node.flatten]

theorem readsHeader_condition {as : List Atom} {guard : Expr} (hkeyword : Closes keyword as)
    (hguard : guard.LegibleBy N) :
    Reads (keyword ++ guard.text ++ ") \x7b")
      (as ++ (flattenAll guard.nodes ++ [.closing .paren, .opening .curly])) := by
  refine (hkeyword.enclose (guard.reads hguard) closes_braced (by decide)).reads.of_eq ?_
  rw [append_assoc]

/-! ## statements -/

variable {ls : List Line}

theorem ReadsLines.of_eq (h : ReadsLines ls as) (heq : bs = as) : ReadsLines ls bs := heq ▸ h

theorem readsLines_close (d : Nat) : ReadsLines [⟨d, "\x7d"⟩] [.closing .curly] := by
  have hbrace : Closes "\x7d" [.closing .curly] := by decide
  exact hbrace.reads.line d

theorem ReadsHeader.block {d : Nat} {t : String} {before : List Node}
    (h : ReadsHeader t before) (hblock : ReadsLines ls (flattenAll ns)) :
    ReadsLines (⟨d, t⟩ :: (ls ++ [⟨d, "\x7d"⟩])) (flattenAll (before ++ [.group .curly ns])) := by
  refine (ReadsLines.cons h (hblock.append (readsLines_close d))).of_eq ?_
  simp [flattenAll, Node.flatten]

theorem ReadsNodes.statement (h : ReadsNodes t ns) (d : Nat) :
    ReadsLines [⟨d, t ++ ";"⟩] (flattenAll (ns ++ [.mark ';'])) := by
  refine ((h.closes_append closes_semicolon (by decide)).reads.line d).of_eq ?_
  simp [flattenAll, Node.flatten]

theorem readsLines_fields {fields : List String} (h : ∀ f ∈ fields, N f) (d : Nat) :
    ReadsLines (fields.map fun f => ⟨d, "this." ++ f ++ " = " ++ f ++ ";"⟩)
      (flattenAll (fields.flatMap fieldNodes)) := by
  induction fields with
  | nil => exact readsLines_nil
  | cons f fields ih =>
    have hthis : Closes "this." [.word "this", .mark '.'] := by decide
    have hf : N f := h f mem_cons_self
    have hline := (hthis.enclose (ByWords.word hf).readsNodes closes_assignment (by decide)).enclose
      (ByWords.word hf).readsNodes closes_semicolon (by decide)
    refine (ReadsLines.cons hline.reads (ih fun f' hf' => h f' (mem_cons_of_mem f hf'))).of_eq ?_
    simp [fieldNodes, flattenAll, Node.flatten]

mutual

theorem Stmt.reads (s : Stmt) (h : s.LegibleBy N) (d : Nat) :
    ReadsLines (s.lines d) (flattenAll s.nodes) := by
  match s, h with
  | .expression e, h =>
    rw [Stmt.lines]
    exact ReadsNodes.statement (e.reads h) d
  | .declare constant names values, h =>
    rw [Stmt.lines]
    exact Reads.line (readsNodes_declaration h.1 h.2) d
  | .assign targets values, h =>
    rw [Stmt.lines]
    exact ReadsNodes.statement (readsNodes_destructure (reads_all_map h.1) (reads_all_map h.2)) d
  | .function async name params body, h =>
    rw [Stmt.lines]
    refine ((readsHeader_function h.1 h.2.1).block (reads_bodyLines body h.2.2 (d + 1))).of_eq ?_
    simp [Stmt.nodes, functionNodes]
  | .constructor name params fields, h =>
    rw [Stmt.lines]
    refine ((readsHeader_function h.1 h.2.1).block (readsLines_fields h.2.2 (d + 1))).of_eq ?_
    simp [Stmt.nodes, functionNodes]
  | .attach constructor method, h =>
    have hprototype : Closes ".prototype." [.mark '.', .word "prototype", .mark '.'] := by decide
    have hstart := ((ByWords.word h.1).reads.closes_append hprototype (by decide)).enclose
      (ByWords.word h.2).readsNodes
      closes_assignment (by decide)
    have hall := hstart.enclose (ByWords.word h.2).readsNodes closes_semicolon (by decide)
    rw [Stmt.lines]
    refine (hall.reads.line d).of_eq ?_
    simp [Stmt.nodes, flattenAll, Node.flatten]
  | .conditional [] otherwise, h => exact absurd rfl h.1
  | .conditional (⟨guard, body⟩ :: gs) otherwise, ⟨_, h⟩ =>
    have hif : Closes "if (" [.word "if", .opening .paren] := by decide
    have hrest := reads_branchLines gs h.1.2.2 d (reads_otherwiseLines otherwise h.2 d)
    have hall := ReadsLines.cons (d := d) (readsHeader_condition hif h.1.1)
      ((reads_bodyLines body h.1.2.1 (d + 1)).append hrest)
    rw [Stmt.lines, branchLines, append_assoc, cons_append, append_assoc]
    refine hall.of_eq ?_
    simp [Stmt.nodes, branchNodes, flattenAll, Node.flatten]
  | .whileLoop condition body, h =>
    have hwhile : Closes "while (" [.word "while", .opening .paren] := by decide
    have hheader : ReadsHeader ("while (" ++ condition.text ++ ") \x7b")
        [.word "while", .group .paren condition.nodes] := by
      refine Reads.of_eq (readsHeader_condition hwhile h.1) ?_
      simp [flattenAll, Node.flatten]
    rw [Stmt.lines]
    exact hheader.block (reads_bodyLines body h.2 (d + 1))
  | .forLoop index init test target update body, ⟨hindex, hinit, htest, htarget, hupdate, hbody⟩ =>
    rw [Stmt.lines]
    exact (readsHeader_for hindex hinit htest htarget hupdate).block (reads_bodyLines body hbody (d + 1))
  | .switch cases otherwise, h =>
    have hheader : ReadsHeader "switch (true) \x7b" [.word "switch", .group .paren [.word "true"]] :=
      Closes.reads (by decide)
    have hblock := (reads_caseLines cases h.1 (d + 1)).append (reads_defaultLines otherwise h.2 (d + 1))
    rw [← flattenAll_append] at hblock
    rw [Stmt.lines]
    exact hheader.block hblock
  | .breakLoop, _ | .continueLoop, _ | .returnValue none, _ => exact Reads.line (Closes.reads (by decide)) d
  | .returnValue (some e), h =>
    have hreturn : Closes "return " [.word "return"] := by decide
    have hvalue : ReadsNodes ("return " ++ e.text) (.word "return" :: e.nodes) :=
      hreturn.reads_append (e.reads (h e rfl))
    rw [Stmt.lines]
    exact hvalue.statement d
  | .print e, h =>
    have hlog : Closes "console.log(" [.word "console", .mark '.', .word "log", .opening .paren] := by
      decide
    have hend : Closes ");" [.closing .paren, .mark ';'] := by decide
    rw [Stmt.lines]
    refine ((hlog.enclose (e.reads h) hend (by decide)).reads.line d).of_eq ?_
    simp [Stmt.nodes, flattenAll, Node.flatten]
  | .block body, h =>
    have hheader : ReadsHeader "\x7b" [] := Closes.reads (by decide)
    rw [Stmt.lines]
    exact hheader.block (reads_bodyLines body h (d + 1))

theorem reads_bodyLines (body : List Stmt) (h : BodyLegibleBy N body) (d : Nat) :
    ReadsLines (bodyLines d body) (flattenAll (bodyNodes body)) := by
  match body, h with
  | [], _ => exact readsLines_nil
  | s :: ss, h =>
    rw [bodyLines, bodyNodes, flattenAll_append]
    exact (s.reads h.1 d).append (reads_bodyLines ss h.2 d)

/-- the further branches of a conditional close the block of the branch in front of them, and so does
what follows the last one -/
theorem reads_branchLines (gs : List (Guarded Stmt)) (h : BranchesLegibleBy N gs) (d : Nat)
    {ls : List Line} {ns : List Node} (hend : ReadsLines ls (.closing .curly :: flattenAll ns)) :
    ReadsLines (branchLines d "\x7d else if (" gs ++ ls)
      (.closing .curly :: flattenAll (branchNodes [.word "else", .word "if"] gs ++ ns)) := by
  match gs, h with
  | [], _ => exact hend
  | ⟨guard, body⟩ :: gs, h =>
    have helse : Closes "\x7d else if (" [.closing .curly, .word "else", .word "if", .opening .paren] := by
      decide
    have hbody := (reads_bodyLines body h.2.1 (d + 1)).append (reads_branchLines gs h.2.2 d hend)
    have hall := ReadsLines.cons (d := d) (readsHeader_condition helse h.1) hbody
    rw [branchLines, cons_append, append_assoc]
    refine hall.of_eq ?_
    simp [branchNodes, flattenAll, Node.flatten]

theorem reads_otherwiseLines (o : Option (List Stmt)) (h : OtherwiseLegibleBy N o) (d : Nat) :
    ReadsLines (otherwiseLines d o ++ [⟨d, "\x7d"⟩]) (.closing .curly :: flattenAll (otherwiseNodes o)) := by
  match o, h with
  | none, _ => exact readsLines_close d
  | some body, h =>
    have helse : Closes "\x7d else \x7b" [.closing .curly, .word "else", .opening .curly] := by decide
    refine (ReadsLines.cons helse.reads ((reads_bodyLines body h (d + 1)).append
      (readsLines_close d))).of_eq ?_
    simp [otherwiseNodes, flattenAll, Node.flatten]

theorem reads_caseLines (gs : List (Guarded Stmt)) (h : BranchesLegibleBy N gs) (d : Nat) :
    ReadsLines (caseLines d gs) (flattenAll (caseNodes gs)) := by
  match gs, h with
  | [], _ => exact readsLines_nil
  | ⟨guard, body⟩ :: gs, h =>
    have hcase : Closes "case " [.word "case"] := by decide
    have hcolon : Closes ":" [.mark ':'] := by decide
    have hbreak : Closes "break;" [.word "break", .mark ';'] := by decide
    have hline := hcase.enclose (guard.reads h.1) hcolon (by decide)
    rw [caseLines]
    refine (ReadsLines.cons hline.reads ((reads_bodyLines body h.2.1 (d + 1)).append
      (ReadsLines.cons hbreak.reads (reads_caseLines gs h.2.2 d)))).of_eq ?_
    simp [caseNodes, flattenAll, Node.flatten]

theorem reads_defaultLines (o : Option (List Stmt)) (h : OtherwiseLegibleBy N o) (d : Nat) :
    ReadsLines (defaultLines d o) (flattenAll (defaultNodes o)) := by
  match o, h with
  | none, _ => exact readsLines_nil
  | some body, h =>
    have hdefault : Closes "default:" [.word "default", .mark ':'] := by decide
    rw [defaultLines]
    refine (ReadsLines.cons hdefault.reads (reads_bodyLines body h (d + 1))).of_eq ?_
    simp [defaultNodes, flattenAll, Node.flatten]

end

end TypedScript.Script
