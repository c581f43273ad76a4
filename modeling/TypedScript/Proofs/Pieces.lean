import TypedScript.Script.Lines

/-!
# The text of a script in pieces

The text of a script is cut into pieces: the identifiers that the tree of the script holds, and the
text around them.  Put together, the pieces are the text that is printed.
-/

namespace TypedScript.Script

open List

/-! ## pieces -/

inductive Piece where
  | name (text : String)
  | plain (text : String)

def Piece.text : Piece → String
  | .name s => s
  | .plain s => s

def piecesText (ps : List Piece) : String := String.join (ps.map Piece.text)

/-- the identifiers of a text, from its start to its end -/
def namesOf : List Piece → List String
  | [] => []
  | .name s :: ps => s :: namesOf ps
  | .plain _ :: ps => namesOf ps

@[simp] theorem piecesText_nil : piecesText [] = "" := rfl

@[simp] theorem piecesText_cons (p : Piece) (ps : List Piece) :
    piecesText (p :: ps) = p.text ++ piecesText ps := String.join_cons

@[simp] theorem piecesText_append (ps qs : List Piece) :
    piecesText (ps ++ qs) = piecesText ps ++ piecesText qs := by
  unfold piecesText
  rw [map_append, String.join_append]

@[simp] theorem namesOf_nil : namesOf [] = [] := rfl

@[simp] theorem namesOf_name (s : String) (ps : List Piece) :
    namesOf (.name s :: ps) = s :: namesOf ps := rfl

@[simp] theorem namesOf_plain (s : String) (ps : List Piece) :
    namesOf (.plain s :: ps) = namesOf ps := rfl

@[simp] theorem namesOf_append (ps qs : List Piece) :
    namesOf (ps ++ qs) = namesOf ps ++ namesOf qs := by
  induction ps with
  | nil => rfl
  | cons p ps ih =>
    cases p with
    | name s => rw [cons_append, namesOf_name, namesOf_name, ih, cons_append]
    | plain s => rw [cons_append, namesOf_plain, namesOf_plain, ih]

/-- pieces of several texts, with commas between them -/
def commaPieces : List (List Piece) → List Piece
  | [] => []
  | [ps] => ps
  | ps :: qs :: rest => ps ++ .plain ", " :: commaPieces (qs :: rest)

@[simp] theorem piecesText_commaPieces (pss : List (List Piece)) :
    piecesText (commaPieces pss) = commas (pss.map piecesText) := by
  unfold commas
  induction pss with
  | nil => rfl
  | cons ps pss ih =>
    cases pss with
    | nil => exact String.intercalate_singleton.symm
    | cons qs rest =>
      rw [commaPieces, piecesText_append, piecesText_cons, ih, map_cons, map_cons,
        map_cons, String.intercalate_cons_cons, String.append_assoc]
      rfl

@[simp] theorem namesOf_commaPieces (pss : List (List Piece)) :
    namesOf (commaPieces pss) = pss.flatMap namesOf := by
  induction pss with
  | nil => rfl
  | cons ps pss ih =>
    cases pss with
    | nil => exact (append_nil _).symm
    | cons qs rest =>
      rw [commaPieces, namesOf_append, namesOf_plain, ih]
      rfl

/-! ## expressions -/

mutual

def Expr.pieces : Expr → List Piece
  | .literal v => [.plain (literalText v)]
  | .ident n => [.name n]
  | .binary op l r => .plain "(" :: (l.pieces ++ .plain (" " ++ operatorText op ++ " ") ::
      (r.pieces ++ [.plain ")"]))
  | .truncate q => .plain "Math.trunc(" :: (q.pieces ++ [.plain ")"])
  | .unary op x => .plain ("(" ++ op.symbol) :: (x.pieces ++ [.plain ")"])
  | .group x => .plain "(" :: (x.pieces ++ [.plain ")"])
  | .call f as => f.pieces ++ .plain "(" :: (commaPieces (Expr.allPieces as) ++ [.plain ")"])
  | .construct f as => .plain "new " ::
      (f.pieces ++ .plain "(" :: (commaPieces (Expr.allPieces as) ++ [.plain ")"]))
  | .await x => .plain "(await " :: (x.pieces ++ [.plain ")"])
  | .subscript b i => b.pieces ++ .plain "[" :: (i.pieces ++ [.plain "]"])
  | .member o n => o.pieces ++ [.plain ".", .name n]
  | .array es => .plain "[" :: (commaPieces (Expr.allPieces es) ++ [.plain "]"])
  | .newSet es => .plain "new Set([" :: (commaPieces (Expr.allPieces es) ++ [.plain "])"])
  | .object [] => [.plain "\x7b\x7d"]
  | .object (e :: es) => .plain "\x7b " ::
      (commaPieces (Expr.entryPieces (e :: es)) ++ [.plain " \x7d"])

def Expr.allPieces : List Expr → List (List Piece)
  | [] => []
  | e :: es => e.pieces :: Expr.allPieces es

def Expr.entryPieces : List (Expr × Expr) → List (List Piece)
  | [] => []
  | (k, v) :: es => (k.pieces ++ .plain ": " :: v.pieces) :: Expr.entryPieces es

end

mutual

@[simp] theorem Expr.piecesText_pieces (e : Expr) : piecesText e.pieces = e.text := by
  cases e with
  | literal v => simp [Expr.pieces, Expr.text, Piece.text]
  | ident n => simp [Expr.pieces, Expr.text, Piece.text]
  | binary op l r =>
    simp [Expr.pieces, Expr.text, Piece.text, l.piecesText_pieces, r.piecesText_pieces,
      String.append_assoc]
  | truncate q => simp [Expr.pieces, Expr.text, Piece.text, q.piecesText_pieces, String.append_assoc]
  | unary op x => simp [Expr.pieces, Expr.text, Piece.text, x.piecesText_pieces, String.append_assoc]
  | group x => simp [Expr.pieces, Expr.text, Piece.text, x.piecesText_pieces, String.append_assoc]
  | call f as =>
    simp [Expr.pieces, Expr.text, Piece.text, f.piecesText_pieces, Expr.map_allPieces as,
      String.append_assoc]
  | construct f as =>
    simp [Expr.pieces, Expr.text, Piece.text, f.piecesText_pieces, Expr.map_allPieces as,
      String.append_assoc]
  | await x => simp [Expr.pieces, Expr.text, Piece.text, x.piecesText_pieces, String.append_assoc]
  | subscript b i =>
    simp [Expr.pieces, Expr.text, Piece.text, b.piecesText_pieces, i.piecesText_pieces,
      String.append_assoc]
  | member o n => simp [Expr.pieces, Expr.text, Piece.text, o.piecesText_pieces, String.append_assoc]
  | array es => simp [Expr.pieces, Expr.text, Piece.text, Expr.map_allPieces es, String.append_assoc]
  | newSet es => simp [Expr.pieces, Expr.text, Piece.text, Expr.map_allPieces es, String.append_assoc]
  | object entries =>
    cases entries with
    | nil => simp [Expr.pieces, Expr.text, Piece.text]
    | cons e es =>
      rw [Expr.pieces, Expr.text, piecesText_cons, piecesText_append, piecesText_commaPieces,
        Expr.map_entryPieces (e :: es), ← String.append_assoc]
      rfl

theorem Expr.map_allPieces (es : List Expr) :
    (Expr.allPieces es).map piecesText = Expr.texts es := by
  cases es with
  | nil => rfl
  | cons e es => rw [Expr.allPieces, map_cons, e.piecesText_pieces, Expr.map_allPieces es, Expr.texts]

theorem Expr.map_entryPieces (es : List (Expr × Expr)) :
    (Expr.entryPieces es).map piecesText = Expr.entryTexts es := by
  cases es with
  | nil => rfl
  | cons e es =>
    obtain ⟨k, v⟩ := e
    rw [Expr.entryPieces, map_cons, piecesText_append, piecesText_cons, k.piecesText_pieces,
      v.piecesText_pieces, Expr.map_entryPieces es, Expr.entryTexts, String.append_assoc]
    rfl

end

theorem Expr.allPieces_eq_map (es : List Expr) : Expr.allPieces es = es.map Expr.pieces := by
  induction es with
  | nil => rfl
  | cons e es ih => rw [Expr.allPieces, ih, map_cons]

/-! ## parts of lines -/

def linePieces (width d : Nat) (ps : List Piece) : List Piece :=
  .plain (String.ofList (List.replicate (d * width) ' ')) :: (ps ++ [.plain "\n"])

def destructurePieces (targets values : List (List Piece)) : List Piece :=
  match targets, values with
  | [t], [v] => t ++ .plain " = " :: v
  | ts, vs => .plain "[" :: (commaPieces ts ++ .plain "] = [" :: (commaPieces vs ++ [.plain "]"]))

def declarationPieces (constant : Bool) (names : List String) (values : List (List Piece)) :
    List Piece :=
  let targets := names.map fun n => [Piece.name n]
  .plain (if constant then "const " else "let ") ::
    ((if values.isEmpty then commaPieces targets else destructurePieces targets values) ++
      [.plain ";"])

def Param.pieces (p : Param) : List Piece :=
  match p.default with
  | some e => .name p.name :: .plain " = " :: e.pieces
  | none => [.name p.name]

def functionPieces (async : Bool) (name : String) (params : List Param) : List Piece :=
  .plain (if async then "async function " else "function ") :: .name name :: .plain "(" ::
    (commaPieces (params.map Param.pieces) ++ [.plain ") \x7b"])

def updatePieces (target : String) : Update Expr → List Piece
  | .increment => [.name target, .plain "++"]
  | .decrement => [.name target, .plain "--"]
  | .increase e => .name target :: .plain " += " :: e.pieces
  | .decrease e => .name target :: .plain " -= " :: e.pieces

def forPieces (index : String) (init test : Expr) (target : String) (update : Update Expr) :
    List Piece :=
  .plain "for (let " :: .name index :: .plain " = " :: (init.pieces ++ .plain "; " ::
    (test.pieces ++ .plain "; " :: (updatePieces target update ++ [.plain ") \x7b"])))

@[simp] theorem layout_nil (width : Nat) : layout width [] = "" := rfl

@[simp] theorem layout_cons (width : Nat) (l : Line) (ls : List Line) :
    layout width (l :: ls) = l.layout width ++ layout width ls := String.join_cons

@[simp] theorem layout_append (width : Nat) (ls ms : List Line) :
    layout width (ls ++ ms) = layout width ls ++ layout width ms := by
  unfold layout
  rw [map_append, String.join_append]

@[simp] theorem piecesText_linePieces (width d : Nat) (ps : List Piece) :
    piecesText (linePieces width d ps) = Line.layout width ⟨d, piecesText ps⟩ := by
  simp [linePieces, Line.layout, Piece.text, String.append_assoc]

@[simp] theorem namesOf_linePieces (width d : Nat) (ps : List Piece) :
    namesOf (linePieces width d ps) = namesOf ps := by
  simp [linePieces]

theorem piecesText_destructurePieces (targets values : List (List Piece)) :
    piecesText (destructurePieces targets values)
      = destructure (targets.map piecesText) (values.map piecesText) := by
  rcases targets with _ | ⟨t, _ | ⟨t', ts⟩⟩ <;> rcases values with _ | ⟨v, _ | ⟨v', vs⟩⟩ <;>
    simp [destructurePieces, destructure, Piece.text, String.append_assoc]

@[simp] theorem namesOf_destructurePieces (targets values : List (List Piece)) :
    namesOf (destructurePieces targets values)
      = targets.flatMap namesOf ++ values.flatMap namesOf := by
  rcases targets with _ | ⟨t, _ | ⟨t', ts⟩⟩ <;> rcases values with _ | ⟨v, _ | ⟨v', vs⟩⟩ <;>
    simp [destructurePieces]

theorem flatMap_namePieces (names : List String) :
    (names.map fun n => [Piece.name n]).flatMap namesOf = names := by
  induction names with
  | nil => rfl
  | cons n names ih =>
    rw [map_cons, flatMap_cons, ih]
    rfl

theorem map_namePieces (names : List String) :
    names.map (piecesText ∘ fun n => [Piece.name n]) = names := by
  induction names with
  | nil => rfl
  | cons n names ih =>
    rw [map_cons, ih]
    simp [Piece.text]

theorem piecesText_declarationPieces (constant : Bool) (names : List String)
    (values : List (List Piece)) :
    piecesText (declarationPieces constant names values)
      = declarationText constant names (values.map piecesText) := by
  cases values with
  | nil => simp [declarationPieces, declarationText, Piece.text, map_namePieces, String.append_assoc]
  | cons v vs =>
    simp [declarationPieces, declarationText, Piece.text, piecesText_destructurePieces,
      map_namePieces, String.append_assoc]

@[simp] theorem namesOf_declarationPieces (constant : Bool) (names : List String)
    (values : List (List Piece)) :
    namesOf (declarationPieces constant names values) = names ++ values.flatMap namesOf := by
  cases values with
  | nil => simp [declarationPieces, flatMap_namePieces]
  | cons v vs => simp [declarationPieces, flatMap_namePieces]

theorem Param.piecesText_pieces (p : Param) : piecesText p.pieces = p.text := by
  unfold Param.pieces Param.text
  cases p.default with
  | none => simp [Piece.text]
  | some e => simp [Piece.text, String.append_assoc]

theorem piecesText_functionPieces (async : Bool) (name : String) (params : List Param) :
    piecesText (functionPieces async name params) = functionHeader async name params := by
  have hparams : params.map (piecesText ∘ Param.pieces) = params.map Param.text :=
    map_congr_left fun p _ => p.piecesText_pieces
  simp [functionPieces, functionHeader, Piece.text, hparams, String.append_assoc]

@[simp] theorem namesOf_functionPieces (async : Bool) (name : String) (params : List Param) :
    namesOf (functionPieces async name params)
      = name :: (params.map Param.pieces).flatMap namesOf := by
  simp [functionPieces]

theorem piecesText_updatePieces (target : String) (update : Update Expr) :
    piecesText (updatePieces target update) = updateText target update := by
  cases update <;> simp [updatePieces, updateText, Piece.text, String.append_assoc]

theorem piecesText_forPieces (index : String) (init test : Expr) (target : String)
    (update : Update Expr) :
    piecesText (forPieces index init test target update)
      = forHeader index init test target update := by
  show _ = "for (let " ++ index ++ " = " ++ init.text ++ "; " ++ test.text ++ "; " ++
    updateText target update ++ ") \x7b"
  simp [forPieces, piecesText_updatePieces, Piece.text, String.append_assoc]

/-! ## statements -/

mutual

/-- a statement at a depth of nesting, with `width` blanks for each level -/
def Stmt.pieces (width d : Nat) : Stmt → List Piece
  | .expression e => linePieces width d (e.pieces ++ [.plain ";"])
  | .declare constant names values =>
    linePieces width d (declarationPieces constant names (values.map Expr.pieces))
  | .assign targets values => linePieces width d
      (destructurePieces (targets.map Expr.pieces) (values.map Expr.pieces) ++ [.plain ";"])
  | .function async name params body => linePieces width d (functionPieces async name params) ++
      (bodyPieces width (d + 1) body ++ linePieces width d [.plain "\x7d"])
  | .constructor name params fields => linePieces width d (functionPieces false name params) ++
      (fields.flatMap (fun f => linePieces width (d + 1)
          [.plain "this.", .name f, .plain " = ", .name f, .plain ";"]) ++
        linePieces width d [.plain "\x7d"])
  | .attach constructor method => linePieces width d
      [.name constructor, .plain ".prototype.", .name method, .plain " = ", .name method, .plain ";"]
  | .conditional branches otherwise => branchPieces width d "if (" branches ++
      (otherwisePieces width d otherwise ++ linePieces width d [.plain "\x7d"])
  | .whileLoop condition body =>
    linePieces width d (.plain "while (" :: (condition.pieces ++ [.plain ") \x7b"])) ++
      (bodyPieces width (d + 1) body ++ linePieces width d [.plain "\x7d"])
  | .forLoop index init test target update body =>
    linePieces width d (forPieces index init test target update) ++
      (bodyPieces width (d + 1) body ++ linePieces width d [.plain "\x7d"])
  | .switch cases otherwise => linePieces width d [.plain "switch (true) \x7b"] ++
      (casePieces width (d + 1) cases ++ (defaultPieces width (d + 1) otherwise ++
        linePieces width d [.plain "\x7d"]))
  | .breakLoop => linePieces width d [.plain "break;"]
  | .continueLoop => linePieces width d [.plain "continue;"]
  | .returnValue (some e) => linePieces width d (.plain "return " :: (e.pieces ++ [.plain ";"]))
  | .returnValue none => linePieces width d [.plain "return;"]
  | .print e => linePieces width d (.plain "console.log(" :: (e.pieces ++ [.plain ");"]))
  | .block body => linePieces width d [.plain "\x7b"] ++
      (bodyPieces width (d + 1) body ++ linePieces width d [.plain "\x7d"])

def bodyPieces (width d : Nat) : List Stmt → List Piece
  | [] => []
  | s :: ss => s.pieces width d ++ bodyPieces width d ss

def branchPieces (width d : Nat) (opening : String) : List (Guarded Stmt) → List Piece
  | [] => []
  | ⟨guard, body⟩ :: gs =>
    linePieces width d (.plain opening :: (guard.pieces ++ [.plain ") \x7b"])) ++
      (bodyPieces width (d + 1) body ++ branchPieces width d "\x7d else if (" gs)

def otherwisePieces (width d : Nat) : Option (List Stmt) → List Piece
  | none => []
  | some body => linePieces width d [.plain "\x7d else \x7b"] ++ bodyPieces width (d + 1) body

def casePieces (width d : Nat) : List (Guarded Stmt) → List Piece
  | [] => []
  | ⟨guard, body⟩ :: gs =>
    linePieces width d (.plain "case " :: (guard.pieces ++ [.plain ":"])) ++
      (bodyPieces width (d + 1) body ++ (linePieces width (d + 1) [.plain "break;"] ++
        casePieces width d gs))

def defaultPieces (width d : Nat) : Option (List Stmt) → List Piece
  | none => []
  | some body => linePieces width d [.plain "default:"] ++ bodyPieces width (d + 1) body

end

theorem piecesText_fieldPieces (width d : Nat) (fields : List String) :
    piecesText (fields.flatMap fun f => linePieces width d
        [.plain "this.", .name f, .plain " = ", .name f, .plain ";"])
      = layout width (fields.map fun f => ⟨d, "this." ++ f ++ " = " ++ f ++ ";"⟩) := by
  induction fields with
  | nil => rfl
  | cons f fields ih =>
    rw [flatMap_cons, piecesText_append, ih, map_cons, layout_cons, piecesText_linePieces]
    simp [Piece.text, String.append_assoc]

mutual

theorem Stmt.piecesText_pieces (width d : Nat) (s : Stmt) :
    piecesText (s.pieces width d) = layout width (s.lines d) := by
  cases s with
  | expression e | breakLoop | continueLoop => simp [Stmt.pieces, Stmt.lines, Piece.text]
  | declare constant names values =>
    simp [Stmt.pieces, Stmt.lines, piecesText_declarationPieces, Function.comp_def]
  | assign targets values =>
    simp [Stmt.pieces, Stmt.lines, piecesText_destructurePieces, Piece.text, Function.comp_def]
  | function async name params body =>
    simp [Stmt.pieces, Stmt.lines, piecesText_functionPieces, piecesText_bodyPieces _ _ body, Piece.text]
  | constructor name params fields =>
    simp [Stmt.pieces, Stmt.lines, piecesText_functionPieces, piecesText_fieldPieces, Piece.text]
  | attach constructor method | print e => simp [Stmt.pieces, Stmt.lines, Piece.text, String.append_assoc]
  | conditional branches otherwise =>
    simp [Stmt.pieces, Stmt.lines, piecesText_branchPieces _ _ _ branches,
      piecesText_otherwisePieces _ _ otherwise, Piece.text]
  | whileLoop condition body =>
    simp [Stmt.pieces, Stmt.lines, piecesText_bodyPieces _ _ body, Piece.text, String.append_assoc]
  | forLoop index init test target update body =>
    simp [Stmt.pieces, Stmt.lines, piecesText_forPieces, piecesText_bodyPieces _ _ body, Piece.text]
  | switch cases otherwise =>
    simp [Stmt.pieces, Stmt.lines, piecesText_casePieces _ _ cases,
      piecesText_defaultPieces _ _ otherwise, Piece.text]
  | returnValue value =>
    cases value with
    | none => simp [Stmt.pieces, Stmt.lines, Piece.text]
    | some e => simp [Stmt.pieces, Stmt.lines, Piece.text, String.append_assoc]
  | block body => simp [Stmt.pieces, Stmt.lines, piecesText_bodyPieces _ _ body, Piece.text]

theorem piecesText_bodyPieces (width d : Nat) (body : List Stmt) :
    piecesText (bodyPieces width d body) = layout width (bodyLines d body) := by
  cases body with
  | nil => rfl
  | cons s ss =>
    rw [bodyPieces, piecesText_append, s.piecesText_pieces, piecesText_bodyPieces width d ss, bodyLines,
      layout_append]

theorem piecesText_branchPieces (width d : Nat) (opening : String) (gs : List (Guarded Stmt)) :
    piecesText (branchPieces width d opening gs) = layout width (branchLines d opening gs) := by
  cases gs with
  | nil => rfl
  | cons g gs =>
    obtain ⟨guard, body⟩ := g
    simp [branchPieces, branchLines, piecesText_bodyPieces _ _ body,
      piecesText_branchPieces _ _ _ gs, Piece.text, String.append_assoc]

theorem piecesText_otherwisePieces (width d : Nat) (o : Option (List Stmt)) :
    piecesText (otherwisePieces width d o) = layout width (otherwiseLines d o) := by
  cases o with
  | none => rfl
  | some body => simp [otherwisePieces, otherwiseLines, piecesText_bodyPieces _ _ body, Piece.text]

theorem piecesText_casePieces (width d : Nat) (gs : List (Guarded Stmt)) :
    piecesText (casePieces width d gs) = layout width (caseLines d gs) := by
  cases gs with
  | nil => rfl
  | cons g gs =>
    obtain ⟨guard, body⟩ := g
    simp [casePieces, caseLines, piecesText_bodyPieces _ _ body, piecesText_casePieces _ _ gs,
      Piece.text, String.append_assoc]

theorem piecesText_defaultPieces (width d : Nat) (o : Option (List Stmt)) :
    piecesText (defaultPieces width d o) = layout width (defaultLines d o) := by
  cases o with
  | none => rfl
  | some body => simp [defaultPieces, defaultLines, piecesText_bodyPieces _ _ body, Piece.text]

end

end TypedScript.Script
