import Mathlib.Data.List.Basic
import TypedScript.Proofs.ScriptNames

/-!
# Blocks of printed lines

What the lines of a script say about its blocks and its jumps, read from the text of each line alone.  A
line that ends in an opening brace opens a block, and a line that starts with a closing brace closes
one.  A jump leaves the innermost loop or switch around it, or goes on with the innermost loop.
-/

namespace TypedScript.Script

open List

/-! ## reading lines -/

/-- a block of a text; its loops and switches are numbered together, in the order of their headers -/
inductive Block where
  | loop (place : Nat)
  | switch (place : Nat)
  | function
  | plain
  deriving DecidableEq, Repr

/-- loops and switches take a number each -/
def Block.weight : Block → Nat
  | .loop _ => 1
  | .switch _ => 1
  | .function => 0
  | .plain => 0

def Block.isSwitch : Block → Bool
  | .switch _ => true
  | _ => false

/-- what a line does -/
inductive Role where
  | leave
  | next
  | opens (block : Block)
  /-- closes a block and opens a plain one -/
  | reopens
  | closes
  | quiet
  deriving DecidableEq, Repr

/-- the block behind a header, if `n` loops and switches stand before it -/
def headerBlock (n : Nat) (header : List Char) : Block :=
  if "for (".toList.isPrefixOf header || "while (".toList.isPrefixOf header then .loop n
  else if "switch (".toList.isPrefixOf header then .switch n
  else if "function ".toList.isPrefixOf header || "async function ".toList.isPrefixOf header then
    .function
  else .plain

/-- the role of a line, if `n` loops and switches stand before it -/
def Line.role (n : Nat) (l : Line) : Role :=
  if l.text = "break;" then .leave
  else if l.text = "continue;" then .next
  else if l.text.toList.getLast? = some '\x7b' then
    if l.text.toList.head? = some '\x7d' then .reopens else .opens (headerBlock n l.text.toList)
  else if l.text = "\x7d" then .closes
  else .quiet

inductive Sign where
  | header (block : Block)
  | leave
  | next
  deriving DecidableEq, Repr

/-- a loop, a switch or a jump, and the loops, switches and functions around it from the inside out -/
structure Event where
  sign : Sign
  around : List Block
  deriving DecidableEq, Repr

def Block.headerEvents (b : Block) (around : List Block) : List Event :=
  if b.weight = 0 then [] else [⟨.header b, around⟩]

/-- the blocks that are open, the innermost one first, and the number of loops and switches so far -/
structure Nesting where
  blocks : List Block
  count : Nat
  deriving DecidableEq, Repr

namespace Nesting

def start : Nesting := ⟨[], 0⟩

/-- the open blocks that a jump can see -/
def around (t : Nesting) : List Block := t.blocks.filter (· ≠ .plain)

def enter (t : Nesting) (b : Block) : Nesting := ⟨b :: t.blocks, t.count + b.weight⟩

def step (t : Nesting) (l : Line) : Nesting :=
  match l.role t.count with
  | .opens b => t.enter b
  | .reopens => ⟨.plain :: t.blocks.tail, t.count⟩
  | .closes => ⟨t.blocks.tail, t.count⟩
  | _ => t

def lineEvents (t : Nesting) (l : Line) : List Event :=
  match l.role t.count with
  | .leave => [⟨.leave, t.around⟩]
  | .next => [⟨.next, t.around⟩]
  | .opens b => b.headerEvents t.around
  | _ => []

def events (t : Nesting) : List Line → List Event
  | [] => []
  | l :: ls => t.lineEvents l ++ (t.step l).events ls

def after (t : Nesting) (ls : List Line) : Nesting := ls.foldl step t

/-- the lines show the events `es`, and the reading ends in `t'` -/
structure Shows (t : Nesting) (ls : List Line) (es : List Event) (t' : Nesting) : Prop where
  events : t.events ls = es
  after : t.after ls = t'

variable {t t' t'' : Nesting} {l : Line} {ls ls' : List Line} {es es' : List Event}
variable {b : Block}

theorem Shows.nil : t.Shows [] [] t := ⟨rfl, rfl⟩

theorem events_append (t : Nesting) (ls ls' : List Line) :
    t.events (ls ++ ls') = t.events ls ++ (t.after ls).events ls' := by
  induction ls generalizing t with
  | nil => rfl
  | cons l ls ih =>
    rw [cons_append, events, events, ih, append_assoc]
    rfl

theorem Shows.append (h : t.Shows ls es t') (h' : t'.Shows ls' es' t'') :
    t.Shows (ls ++ ls') (es ++ es') t'' where
  events := by rw [events_append, h.events, h.after, h'.events]
  after := by
    have hfirst := h.after
    unfold Nesting.after at hfirst
    rw [Nesting.after, foldl_append, hfirst]
    exact h'.after

theorem Shows.cons (h : t.Shows [l] es t') (h' : t'.Shows ls es' t'') :
    t.Shows (l :: ls) (es ++ es') t'' := h.append h'

theorem shows_line (hes : t.lineEvents l = es) (ht : t.step l = t') : t.Shows [l] es t' :=
  ⟨by rw [events, events, append_nil, hes], ht⟩

theorem shows_quiet (h : l.role t.count = .quiet) : t.Shows [l] [] t :=
  shows_line (by rw [lineEvents, h]) (by rw [step, h])

theorem shows_opening (h : l.role t.count = .opens b) : t.Shows [l] (b.headerEvents t.around) (t.enter b) :=
  shows_line (by rw [lineEvents, h]) (by rw [step, h])

theorem shows_closing (t : Nesting) (d : Nat) : t.Shows [⟨d, "\x7d"⟩] [] ⟨t.blocks.tail, t.count⟩ := by
  have h : Line.role t.count ⟨d, "\x7d"⟩ = .closes := by simp [Line.role]
  exact shows_line (by rw [lineEvents, h]) (by rw [step, h])

theorem shows_reopening (ht : t.blocks = .plain :: bs) (h : l.role t.count = .reopens) :
    t.Shows [l] [] t := by
  refine shows_line (by rw [lineEvents, h]) ?_
  rw [step, h]
  obtain ⟨blocks, count⟩ := t
  cases ht
  rfl

theorem Shows.braces (hl : l.role t.count = .opens b) (h : (t.enter b).Shows ls es ⟨b :: t.blocks, n⟩) :
    t.Shows (l :: (ls ++ [⟨d, "\x7d"⟩])) (b.headerEvents t.around ++ es) ⟨t.blocks, n⟩ := by
  have hclosed := h.append (shows_closing _ d)
  rw [append_nil] at hclosed
  exact (shows_opening hl).cons hclosed

end Nesting

def events (ls : List Line) : List Event := Nesting.start.events ls

/-! ## targets of jumps -/

variable {n : Nat}

def Sign.isJump : Sign → Bool
  | .header _ => false
  | .leave => true
  | .next => true

/-- the switches between a jump and the innermost loop or function around it -/
def switches (around : List Block) : List Block := around.takeWhile Block.isSwitch

/-- the innermost loop or function -/
def home? (around : List Block) : Option Block := (around.dropWhile Block.isSwitch).head?

/-- the block that a jump acts on: `break` leaves the innermost loop or switch, `continue` looks
through switches -/
def Event.target? (e : Event) : Option Block :=
  match e.sign with
  | .header _ => none
  | .leave => e.around.head?
  | .next => home? e.around

theorem head?_eq_home?_iff (h : home? around = some (.loop n)) :
    around.head? = some (.loop n) ↔ switches around = [] := by
  unfold home? at h
  unfold switches
  cases around with
  | nil => exact nomatch h
  | cons b bs =>
    cases b with
    | switch k => simp [takeWhile_cons, Block.isSwitch]
    | loop k => simpa [Block.isSwitch] using h
    | function | plain => exact nomatch h

/-- a jump with a loop around it acts on that loop, unless it is a `break` inside a switch -/
theorem Event.target?_eq_iff {e : Event} (hjump : e.sign.isJump = true)
    (h : home? e.around = some (.loop n)) :
    e.target? = some (.loop n) ↔ (e.sign = .leave → switches e.around = []) := by
  obtain ⟨sign, around⟩ := e
  cases sign with
  | header b => exact nomatch hjump
  | leave =>
    have hhead := head?_eq_home?_iff h
    exact ⟨fun htarget _ => hhead.mp htarget, fun hnone => hhead.mpr (hnone rfl)⟩
  | next => exact ⟨fun _ => nofun, fun _ => h⟩

/-! ## roles of lines -/

variable {c : Char} {text : String} {d : Nat}

/-- the words that are lines of their own -/
def jumpWords : List String := ["break", "continue"]

theorem quiet_of_last (hlast : text.toList.getLast? = some c) (hc : c ≠ '\x7b' ∧ c ≠ '\x7d')
    (hwords : ∀ w ∈ jumpWords, text ≠ w ++ ";") : Line.role n ⟨d, text⟩ = .quiet := by
  have hleave : text ≠ "break;" := hwords "break" (by decide)
  have hnext : text ≠ "continue;" := hwords "continue" (by decide)
  have hopen : text.toList.getLast? ≠ some '\x7b' := by
    rw [hlast]
    exact fun h => hc.1 (Option.some.inj h)
  have hclose : text ≠ "\x7d" := by
    intro h
    rw [h] at hlast
    exact hc.2 (Option.some.inj hlast).symm
  rw [Line.role, if_neg hleave, if_neg hnext, if_neg hopen, if_neg hclose]

/-- a text that holds a character that no jump has -/
theorem quiet_of_mem (hlast : text.toList.getLast? = some ';') (hc : c ∈ text.toList)
    (hother : ∀ w ∈ jumpWords, c ∉ (w ++ ";").toList) : Line.role n ⟨d, text⟩ = .quiet := by
  refine quiet_of_last hlast (by decide) fun w hw heq => hother w hw ?_
  rw [← heq]
  exact hc

theorem getLast?_braced (s : String) : (s ++ ") \x7b").toList.getLast? = some '\x7b' := by simp

theorem role_of_brace (hlast : text.toList.getLast? = some '\x7b') :
    Line.role n ⟨d, text⟩ = if text.toList.head? = some '\x7d' then .reopens
      else .opens (headerBlock n text.toList) := by
  have hwords : text ≠ "break;" ∧ text ≠ "continue;" := by
    constructor <;> rintro rfl <;> exact absurd hlast (by decide)
  rw [Line.role, if_neg hwords.1, if_neg hwords.2, if_pos hlast]

/-- a header starts with its keyword, so the text behind the keyword does not matter -/
theorem role_header (keyword inner : String) (htext : text = keyword ++ inner ++ ") \x7b")
    (hfirst : keyword.toList.head?.any (· ≠ '\x7d') = true)
    (hblock : ∀ cs, headerBlock n (keyword.toList ++ cs) = b) : Line.role n ⟨d, text⟩ = .opens b := by
  have hchars : text.toList = keyword.toList ++ (inner ++ ") \x7b").toList := by
    rw [htext, String.append_assoc, String.toList_append]
  have hhead : text.toList.head? ≠ some '\x7d' := by
    rw [hchars]
    cases hkeyword : keyword.toList with
    | nil =>
      rw [hkeyword] at hfirst
      exact nomatch hfirst
    | cons c cs =>
      rw [hkeyword] at hfirst
      intro h
      cases h
      exact nomatch hfirst
  rw [role_of_brace (htext ▸ getLast?_braced _), if_neg hhead, hchars, hblock]

theorem role_while (n d : Nat) (condition : String) :
    Line.role n ⟨d, "while (" ++ condition ++ ") \x7b"⟩ = .opens (.loop n) :=
  role_header "while (" condition rfl (by decide) fun _ => rfl

theorem role_for (n d : Nat) (index : String) (init test : Expr) (target : String) (update : Update Expr) :
    Line.role n ⟨d, forHeader index init test target update⟩ = .opens (.loop n) := by
  refine role_header "for (let " (index ++ " = " ++ init.text ++ "; " ++ test.text ++ "; " ++
    updateText target update) ?_ (by decide) fun _ => rfl
  -- the equation of `forHeader` is slow to make, so the header is written out
  show "for (let " ++ index ++ " = " ++ init.text ++ "; " ++ test.text ++ "; " ++
    updateText target update ++ ") \x7b" = _
  simp only [String.append_assoc]

theorem role_function (n d : Nat) (async : Bool) (name : String) (params : List Param) :
    Line.role n ⟨d, functionHeader async name params⟩ = .opens .function := by
  have hinner : ∀ keyword : String, keyword ++ name ++ "(" ++ commas (params.map Param.text) ++
      ") \x7b" = keyword ++ (name ++ "(" ++ commas (params.map Param.text)) ++ ") \x7b" :=
    fun keyword => by simp only [String.append_assoc]
  cases async with
  | false => exact role_header "function " _ (hinner "function ") (by decide) fun _ => rfl
  | true => exact role_header "async function " _ (hinner "async function ") (by decide) fun _ => rfl

theorem role_if (n d : Nat) (guard : String) : Line.role n ⟨d, "if (" ++ guard ++ ") \x7b"⟩ = .opens .plain :=
  role_header "if (" guard rfl (by decide) fun _ => rfl

theorem role_switch (n d : Nat) : Line.role n ⟨d, "switch (true) \x7b"⟩ = .opens (.switch n) :=
  role_header "switch (" "true" rfl (by decide) fun _ => rfl

theorem role_block (n d : Nat) : Line.role n ⟨d, "\x7b"⟩ = .opens .plain := by
  rw [role_of_brace (by decide), if_neg (by decide)]
  rfl

theorem role_elseIf (n d : Nat) (guard : String) :
    Line.role n ⟨d, "\x7d else if (" ++ guard ++ ") \x7b"⟩ = .reopens := by
  rw [role_of_brace (getLast?_braced _), if_pos]
  simp

theorem role_else (n d : Nat) : Line.role n ⟨d, "\x7d else \x7b"⟩ = .reopens := by
  rw [role_of_brace (by decide), if_pos (by decide)]

/-! ## texts of expressions -/

theorem not_mem_jumpWords (hc : c ∈ text.toList)
    (hother : ∀ w ∈ jumpWords, c ∉ w.toList) : text ∉ jumpWords := fun hw => hother text hw hc

theorem integer_not_mem_jumpWords (n : Int) : toString n ∉ jumpWords := by
  cases n with
  | ofNat m =>
    have hdigits : (toString (Int.ofNat m)).toList = Nat.toDigits 10 m := Nat.toList_repr
    obtain ⟨c, hc⟩ := exists_mem_of_ne_nil _ (Nat.toDigits_ne_nil (b := 10) (n := m))
    have hdigit : c.isDigit = true := Nat.isDigit_of_mem_toDigits (by decide) (by decide) hc
    have hletters : ∀ w ∈ jumpWords, (w.toList.any Char.isDigit) = false := by decide
    refine not_mem_jumpWords (hdigits ▸ hc) fun w hw hmem => ?_
    exact any_eq_false.mp (hletters w hw) c hmem hdigit
  | negSucc m =>
    have hsign : '-' ∈ (toString (Int.negSucc m)).toList := by
      show '-' ∈ ("-" ++ toString (m + 1)).toList
      simp
    exact not_mem_jumpWords hsign (by decide)

theorem literal_not_mem_jumpWords (v : Literal) : literalText v ∉ jumpWords := by
  cases v with
  | integer n => exact integer_not_mem_jumpWords n
  | long digits =>
    intro hw
    have hlast : (digits ++ "n").toList.getLast? = some 'n' := by simp
    exact (by decide : ∀ w ∈ jumpWords, w.toList.getLast? ≠ some 'n') _ hw hlast
  | string s =>
    have hquote : '"' ∈ (stringLiteral s).toList := by simp [stringLiteral, literalChars]
    exact not_mem_jumpWords hquote (by decide)
  | boolean b => cases b <;> decide
  | null => decide

theorem not_mem_jumpWords_of_paren {text : String} (h : '(' ∈ text.toList) : text ∉ jumpWords :=
  not_mem_jumpWords h (by decide)

theorem not_mem_jumpWords_of_bracket {text : String} (h : '[' ∈ text.toList) : text ∉ jumpWords :=
  not_mem_jumpWords h (by decide)

theorem Expr.text_not_mem_jumpWords {e : Expr} (h : (namesOf e.pieces).Disjoint jumpWords) :
    e.text ∉ jumpWords := by
  cases e with
  | literal v => exact literal_not_mem_jumpWords v
  | ident x => exact h mem_cons_self
  | binary op l r | truncate q | unary op x | group x =>
    exact not_mem_jumpWords_of_paren (by simp [Expr.text])
  | call f as | construct f as | await x | newSet es => exact not_mem_jumpWords_of_paren (by simp [Expr.text])
  | subscript b i | array es => exact not_mem_jumpWords_of_bracket (by simp [Expr.text])
  | member o x =>
    have hdot : '.' ∈ (Expr.member o x).text.toList := by simp [Expr.text]
    exact not_mem_jumpWords hdot (by decide)
  | object entries =>
    have hbrace : '\x7b' ∈ (Expr.object entries).text.toList := by
      cases entries <;> simp [Expr.text]
    exact not_mem_jumpWords hbrace (by decide)

/-! ## what statements show -/

/-- the events of statements that stand inside some blocks, behind some number of loops and switches -/
abbrev Shown := List Block → Nat → List Event

/-- Printed anywhere, the statements show `es`, and they have `k` loops and switches.  The names in them
are not the words of jumps. -/
def BodyPrints (ss : List Stmt) (es : Shown) (k : Nat) : Prop :=
  ∀ d (t : Nesting), (namesOf (bodyPieces 0 d ss)).Disjoint jumpWords →
    t.Shows (bodyLines d ss) (es t.around t.count) ⟨t.blocks, t.count + k⟩

def CasesPrint (gs : List (Guarded Stmt)) (es : Shown) (k : Nat) : Prop :=
  ∀ d (t : Nesting), (namesOf (casePieces 0 d gs)).Disjoint jumpWords →
    t.Shows (caseLines d gs) (es t.around t.count) ⟨t.blocks, t.count + k⟩

def DefaultPrints (o : Option (List Stmt)) (es : Shown) (k : Nat) : Prop :=
  ∀ d (t : Nesting), (namesOf (defaultPieces 0 d o)).Disjoint jumpWords →
    t.Shows (defaultLines d o) (es t.around t.count) ⟨t.blocks, t.count + k⟩

/-- Branches leave a block open, which the next branch or the end of the conditional closes.  The first
one opens it, so a conditional has a branch. -/
def BranchesPrint (gs : List (Guarded Stmt)) (es : Shown) (k : Nat) : Prop :=
  ∀ d opening bs (t : Nesting), (namesOf (branchPieces 0 d opening gs)).Disjoint jumpWords →
    (∀ guard, t.Shows [⟨d, opening ++ guard ++ ") \x7b"⟩] [] ⟨.plain :: bs, t.count⟩) →
    (gs = [] → t.blocks = .plain :: bs) →
    t.Shows (branchLines d opening gs) (es (Nesting.around ⟨bs, t.count⟩) t.count)
      ⟨.plain :: bs, t.count + k⟩

def OtherwisePrints (o : Option (List Stmt)) (es : Shown) (k : Nat) : Prop :=
  ∀ d bs n, (namesOf (otherwisePieces 0 d o)).Disjoint jumpWords →
    Nesting.Shows ⟨.plain :: bs, n⟩ (otherwiseLines d o) (es (Nesting.around ⟨bs, n⟩) n)
      ⟨.plain :: bs, n + k⟩

variable {s : Stmt} {ss ss' body : List Stmt} {gs : List (Guarded Stmt)} {o : Option (List Stmt)}
  {es es' : Shown} {k k' : Nat}

/-- statements without loops, switches and jumps -/
abbrev Silent (ss : List Stmt) : Prop := BodyPrints ss (fun _ _ => []) 0

theorem Silent.nil : Silent [] := fun _ _ _ => .nil

theorem bodyLines_append (d : Nat) (ss ss' : List Stmt) :
    bodyLines d (ss ++ ss') = bodyLines d ss ++ bodyLines d ss' := by
  induction ss with
  | nil => rfl
  | cons s ss ih => rw [cons_append, bodyLines, bodyLines, ih, append_assoc]

theorem bodyLines_singleton (d : Nat) (s : Stmt) : bodyLines d [s] = s.lines d := by
  rw [bodyLines, bodyLines, append_nil]

theorem bodyPieces_singleton (width d : Nat) (s : Stmt) : bodyPieces width d [s] = s.pieces width d := by
  rw [bodyPieces, bodyPieces, append_nil]

theorem BodyPrints.append (h : BodyPrints ss es k) (h' : BodyPrints ss' es' k') :
    BodyPrints (ss ++ ss') (fun around n => es around n ++ es' around (n + k)) (k + k') := by
  intro d t hnames
  rw [bodyPieces_append, namesOf_append, disjoint_append_left] at hnames
  rw [bodyLines_append, ← Nat.add_assoc]
  exact (h d t hnames.1).append (h' d ⟨t.blocks, t.count + k⟩ hnames.2)

theorem Silent.before (h : Silent ss) (h' : BodyPrints ss' es k) : BodyPrints (ss ++ ss') es k := by
  have hall := BodyPrints.append h h'
  rw [Nat.zero_add] at hall
  exact hall

theorem Silent.behind (h : Silent ss') (h' : BodyPrints ss es k) : BodyPrints (ss ++ ss') es k := by
  intro d t hnames
  have hall := h'.append h d t hnames
  dsimp only at hall
  rw [append_nil] at hall
  exact hall

/-! ### statements of one line -/

theorem silent_line (c : Char) (hlines : ∀ d, s.lines d = [⟨d, text⟩])
    (hlast : text.toList.getLast? = some ';') (hc : c ∈ text.toList)
    (hother : ∀ w ∈ jumpWords, c ∉ (w ++ ";").toList) : Silent [s] := by
  intro d t _
  rw [bodyLines_singleton, hlines]
  exact Nesting.shows_quiet (quiet_of_mem hlast hc hother)

theorem getLast?_semicolon (text : String) : (text ++ ";").toList.getLast? = some ';' := by simp

theorem silent_expression (e : Expr) : Silent [.expression e] := by
  intro d t hnames
  rw [bodyPieces_singleton, Stmt.pieces, namesOf_linePieces, namesOf_append,
    disjoint_append_left] at hnames
  have hword := Expr.text_not_mem_jumpWords hnames.1
  refine Nesting.shows_quiet (quiet_of_last (getLast?_semicolon _) (by decide) fun w hw heq => hword ?_)
  have hsame : e.text = w := by simpa using heq
  rw [hsame]
  exact hw

theorem silent_declare (constant : Bool) (names : List String) (values : List Expr) :
    Silent [.declare constant names values] := by
  have hblank : ' ' ∈ (if constant then "const " else "let ").toList := by
    cases constant <;> decide
  refine silent_line ' ' (fun _ => rfl) (getLast?_semicolon _) ?_ (by decide)
  unfold declarationText
  rw [String.toList_append, String.toList_append]
  exact mem_append_left _ (mem_append_left _ hblank)

theorem silent_assign (targets values : List Expr) : Silent [.assign targets values] := by
  refine silent_line '=' (fun _ => rfl) (getLast?_semicolon _) ?_ (by decide)
  rw [String.toList_append]
  refine mem_append_left _ ?_
  unfold destructure
  split <;> simp

theorem silent_attach (constructor method : String) : Silent [.attach constructor method] :=
  silent_line '=' (fun _ => rfl) (getLast?_semicolon _) (by simp) (by decide)

theorem silent_print (e : Expr) : Silent [.print e] := by
  refine silent_line '(' (fun _ => rfl) ?_ (by simp) (by decide)
  rw [String.toList_append, List.getLast?_append]
  rfl

theorem silent_return (value : Option Expr) : Silent [.returnValue value] := by
  cases value with
  | none => exact fun d t _ => Nesting.shows_quiet (by simp [Line.role])
  | some e =>
    exact silent_line ' ' (fun _ => rfl) (getLast?_semicolon _) (by simp) (by decide)

theorem bodyPrints_break : BodyPrints [.breakLoop] (fun around _ => [⟨.leave, around⟩]) 0 :=
  fun _ _ _ => Nesting.shows_line rfl rfl

theorem bodyPrints_continue : BodyPrints [.continueLoop] (fun around _ => [⟨.next, around⟩]) 0 :=
  fun _ _ _ => Nesting.shows_line rfl rfl

/-! ### statements with one body -/

def Block.seen (b : Block) (around : List Block) : List Block :=
  if b = .plain then around else b :: around

theorem Nesting.around_enter (t : Nesting) (b : Block) : (t.enter b).around = b.seen t.around := by
  unfold Nesting.around Nesting.enter Block.seen
  cases b <;> simp

theorem BodyPrints.braces {header : String} {b : Nat → Block} {w : Nat} (h : BodyPrints body es k)
    (hlines : ∀ d, s.lines d = ⟨d, header⟩ :: (bodyLines (d + 1) body ++ [⟨d, "\x7d"⟩]))
    (hnames : ∀ d, namesOf (bodyPieces 0 (d + 1) body) ⊆ namesOf (s.pieces 0 d))
    (hrole : ∀ n d, Line.role n ⟨d, header⟩ = .opens (b n)) (hweight : ∀ n, (b n).weight = w) :
    BodyPrints [s] (fun around n => (b n).headerEvents around ++ es ((b n).seen around) (n + w)) (k + w) := by
  intro d t hdisjoint
  rw [bodyPieces_singleton] at hdisjoint
  rw [bodyLines_singleton, hlines]
  have hbody := h (d + 1) (t.enter (b t.count)) (disjoint_of_subset_left (hnames d) hdisjoint)
  have hcount : (t.enter (b t.count)).count = t.count + w := by rw [← hweight t.count]; rfl
  rw [t.around_enter, hcount] at hbody
  rw [Nat.add_comm k w, ← Nat.add_assoc]
  exact Nesting.Shows.braces (hrole t.count d) hbody

theorem BodyPrints.whileLoop (h : BodyPrints body es k) (condition : Expr) :
    BodyPrints [.whileLoop condition body]
      (fun around n => ⟨.header (.loop n), around⟩ :: es (.loop n :: around) (n + 1)) (k + 1) := by
  refine h.braces (fun _ => rfl) (fun d => ?_) (fun n d => role_while n d _) fun _ => rfl
  intro a ha
  simp [Stmt.pieces, ha]

theorem BodyPrints.forLoop (h : BodyPrints body es k) (index : String) (init test : Expr)
    (target : String) (update : Update Expr) :
    BodyPrints [.forLoop index init test target update body]
      (fun around n => ⟨.header (.loop n), around⟩ :: es (.loop n :: around) (n + 1)) (k + 1) := by
  refine h.braces (fun _ => rfl) (fun d => ?_) (fun n d => role_for n d _ _ _ _ _) fun _ => rfl
  intro a ha
  simp [Stmt.pieces, ha]

theorem BodyPrints.function (h : BodyPrints body es k) (async : Bool) (name : String) (params : List Param) :
    BodyPrints [.function async name params body] (fun around n => es (.function :: around) n) k := by
  refine h.braces (fun _ => rfl) (fun d => ?_) (fun n d => role_function n d _ _ _) fun _ => rfl
  intro a ha
  simp [Stmt.pieces, ha]

theorem BodyPrints.block (h : BodyPrints body es k) : BodyPrints [.block body] es k := by
  refine h.braces (fun _ => rfl) (fun d => ?_) role_block fun _ => rfl
  intro a ha
  simp [Stmt.pieces, ha]

theorem shows_fields (d : Nat) (t : Nesting) (fields : List String) :
    t.Shows (fields.map fun f => ⟨d, "this." ++ f ++ " = " ++ f ++ ";"⟩) [] t := by
  induction fields with
  | nil => exact .nil
  | cons f fields ih =>
    have hquiet : Line.role t.count ⟨d, "this." ++ f ++ " = " ++ f ++ ";"⟩ = .quiet :=
      quiet_of_mem (getLast?_semicolon _) (c := '=') (by simp) (by decide)
    exact (Nesting.shows_quiet hquiet).cons ih

theorem silent_constructor (name : String) (params : List Param) (fields : List String) :
    Silent [.constructor name params fields] := by
  intro d t _
  rw [bodyLines_singleton]
  exact Nesting.Shows.braces (role_function _ d _ _ _) (shows_fields _ _ fields)

/-! ### conditionals -/

theorem BranchesPrint.nil : BranchesPrint [] (fun _ _ => []) 0 := by
  intro d opening bs t _ _ hblocks
  obtain ⟨blocks, count⟩ := t
  cases hblocks rfl
  exact .nil

theorem BranchesPrint.cons {guard : Expr} (h : BodyPrints body es k) (hgs : BranchesPrint gs es' k') :
    BranchesPrint (⟨guard, body⟩ :: gs) (fun around n => es around n ++ es' around (n + k)) (k + k') := by
  intro d opening bs t hnames hopening _
  rw [branchPieces, namesOf_append, namesOf_append, disjoint_append_left,
    disjoint_append_left] at hnames
  have hbody := h (d + 1) ⟨.plain :: bs, t.count⟩ hnames.2.1
  -- the header of the next branch closes the block of this one
  have hreopening : ∀ guard, Nesting.Shows ⟨.plain :: bs, t.count + k⟩
      [⟨d, "\x7d else if (" ++ guard ++ ") \x7b"⟩] [] ⟨.plain :: bs, t.count + k⟩ :=
    fun guard => Nesting.shows_reopening rfl (role_elseIf _ d guard)
  have hrest := hgs d _ bs ⟨.plain :: bs, t.count + k⟩ hnames.2.2 hreopening fun _ => rfl
  rw [branchLines, ← Nat.add_assoc]
  exact (hopening _).cons (hbody.append hrest)

theorem OtherwisePrints.none : OtherwisePrints none (fun _ _ => []) 0 := fun _ _ _ _ => .nil

theorem OtherwisePrints.some (h : BodyPrints body es k) : OtherwisePrints (some body) es k := by
  intro d bs n hnames
  rw [otherwisePieces, namesOf_append, disjoint_append_left] at hnames
  exact (Nesting.shows_reopening rfl (role_else n d)).cons (h (d + 1) ⟨.plain :: bs, n⟩ hnames.2)

theorem BranchesPrint.conditional (hne : gs ≠ []) (h : BranchesPrint gs es k)
    (ho : OtherwisePrints o es' k') :
    BodyPrints [.conditional gs o] (fun around n => es around n ++ es' around (n + k)) (k + k') := by
  intro d t hnames
  rw [bodyPieces_singleton, Stmt.pieces, namesOf_append, namesOf_append, disjoint_append_left,
    disjoint_append_left] at hnames
  have hopening : ∀ guard, t.Shows [⟨d, "if (" ++ guard ++ ") \x7b"⟩] []
      ⟨.plain :: t.blocks, t.count⟩ := fun guard => Nesting.shows_opening (role_if _ d guard)
  have hbranches := h d _ t.blocks t hnames.1 hopening fun hnil => absurd hnil hne
  have hotherwise := ho d t.blocks (t.count + k) hnames.2.1
  have hclosed := (hbranches.append hotherwise).append (Nesting.shows_closing _ d)
  rw [bodyLines_singleton, Stmt.lines, ← Nat.add_assoc]
  rw [append_nil] at hclosed
  exact hclosed

/-! ### switches -/

theorem quiet_case (n d : Nat) (guard : String) : Line.role n ⟨d, "case " ++ guard ++ ":"⟩ = .quiet := by
  have hlast : ("case " ++ guard ++ ":").toList.getLast? = some ':' := by
    rw [String.toList_append, List.getLast?_append]
    rfl
  have hwords : ∀ w ∈ jumpWords, (w ++ ";").toList.getLast? ≠ some ':' := by decide
  refine quiet_of_last hlast (by decide) fun w hw heq => hwords w hw ?_
  rw [← heq]
  exact hlast

theorem CasesPrint.nil : CasesPrint [] (fun _ _ => []) 0 := fun _ _ _ => .nil

theorem CasesPrint.cons {guard : Expr} (h : BodyPrints body es k) (hgs : CasesPrint gs es' k') :
    CasesPrint (⟨guard, body⟩ :: gs)
      (fun around n => es around n ++ ⟨.leave, around⟩ :: es' around (n + k)) (k + k') := by
  intro d t hnames
  rw [casePieces, namesOf_append, namesOf_append, namesOf_append, disjoint_append_left,
    disjoint_append_left, disjoint_append_left] at hnames
  have hbody := h (d + 1) t hnames.2.1
  have hbreak : Nesting.Shows ⟨t.blocks, t.count + k⟩ [⟨d + 1, "break;"⟩] [⟨.leave, t.around⟩]
      ⟨t.blocks, t.count + k⟩ := Nesting.shows_line rfl rfl
  have hrest := hgs d ⟨t.blocks, t.count + k⟩ hnames.2.2.2
  rw [caseLines, ← Nat.add_assoc]
  exact (Nesting.shows_quiet (quiet_case _ d _)).cons (hbody.append (hbreak.cons hrest))

theorem DefaultPrints.none : DefaultPrints none (fun _ _ => []) 0 := fun _ _ _ => .nil

theorem DefaultPrints.some (h : BodyPrints body es k) : DefaultPrints (some body) es k := by
  intro d t hnames
  rw [defaultPieces, namesOf_append, disjoint_append_left] at hnames
  have hquiet : Line.role t.count ⟨d, "default:"⟩ = .quiet := by simp [Line.role]
  exact (Nesting.shows_quiet hquiet).cons (h (d + 1) t hnames.2)

theorem CasesPrint.switch (h : CasesPrint gs es k) (ho : DefaultPrints o es' k') :
    BodyPrints [.switch gs o] (fun around n => ⟨.header (.switch n), around⟩ ::
      (es (.switch n :: around) (n + 1) ++ es' (.switch n :: around) (n + 1 + k))) (k + k' + 1) := by
  intro d t hnames
  rw [bodyPieces_singleton, Stmt.pieces, namesOf_append, namesOf_append, namesOf_append,
    disjoint_append_left, disjoint_append_left, disjoint_append_left] at hnames
  have hcases := h (d + 1) (t.enter (.switch t.count)) hnames.2.1
  have hdefault := ho (d + 1) ⟨.switch t.count :: t.blocks, t.count + 1 + k⟩ hnames.2.2.1
  have hcount : t.count + (k + k' + 1) = t.count + 1 + k + k' := by omega
  rw [bodyLines_singleton, Stmt.lines, hcount]
  rw [t.around_enter] at hcases
  exact Nesting.Shows.braces (role_switch t.count d) (hcases.append hdefault)

end TypedScript.Script
