import TypedScript.Proofs.ErrorReports
import TypedScript.Proofs.Legibility
import TypedScript.Proofs.StringLiterals

/-!
# The layout of a script

How deep a line stands can be told from the texts of the lines alone: from the first and the last
character of each line in front of it.  The width of the indentation changes nothing else.
-/

namespace TypedScript

open List

namespace Script

open Text (isHexDigit segments)

/-! ## texts on one line -/

variable {t x : String} {ts : List String}

/-- no character breaks the line -/
def unbroken (t : String) : Bool := t.toList.all fun c => c != '\n' && c != '\r'

/-- the text starts with something else than a blank or the end of a block -/
def starts (t : String) : Bool := t.toList.head?.any fun c => c != ' ' && c != '\x7d'

/-- a line that is not empty, has no blank in front and no break inside -/
structure Tidy (t : String) : Prop where
  first : t.toList.head?.any (· != ' ') = true
  unbroken : unbroken t = true

@[simp] theorem unbroken_append (t u : String) : unbroken (t ++ u) = (unbroken t && unbroken u) := by
  unfold unbroken
  rw [String.toList_append, all_append]

@[simp] theorem starts_append (t u : String) :
    starts (t ++ u) = (starts t || (t.toList.isEmpty && starts u)) := by
  unfold starts
  rw [String.toList_append]
  cases t.toList with
  | nil => rfl
  | cons c cs => exact (Bool.or_false _).symm

theorem tidy_of_starts (h : starts t = true) (hunbroken : unbroken t = true) : Tidy t := by
  refine ⟨?_, hunbroken⟩
  unfold starts at h
  cases hfirst : t.toList.head? with
  | none =>
    rw [hfirst] at h
    cases h
  | some c =>
    rw [hfirst] at h
    exact (Bool.and_eq_true_iff.mp h).1

theorem IsWord.unbroken (h : IsWord x) : unbroken x = true := by
  refine all_eq_true.mpr fun c hc => ?_
  have hpart := h.parts c hc
  rw [Bool.and_eq_true, bne_iff_ne, bne_iff_ne]
  constructor <;> rintro rfl <;> exact absurd hpart (by decide)

theorem IsWord.starts (h : IsWord x) : starts x = true := by
  unfold Script.starts
  cases hlist : x.toList with
  | nil => exact absurd hlist h.nonempty
  | cons c cs =>
    have hpart := h.parts c (hlist ▸ mem_cons_self)
    rw [List.head?_cons, Option.any_some, Bool.and_eq_true, bne_iff_ne, bne_iff_ne]
    constructor <;> rintro rfl <;> exact absurd hpart (by decide)

theorem unbroken_commas (h : ∀ t ∈ ts, unbroken t = true) : unbroken (commas ts) = true := by
  unfold commas
  induction ts with
  | nil => rfl
  | cons t ts ih =>
    obtain ⟨ht, hts⟩ := forall_mem_cons.mp h
    cases ts with
    | nil =>
      rw [String.intercalate_singleton]
      exact ht
    | cons u us =>
      rw [String.intercalate_cons_cons, unbroken_append, unbroken_append, ht, ih hts]
      rfl

/-! ## expressions -/

theorem unbroken_stringLiteral (s : String) : unbroken (stringLiteral s) = true := by
  unfold unbroken stringLiteral literalChars
  rw [String.toList_ofList, all_cons, all_append, all_flatMap]
  have hchar : ∀ c, (literalChar c).all (fun c => c != '\n' && c != '\r') = true := by
    intro c
    rcases literalChar_cases c with ⟨h, _, _, hnewline, hreturn⟩ | ⟨e, h, he⟩ | ⟨a, b, h, ha, hb, _⟩
    · simp [h, hnewline, hreturn]
    · rw [h]
      have hnewline : e ≠ '\n' := newline_ne_of_simpleEscape? he
      have hreturn : e ≠ '\r' := by
        rintro rfl
        exact Option.some_ne_none c he.symm
      simp [hnewline, hreturn]
    · have hdigit : ∀ d, isHexDigit d = true → d ≠ '\n' ∧ d ≠ '\r' := by
        intro d hd
        constructor <;> rintro rfl <;> exact absurd hd (by decide)
      simp [h, hdigit a ha, hdigit b hb]
  simp [hchar]

theorem neat_literal (h : Literal.Legible v) :
    starts (literalText v) = true ∧ unbroken (literalText v) = true := by
  cases v with
  | integer n =>
    cases n with
    | ofNat m => exact ⟨(isWord_toString m).starts, (isWord_toString m).unbroken⟩
    | negSucc m =>
      have htext : literalText (.integer (.negSucc m)) = "-" ++ toString (m + 1) := rfl
      rw [htext, unbroken_append, (isWord_toString (m + 1)).unbroken]
      exact ⟨by simp +decide, by decide⟩
  | long digits => exact ⟨(isWord_long h).starts, (isWord_long h).unbroken⟩
  | string s => exact ⟨by simp [literalText, stringLiteral, literalChars, starts], unbroken_stringLiteral s⟩
  | boolean b => cases b <;> exact ⟨by decide, by decide⟩
  | null => exact ⟨by decide, by decide⟩

theorem unbroken_operatorText (op : BinaryOp) : unbroken (operatorText op) = true := by
  cases op <;> decide

theorem unbroken_symbol (op : UnaryOp) : unbroken op.symbol = true := by
  cases op <;> decide

variable {N : String → Prop} [ByWords N]

set_option linter.unusedSectionVars false

mutual

theorem Expr.unbroken (e : Expr) (h : e.LegibleBy N) : unbroken e.text = true := by
  match e, h with
  | .literal v, h => exact (neat_literal h).2
  | .ident x, h => exact (ByWords.word h).unbroken
  | .binary op l r, h => simp +decide [Expr.text, l.unbroken h.1, r.unbroken h.2, unbroken_operatorText]
  | .truncate x, h | .group x, h | .await x, h => simp +decide [Expr.text, x.unbroken h]
  | .unary op x, h => simp +decide [Expr.text, x.unbroken h, unbroken_symbol]
  | .call f as, h | .construct f as, h =>
    simp +decide [Expr.text, f.unbroken h.1, unbroken_commas (Expr.unbroken_all as h.2)]
  | .subscript b i, h => simp +decide [Expr.text, b.unbroken h.1, i.unbroken h.2]
  | .member o x, h => simp +decide [Expr.text, o.unbroken h.1, (ByWords.word h.2).unbroken]
  | .array es, h | .newSet es, h =>
    simp +decide [Expr.text, unbroken_commas (Expr.unbroken_all es h)]
  | .object [], _ => decide
  | .object (e :: es), h =>
    simp +decide [Expr.text, unbroken_commas (Expr.unbroken_entries (e :: es) h)]

theorem Expr.unbroken_all (es : List Expr) (h : Expr.AllLegibleBy N es) :
    ∀ t ∈ Expr.texts es, Script.unbroken t = true := by
  match es, h with
  | [], _ => exact nofun
  | e :: es, h => exact forall_mem_cons.mpr ⟨e.unbroken h.1, Expr.unbroken_all es h.2⟩

theorem Expr.unbroken_entries (es : List (Expr × Expr)) (h : Expr.EntriesLegibleBy N es) :
    ∀ t ∈ Expr.entryTexts es, Script.unbroken t = true := by
  match es, h with
  | [], _ => exact nofun
  | (k, v) :: es, h =>
    refine forall_mem_cons.mpr ⟨?_, Expr.unbroken_entries es h.2.2⟩
    simp +decide [k.unbroken h.1, v.unbroken h.2.1]

end

theorem Expr.starts (e : Expr) (h : e.LegibleBy N) : starts e.text = true := by
  match e, h with
  | .literal v, h => exact (neat_literal h).1
  | .ident x, h => exact (ByWords.word h).starts
  | .call f as, h | .subscript f i, h | .member f x, h => simp [Expr.text, f.starts h.1]
  | .binary op l r, _ | .truncate x, _ | .unary op x, _ | .group x, _ | .construct f as, _ | .await x, _
  | .array es, _ | .newSet es, _ | .object [], _ | .object (e :: es), _ => simp +decide [Expr.text]

/-! ## depths -/

/-- what a line does to the nesting -/
inductive Turn where
  | stays
  | opens
  | closes
  | reopens
  | labels
  deriving DecidableEq

/-- a line tells by its first and its last character -/
def turn (t : String) : Turn :=
  if t.toList.head? = some '\x7d' then
    if t.toList.getLast? = some '\x7b' then .reopens else .closes
  else if t.toList.getLast? = some '\x7b' then .opens
  else if t.toList.getLast? = some ':' then .labels
  else .stays

/-- how deep lines stand inside some blocks, of which some are behind a label -/
def depth : List Bool → Nat
  | [] => 0
  | false :: opened => depth opened + 1
  | true :: opened => depth opened + 2

/-- the depth of a line inside some blocks, and the blocks behind it; a label stands one step outside
what it labels -/
def Turn.take? : Turn → List Bool → Option (Nat × List Bool)
  | .stays, opened => some (depth opened, opened)
  | .opens, opened => some (depth opened, false :: opened)
  | .closes, _ :: opened => some (depth opened, opened)
  | .reopens, _ :: opened => some (depth opened, false :: opened)
  | .labels, _ :: opened => some (depth opened + 1, true :: opened)
  | _, [] => none

/-- the depths of lines, and the blocks behind them -/
def outline (opened : List Bool) : List String → Option (List Nat × List Bool)
  | [] => some ([], opened)
  | t :: ts => do
    let (depth, opened) ← (turn t).take? opened
    let (depths, opened) ← outline opened ts
    pure (depth :: depths, opened)

theorem turn_of_starts (c : Char) (h : starts t = true) (hlast : t.toList.getLast? = some c) :
    turn t = if c = '\x7b' then .opens else if c = ':' then .labels else .stays := by
  have hfirst : t.toList.head? ≠ some '\x7d' := by
    intro hfirst
    unfold starts at h
    rw [hfirst] at h
    exact absurd h (by decide)
  rw [turn, if_neg hfirst, hlast]
  simp only [Option.some.injEq]

/-- tidy lines at the depths that their texts tell -/
structure Outlined (opened : List Bool) (ls : List Line) (opened' : List Bool) : Prop where
  depths : outline opened (ls.map Line.text) = some (ls.map Line.depth, opened')
  tidy : ∀ l ∈ ls, Tidy l.text

namespace Outlined

variable {o o' o'' : List Bool} {ls ms : List Line} {t : String} {b : Bool}

theorem nil : Outlined o [] o := ⟨rfl, nofun⟩

theorem cons {d : Nat} (hturn : (turn t).take? o = some (d, o')) (ht : Tidy t) (h : Outlined o' ls o'') :
    Outlined o (⟨d, t⟩ :: ls) o'' := by
  refine ⟨?_, forall_mem_cons.mpr ⟨ht, h.tidy⟩⟩
  rw [map_cons, outline, hturn]
  dsimp only [Option.bind_eq_bind, Option.bind_some]
  rw [h.depths]
  rfl

theorem append (h : Outlined o ls o') (h' : Outlined o' ms o'') : Outlined o (ls ++ ms) o'' := by
  refine ⟨?_, forall_mem_append.mpr ⟨h.tidy, h'.tidy⟩⟩
  obtain ⟨h, htidy⟩ := h
  induction ls generalizing o with
  | nil =>
    cases h
    exact h'.depths
  | cons l ls ih =>
    obtain ⟨_, htail⟩ := forall_mem_cons.mp htidy
    rw [map_cons, outline] at h
    obtain ⟨⟨d, o₁⟩, hturn, h⟩ := Option.bind_eq_some_iff.mp h
    obtain ⟨⟨ds, o₂⟩, hrest, h⟩ := Option.bind_eq_some_iff.mp h
    cases h
    rw [cons_append, map_cons, outline, hturn]
    dsimp only [Option.bind_eq_bind, Option.bind_some]
    rw [ih hrest htail]
    rfl

theorem statement (h : starts t = true) (hunbroken : unbroken t = true) :
    Outlined o [⟨depth o, t ++ ";"⟩] o := by
  have hstarts : starts (t ++ ";") = true := by simp [h]
  have hturn : turn (t ++ ";") = .stays := turn_of_starts ';' hstarts (by simp)
  exact cons (by rw [hturn, Turn.take?]) (tidy_of_starts hstarts (by simp +decide [hunbroken])) nil

theorem block (h : starts t = true) (hlast : t.toList.getLast? = some '\x7b')
    (hunbroken : unbroken t = true) (hblock : Outlined (false :: o) ls (b :: o)) :
    Outlined o (⟨depth o, t⟩ :: (ls ++ [⟨depth o, "\x7d"⟩])) o := by
  have hturn : turn t = .opens := turn_of_starts _ h hlast
  have hclose : Outlined (b :: o) [⟨depth o, "\x7d"⟩] o := cons rfl ⟨by decide, by decide⟩ nil
  exact cons (by rw [hturn, Turn.take?]) (tidy_of_starts h hunbroken) (hblock.append hclose)

theorem branch (keyword : String) (hkeyword : keyword.toList.head? = some '\x7d')
    (hunbroken : unbroken keyword = true) (ht : unbroken t = true) (h : Outlined (false :: o) ls o') :
    Outlined (b :: o) (⟨depth o, keyword ++ t ++ "\x7b"⟩ :: ls) o' := by
  have hfirst : (keyword ++ t ++ "\x7b").toList.head? = some '\x7d' := by simp [hkeyword]
  have hturn : turn (keyword ++ t ++ "\x7b") = .reopens := by
    rw [turn, if_pos hfirst, if_pos (by simp)]
  have htidy : Tidy (keyword ++ t ++ "\x7b") := ⟨by rw [hfirst]; decide, by simp +decide [hunbroken, ht]⟩
  exact cons (by rw [hturn, Turn.take?]) htidy h

theorem label (h : starts t = true) (hunbroken : unbroken t = true) (hls : Outlined (true :: o) ls o') :
    Outlined (b :: o) (⟨depth o + 1, t ++ ":"⟩ :: ls) o' := by
  have hstarts : starts (t ++ ":") = true := by simp [h]
  have hturn : turn (t ++ ":") = .labels := turn_of_starts ':' hstarts (by simp)
  exact cons (by rw [hturn, Turn.take?]) (tidy_of_starts hstarts (by simp +decide [hunbroken])) hls

end Outlined

/-! ## statements -/

variable {es : List Expr}

theorem unbroken_names {xs : List String} (h : ∀ x ∈ xs, N x) : ∀ x ∈ xs, unbroken x = true :=
  fun x hx => (ByWords.word (h x hx)).unbroken

theorem Expr.AllLegibleBy.of_mem (h : Expr.AllLegibleBy N es) : ∀ e ∈ es, e.LegibleBy N := by
  induction es with
  | nil => exact nofun
  | cons e es ih => exact forall_mem_cons.mpr ⟨h.1, ih h.2⟩

theorem Expr.unbroken_map (h : Expr.AllLegibleBy N es) : ∀ t ∈ es.map Expr.text, Script.unbroken t = true :=
  Expr.texts_eq_map es ▸ Expr.unbroken_all es h

theorem unbroken_destructure (ht : ∀ t ∈ ts, unbroken t = true) (hv : ∀ v ∈ vs, unbroken v = true) :
    unbroken (destructure ts vs) = true := by
  unfold destructure
  split
  · simp +decide [ht, hv]
  · simp +decide [unbroken_commas ht, unbroken_commas hv]

theorem starts_destructure (ht : ∀ t ∈ ts, starts t = true) (vs : List String) :
    starts (destructure ts vs) = true := by
  unfold destructure
  split
  · simp [ht]
  · simp +decide

theorem unbroken_functionHeader (async : Bool) (hname : N name) (hparams : ∀ p ∈ params, p.LegibleBy N) :
    unbroken (functionHeader async name params) = true := by
  have htexts : ∀ t ∈ params.map Param.text, unbroken t = true := by
    refine forall_mem_map.mpr fun p hp => ?_
    have hname := (ByWords.word (hparams p hp).name).unbroken
    unfold Param.text
    split
    · next e he => simp +decide [hname, e.unbroken ((hparams p hp).default e he)]
    · exact hname
  unfold functionHeader
  cases async <;> simp +decide [(ByWords.word hname).unbroken, unbroken_commas htexts]

theorem starts_functionHeader (async : Bool) (name : String) (params : List Param) :
    starts (functionHeader async name params) = true := by
  unfold functionHeader
  cases async <;> simp +decide

theorem unbroken_updateText (htarget : N target) (h : updateLegibleBy N update) :
    unbroken (updateText target update) = true := by
  have htarget := (ByWords.word htarget).unbroken
  cases update with
  | increment | decrement => simp +decide [updateText, htarget]
  | increase e | decrease e => simp +decide [updateText, htarget, e.unbroken h]

theorem outlined_fields {fields : List String} (h : ∀ f ∈ fields, N f) (o : List Bool) :
    Outlined o (fields.map fun f => ⟨depth o, "this." ++ f ++ " = " ++ f ++ ";"⟩) o := by
  induction fields with
  | nil => exact .nil
  | cons f fields ih =>
    obtain ⟨hf, hfields⟩ := forall_mem_cons.mp h
    have hline : Outlined o [⟨depth o, "this." ++ f ++ " = " ++ f ++ ";"⟩] o :=
      .statement (by simp +decide) (by simp +decide [(ByWords.word hf).unbroken])
    exact hline.append (ih hfields)

mutual

theorem Stmt.outlined (s : Stmt) (h : s.LegibleBy N) (o : List Bool) : Outlined o (s.lines (depth o)) o := by
  match s, h with
  | .expression e, h => exact .statement (e.starts h) (e.unbroken h)
  | .declare constant names values, h =>
    have hnames := unbroken_names h.1
    have hvalues := unbroken_destructure hnames (Expr.unbroken_map h.2)
    rw [Stmt.lines, declarationText]
    refine .statement ?_ ?_
    · cases constant <;> simp +decide
    · have hitems : unbroken (if (values.map Expr.text).isEmpty then commas names
          else destructure names (values.map Expr.text)) = true := by
        split
        · exact unbroken_commas hnames
        · exact hvalues
      rw [unbroken_append, hitems]
      cases constant <;> decide
  | .assign targets values, h =>
    have htargets : ∀ t ∈ targets.map Expr.text, starts t = true :=
      forall_mem_map.mpr fun e he => e.starts (Expr.AllLegibleBy.of_mem h.1 e he)
    exact .statement (starts_destructure htargets _)
      (unbroken_destructure (Expr.unbroken_map h.1) (Expr.unbroken_map h.2))
  | .function async name params body, h =>
    rw [Stmt.lines]
    exact .block (starts_functionHeader async name params) (getLast?_braced _)
      (unbroken_functionHeader async h.1 h.2.1) (outlined_body body h.2.2 (false :: o))
  | .constructor name params fields, h =>
    rw [Stmt.lines]
    exact .block (starts_functionHeader false name params) (getLast?_braced _)
      (unbroken_functionHeader false h.1 h.2.1) (outlined_fields h.2.2 (false :: o))
  | .attach constructor method, h =>
    have hconstructor := ByWords.word h.1
    have hmethod := (ByWords.word h.2).unbroken
    exact .statement (by simp [hconstructor.starts]) (by simp +decide [hconstructor.unbroken, hmethod])
  | .conditional [] otherwise, h => exact absurd rfl h.1
  | .conditional (⟨guard, body⟩ :: gs) otherwise, ⟨_, h⟩ =>
    have hbranches := (outlined_body body h.1.2.1 (false :: o)).append
      ((outlined_branches gs h.1.2.2 o).append (outlined_otherwise otherwise h.2 o))
    have hall : Outlined o (⟨depth o, "if (" ++ guard.text ++ ") \x7b"⟩ :: (_ ++ [⟨depth o, "\x7d"⟩])) o :=
      .block (by simp +decide) (getLast?_braced _) (by simp +decide [guard.unbroken h.1.1]) hbranches
    simpa [Stmt.lines, branchLines, depth] using hall
  | .whileLoop condition body, h =>
    exact .block (by simp +decide) (getLast?_braced _) (by simp +decide [condition.unbroken h.1])
      (outlined_body body h.2 (false :: o))
  | .forLoop index init test target update body, ⟨hindex, hinit, htest, htarget, hupdate, hbody⟩ =>
    refine .block ?_ ?_ ?_ (outlined_body body hbody (false :: o))
    · delta forHeader
      simp +decide
    · exact getLast?_braced _
    · delta forHeader
      simp +decide [(ByWords.word hindex).unbroken, init.unbroken hinit, test.unbroken htest,
        unbroken_updateText htarget hupdate]
  | .switch cases otherwise, h =>
    obtain ⟨b, hcases⟩ := outlined_cases cases h.1 false o
    obtain ⟨b', hdefault⟩ := outlined_default otherwise h.2 b o
    exact .block (by decide) (by decide) (by decide) (hcases.append hdefault)
  | .breakLoop, _ => exact .statement (t := "break") (by decide) (by decide)
  | .continueLoop, _ => exact .statement (t := "continue") (by decide) (by decide)
  | .returnValue none, _ => exact .statement (t := "return") (by decide) (by decide)
  | .returnValue (some e), h => exact .statement (by simp +decide) (by simp +decide [e.unbroken (h e rfl)])
  | .print e, h =>
    have hline : Outlined o [⟨depth o, "console.log(" ++ e.text ++ ")" ++ ";"⟩] o :=
      .statement (by simp +decide) (by simp +decide [e.unbroken h])
    simpa [Stmt.lines, String.append_assoc] using hline
  | .block body, h =>
    exact .block (by decide) (by decide) (by decide) (outlined_body body h (false :: o))

theorem outlined_body (body : List Stmt) (h : BodyLegibleBy N body) (o : List Bool) :
    Outlined o (bodyLines (depth o) body) o := by
  match body, h with
  | [], _ => exact .nil
  | s :: ss, h => exact (s.outlined h.1 o).append (outlined_body ss h.2 o)

theorem outlined_branches (gs : List (Guarded Stmt)) (h : BranchesLegibleBy N gs) (o : List Bool) :
    Outlined (false :: o) (branchLines (depth o) "\x7d else if (" gs) (false :: o) := by
  match gs, h with
  | [], _ => exact .nil
  | ⟨guard, body⟩ :: gs, h =>
    have hrest := (outlined_body body h.2.1 (false :: o)).append (outlined_branches gs h.2.2 o)
    have hheader : unbroken (guard.text ++ ") ") = true := by simp +decide [guard.unbroken h.1]
    have hall := Outlined.branch (b := false) "\x7d else if (" (by decide) (by decide) hheader hrest
    simpa [branchLines, String.append_assoc, depth] using hall

theorem outlined_otherwise (otherwise : Option (List Stmt)) (h : OtherwiseLegibleBy N otherwise)
    (o : List Bool) : Outlined (false :: o) (otherwiseLines (depth o) otherwise) (false :: o) := by
  match otherwise, h with
  | none, _ => exact .nil
  | some body, h =>
    exact .branch (t := " else ") "\x7d" (by decide) (by decide) (by decide)
      (outlined_body body h (false :: o))

theorem outlined_cases (gs : List (Guarded Stmt)) (h : BranchesLegibleBy N gs) (b : Bool) (o : List Bool) :
    ∃ b', Outlined (b :: o) (caseLines (depth o + 1) gs) (b' :: o) := by
  match gs, h with
  | [], _ => exact ⟨b, .nil⟩
  | ⟨guard, body⟩ :: gs, h =>
    obtain ⟨b', hrest⟩ := outlined_cases gs h.2.2 true o
    have hbreak : Outlined (true :: o) [⟨depth (true :: o), "break;"⟩] (true :: o) :=
      .statement (t := "break") (by decide) (by decide)
    have hbody := (outlined_body body h.2.1 (true :: o)).append (hbreak.append hrest)
    exact ⟨b', .label (by simp +decide) (by simp +decide [guard.unbroken h.1]) hbody⟩

theorem outlined_default (otherwise : Option (List Stmt)) (h : OtherwiseLegibleBy N otherwise) (b : Bool)
    (o : List Bool) : ∃ b', Outlined (b :: o) (defaultLines (depth o + 1) otherwise) (b' :: o) := by
  match otherwise, h with
  | none, _ => exact ⟨b, .nil⟩
  | some body, h =>
    exact ⟨true, .label (t := "default") (by decide) (by decide) (outlined_body body h (true :: o))⟩

end

/-! ## the laid out text -/

variable {ls : List Line}

/-- a line of text at a depth, with blanks in front and a newline behind -/
def indented (width depth : Nat) (text : String) : List Char :=
  List.replicate (depth * width) ' ' ++ text.toList ++ ['\n']

/-- the lines of a text without the blanks in front of them -/
def unindented (text : String) : List (List Char) := (segments text.toList).map (List.dropWhile (· == ' '))

theorem segments_cons_line (h : '\n' ∉ line) (rest : List Char) :
    segments (line ++ '\n' :: rest) = (line ++ ['\n']) :: segments rest := by
  induction line with
  | nil => rfl
  | cons c line ih =>
    obtain ⟨hc, hline⟩ := not_or.mp (mt mem_cons.mpr h)
    rw [cons_append, segments, if_neg (Ne.symm hc), ih hline]
    rfl

/-- tidy lines are the lines of the text that they are laid out as -/
theorem segments_layout (h : ∀ l ∈ ls, Tidy l.text) (width : Nat) :
    segments (layout width ls).toList = ls.map fun l => indented width l.depth l.text := by
  induction ls with
  | nil => rfl
  | cons l ls ih =>
    obtain ⟨hl, hls⟩ := forall_mem_cons.mp h
    have hblanks : '\n' ∉ List.replicate (l.depth * width) ' ' := by simp
    have htext : '\n' ∉ l.text.toList := fun hmem => by
      simpa using all_eq_true.mp hl.unbroken '\n' hmem
    have hlayout : (layout width (l :: ls)).toList =
        (List.replicate (l.depth * width) ' ' ++ l.text.toList) ++ '\n' :: (layout width ls).toList := by
      simp [layout, Line.layout]
    rw [hlayout, segments_cons_line (by simp [hblanks, htext]), ih hls]
    rfl

theorem Tidy.dropWhile_indented (h : Tidy t) (width depth : Nat) :
    (indented width depth t).dropWhile (· == ' ') = t.toList ++ ['\n'] := by
  have hfirst := h.first
  unfold indented
  rw [append_assoc, dropWhile_append_of_pos (by simp)]
  cases hlist : t.toList with
  | nil =>
    rw [hlist] at hfirst
    cases hfirst
  | cons c cs =>
    rw [hlist] at hfirst
    have hc : c ≠ ' ' := by simpa using hfirst
    simp [hc]

theorem unindented_layout (h : ∀ l ∈ ls, Tidy l.text) (width : Nat) :
    unindented (layout width ls) = ls.map fun l => l.text.toList ++ ['\n'] := by
  unfold unindented
  rw [segments_layout h, List.map_map]
  exact map_congr_left fun l hl => (h l hl).dropWhile_indented width l.depth

end Script

/-! ## programs -/

open Script (Closes IsWord Outlined Tidy atoms flattenAll indented nest outline unindented)

theorem Bare.labelled (h : Bare ls us ds) (ν : DeclId → String) : Labelled IsWord ν ls us ds := by
  refine ⟨h.literals, fun x hx => ?_, fun d hd => ?_⟩
  · obtain ⟨hnone, hname⟩ := h.uses x hx
    unfold Symbol.label
    rw [hnone]
    exact isWord_of_isName hname
  · obtain ⟨hnone, hname⟩ := h.sites d hd
    unfold Site.label
    rw [hnone]
    exact isWord_of_isName hname

theorem exists_legible {p q : Program} (hp : p.WellFormed) (hq : q = p ∨ analyse Scope.root p = .ok q) :
    ∃ N, Script.ByWords N ∧ Script.BodyLegibleBy N (script q) := by
  rcases hq with rfl | h
  · have hbranched := bodyBranched_of_forall fun s hs => (hp s hs).branched
    exact ⟨IsWord, inferInstance, (lowers_naming q).legible (fun n => (isName_range n).word)
      (hp.bare.labelled (naming q)) hbranched⟩
  · obtain ⟨_, _, hlegible⟩ := exists_naming hp h
    exact ⟨Script.IsName, inferInstance, hlegible⟩

/-- The text of a script that comes from a source text, whether the program is analysed or not, is made
of tidy lines, each behind `depth * width` blanks and in front of a newline.  The depths are those that
the outline of the lines tells, which ends outside of all blocks.  Outside of strings, of which none is
left open, brackets pair up.  The width changes nothing but the blanks in front. -/
theorem scriptText_laid_out {source file : String} {p q : Program} (hp : parseSource source file = .ok p)
    (hq : q = p ∨ analyse Scope.root p = .ok q) :
    (∃ (texts : List String) (depths : List Nat), (∀ t ∈ texts, Tidy t) ∧
      outline [] texts = some (depths, []) ∧
      ∀ width, Text.segments (scriptText width q).toList = List.zipWith (indented width) depths texts) ∧
    (∀ width, ∃ nodes, Closes (scriptText width q) (flattenAll nodes) ∧
      nest (atoms (scriptText width q)) = some nodes) ∧
    ∀ width width', unindented (scriptText width q) = unindented (scriptText width' q) := by
  obtain ⟨N, _, hlegible⟩ := exists_legible (wellFormed_of_parseSource hp) hq
  have houtlined : Outlined [] (Script.bodyLines 0 (script q)) [] :=
    Script.outlined_body (script q) hlegible []
  refine ⟨⟨_, _, ?_, houtlined.depths, fun width => ?_⟩, fun width => ?_, fun width width' => ?_⟩
  · exact forall_mem_map.mpr houtlined.tidy
  · rw [zipWith_map_left, zipWith_map_right, zipWith_self]
    exact Script.segments_layout houtlined.tidy width
  · have hcloses := Script.reads_bodyLines (script q) hlegible 0 width
    refine ⟨_, hcloses, ?_⟩
    rw [scriptText, hcloses.reads.atoms]
    exact Script.nest_flattenAll _
  · exact (Script.unindented_layout houtlined.tidy width).trans
      (Script.unindented_layout houtlined.tidy width').symm

/-- a brace in a string, inside a case of a switch that nothing is known about -/
theorem scriptText_laid_out_switch : let x := Expr.name (.ofName "x") none
    let p : Program := [.switch x [⟨x, [.print (.literal (.string "\x7d") none)]⟩] none]
    parseSource "switch(x)\x7bcase x:print\"\x7d\";\x7d" "a.sc" = .ok p ∧
    scriptText 2 p = "switch (true) \x7b\n  case x:\n    console.log(\"\x7d\");\n    break;\n\x7d\n" ∧
    (∃ (texts : List String) (depths : List Nat), (∀ t ∈ texts, Tidy t) ∧
      outline [] texts = some (depths, []) ∧
      ∀ width, Text.segments (scriptText width p).toList = List.zipWith (indented width) depths texts) ∧
    (∃ nodes, nest (atoms (scriptText 2 p)) = some nodes) ∧
    unindented (scriptText 2 p) = unindented (scriptText 7 p) := by
  intro x p
  have hp : parseSource "switch(x)\x7bcase x:print\"\x7d\";\x7d" "a.sc" = .ok p := by cbv
  obtain ⟨hlines, hnodes, hwidths⟩ := scriptText_laid_out hp (.inl rfl)
  obtain ⟨nodes, _, hnest⟩ := hnodes 2
  exact ⟨hp, by cbv, hlines, ⟨nodes, hnest⟩, hwidths 2 7⟩

end TypedScript
