import TypedScript.Proofs.Pieces
import TypedScript.Text.Classes

/-!
# The atoms of a text

A text of the target language falls into words, strings, brackets and single marks.  Blanks and line
ends separate words and are dropped; what stands between the quotes of a string is not read.

* `Closes.reads_append`, `Reads.closes_append`, ... parts side by side;
* `closes_stringLiteral`: a string literal is one atom.
-/

namespace TypedScript.Script

open List

/-! ## atoms -/

inductive Bracket where
  | paren | square | curly
  deriving DecidableEq, Repr

inductive Atom where
  | word (text : String)
  | quoted
  | mark (c : Char)
  | opening (b : Bracket)
  | closing (b : Bracket)
  deriving DecidableEq, Repr

/-- the atoms of a character that is not part of a word or a string -/
def Atom.ofChar (c : Char) : List Atom :=
  match c with
  | ' ' => []
  | '\n' => []
  | '(' => [.opening .paren]
  | ')' => [.closing .paren]
  | '[' => [.opening .square]
  | ']' => [.closing .square]
  | '\x7b' => [.opening .curly]
  | '\x7d' => [.closing .curly]
  | c => [.mark c]

/-! ## the reader -/

/-- where a reader stands: between atoms, after some characters of a word, in a string, or behind a
backslash in a string -/
inductive Reader where
  | between
  | inWord (read : List Char)
  | inString
  | escaped
  deriving DecidableEq

namespace Reader

/-- the word that ends where a reader stands -/
def flush : Reader → List Atom
  | inWord cs => [.word (String.ofList cs)]
  | _ => []

/-- a character between atoms -/
def start (c : Char) : Reader × List Atom :=
  if Text.isWordPart c then (inWord [c], [])
  else if c = '"' then (inString, [])
  else (between, Atom.ofChar c)

/-- reads a character, and gives the atoms that it ends or is -/
def step : Reader → Char → Reader × List Atom
  | between, c => start c
  | inWord cs, c =>
    if Text.isWordPart c then (inWord (cs ++ [c]), [])
    else ((start c).1, (inWord cs).flush ++ (start c).2)
  | inString, c =>
    if c = '"' then (between, [.quoted])
    else if c = '\\' then (escaped, [])
    else (inString, [])
  | escaped, _ => (inString, [])

def run : Reader → List Char → Reader × List Atom
  | r, [] => (r, [])
  | r, c :: cs => (((r.step c).1.run cs).1, (r.step c).2 ++ ((r.step c).1.run cs).2)

theorem run_append (r : Reader) (cs ds : List Char) :
    r.run (cs ++ ds) = (((r.run cs).1.run ds).1, (r.run cs).2 ++ ((r.run cs).1.run ds).2) := by
  induction cs generalizing r with
  | nil => rfl
  | cons c cs ih =>
    rw [cons_append, run, ih, run, append_assoc]

/-- not in a string -/
def Outside : Reader → Prop
  | between => True
  | inWord _ => True
  | _ => False

theorem run_of_outside {r : Reader} (hr : r.Outside) (hc : Text.isWordPart c = false) (cs : List Char) :
    r.run (c :: cs) = ((between.run (c :: cs)).1, r.flush ++ (between.run (c :: cs)).2) := by
  have hstep : r.step c = ((between.step c).1, r.flush ++ (between.step c).2) := by
    cases r with
    | between => rfl
    | inWord ds => exact if_neg (Bool.eq_false_iff.mp hc)
    | inString => exact hr.elim
    | escaped => exact hr.elim
  rw [run, hstep, run, append_assoc]

end Reader

def atoms (text : String) : List Atom :=
  (Reader.between.run text.toList).2 ++ (Reader.between.run text.toList).1.flush

/-! ## parts of a text -/

/-- a part of a text from whose start a reader takes these atoms and does not end in a string -/
def Reads (t : String) (as : List Atom) : Prop :=
  ∃ r out, Reader.between.run t.toList = (r, out) ∧ r.Outside ∧ out ++ r.flush = as

/-- a part whose atoms end with it -/
def Closes (t : String) (as : List Atom) : Prop := Reader.between.run t.toList = (.between, as)

instance (t : String) (as : List Atom) : Decidable (Closes t as) :=
  inferInstanceAs (Decidable (_ = _))

/-- the first character ends a word in front of it -/
def startsApart (t : String) : Bool := t.toList.head?.any fun c => !Text.isWordPart c

variable {t u : String} {as bs : List Atom}

theorem Reads.atoms (h : Reads t as) : atoms t = as := by
  obtain ⟨r, out, hrun, _, rfl⟩ := h
  unfold Script.atoms
  rw [hrun]

theorem Closes.reads (h : Closes t as) : Reads t as := ⟨.between, as, h, trivial, append_nil as⟩

theorem closes_empty : Closes "" [] := rfl

theorem Closes.append (h : Closes t as) (h' : Closes u bs) : Closes (t ++ u) (as ++ bs) := by
  unfold Closes at h h' ⊢
  rw [String.toList_append, Reader.run_append, h, h']

theorem Closes.reads_append (h : Closes t as) (h' : Reads u bs) : Reads (t ++ u) (as ++ bs) := by
  obtain ⟨r, out, hrun, hr, rfl⟩ := h'
  refine ⟨r, as ++ out, ?_, hr, append_assoc as out _⟩
  unfold Closes at h
  rw [String.toList_append, Reader.run_append, h, hrun]

theorem run_append_apart (hrun : Reader.between.run t.toList = (r, out)) (hr : r.Outside)
    (hu : startsApart u = true) :
    Reader.between.run (t ++ u).toList = ((Reader.between.run u.toList).1,
      out ++ r.flush ++ (Reader.between.run u.toList).2) := by
  rw [String.toList_append, Reader.run_append, hrun]
  unfold startsApart at hu
  cases hlist : u.toList with
  | nil => rw [hlist] at hu; exact nomatch hu
  | cons c cs =>
    rw [hlist] at hu
    have hc : Text.isWordPart c = false := by simpa using hu
    dsimp only
    rw [Reader.run_of_outside hr hc, append_assoc]

theorem Reads.closes_append (h : Reads t as) (h' : Closes u bs) (hu : startsApart u = true) :
    Closes (t ++ u) (as ++ bs) := by
  obtain ⟨r, out, hrun, hr, rfl⟩ := h
  unfold Closes at h' ⊢
  rw [run_append_apart hrun hr hu, h']

/-! ## words -/

/-- the characters of a word -/
structure IsWord (x : String) : Prop where
  nonempty : x.toList ≠ []
  parts : ∀ c ∈ x.toList, Text.isWordPart c = true

theorem isWord_of_all {x : String} (hne : x.toList ≠ []) (h : x.toList.all Text.isWordPart = true) :
    IsWord x :=
  ⟨hne, all_eq_true.mp h⟩

theorem run_inWord (ds : List Char) (h : ∀ c ∈ cs, Text.isWordPart c = true) :
    (Reader.inWord ds).run cs = (.inWord (ds ++ cs), []) := by
  induction cs generalizing ds with
  | nil => rw [append_nil]; rfl
  | cons c cs ih =>
    have hstep : (Reader.inWord ds).step c = (.inWord (ds ++ [c]), []) :=
      if_pos (h c mem_cons_self)
    rw [Reader.run, hstep, ih _ fun c' hc' => h c' (mem_cons_of_mem c hc'), append_assoc]
    rfl

theorem IsWord.reads (h : IsWord x) : Reads x [.word x] := by
  cases hlist : x.toList with
  | nil => exact absurd hlist h.nonempty
  | cons c cs =>
    have hparts := h.parts
    rw [hlist] at hparts
    have hstep : Reader.between.step c = (.inWord [c], []) := if_pos (hparts c mem_cons_self)
    refine ⟨.inWord (c :: cs), [], ?_, trivial, ?_⟩
    · rw [hlist, Reader.run, hstep, run_inWord [c] fun c' hc' => hparts c' (mem_cons_of_mem c hc')]
      rfl
    · rw [← hlist]
      show [Atom.word (String.ofList x.toList)] = [Atom.word x]
      rw [String.ofList_toList]

theorem isWordPart_of_isDigit (h : Text.isDigit c = true) : Text.isWordPart c = true := by
  rw [Text.isWordPart, h, Bool.or_true]

/-! ## numbers -/

theorem isDigit_of_mem_toString {n : Nat} {c : Char} (h : c ∈ (toString n).toList) :
    Text.isDigit c = true := by
  have hlist : (toString n).toList = Nat.toDigits 10 n := Nat.toList_repr
  rw [hlist] at h
  have hdigit := Nat.isDigit_of_mem_toDigits (by decide) (by decide) h
  rw [Char.isDigit, Bool.and_eq_true, decide_eq_true_iff, decide_eq_true_iff] at hdigit
  rw [Text.isDigit, Bool.and_eq_true, decide_eq_true_iff, decide_eq_true_iff]
  exact hdigit

theorem isWord_toString (n : Nat) : IsWord (toString n) where
  nonempty := by
    have hlist : (toString n).toList = Nat.toDigits 10 n := Nat.toList_repr
    rw [hlist]
    exact Nat.toDigits_ne_nil
  parts _ hc := isWordPart_of_isDigit (isDigit_of_mem_toString hc)

/-! ## strings -/

theorem run_inString (hquote : c ≠ '"') (hbackslash : c ≠ '\\') (cs : List Char) :
    Reader.inString.run (c :: cs) = Reader.inString.run cs := by
  have hstep : Reader.inString.step c = (.inString, []) :=
    (if_neg hquote).trans (if_neg hbackslash)
  rw [Reader.run, hstep]
  rfl

theorem run_hexDigit (h : n < 16) (cs : List Char) :
    Reader.inString.run (hexDigit n :: cs) = Reader.inString.run cs := by
  have hdigits : ∀ n < 16, hexDigit n ≠ '"' ∧ hexDigit n ≠ '\\' := by decide
  obtain ⟨hquote, hbackslash⟩ := hdigits n h
  exact run_inString hquote hbackslash cs

theorem run_literalChar (c : Char) : Reader.inString.run (literalChar c) = (.inString, []) := by
  unfold literalChar
  by_cases hquote : c = '"'
  · rw [if_pos hquote]
    rfl
  by_cases hbackslash : c = '\\'
  · rw [if_neg hquote, if_pos hbackslash]
    rfl
  rw [if_neg hquote, if_neg hbackslash]
  split
  · rfl
  split
  · rfl
  split
  · rfl
  split
  · rfl
  split
  · next hcontrol =>
    have hsmall : c.toNat < 256 := by
      rw [Bool.or_eq_true, decide_eq_true_iff, decide_eq_true_iff] at hcontrol
      omega
    show Reader.inString.run [_, _] = _
    rw [run_hexDigit (Nat.div_lt_of_lt_mul hsmall), run_hexDigit (Nat.mod_lt _ (by decide))]
    rfl
  · exact run_inString hquote hbackslash []

theorem run_literalChars (cs : List Char) :
    Reader.inString.run (cs.flatMap literalChar) = (.inString, []) := by
  induction cs with
  | nil => rfl
  | cons c cs ih => rw [flatMap_cons, Reader.run_append, run_literalChar, ih]; rfl

theorem closes_stringLiteral (s : String) : Closes (stringLiteral s) [.quoted] := by
  unfold Closes stringLiteral literalChars
  rw [String.toList_ofList]
  show (((Reader.inString.run _).1), [] ++ (Reader.inString.run _).2) = _
  rw [Reader.run_append, run_literalChars]
  rfl

/-! ## lines -/

/-- lines from which a reader takes these atoms -/
def ReadsLines (ls : List Line) (as : List Atom) : Prop := ∀ width, Closes (layout width ls) as

theorem readsLines_nil : ReadsLines [] [] := fun _ => closes_empty

theorem ReadsLines.append (h : ReadsLines ls as) (h' : ReadsLines ms bs) :
    ReadsLines (ls ++ ms) (as ++ bs) := by
  intro width
  rw [layout_append]
  exact (h width).append (h' width)

theorem closes_blanks (n : Nat) : Closes (String.ofList (List.replicate n ' ')) [] := by
  unfold Closes
  rw [String.toList_ofList]
  induction n with
  | zero => rfl
  | succ n ih =>
    rw [replicate_succ]
    show ((Reader.between.run _).1, [] ++ (Reader.between.run _).2) = _
    rw [ih]
    rfl

theorem Reads.line (h : Reads t as) (d : Nat) : ReadsLines [⟨d, t⟩] as := by
  intro width
  have hindented : Reads (String.ofList (List.replicate (d * width) ' ') ++ t) as :=
    (closes_blanks (d * width)).reads_append h
  have hline : Closes (Line.layout width ⟨d, t⟩) (as ++ []) := hindented.closes_append rfl rfl
  rw [append_nil] at hline
  rw [layout_cons, layout_nil, String.append_empty]
  exact hline

theorem ReadsLines.cons {d : Nat} {ls : List Line} (h : Reads t as) (h' : ReadsLines ls bs) :
    ReadsLines (⟨d, t⟩ :: ls) (as ++ bs) := (h.line d).append h'

end TypedScript.Script
