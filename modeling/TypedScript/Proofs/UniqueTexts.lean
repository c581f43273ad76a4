import TypedScript.Proofs.NodeParts
import TypedScript.Proofs.SourceNumbers
import TypedScript.Proofs.StringLiterals

/-!
# Script expressions have texts of their own

Two script expressions with one text are equal.  The nodes of a text show how an expression is made: it is a
chain that ends with arguments, an index or a member, or it is as long as its first node says.  So equal
nodes come from expressions of one kind, and from parts with equal nodes.  The nodes do not tell what stands
in strings; that is read from the text, part by part.
-/

namespace TypedScript.Script

open List

/-! ## readable trees -/

variable {v : Literal}

def Literal.Readable : Literal → Prop
  | .integer n => 0 ≤ n
  | .long digits => isNumeral digits = true
  | _ => True

def Expr.isIdent : Expr → Bool
  | .ident _ => true
  | _ => false

mutual

def Expr.Readable : Expr → Prop
  | .literal v => Literal.Readable v
  | .ident x => IsName x ∧ x ∉ fixedWords
  | .binary _ l r => l.Readable ∧ r.Readable
  | .truncate q => q.Readable
  | .unary _ x => x.Readable
  | .group x => x.Readable
  | .call f as => f.Readable ∧ Expr.AllReadable as
  | .construct f as => f.isIdent = true ∧ f.Readable ∧ Expr.AllReadable as
  | .await x => x.Readable
  | .subscript b i => b.Readable ∧ i.Readable
  | .member o x => o.Readable ∧ IsName x
  | .array es => Expr.AllReadable es
  | .newSet es => Expr.AllReadable es
  | .object entries => Expr.EntriesReadable entries

def Expr.AllReadable : List Expr → Prop
  | [] => True
  | e :: es => e.Readable ∧ Expr.AllReadable es

def Expr.EntriesReadable : List (Expr × Expr) → Prop
  | [] => True
  | (k, v) :: es => k.Readable ∧ v.Readable ∧ Expr.EntriesReadable es

end

theorem Literal.Readable.legible (h : Literal.Readable v) : Literal.Legible v := by
  cases v with
  | long digits => exact h
  | _ => trivial

mutual

theorem Expr.Readable.legible {e : Expr} (h : e.Readable) : e.Legible := by
  match e, h with
  | .literal v, h => exact Literal.Readable.legible h
  | .ident x, h => exact h.1
  | .binary op l r, h | .subscript b i, h => exact ⟨h.1.legible, h.2.legible⟩
  | .truncate q, h => exact Expr.Readable.legible (e := q) h
  | .unary op x, h | .group x, h | .await x, h => exact Expr.Readable.legible (e := x) h
  | .call f as, h => exact ⟨h.1.legible, Expr.AllReadable.legible h.2⟩
  | .construct f as, h => exact ⟨h.2.1.legible, Expr.AllReadable.legible h.2.2⟩
  | .member o x, h => exact ⟨h.1.legible, h.2⟩
  | .array es, h | .newSet es, h => exact Expr.AllReadable.legible (show Expr.AllReadable es from h)
  | .object es, h => exact Expr.EntriesReadable.legible (show Expr.EntriesReadable es from h)

theorem Expr.AllReadable.legible (h : Expr.AllReadable es) : Expr.AllLegible es := by
  match es, h with
  | [], _ => trivial
  | e :: es, h => exact ⟨h.1.legible, Expr.AllReadable.legible h.2⟩

theorem Expr.EntriesReadable.legible (h : Expr.EntriesReadable es) : Expr.EntriesLegible es := by
  match es, h with
  | [], _ => trivial
  | (k, v) :: es, h => exact ⟨h.1.legible, h.2.1.legible, Expr.EntriesReadable.legible h.2.2⟩

end

/-! ## nodes of expressions -/

variable {w x : String}

def Node.isMark : Node → Bool
  | .mark _ => true
  | _ => false

/-- the marks that stand between operands, keys and elements -/
def Node.isOperator : Node → Bool
  | .mark c => c != '.'
  | _ => false

def Node.isAwait : Node → Bool
  | .word w => w = "await"
  | _ => false

theorem literalNodes_eq (h : Literal.Readable v) :
    literalNodes v = [.word (literalText v)] ∨ literalNodes v = [.quoted] := by
  cases v with
  | integer n =>
    obtain ⟨m, rfl⟩ := Int.eq_ofNat_of_zero_le h
    exact .inl rfl
  | string s => exact .inr rfl
  | long | boolean | null => exact .inl rfl

theorem Expr.isOperator_nodes (e : Expr) (h : e.Readable) : ∀ n ∈ e.nodes, n.isOperator = false := by
  have hone : ∀ n : Node, n.isOperator = false → ∀ m ∈ [n], m.isOperator = false :=
    fun n hn => forall_mem_singleton.mpr hn
  match e, h with
  | .literal v, h =>
    show ∀ n ∈ literalNodes v, _
    rcases literalNodes_eq h with hv | hv <;> rw [hv] <;> exact hone _ rfl
  | .call f as, h => exact forall_mem_append.mpr ⟨f.isOperator_nodes h.1, hone _ rfl⟩
  | .construct f as, h =>
    refine forall_mem_cons.mpr ⟨rfl, ?_⟩
    exact forall_mem_append.mpr ⟨f.isOperator_nodes h.2.1, hone _ rfl⟩
  | .subscript b i, h => exact forall_mem_append.mpr ⟨b.isOperator_nodes h.1, hone _ rfl⟩
  | .member o x, h =>
    refine forall_mem_append.mpr ⟨o.isOperator_nodes h.1, ?_⟩
    exact forall_mem_cons.mpr ⟨by decide, hone _ rfl⟩
  | .truncate q, _ =>
    exact forall_mem_cons.mpr ⟨rfl, forall_mem_cons.mpr ⟨by decide,
      forall_mem_cons.mpr ⟨rfl, hone _ rfl⟩⟩⟩
  | .newSet es, _ => exact forall_mem_cons.mpr ⟨rfl, forall_mem_cons.mpr ⟨rfl, hone _ rfl⟩⟩
  | .ident _, _ | .binary _ _ _, _ | .unary _ _, _ | .group _, _ | .await _, _ | .array _, _ | .object _, _ =>
    exact hone _ rfl

def leastNodes : Node → Nat
  | .word w => if w = "Math" then 4 else if w = "new" then 3 else 1
  | _ => 1

/-- a node with which an expression can start -/
structure Node.Starts (n : Node) : Prop where
  notMark : n.isMark = false
  notAwait : n.isAwait = false

theorem starts_word (hawait : w ≠ "await") (hmath : w ≠ "Math") (hnew : w ≠ "new") :
    Node.Starts (.word w) ∧ leastNodes (.word w) = 1 := by
  refine ⟨⟨rfl, decide_eq_false hawait⟩, ?_⟩
  rw [leastNodes, if_neg hmath, if_neg hnew]

theorem starts_ident (hx : IsName x) (hfixed : x ∉ fixedWords) :
    Node.Starts (.word x) ∧ leastNodes (.word x) = 1 :=
  starts_word hx.notAwait (fun heq => hfixed (heq ▸ by decide)) (fun heq => hfixed (heq ▸ by decide))

def isLiteralWord (w : String) : Bool := isNumber w || w ∈ ["true", "false", "null"]

theorem isLiteralWord_literalText (h : Literal.Readable v) (hv : literalNodes v ≠ [.quoted]) :
    isLiteralWord (literalText v) = true := by
  cases v with
  | integer n =>
    obtain ⟨m, rfl⟩ := Int.eq_ofNat_of_zero_le h
    rw [isLiteralWord, Bool.or_eq_true]
    exact .inl (isNumber_toString m)
  | long digits =>
    rw [isLiteralWord, Bool.or_eq_true]
    exact .inl (isNumber_of_isNumeral h "n")
  | string s => exact absurd rfl hv
  | boolean b => cases b <;> decide
  | null => decide

theorem starts_literalWord (h : isLiteralWord w = true) :
    Node.Starts (.word w) ∧ leastNodes (.word w) = 1 := by
  refine starts_word ?_ ?_ ?_ <;>
  · rintro rfl
    exact absurd h (by decide)

/-- the first node of an expression, and its length -/
structure Expr.StartsWith (e : Expr) (n : Node) (ns : List Node) : Prop where
  nodes : e.nodes = n :: ns
  starts : n.Starts
  least : leastNodes n ≤ ns.length + 1

theorem Expr.exists_startsWith (e : Expr) (h : e.Readable) : ∃ n ns, e.StartsWith n ns := by
  have hclosed : ∀ {e : Expr} {n : Node} {ns : List Node}, e.nodes = n :: ns → n.Starts →
      leastNodes n = ns.length + 1 → ∃ n ns, e.StartsWith n ns :=
    fun hnodes hstarts hleast => ⟨_, _, hnodes, hstarts, hleast.le⟩
  have hchain : ∀ {e f : Expr} {ms : List Node}, (∃ n ns, f.StartsWith n ns) → e.nodes = f.nodes ++ ms →
      ∃ n ns, e.StartsWith n ns := by
    rintro e f ms ⟨n, ns, hf⟩ hnodes
    refine ⟨n, ns ++ ms, by rw [hnodes, hf.nodes, cons_append], hf.starts, ?_⟩
    have hle := hf.least
    rw [length_append]
    omega
  match e, h with
  | .literal v, h =>
    by_cases hv : literalNodes v = [.quoted]
    · exact hclosed hv ⟨rfl, rfl⟩ rfl
    · obtain ⟨hstarts, hleast⟩ := starts_literalWord (isLiteralWord_literalText h hv)
      exact hclosed ((literalNodes_eq h).resolve_right hv) hstarts hleast
  | .ident x, h =>
    obtain ⟨hstarts, hleast⟩ := starts_ident h.1 h.2
    exact hclosed rfl hstarts hleast
  | .truncate q, _ | .newSet es, _ => exact hclosed rfl ⟨rfl, by decide⟩ (by simp [leastNodes])
  | .construct (.ident x) as, _ => exact hclosed rfl ⟨rfl, by decide⟩ (by simp [leastNodes, Expr.nodes])
  | .call f as, h => exact hchain (f.exists_startsWith h.1) rfl
  | .subscript b i, h => exact hchain (b.exists_startsWith h.1) rfl
  | .member o x, h => exact hchain (o.exists_startsWith h.1) rfl
  | .binary op l r, _ | .unary op x, _ | .group x, _ | .await x, _ | .array es, _ =>
    exact hclosed rfl ⟨rfl, rfl⟩ rfl
  | .object es, _ => exact hclosed rfl ⟨rfl, rfl⟩ rfl

/-! ## kinds -/

variable {ms : List Node} {e : Expr}

inductive Kind where
  | literal | ident | binary | truncate | unary | group | call | construct | await | subscript | member
  | array | newSet | object
  deriving DecidableEq

def Expr.kind : Expr → Kind
  | .literal _ => .literal
  | .ident _ => .ident
  | .binary _ _ _ => .binary
  | .truncate _ => .truncate
  | .unary _ _ => .unary
  | .group _ => .group
  | .call _ _ => .call
  | .construct _ _ => .construct
  | .await _ => .await
  | .subscript _ _ => .subscript
  | .member _ _ => .member
  | .array _ => .array
  | .newSet _ => .newSet
  | .object _ => .object

/-- what stands in parentheses -/
def parenKind (inner : List Node) : Kind :=
  if inner.head?.any Node.isMark then .unary
  else if inner.head?.any Node.isAwait then .await
  else if inner.any Node.isOperator then .binary
  else .group

/-- what starts with a word, and does not go on behind it, or goes on as the word says -/
def wordKind (w : String) (rest : List Node) : Kind :=
  if w = "Math" then .truncate
  else if w = "new" then
    match rest with
    | .word x :: _ => if x = "Set" then .newSet else .construct
    | _ => .construct
  else if isLiteralWord w then .literal
  else .ident

def closedKind : Node → List Node → Kind
  | .word w, rest => wordKind w rest
  | .quoted, _ => .literal
  | .mark _, _ => .literal
  | .group .paren inner, _ => parenKind inner
  | .group .square _, _ => .array
  | .group .curly _, _ => .object

def chainKind : Option Node → Kind
  | some (.group .paren _) => .call
  | some (.group .square _) => .subscript
  | _ => .member

/-- the kind of an expression with these nodes -/
def kindOf : List Node → Kind
  | [] => .literal
  | n :: ns => if leastNodes n = ns.length + 1 then closedKind n ns else chainKind (n :: ns).getLast?

theorem kindOf_chain (h : e.Readable) (hms : ms ≠ []) : kindOf (e.nodes ++ ms) = chainKind ms.getLast? := by
  obtain ⟨n, ns, hstarts⟩ := e.exists_startsWith h
  have hlonger : leastNodes n ≠ (ns ++ ms).length + 1 := by
    have hle := hstarts.least
    have hpos := length_pos_iff.mpr hms
    rw [length_append]
    omega
  rw [hstarts.nodes, cons_append, kindOf, if_neg hlonger, ← cons_append,
    List.getLast?_append_of_ne_nil _ hms]

theorem parenKind_of_starts {n : Node} (hn : n.Starts) (ns : List Node) :
    parenKind (n :: ns) = if (n :: ns).any Node.isOperator then .binary else .group := by
  rw [parenKind, List.head?_cons, Option.any_some, hn.notMark, Option.any_some, hn.notAwait]
  rfl

theorem any_isOperator_markNodes (op : BinaryOp) :
    (markNodes (operatorText op)).any Node.isOperator = true := by
  cases op <;> rfl

theorem kindOf_word (hmath : w ≠ "Math") (hnew : w ≠ "new") :
    kindOf [.word w] = if isLiteralWord w then .literal else .ident := by
  have hleast : leastNodes (.word w) = 1 := by rw [leastNodes, if_neg hmath, if_neg hnew]
  show (if leastNodes (.word w) = 1 then wordKind w [] else _) = _
  unfold wordKind
  rw [if_pos hleast, if_neg hmath, if_neg hnew]

theorem isLiteralWord_eq_false (hx : IsName x) (hfixed : x ∉ fixedWords) : isLiteralWord x = false := by
  have hwords : ∀ w ∈ ["true", "false", "null"], w ∈ fixedWords := by decide
  rw [isLiteralWord, hx.notNumber, Bool.false_or]
  exact decide_eq_false fun hmem => hfixed (hwords x hmem)

theorem kindOf_nodes (e : Expr) (h : e.Readable) : kindOf e.nodes = e.kind := by
  match e, h with
  | .literal v, h =>
    by_cases hv : literalNodes v = [.quoted]
    · rw [Expr.nodes, hv]
      rfl
    · have hword := isLiteralWord_literalText h hv
      have hne : ∀ w, isLiteralWord w = false → literalText v ≠ w := by
        rintro w hw rfl
        exact Bool.false_ne_true (hw.symm.trans hword)
      rw [Expr.nodes, (literalNodes_eq h).resolve_right hv,
        kindOf_word (hne _ (by decide)) (hne _ (by decide)),
        if_pos hword]
      rfl
  | .ident x, h =>
    have hne : ∀ w ∈ fixedWords, x ≠ w := by
      rintro w hw rfl
      exact h.2 hw
    rw [Expr.nodes, kindOf_word (hne _ (by decide)) (hne _ (by decide)), isLiteralWord_eq_false h.1 h.2]
    rfl
  | .binary op l r, h =>
    obtain ⟨n, ns, hl⟩ := l.exists_startsWith h.1
    show parenKind (l.nodes ++ (markNodes (operatorText op) ++ r.nodes)) = .binary
    have hany : (l.nodes ++ (markNodes (operatorText op) ++ r.nodes)).any Node.isOperator = true := by
      rw [any_append, any_append, any_isOperator_markNodes, Bool.true_or, Bool.or_true]
    rw [hl.nodes, cons_append] at hany ⊢
    rw [parenKind_of_starts hl.starts, if_pos hany]
  | .unary op x, _ => cases op <;> rfl
  | .group x, h =>
    obtain ⟨n, ns, hx⟩ := Expr.exists_startsWith x h
    have hany : x.nodes.any Node.isOperator = false :=
      any_eq_false.mpr fun n hn => Bool.eq_false_iff.mp (x.isOperator_nodes h n hn)
    show parenKind x.nodes = .group
    rw [hx.nodes] at hany ⊢
    rw [parenKind_of_starts hx.starts, hany]
    rfl
  | .await x, _ | .truncate q, _ | .newSet es, _ | .array es, _ | .object es, _ => rfl
  | .construct (.ident x) as, h =>
    have hset : x ≠ "Set" := fun heq => h.2.1.2 (heq ▸ by decide)
    exact if_neg hset
  | .call f as, h | .subscript b i, h | .member o x, h => exact kindOf_chain h.1 (cons_ne_nil _ _)

/-! ## taking nodes apart -/

variable {op op' : BinaryOp} {nss mss : List (List Node)} {e' : Expr} {ns : List Node}

theorem find?_operatorText (op : BinaryOp) :
    (BinaryOp.all.find? fun other => operatorText other = operatorText op) = some op := by
  cases op <;> rfl

theorem operatorText_inj (h : operatorText op = operatorText op') : op = op' := by
  have hfind := find?_operatorText op
  rw [h, find?_operatorText op'] at hfind
  exact (Option.some.inj hfind).symm

theorem find?_symbol (op : UnaryOp) :
    (UnaryOp.all.find? fun other => other.symbol = op.symbol) = some op := by
  cases op <;> rfl

theorem symbol_inj {op op' : UnaryOp} (h : op.symbol = op'.symbol) : op = op' := by
  have hfind := find?_symbol op
  rw [h, find?_symbol op'] at hfind
  exact (Option.some.inj hfind).symm

theorem append_inj_of_stop {α : Type} {p : α → Bool} {as as' bs bs' : List α}
    (has : ∀ a ∈ as, p a = false) (has' : ∀ a ∈ as', p a = false) (hbs : ∀ b ∈ bs.head?, p b = true)
    (hbs' : ∀ b ∈ bs'.head?, p b = true) (h : as ++ bs = as' ++ bs') : as = as' ∧ bs = bs' := by
  have hcut : ∀ {as bs : List α}, (∀ a ∈ as, p a = false) → (∀ b ∈ bs.head?, p b = true) →
      (as ++ bs).takeWhile (fun a => !p a) = as := by
    intro as bs has hbs
    rw [takeWhile_append_of_pos fun a ha => by rw [has a ha]; rfl]
    cases bs with
    | nil => simp
    | cons b bs => simp [hbs b rfl]
  have heq : as = as' := by rw [← hcut has hbs, h, hcut has' hbs']
  subst heq
  exact ⟨rfl, append_cancel_left h⟩

theorem commaNodes_ne_nil (hns : ns ≠ []) (nss : List (List Node)) : commaNodes (ns :: nss) ≠ [] := by
  cases nss with
  | nil => exact hns
  | cons ms nss => exact append_ne_nil_of_left_ne_nil hns _

/-- a part of a list -/
def IsElement (ns : List Node) : Prop := ns ≠ [] ∧ ∀ n ∈ ns, n.isComma = false

def furtherNodes : List (List Node) → List Node
  | [] => []
  | ns :: nss => .mark ',' :: commaNodes (ns :: nss)

theorem commaNodes_cons (ns : List Node) (nss : List (List Node)) :
    commaNodes (ns :: nss) = ns ++ furtherNodes nss := by
  cases nss with
  | nil => exact (append_nil ns).symm
  | cons ms nss => rfl

theorem isComma_furtherNodes (nss : List (List Node)) : ∀ n ∈ (furtherNodes nss).head?, n.isComma = true := by
  intro n hn
  cases nss with
  | nil => exact nomatch hn
  | cons ms nss =>
    cases hn
    rfl

theorem commaNodes_eq_of_further (h : furtherNodes nss = furtherNodes mss) :
    commaNodes nss = commaNodes mss := by
  cases nss with
  | nil =>
    cases mss with
    | nil => rfl
    | cons => cases h
  | cons =>
    cases mss with
    | nil => cases h
    | cons => exact (List.cons.inj h).2

theorem commaNodes_inj (hnss : ∀ ns ∈ nss, IsElement ns)
    (hmss : ∀ ms ∈ mss, IsElement ms) (h : commaNodes nss = commaNodes mss) : nss = mss := by
  induction nss generalizing mss with
  | nil =>
    cases mss with
    | nil => rfl
    | cons ms mss => exact absurd h.symm (commaNodes_ne_nil (hmss ms mem_cons_self).1 mss)
  | cons ns nss ih =>
    obtain ⟨hns, hnss⟩ := forall_mem_cons.mp hnss
    cases mss with
    | nil => exact absurd h (commaNodes_ne_nil hns.1 nss)
    | cons ms mss =>
      obtain ⟨hms, hrest⟩ := forall_mem_cons.mp hmss
      rw [commaNodes_cons, commaNodes_cons] at h
      obtain ⟨rfl, htail⟩ := append_inj_of_stop hns.2 hms.2 (isComma_furtherNodes nss)
        (isComma_furtherNodes mss) h
      exact congrArg (ns :: ·) (ih hnss hrest (commaNodes_eq_of_further htail))

theorem isElement_nodes (e : Expr) : IsElement e.nodes := ⟨e.nodes_ne_nil, e.isComma_nodes⟩

theorem isElement_allNodes (es : List Expr) : ∀ ns ∈ Expr.allNodes es, IsElement ns := by
  rw [Expr.allNodes_eq_map]
  exact forall_mem_map.mpr fun e _ => isElement_nodes e

theorem isElement_entryNodes (es : List (Expr × Expr)) : ∀ ns ∈ Expr.entryNodes es, IsElement ns := by
  induction es with
  | nil => exact forall_mem_nil _
  | cons entry es ih =>
    obtain ⟨k, v⟩ := entry
    refine forall_mem_cons.mpr ⟨⟨append_ne_nil_of_left_ne_nil k.nodes_ne_nil _, ?_⟩, ih⟩
    exact forall_mem_append.mpr ⟨k.isComma_nodes, forall_mem_cons.mpr ⟨rfl, v.isComma_nodes⟩⟩

/-- marks end where an operand starts -/
theorem markNodes_inj (he : e.Readable) (he' : e'.Readable)
    (h : markNodes t ++ e.nodes = markNodes t' ++ e'.nodes) : t = t' ∧ e.nodes = e'.nodes := by
  have hmarks : ∀ t : String, ∀ n ∈ markNodes t, (!n.isMark) = false :=
    fun t => forall_mem_map.mpr fun c _ => rfl
  have hstart : ∀ e : Expr, e.Readable → ∀ n ∈ e.nodes.head?, (!n.isMark) = true := by
    intro e he n hn
    obtain ⟨m, ms, hm⟩ := e.exists_startsWith he
    rw [hm.nodes] at hn
    cases hn
    rw [hm.starts.notMark]
    rfl
  obtain ⟨hmarked, hoperand⟩ := append_inj_of_stop (hmarks t) (hmarks t') (hstart e he) (hstart e' he') h
  have hchars : t.toList = t'.toList := by
    unfold markNodes at hmarked
    exact map_injective_iff.mpr (fun _ _ => Node.mark.inj) hmarked
  exact ⟨String.toList_inj.mp hchars, hoperand⟩

theorem binaryNodes_inj {l l' r r' : Expr} (hl : l.Readable) (hl' : l'.Readable)
    (hr : r.Readable) (hr' : r'.Readable)
    (h : l.nodes ++ (markNodes (operatorText op) ++ r.nodes)
      = l'.nodes ++ (markNodes (operatorText op') ++ r'.nodes)) :
    l.nodes = l'.nodes ∧ op = op' ∧ r.nodes = r'.nodes := by
  have hoperator : ∀ (op : BinaryOp) (ns : List Node),
      ∀ n ∈ (markNodes (operatorText op) ++ ns).head?, n.isOperator = true := by
    intro op ns n hn
    cases op <;> cases hn <;> rfl
  obtain ⟨hleft, hrest⟩ := append_inj_of_stop (l.isOperator_nodes hl) (l'.isOperator_nodes hl')
    (hoperator op r.nodes) (hoperator op' r'.nodes) h
  obtain ⟨hop, hright⟩ := markNodes_inj hr hr' hrest
  exact ⟨hleft, operatorText_inj hop, hright⟩

theorem entryNodes_inj {k k' v v' : Expr} (hk : k.Readable) (hk' : k'.Readable)
    (h : k.nodes ++ Node.mark ':' :: v.nodes = k'.nodes ++ Node.mark ':' :: v'.nodes) :
    k.nodes = k'.nodes ∧ v.nodes = v'.nodes := by
  have hcolon : ∀ ns : List Node, ∀ n ∈ (Node.mark ':' :: ns).head?, n.isOperator = true := by
    intro ns n hn
    cases hn
    rfl
  obtain ⟨hkey, hvalue⟩ := append_inj_of_stop (k.isOperator_nodes hk) (k'.isOperator_nodes hk')
    (hcolon v.nodes) (hcolon v'.nodes) h
  exact ⟨hkey, (List.cons.inj hvalue).2⟩

theorem chainNodes_inj (h : ns ++ [Node.group b ms] = ns' ++ [Node.group b' ms']) : ns = ns' ∧ ms = ms' := by
  obtain ⟨hfront, hlast⟩ := append_inj' h rfl
  exact ⟨hfront, (Node.group.inj (List.cons.inj hlast).1).2⟩

/-! ## texts of lists -/

variable {r r' : String}

def furtherText : List String → String
  | [] => ""
  | t :: ts => ", " ++ commas (t :: ts)

theorem commas_cons (t : String) (ts : List String) : commas (t :: ts) = t ++ furtherText ts := by
  unfold commas
  cases ts with
  | nil =>
    rw [String.intercalate_singleton]
    exact String.append_empty.symm
  | cons u us =>
    rw [String.intercalate_cons_cons, String.append_assoc]
    rfl

/-- lists of one length that go on with one text -/
theorem commas_eq_of_further {ts ts' : List String} (hlength : ts.length = ts'.length)
    (h : furtherText ts ++ r = furtherText ts' ++ r') : commas ts ++ r = commas ts' ++ r' := by
  cases ts with
  | nil =>
    cases ts' with
    | nil => exact h
    | cons => cases hlength
  | cons t ts =>
    cases ts' with
    | nil => cases hlength
    | cons t' ts' =>
      simp only [furtherText, String.append_assoc, String.append_right_inj] at h
      exact h

theorem Expr.length_texts (es : List Expr) : (Expr.texts es).length = (Expr.allNodes es).length := by
  rw [Expr.texts_eq_map, Expr.allNodes_eq_map, length_map, length_map]

theorem Expr.length_entryTexts (es : List (Expr × Expr)) :
    (Expr.entryTexts es).length = (Expr.entryNodes es).length := by
  induction es with
  | nil => rfl
  | cons e es ih => exact congrArg Nat.succ ih

/-! ## literals -/

def literalOfWord (w : String) : Literal :=
  if w = "true" then .boolean true
  else if w = "false" then .boolean false
  else if w = "null" then .null
  else if w.toList.getLast? = some 'n' then .long (String.ofList w.toList.dropLast)
  else .integer (Text.digitsValue w.toList)

theorem literalOfWord_literalText (h : Literal.Readable v) (hv : literalNodes v ≠ [.quoted]) :
    literalOfWord (literalText v) = v := by
  have hword := isLiteralWord_literalText h hv
  have hne : ∀ w x : String, isNumber x = true → isNumber w = false → x ≠ w := by
    rintro w x hx hw rfl
    exact Bool.false_ne_true (hw.symm.trans hx)
  cases v with
  | integer n =>
    obtain ⟨m, rfl⟩ := Int.eq_ofNat_of_zero_le h
    have hnumber : isNumber (toString m) = true := isNumber_toString m
    have hlist : (toString m).toList = Nat.toDigits 10 m := Nat.toList_repr
    have hlast : (toString m).toList.getLast? ≠ some 'n' := by
      intro hn
      have hdigit := isDigit_of_mem_toString (n := m) (mem_of_getLast? hn)
      exact absurd hdigit (by decide)
    show literalOfWord (toString m) = .integer m
    rw [literalOfWord, if_neg (hne _ _ hnumber (by decide)), if_neg (hne _ _ hnumber (by decide)),
      if_neg (hne _ _ hnumber (by decide)), if_neg hlast, hlist, digitsValue_toDigits]
  | long digits =>
    have hnumber : isNumber (digits ++ "n") = true := isNumber_of_isNumeral h "n"
    have hlist : (digits ++ "n").toList = digits.toList ++ ['n'] := String.toList_append
    have hlast : (digits ++ "n").toList.getLast? = some 'n' := by rw [hlist, List.getLast?_concat]
    show literalOfWord (digits ++ "n") = .long digits
    rw [literalOfWord, if_neg (hne _ _ hnumber (by decide)), if_neg (hne _ _ hnumber (by decide)),
      if_neg (hne _ _ hnumber (by decide)), if_pos hlast, hlist, dropLast_concat, String.ofList_toList]
  | string s => exact absurd rfl hv
  | boolean b => cases b <;> rfl
  | null => rfl

/-- a string ends at its closing quote, whatever follows -/
theorem stringLiteral_inj (h : stringLiteral s ++ r = stringLiteral s' ++ r') : s = s' ∧ r = r' := by
  have hlist : (stringLiteral s).toList ++ r.toList = (stringLiteral s').toList ++ r'.toList := by
    rw [← String.toList_append, ← String.toList_append, h]
  have hfirst : Pattern.first? ((stringLiteral s).toList ++ r.toList)
      = some (.string, (stringLiteral s).toList, r.toList) := Pattern.first?_string (matches_stringLiteral s)
  rw [hlist, Pattern.first?_string (matches_stringLiteral s')] at hfirst
  obtain ⟨htext, hrest⟩ := Prod.mk.inj (Prod.mk.inj (Option.some.inj hfirst)).2
  have hread : some (TokenKind.string, s') = some (.string, s) := by
    rw [← read_stringLiteral s', htext, read_stringLiteral s]
  exact ⟨(Prod.mk.inj (Option.some.inj hread)).2.symm, String.toList_inj.mp hrest.symm⟩

theorem eq_string_of_quoted (h : Literal.Readable v) (hquoted : literalNodes v = [.quoted]) :
    ∃ s, v = .string s := by
  cases v with
  | string s => exact ⟨s, rfl⟩
  | integer n =>
    obtain ⟨m, rfl⟩ := Int.eq_ofNat_of_zero_le h
    cases hquoted
  | long | boolean | null => cases hquoted

theorem literal_unique (h : Literal.Readable v) (h' : Literal.Readable v')
    (hnodes : literalNodes v = literalNodes v') (htext : literalText v ++ r = literalText v' ++ r') :
    v = v' ∧ r = r' := by
  by_cases hv : literalNodes v = [.quoted]
  · obtain ⟨s, rfl⟩ := eq_string_of_quoted h hv
    obtain ⟨s', rfl⟩ := eq_string_of_quoted h' (hnodes ▸ hv)
    obtain ⟨rfl, rfl⟩ := stringLiteral_inj htext
    exact ⟨rfl, rfl⟩
  · have hv' : literalNodes v' ≠ [.quoted] := hnodes ▸ hv
    have hword : literalText v = literalText v' := by
      rw [(literalNodes_eq h).resolve_right hv, (literalNodes_eq h').resolve_right hv'] at hnodes
      exact Node.word.inj (List.cons.inj hnodes).1
    rw [hword, String.append_right_inj] at htext
    refine ⟨?_, htext⟩
    rw [← literalOfWord_literalText h hv, hword, literalOfWord_literalText h' hv']

/-! ## equal texts -/

mutual

/-- Expressions with the same nodes, each at the start of one text: they end at one place, and are equal.
The kind of the second one follows from the nodes, and then both texts are read side by side. -/
theorem Expr.unique (e : Expr) (h : e.Readable) {e' : Expr} (h' : e'.Readable) (hnodes : e.nodes = e'.nodes)
    {r r' : String} (htext : e.text ++ r = e'.text ++ r') : e = e' ∧ r = r' := by
  have hkind : e.kind = e'.kind := by rw [← kindOf_nodes e h, hnodes, kindOf_nodes e' h']
  match e with
  | .literal v =>
    cases e' with
    | literal v' =>
      obtain ⟨rfl, rfl⟩ := literal_unique h h' hnodes htext
      exact ⟨rfl, rfl⟩
    | _ => cases hkind
  | .ident x =>
    cases e' with
    | ident x' =>
      cases hnodes
      exact ⟨rfl, (String.append_right_inj _).mp htext⟩
    | _ => cases hkind
  | .binary op left right =>
    cases e' with
    | binary op' left' right' =>
      obtain ⟨hl, rfl, hr⟩ := binaryNodes_inj h.1 h'.1 h.2 h'.2 (Node.group.inj (List.cons.inj hnodes).1).2
      simp only [Expr.text, String.append_assoc, String.append_right_inj] at htext
      obtain ⟨rfl, hrest⟩ := left.unique h.1 h'.1 hl htext
      simp only [String.append_right_inj] at hrest
      obtain ⟨rfl, hend⟩ := right.unique h.2 h'.2 hr hrest
      exact ⟨rfl, (String.append_right_inj _).mp hend⟩
    | _ => cases hkind
  | .truncate q =>
    cases e' with
    | truncate q' =>
      have hq : q.Readable ∧ q'.Readable := ⟨h, h'⟩
      have hinner : q.nodes = q'.nodes := by simpa [Expr.nodes] using hnodes
      simp only [Expr.text, String.append_assoc, String.append_right_inj] at htext
      obtain ⟨rfl, hend⟩ := q.unique hq.1 hq.2 hinner htext
      exact ⟨rfl, (String.append_right_inj _).mp hend⟩
    | _ => cases hkind
  | .unary op x =>
    cases e' with
    | unary op' x' =>
      have hx : x.Readable ∧ x'.Readable := ⟨h, h'⟩
      obtain ⟨hop, hinner⟩ := markNodes_inj hx.1 hx.2 (Node.group.inj (List.cons.inj hnodes).1).2
      obtain rfl := symbol_inj hop
      simp only [Expr.text, String.append_assoc, String.append_right_inj] at htext
      obtain ⟨rfl, hend⟩ := x.unique hx.1 hx.2 hinner htext
      exact ⟨rfl, (String.append_right_inj _).mp hend⟩
    | _ => cases hkind
  | .group x =>
    cases e' with
    | group x' =>
      have hx : x.Readable ∧ x'.Readable := ⟨h, h'⟩
      have hinner : x.nodes = x'.nodes := (Node.group.inj (List.cons.inj hnodes).1).2
      simp only [Expr.text, String.append_assoc, String.append_right_inj] at htext
      obtain ⟨rfl, hend⟩ := x.unique hx.1 hx.2 hinner htext
      exact ⟨rfl, (String.append_right_inj _).mp hend⟩
    | _ => cases hkind
  | .call f as =>
    cases e' with
    | call f' as' =>
      obtain ⟨hf, has⟩ := chainNodes_inj hnodes
      have harguments := commaNodes_inj (isElement_allNodes as) (isElement_allNodes as') has
      simp only [Expr.text, String.append_assoc] at htext
      obtain ⟨rfl, hrest⟩ := f.unique h.1 h'.1 hf htext
      simp only [String.append_right_inj] at hrest
      obtain ⟨rfl, hend⟩ := Expr.unique_all as h.2 h'.2 harguments hrest
      exact ⟨rfl, (String.append_right_inj _).mp hend⟩
    | _ => cases hkind
  | .construct f as =>
    cases e' with
    | construct f' as' =>
      obtain ⟨hf, has⟩ := chainNodes_inj (List.cons.inj hnodes).2
      have harguments := commaNodes_inj (isElement_allNodes as) (isElement_allNodes as') has
      simp only [Expr.text, String.append_assoc, String.append_right_inj] at htext
      obtain ⟨rfl, hrest⟩ := f.unique h.2.1 h'.2.1 hf htext
      simp only [String.append_right_inj] at hrest
      obtain ⟨rfl, hend⟩ := Expr.unique_all as h.2.2 h'.2.2 harguments hrest
      exact ⟨rfl, (String.append_right_inj _).mp hend⟩
    | _ => cases hkind
  | .await x =>
    cases e' with
    | await x' =>
      have hx : x.Readable ∧ x'.Readable := ⟨h, h'⟩
      have hinner : x.nodes = x'.nodes := by simpa [Expr.nodes] using hnodes
      simp only [Expr.text, String.append_assoc, String.append_right_inj] at htext
      obtain ⟨rfl, hend⟩ := x.unique hx.1 hx.2 hinner htext
      exact ⟨rfl, (String.append_right_inj _).mp hend⟩
    | _ => cases hkind
  | .subscript b i =>
    cases e' with
    | subscript b' i' =>
      obtain ⟨hb, hi⟩ := chainNodes_inj hnodes
      simp only [Expr.text, String.append_assoc] at htext
      obtain ⟨rfl, hrest⟩ := b.unique h.1 h'.1 hb htext
      simp only [String.append_right_inj] at hrest
      obtain ⟨rfl, hend⟩ := i.unique h.2 h'.2 hi hrest
      exact ⟨rfl, (String.append_right_inj _).mp hend⟩
    | _ => cases hkind
  | .member o x =>
    cases e' with
    | member o' x' =>
      have hnodes : o.nodes ++ [Node.mark '.', Node.word x]
        = o'.nodes ++ [Node.mark '.', Node.word x'] := hnodes
      obtain ⟨ho, hx⟩ := append_inj' hnodes rfl
      cases hx
      simp only [Expr.text, String.append_assoc] at htext
      obtain ⟨rfl, hrest⟩ := o.unique h.1 h'.1 ho htext
      simp only [String.append_right_inj] at hrest
      exact ⟨rfl, hrest⟩
    | _ => cases hkind
  | .array es =>
    cases e' with
    | array es' =>
      have hes : Expr.AllReadable es ∧ Expr.AllReadable es' := ⟨h, h'⟩
      have helements := commaNodes_inj (isElement_allNodes es) (isElement_allNodes es')
        (Node.group.inj (List.cons.inj hnodes).1).2
      simp only [Expr.text, String.append_assoc, String.append_right_inj] at htext
      obtain ⟨rfl, hend⟩ := Expr.unique_all es hes.1 hes.2 helements htext
      exact ⟨rfl, (String.append_right_inj _).mp hend⟩
    | _ => cases hkind
  | .newSet es =>
    cases e' with
    | newSet es' =>
      have hes : Expr.AllReadable es ∧ Expr.AllReadable es' := ⟨h, h'⟩
      have hinner : commaNodes (Expr.allNodes es) = commaNodes (Expr.allNodes es') := by
        simpa [Expr.nodes] using hnodes
      have helements := commaNodes_inj (isElement_allNodes es) (isElement_allNodes es') hinner
      simp only [Expr.text, String.append_assoc, String.append_right_inj] at htext
      obtain ⟨rfl, hend⟩ := Expr.unique_all es hes.1 hes.2 helements htext
      exact ⟨rfl, (String.append_right_inj _).mp hend⟩
    | _ => cases hkind
  | .object es =>
    cases e' with
    | object es' =>
      have hes : Expr.EntriesReadable es ∧ Expr.EntriesReadable es' := ⟨h, h'⟩
      have hentries := commaNodes_inj (isElement_entryNodes es) (isElement_entryNodes es')
        (Node.group.inj (List.cons.inj hnodes).1).2
      match es, es', hes, hentries, htext with
      | [], [], _, _, htext => exact ⟨rfl, (String.append_right_inj _).mp htext⟩
      | [], (_, _) :: _, _, hentries, _ | (_, _) :: _, [], _, hentries, _ => cases hentries
      | a :: as, a' :: as', hes, hentries, htext =>
        simp only [Expr.text, String.append_assoc, String.append_right_inj] at htext
        obtain ⟨heq, hend⟩ := Expr.unique_entries (a :: as) hes.1 hes.2 hentries htext
        exact ⟨congrArg Expr.object heq, (String.append_right_inj _).mp hend⟩
    | _ => cases hkind
termination_by structural e

theorem Expr.unique_all (es : List Expr) (h : Expr.AllReadable es) (h' : Expr.AllReadable es')
    (hnodes : Expr.allNodes es = Expr.allNodes es') {r r' : String}
    (htext : commas (Expr.texts es) ++ r = commas (Expr.texts es') ++ r') : es = es' ∧ r = r' := by
  match es with
  | [] =>
    cases es' with
    | nil => exact ⟨rfl, (String.append_right_inj _).mp htext⟩
    | cons => cases hnodes
  | e :: es =>
    cases es' with
    | nil => cases hnodes
    | cons e' es' =>
      obtain ⟨he, hes⟩ := List.cons.inj hnodes
      rw [Expr.texts, Expr.texts, commas_cons, commas_cons, String.append_assoc, String.append_assoc] at htext
      obtain ⟨rfl, hrest⟩ := e.unique h.1 h'.1 he htext
      have hlength : (Expr.texts es).length = (Expr.texts es').length := by
        rw [Expr.length_texts, Expr.length_texts, hes]
      obtain ⟨rfl, hend⟩ := Expr.unique_all es h.2 h'.2 hes (commas_eq_of_further hlength hrest)
      exact ⟨rfl, hend⟩
termination_by structural es

theorem Expr.unique_entries (es : List (Expr × Expr)) (h : Expr.EntriesReadable es)
    (h' : Expr.EntriesReadable es') (hnodes : Expr.entryNodes es = Expr.entryNodes es') {r r' : String}
    (htext : commas (Expr.entryTexts es) ++ r = commas (Expr.entryTexts es') ++ r') : es = es' ∧ r = r' := by
  match es with
  | [] =>
    cases es' with
    | nil => exact ⟨rfl, (String.append_right_inj _).mp htext⟩
    | cons => cases hnodes
  | (k, v) :: es =>
    cases es' with
    | nil => cases hnodes
    | cons entry' es' =>
      obtain ⟨k', v'⟩ := entry'
      obtain ⟨hentry, hes⟩ := List.cons.inj hnodes
      obtain ⟨hk, hv⟩ := entryNodes_inj h.1 h'.1 hentry
      rw [Expr.entryTexts, Expr.entryTexts, commas_cons, commas_cons] at htext
      simp only [String.append_assoc] at htext
      obtain ⟨rfl, hvalue⟩ := k.unique h.1 h'.1 hk htext
      simp only [String.append_right_inj] at hvalue
      obtain ⟨rfl, hrest⟩ := v.unique h.2.1 h'.2.1 hv hvalue
      have hlength : (Expr.entryTexts es).length = (Expr.entryTexts es').length := by
        rw [Expr.length_entryTexts, Expr.length_entryTexts, hes]
      obtain ⟨rfl, hend⟩ := Expr.unique_entries es h.2.2 h'.2.2 hes (commas_eq_of_further hlength hrest)
      exact ⟨rfl, hend⟩
termination_by structural es

end

/-- script expressions with one text are equal -/
theorem Expr.text_injective (h : e.Readable) (h' : e'.Readable) (htext : e.text = e'.text) : e = e' := by
  have hatoms : flattenAll e.nodes = flattenAll e'.nodes := by
    rw [← Reads.atoms (e.reads h.legible), htext, Reads.atoms (e'.reads h'.legible)]
  have hnodes : e.nodes = e'.nodes := by
    have hnest := congrArg nest hatoms
    rw [nest_flattenAll, nest_flattenAll] at hnest
    exact Option.some.inj hnest
  exact (e.unique h h' hnodes (congrArg (· ++ "") htext)).1

end TypedScript.Script
