import TypedScript.Proofs.ScriptNodes

/-!
# The words of a script

The words of the text of a script that bind no name, read off its tree: for each, the parts of functions
around it and the names in scope.
-/

namespace TypedScript.Script

open List

/-! ## words of expressions -/

variable {w : String} {names ws : List String} {ns : List Node} {e : Expr}

/-- a word that neither announces a name nor is one that is given out, and does not wait -/
structure Inert (w : String) : Prop where
  notKeyword : w ∉ keywords
  notAwait : w ≠ "await"
  noUnderscore : '_' ∉ w.toList

def Expr.words (e : Expr) : List String := wordsOf e.nodes

@[simp] theorem wordsOf_commaNodes (nss : List (List Node)) :
    wordsOf (commaNodes nss) = nss.flatMap wordsOf := by
  induction nss with
  | nil => rfl
  | cons ns nss ih =>
    cases nss with
    | nil => exact (append_nil _).symm
    | cons ms rest =>
      rw [commaNodes, wordsOf_append, wordsOf, ih]
      rfl

@[simp] theorem wordsOf_markNodes (text : String) : wordsOf (markNodes text) = [] := by
  unfold markNodes
  induction text.toList with
  | nil => rfl
  | cons c cs ih => rw [map_cons, wordsOf, ih]; rfl

theorem inert_of_digits (hc : c ∈ w.toList) (hdigit : Text.isDigit c = true)
    (hall : ∀ c ∈ w.toList, Text.isDigit c = true ∨ c = 'n') : Inert w := by
  have hletters : ∀ k ∈ "await" :: keywords, k.toList.any Text.isDigit = false := by decide
  have hother : w ∉ "await" :: keywords := fun hw =>
    any_eq_false.mp (hletters w hw) c hc hdigit
  refine ⟨fun hw => hother (mem_cons_of_mem _ hw), fun hw => hother (hw ▸ mem_cons_self),
    fun hunderscore => ?_⟩
  rcases hall '_' hunderscore with h | h
  · exact absurd h (by decide)
  · exact absurd h (by decide)

theorem inert_toString (n : Nat) : Inert (toString n) := by
  obtain ⟨c, hc⟩ := exists_mem_of_ne_nil _ (isWord_toString n).nonempty
  exact inert_of_digits hc (isDigit_of_mem_toString hc) fun c' hc' => .inl (isDigit_of_mem_toString hc')

theorem inert_long (h : isNumeral digits = true) : Inert (digits ++ "n") := by
  obtain ⟨hne, hdigits⟩ := Bool.and_eq_true_iff.mp h
  have hdigit := all_eq_true.mp hdigits
  cases hlist : digits.toList with
  | nil => rw [hlist] at hne; exact nomatch hne
  | cons c cs =>
    have hc : c ∈ digits.toList := hlist ▸ mem_cons_self
    have hmem : c ∈ (digits ++ "n").toList := by
      rw [String.toList_append]
      exact mem_append_left _ hc
    refine inert_of_digits hmem (hdigit c hc) fun c' hc' => ?_
    rw [String.toList_append, mem_append] at hc'
    exact hc'.imp (hdigit c') mem_singleton.mp

theorem inert_literal (h : Literal.Legible v) (hw : w ∈ wordsOf (literalNodes v)) : Inert w := by
  cases v with
  | integer n =>
    cases n with
    | ofNat m => cases mem_singleton.mp hw; exact inert_toString m
    | negSucc m => cases mem_singleton.mp hw; exact inert_toString (m + 1)
  | long digits => cases mem_singleton.mp hw; exact inert_long h
  | string s => exact nomatch hw
  | boolean b => cases mem_singleton.mp hw; cases b <;> exact ⟨by decide, by decide, by decide⟩
  | null => cases mem_singleton.mp hw; exact ⟨by decide, by decide, by decide⟩

def WordsOf (names ws : List String) : Prop :=
  ∀ w ∈ ws, (w ∈ names ∧ IsName w) ∨ w = "await" ∨ Inert w

theorem wordsOf_nil : WordsOf [] [] := nofun

theorem wordsOf_name (h : IsName x) : WordsOf [x] [x] :=
  fun _ hw => .inl ⟨hw, mem_singleton.mp hw ▸ h⟩

theorem WordsOf.append (h : WordsOf names ws) (h' : WordsOf names' ws') :
    WordsOf (names ++ names') (ws ++ ws') := by
  intro w hw
  rcases mem_append.mp hw with hw | hw
  · exact (h w hw).imp_left (And.imp_left (mem_append_left _))
  · exact (h' w hw).imp_left (And.imp_left (mem_append_right _))

theorem WordsOf.cons {w : String} (hw : w = "await" ∨ Inert w)
    (h : WordsOf names ws) : WordsOf names (w :: ws) := by
  intro v hv
  rcases mem_cons.mp hv with rfl | hv
  · exact .inr hw
  · exact h v hv

theorem WordsOf.fixed (h : WordsOf names ws) (hw : w ∉ keywords ∧ w ≠ "await" ∧ '_' ∉ w.toList) :
    WordsOf names (w :: ws) :=
  .cons (.inr ⟨hw.1, hw.2.1, hw.2.2⟩) h

mutual

theorem Expr.wordsOf_words (e : Expr) (h : e.Legible) : WordsOf (namesOf e.pieces) e.words := by
  match e, h with
  | .literal v, h => exact fun w hw => .inr (.inr (inert_literal h hw))
  | .ident x, h => exact wordsOf_name h
  | .binary op l r, h =>
    have hall := (l.wordsOf_words h.1).append (r.wordsOf_words h.2)
    simpa [Expr.words, Expr.nodes, wordsOf, Node.words, Expr.pieces] using hall
  | .truncate q, h =>
    have hall := ((q.wordsOf_words h).fixed (w := "trunc") (by decide)).fixed (w := "Math") (by decide)
    simpa [Expr.words, Expr.nodes, wordsOf, Node.words, Expr.pieces] using hall
  | .unary op x, h | .group x, h =>
    have hall := x.wordsOf_words h
    simpa [Expr.words, Expr.nodes, wordsOf, Node.words, Expr.pieces] using hall
  | .call f as, h =>
    have hall := (f.wordsOf_words h.1).append (Expr.wordsOf_allWords as h.2)
    simpa [Expr.words, Expr.nodes, wordsOf, Node.words, Expr.pieces] using hall
  | .construct f as, h =>
    have hcall := (f.wordsOf_words h.1).append (Expr.wordsOf_allWords as h.2)
    have hall := hcall.fixed (w := "new") (by decide)
    simpa [Expr.words, Expr.nodes, wordsOf, Node.words, Expr.pieces] using hall
  | .await x, h =>
    have hall := WordsOf.cons (.inl rfl) (x.wordsOf_words h)
    simpa [Expr.words, Expr.nodes, wordsOf, Node.words, Expr.pieces] using hall
  | .subscript b i, h =>
    have hall := (b.wordsOf_words h.1).append (i.wordsOf_words h.2)
    simpa [Expr.words, Expr.nodes, wordsOf, Node.words, Expr.pieces] using hall
  | .member o x, h =>
    have hall := (o.wordsOf_words h.1).append (wordsOf_name h.2)
    simpa [Expr.words, Expr.nodes, wordsOf, Node.words, Expr.pieces] using hall
  | .array es, h =>
    have hall := Expr.wordsOf_allWords es h
    simpa [Expr.words, Expr.nodes, wordsOf, Node.words, Expr.pieces] using hall
  | .newSet es, h =>
    have hset := (Expr.wordsOf_allWords es h).fixed (w := "Set") (by decide)
    have hall := hset.fixed (w := "new") (by decide)
    simpa [Expr.words, Expr.nodes, wordsOf, Node.words, Expr.pieces] using hall
  | .object [], _ => exact wordsOf_nil
  | .object (e :: es), h =>
    have hall := Expr.wordsOf_entryWords (e :: es) h
    simpa [Expr.words, Expr.nodes, wordsOf, Node.words, Expr.pieces] using hall

theorem Expr.wordsOf_allWords (es : List Expr) (h : Expr.AllLegible es) :
    WordsOf ((Expr.allPieces es).flatMap namesOf) ((Expr.allNodes es).flatMap wordsOf) := by
  match es, h with
  | [], _ => exact wordsOf_nil
  | e :: es, h => exact (e.wordsOf_words h.1).append (Expr.wordsOf_allWords es h.2)

theorem Expr.wordsOf_entryWords (es : List (Expr × Expr)) (h : Expr.EntriesLegible es) :
    WordsOf ((Expr.entryPieces es).flatMap namesOf) ((Expr.entryNodes es).flatMap wordsOf) := by
  match es, h with
  | [], _ => exact wordsOf_nil
  | (k, v) :: es, h =>
    have hall := ((k.wordsOf_words h.1).append (v.wordsOf_words h.2.1)).append
      (Expr.wordsOf_entryWords es h.2.2)
    simpa [Expr.words, Expr.entryNodes, wordsOf, Node.words, Expr.entryPieces] using hall

end

theorem WordsOf.quiet (h : WordsOf names (wordsOf ns)) : Quiet ns := by
  intro w hw
  rcases h w hw with ⟨_, hname⟩ | rfl | hinert
  · exact hname.notKeyword
  · decide
  · exact hinert.notKeyword

theorem Expr.quiet (h : e.Legible) : Quiet e.nodes := (e.wordsOf_words h).quiet

theorem Expr.no_comma (e : Expr) : .mark ',' ∉ e.nodes := by
  match e with
  | .literal (.integer (.ofNat m)) | .literal (.integer (.negSucc m)) | .literal (.long digits) =>
    simp [Expr.nodes, literalNodes]
  | .literal (.string s) | .literal (.boolean b) | .literal .null => simp [Expr.nodes, literalNodes]
  | .ident x | .binary op l r | .truncate q | .unary op x | .group x | .await x | .array es =>
    simp [Expr.nodes]
  | .call f as | .construct f as => simp [Expr.nodes, f.no_comma]
  | .subscript b i => simp [Expr.nodes, b.no_comma]
  | .member o x => simp [Expr.nodes, o.no_comma]
  | .newSet es | .object es => simp [Expr.nodes]

def Node.isComma : Node → Bool
  | .mark c => c = ','
  | _ => false

theorem Expr.nodes_ne_nil (e : Expr) : e.nodes ≠ [] := by
  match e with
  | .literal (.integer (.ofNat m)) | .literal (.integer (.negSucc m))
  | .ident _ | .binary _ _ _ | .truncate _ | .unary _ _ | .group _ | .construct _ _ | .await _ | .array _
  | .newSet _ | .object _ => exact cons_ne_nil _ _
  | .literal (.long _) | .literal (.string _) | .literal (.boolean _) | .literal .null =>
    exact cons_ne_nil _ _
  | .call f as | .subscript b i | .member o x =>
    exact append_ne_nil_of_right_ne_nil _ (cons_ne_nil _ _)

theorem Expr.isComma_nodes (e : Expr) : ∀ n ∈ e.nodes, n.isComma = false := by
  intro n hn
  cases n with
  | mark c =>
    refine decide_eq_false ?_
    rintro rfl
    exact e.no_comma hn
  | _ => rfl

theorem walks_expr (h : e.Legible) (v : View) :
    Walks ⟨v, .plain⟩ e.nodes ⟨v, .plain⟩ (v.at e.words) := walks_quiet e.nodes v (.inl rfl) (Expr.quiet h)

/-! ## names that statements bind -/

def declaredFunctions : List Stmt → List String
  | [] => []
  | .function _ name _ _ :: ss => name :: declaredFunctions ss
  | .constructor name _ _ :: ss => name :: declaredFunctions ss
  | _ :: ss => declaredFunctions ss

def Stmt.binds : Stmt → List String
  | .declare _ names _ => names
  | _ => []

def bodyBinds (ss : List Stmt) : List String := ss.flatMap Stmt.binds

def caseBinds (gs : List (Guarded Stmt)) : List String := gs.flatMap fun g => bodyBinds g.body

def switchFunctions (cases : List (Guarded Stmt)) (otherwise : Option (List Stmt)) : List String :=
  cases.flatMap (fun g => declaredFunctions g.body) ++ declaredFunctions (otherwise.getD [])

def View.inside (v : View) (r : Region) : View := { v with around := r :: v.around }

def View.block (v : View) (functions : List String) : View := { v with scope := functions ++ v.scope }

/-! ## words of statements -/

/-- the defaults of parameters; a default sees its parameter and those in front of it -/
def paramOccurrences (v : View) : List Param → List Occurrence
  | [] => []
  | p :: ps => (v.bind p.name).at (p.default.elim [] Expr.words) ++ paramOccurrences (v.bind p.name) ps

def updateWords (target : String) (update : Update Expr) : List String :=
  wordsOf (updateNodes target update)

def Expr.allWords (es : List Expr) : List String := es.flatMap Expr.words

mutual

def Stmt.occurrences (v : View) : Stmt → List Occurrence
  | .expression e => v.at e.words
  | .declare _ names values => (v.bindAll names).at (Expr.allWords values)
  | .assign targets values => v.at (Expr.allWords targets ++ Expr.allWords values)
  | .function async _ params body =>
    paramOccurrences (v.inside (.params async)) params ++
      bodyOccurrences (((v.inside (.body async)).bindAll (params.map Param.name)).block
        (declaredFunctions body)) body
  | .constructor _ params fields =>
    paramOccurrences (v.inside (.params false)) params ++
      ((v.inside (.body false)).bindAll (params.map Param.name)).at
        (fields.flatMap fun f => ["this", f, f])
  | .attach constructor method => v.at [constructor, "prototype", method, method]
  | .conditional branches otherwise =>
    branchOccurrences v ["if"] branches ++ otherwiseOccurrences v otherwise
  | .whileLoop condition body =>
    v.at ("while" :: condition.words) ++ bodyOccurrences (v.block (declaredFunctions body)) body
  | .forLoop index init test target update body =>
    (v.bind index).at (init.words ++ (test.words ++ updateWords target update)) ++
      bodyOccurrences ((v.bind index).block (declaredFunctions body)) body
  | .switch cases otherwise =>
    v.at ["switch", "true"] ++ (caseOccurrences (v.block (switchFunctions cases otherwise)) cases ++
      defaultOccurrences ((v.block (switchFunctions cases otherwise)).bindAll (caseBinds cases)) otherwise)
  | .breakLoop => v.at ["break"]
  | .continueLoop => v.at ["continue"]
  | .returnValue none => v.at ["return"]
  | .returnValue (some e) => v.at ("return" :: e.words)
  | .print e => v.at ("console" :: "log" :: e.words)
  | .block body => bodyOccurrences (v.block (declaredFunctions body)) body

def bodyOccurrences (v : View) : List Stmt → List Occurrence
  | [] => []
  | s :: ss => s.occurrences v ++ bodyOccurrences (v.bindAll s.binds) ss

/-- the branches of a conditional; `opening` is how the first one starts -/
def branchOccurrences (v : View) (opening : List String) : List (Guarded Stmt) → List Occurrence
  | [] => []
  | ⟨guard, body⟩ :: gs =>
    v.at (opening ++ guard.words) ++ (bodyOccurrences (v.block (declaredFunctions body)) body ++
      branchOccurrences v ["else", "if"] gs)

def otherwiseOccurrences (v : View) : Option (List Stmt) → List Occurrence
  | none => []
  | some body => v.at ["else"] ++ bodyOccurrences (v.block (declaredFunctions body)) body

def caseOccurrences (v : View) : List (Guarded Stmt) → List Occurrence
  | [] => []
  | ⟨guard, body⟩ :: gs =>
    v.at ("case" :: guard.words) ++ (bodyOccurrences v body ++
      ((v.bindAll (bodyBinds body)).at ["break"] ++ caseOccurrences (v.bindAll (bodyBinds body)) gs))

def defaultOccurrences (v : View) : Option (List Stmt) → List Occurrence
  | none => []
  | some body => v.at ["default"] ++ bodyOccurrences v body

end

/-! ## functions of blocks -/

variable {fs : List String} {ms : List Node} {update : Update Expr} {target : String}
  {values : List Expr} {ss : List Stmt}

/-- nodes that declare some functions, whatever follows them -/
def Hoists (ns : List Node) (fs : List String) : Prop :=
  ∀ rest, functionNames false (ns ++ rest) = fs ++ functionNames false rest

theorem Hoists.functionNames (h : Hoists ns fs) : functionNames false ns = fs := by
  have hnil := h []
  rw [append_nil] at hnil
  exact hnil.trans (append_nil fs)

theorem Hoists.append (h : Hoists ns fs) (h' : Hoists ms gs) : Hoists (ns ++ ms) (fs ++ gs) := by
  intro rest
  rw [append_assoc, h, h', append_assoc]

theorem hoists_plain (h : .word "function" ∉ ns) : Hoists ns [] := by
  intro rest
  induction ns with
  | nil => rfl
  | cons n ns ih =>
    have htail := ih fun hn => h (mem_cons_of_mem n hn)
    cases n with
    | word w =>
      have hw : w ≠ "function" := by
        rintro rfl
        exact h mem_cons_self
      rw [cons_append, Script.functionNames, if_neg Bool.false_ne_true, decide_eq_false hw]
      exact htail
    | quoted | mark c | group b inner => exact htail

theorem mem_wordsOf (h : .word w ∈ ns) : w ∈ wordsOf ns := by
  induction ns with
  | nil => exact nomatch h
  | cons n ns ih =>
    rcases mem_cons.mp h with rfl | h
    · exact mem_append_left _ mem_cons_self
    · exact mem_append_right _ (ih h)

theorem Quiet.hoists (h : Quiet ns) : Hoists ns [] :=
  hoists_plain fun hn => h "function" (mem_wordsOf hn) (by decide)

theorem hoists_function (async : Bool) (name : String) (params : List Param) (body : List Node) :
    Hoists (functionNodes async name params body) [name] := by
  intro rest
  cases async <;> rfl

@[simp] theorem wordsOf_destructureNodes (ts vs : List (List Node)) :
    wordsOf (destructureNodes ts vs) = ts.flatMap wordsOf ++ vs.flatMap wordsOf := by
  unfold destructureNodes
  split <;> simp [wordsOf, Node.words]

theorem flatMap_allNodes (es : List Expr) : (Expr.allNodes es).flatMap wordsOf = Expr.allWords es := by
  rw [Expr.allNodes_eq_map, flatMap_map]
  rfl

theorem flatMap_nameNodes (names : List String) : (nameNodes names).flatMap wordsOf = names := by
  induction names with
  | nil => rfl
  | cons x names ih => exact congrArg (x :: ·) ih

theorem Expr.quiet_all (h : Expr.AllLegible es) : Quiet (commaNodes (Expr.allNodes es)) :=
  WordsOf.quiet (by rw [wordsOf_commaNodes]; exact Expr.wordsOf_allWords es h)

theorem Quiet.append (h : Quiet ns) (h' : Quiet ms) : Quiet (ns ++ ms) := by
  intro w hw
  rw [wordsOf_append] at hw
  exact (mem_append.mp hw).elim (h w) (h' w)

theorem Quiet.cons {n : Node} (hn : ∀ w ∈ n.words, w ∉ keywords) (h : Quiet ns) :
    Quiet (n :: ns) := fun w hw => (mem_append.mp hw).elim (hn w) (h w)

theorem Quiet.mark (h : Quiet ns) (c : Char) : Quiet (.mark c :: ns) := h

theorem Quiet.word (h : Quiet ns) (hw : w ∉ keywords) : Quiet (.word w :: ns) :=
  .cons (fun _ hv => mem_singleton.mp hv ▸ hw) h

theorem quiet_nil : Quiet [] := nofun

theorem quiet_destructure (ht : Expr.AllLegible ts) (hv : Expr.AllLegible vs) :
    Quiet (destructureNodes (Expr.allNodes ts) (Expr.allNodes vs)) := by
  have hwords := (Expr.wordsOf_allWords ts ht).append (Expr.wordsOf_allWords vs hv)
  rw [← wordsOf_destructureNodes] at hwords
  exact hwords.quiet

theorem quiet_update (htarget : IsName target)
    (h : updateLegible update) : Quiet (updateNodes target update) := by
  cases update with
  | increment | decrement => exact quiet_nil.word htarget.notKeyword
  | increase e | decrease e => exact (Expr.quiet h).word htarget.notKeyword

theorem quiet_attach (hc : IsName c) (hm : IsName m) : Quiet (Stmt.attach c m).nodes := by
  have hvalue : Quiet [.word m, .mark '=', .word m, .mark ';'] :=
    (((quiet_nil.mark ';').word hm.notKeyword).mark '=').word hm.notKeyword
  exact ((((hvalue.mark '.').word (w := "prototype") (by decide)).mark '.').word hc.notKeyword)

theorem not_mem_branchNodes (opening : List Node) (gs : List (Guarded Stmt))
    (h : .word "function" ∉ opening) : .word "function" ∉ branchNodes opening gs := by
  induction gs generalizing opening with
  | nil => exact nofun
  | cons g gs ih =>
    obtain ⟨guard, body⟩ := g
    have htail := ih [.word "else", .word "if"] (by simp)
    simp [branchNodes, h, htail]

theorem wordsOf_declarationNodes (constant : Bool) (names : List String) (values : List Expr) :
    wordsOf (declarationNodes constant names values)
      = (if constant then "const" else "let") :: (names ++ Expr.allWords values) := by
  unfold declarationNodes
  cases values with
  | nil => simp [wordsOf, Node.words, flatMap_nameNodes, Expr.allWords]
  | cons e es => simp [wordsOf, Node.words, flatMap_nameNodes, flatMap_allNodes]

theorem hoists_declaration (hnames : ∀ x ∈ names, IsName x) (hvalues : Expr.AllLegible values) :
    Hoists (declarationNodes constant names values) [] := by
  refine hoists_plain fun hn => ?_
  have hw := mem_wordsOf hn
  rw [wordsOf_declarationNodes] at hw
  rcases mem_cons.mp hw with hw | hw
  · cases constant <;> exact absurd hw (by decide)
  · rcases mem_append.mp hw with hw | hw
    · exact (hnames _ hw).notKeyword (by decide)
    · rw [← flatMap_allNodes, ← wordsOf_commaNodes] at hw
      exact Expr.quiet_all hvalues _ hw (by decide)

theorem Stmt.hoists {s : Stmt} (h : s.Legible) : Hoists s.nodes (declaredFunctions [s]) := by
  match s, h with
  | .expression e, h => exact ((Expr.quiet h).append (quiet_nil.mark ';')).hoists
  | .declare constant names values, h => exact hoists_declaration h.1 h.2
  | .assign targets values, h => exact ((quiet_destructure h.1 h.2).append (quiet_nil.mark ';')).hoists
  | .function async name params body, _ | .constructor name params fields, _ => exact hoists_function _ _ _ _
  | .attach c m, h =>
    exact (quiet_attach h.1 h.2).hoists
  | .conditional branches otherwise, _ =>
    have hbranches := not_mem_branchNodes [.word "if"] branches (by simp)
    refine hoists_plain ?_
    cases otherwise <;> simp [Stmt.nodes, otherwiseNodes, hbranches]
  | .whileLoop condition body, _ | .forLoop index init test target update body, _
  | .switch cases otherwise, _ | .breakLoop, _ | .continueLoop, _ | .returnValue none, _ | .print e, _
  | .block body, _ => exact hoists_plain (by simp [Stmt.nodes])
  | .returnValue (some e), h =>
    have hvalue := (Expr.quiet (h e rfl)).append (quiet_nil.mark ';')
    exact (hvalue.word (w := "return") (by decide)).hoists

theorem declaredFunctions_append (ss ts : List Stmt) :
    declaredFunctions (ss ++ ts) = declaredFunctions ss ++ declaredFunctions ts := by
  induction ss with
  | nil => rfl
  | cons s ss ih => cases s <;> simp [declaredFunctions, ih]

theorem hoists_body (h : BodyLegible ss) : Hoists (bodyNodes ss) (declaredFunctions ss) := by
  induction ss with
  | nil => exact hoists_plain nofun
  | cons s ss ih =>
    have hall := (Stmt.hoists h.1).append (ih h.2)
    rw [← declaredFunctions_append] at hall
    exact hall

theorem hoists_cases (h : BranchesLegible gs) :
    Hoists (caseNodes gs) (gs.flatMap fun g => declaredFunctions g.body) := by
  induction gs with
  | nil => exact hoists_plain nofun
  | cons g gs ih =>
    obtain ⟨guard, body⟩ := g
    have hguard := (((Expr.quiet h.1).append (quiet_nil.mark ':')).word (w := "case") (by decide)).hoists
    have hbreak : Hoists [.word "break", .mark ';'] [] := hoists_plain (by simp)
    have hall := hguard.append ((hoists_body h.2.1).append (hbreak.append (ih h.2.2)))
    simpa [caseNodes] using hall

theorem hoists_default (h : OtherwiseLegible o) :
    Hoists (defaultNodes o) (declaredFunctions (o.getD [])) := by
  cases o with
  | none => exact hoists_plain nofun
  | some body =>
    have hdefault : Hoists [.word "default", .mark ':'] [] := hoists_plain (by simp)
    exact hdefault.append (hoists_body h)

/-! ## walks over declarations -/

variable {os : List Occurrence}

theorem Walks.of_eq (h : Walks σ ns σ' os) (heq : os' = os) : Walks σ ns σ' os' := heq ▸ h

theorem walks_names (v : View) (names : List String) :
    Walks ⟨v, .binding⟩ (commaNodes (nameNodes names)) ⟨v.bindAll names, .binding⟩ [] := by
  induction names generalizing v with
  | nil => rfl
  | cons x names ih =>
    cases names with
    | nil => rfl
    | cons y rest =>
      rw [View.bindAll_cons]
      exact ih (v.bind x)

theorem walk_values (h : Expr.AllLegible values) (v : View) (b : Bracket) :
    (Node.group b (commaNodes (Expr.allNodes values))).walk ⟨v, .plain⟩
      = (⟨v, .plain⟩, v.at (Expr.allWords values)) := by
  have hquiet : ∀ w ∈ (Node.group b (commaNodes (Expr.allNodes values))).words, w ∉ keywords :=
    Expr.quiet_all h
  rw [walk_quiet _ v (.inl rfl) hquiet, Node.words, wordsOf_commaNodes, flatMap_allNodes]

theorem walks_bindings (v : View) (names : List String) (h : Expr.AllLegible values) :
    Walks ⟨v, .binding⟩ ((if values.isEmpty then commaNodes (nameNodes names)
        else destructureNodes (nameNodes names) (Expr.allNodes values)) ++ [.mark ';'])
      ⟨v.bindAll names, .plain⟩ ((v.bindAll names).at (Expr.allWords values)) := by
  have hlists : Walks ⟨v, .binding⟩ ([.group .square (commaNodes (nameNodes names)), .mark '=',
      .group .square (commaNodes (Expr.allNodes values))] ++ [.mark ';']) ⟨v.bindAll names, .plain⟩
      ((v.bindAll names).at (Expr.allWords values)) := by
    have hnames : (Node.group .square (commaNodes (nameNodes names))).walk ⟨v, .binding⟩
        = (⟨v.bindAll names, .binding⟩, []) := walk_group ⟨v, .binding⟩ .square (walks_names v names)
    have hvalues := walk_values h (v.bindAll names) .square
    have hend : Walks ⟨v.bindAll names, .plain⟩ [.mark ';'] ⟨v.bindAll names, .plain⟩ [] := rfl
    have hequals : (Node.mark '=').walk ⟨v.bindAll names, .binding⟩ = (⟨v.bindAll names, .plain⟩, []) := rfl
    exact (Walks.cons hnames (.cons hequals (.cons hvalues hend))).of_eq (append_nil _).symm
  match names, values, h with
  | names, [], _ => exact ((walks_names v names).append (Walks.one rfl))
  | [x], [e], h =>
    have hname : (Node.word x).walk ⟨v, .binding⟩ = (⟨v.bind x, .binding⟩, []) := rfl
    have hequals : (Node.mark '=').walk ⟨v.bind x, .binding⟩ = (⟨v.bind x, .plain⟩, []) := rfl
    have hend : Walks ⟨v.bind x, .plain⟩ [.mark ';'] ⟨v.bind x, .plain⟩ [] := rfl
    have hall := Walks.cons hname (.cons hequals ((walks_expr h.1 (v.bind x)).append hend))
    refine hall.of_eq ?_
    simp [Expr.allWords, View.bindAll, View.bind]
  | [], e :: es, _ | x :: y :: names, e :: es, _ | [x], e :: e' :: es, _ => exact hlists

theorem walks_declaration (v : View) (constant : Bool) (names : List String) (h : Expr.AllLegible values) :
    Walks ⟨v, .plain⟩ (declarationNodes constant names values) ⟨v.bindAll names, .plain⟩
      ((v.bindAll names).at (Expr.allWords values)) := by
  have hkeyword : (Node.word (if constant then "const" else "let")).walk ⟨v, .plain⟩
      = (⟨v, .binding⟩, []) := by cases constant <;> rfl
  exact .cons hkeyword (walks_bindings v names h)

theorem walks_param {p : Param} (h : p.Legible) (v : View) :
    Walks ⟨v, .parameter⟩ p.nodes ⟨v.bind p.name, .value⟩
      ((v.bind p.name).at (p.default.elim [] Expr.words)) := by
  obtain ⟨name, default⟩ := p
  cases default with
  | none => rfl
  | some e =>
    have hdefault := h.default e rfl
    exact walks_quiet e.nodes (v.bind name) (.inr ⟨rfl, e.no_comma⟩) (Expr.quiet hdefault)

theorem walks_params (h : ∀ p ∈ ps, p.Legible) (v : View) :
    ∃ stage, Walks ⟨v, .parameter⟩ (commaNodes (ps.map Param.nodes))
      ⟨v.bindAll (ps.map Param.name), stage⟩ (paramOccurrences v ps) := by
  induction ps generalizing v with
  | nil => exact ⟨.parameter, rfl⟩
  | cons p ps ih =>
    have hp := walks_param (h p mem_cons_self) v
    cases ps with
    | nil => exact ⟨.value, hp.of_eq (append_nil _)⟩
    | cons p' rest =>
      obtain ⟨stage, hrest⟩ := ih (fun p' hp' => h p' (mem_cons_of_mem p hp')) (v.bind p.name)
      have hcomma : (Node.mark ',').walk ⟨v.bind p.name, .value⟩ = (⟨v.bind p.name, .parameter⟩, []) := rfl
      refine ⟨stage, ?_⟩
      show Walks _ _ ⟨v.bindAll (p.name :: (p' :: rest).map Param.name), stage⟩ _
      rw [View.bindAll_cons]
      have hall := hp.append (.cons hcomma hrest)
      exact hall

/-! ## walks over blocks -/

variable {functions : List String} {v : View} {body : List Node}

/-- the nodes of a block that is seen from `v` -/
def WalksBlock (v : View) (ns : List Node) (functions : List String) (os : List Occurrence) : Prop :=
  functionNames false ns = functions ∧ ∃ v', Walks ⟨v.block functions, .plain⟩ ns ⟨v', .plain⟩ os

theorem WalksBlock.walk
    (h : WalksBlock v ns functions os) : (Node.group .curly ns).walk ⟨v, .plain⟩ = (⟨v, .plain⟩, os) := by
  obtain ⟨rfl, v', hwalk⟩ := h
  exact walk_group ⟨v, .plain⟩ .curly hwalk

theorem WalksBlock.walk_behind (h : WalksBlock inside ns functions os) :
    (Node.group .curly ns).walk ⟨v, .block inside⟩ = (⟨v, .plain⟩, os) := by
  obtain ⟨rfl, v', hwalk⟩ := h
  exact walk_group ⟨v, .block inside⟩ .curly hwalk

theorem walks_function (hparams : ∀ p ∈ params, p.Legible)
    (h : WalksBlock ((v.inside (.body async)).bindAll (params.map Param.name)) body functions os) :
    Walks ⟨v, .plain⟩ (functionNodes async name params body) ⟨v, .plain⟩
      (paramOccurrences (v.inside (.params async)) params ++ os) := by
  have hkeywords : Walks ⟨v, .plain⟩
      (if async then [.word "async", .word "function"] else [.word "function"])
      ⟨v, .name async⟩ [] := by cases async <;> rfl
  obtain ⟨stage', hwalk⟩ := walks_params hparams (v.inside (.params async))
  have hlist : (Node.group .paren (commaNodes (params.map Param.nodes))).walk ⟨v, .params async⟩
      = (⟨v, .block ((v.inside (.body async)).bindAll (params.map Param.name))⟩,
        paramOccurrences (v.inside (.params async)) params) := walk_group ⟨v, .params async⟩ .paren hwalk
  have hname : (Node.word name).walk ⟨v, .name async⟩ = (⟨v, .params async⟩, []) := rfl
  have hall := hkeywords.append (.cons hname (.cons hlist (.one h.walk_behind)))
  exact hall

theorem walks_for {init test : Expr} (hinit : init.Legible) (htest : test.Legible) (htarget : IsName target)
    (hupdate : updateLegible update) (h : WalksBlock (v.bind index) body functions os) :
    Walks ⟨v, .plain⟩ [.word "for", .group .paren (headerNodes index init test target update),
        .group .curly body] ⟨v, .plain⟩
      ((v.bind index).at (init.words ++ (test.words ++ updateWords target update)) ++ os) := by
  have hrest : Walks ⟨v.bind index, .plain⟩ (init.nodes ++ .mark ';' :: (test.nodes ++
      .mark ';' :: updateNodes target update)) ⟨v.bind index, .plain⟩
      ((v.bind index).at (init.words ++ (test.words ++ updateWords target update))) := by
    have hquiet := (Expr.quiet hinit).append
      (((Expr.quiet htest).append ((quiet_update htarget hupdate).mark ';')).mark ';')
    refine (walks_quiet _ (v.bind index) (.inl rfl) hquiet).of_eq ?_
    simp [wordsOf, Node.words, Expr.words, updateWords]
  have hheader : (Node.group .paren (headerNodes index init test target update)).walk ⟨v, .header⟩
      = (⟨v, .block (v.bind index)⟩,
        (v.bind index).at (init.words ++ (test.words ++ updateWords target update))) :=
    walk_group ⟨v, .header⟩ .paren (show Walks ⟨v, .plain⟩ _ _ _ from hrest)
  have hkeyword : (Node.word "for").walk ⟨v, .plain⟩ = (⟨v, .header⟩, []) := rfl
  have hall := Walks.cons hkeyword (.cons hheader (.one h.walk_behind))
  exact hall

/-! ## walks over statements -/

variable {fields : List String}

theorem quiet_fields (h : ∀ f ∈ fields, IsName f) : Quiet (fields.flatMap fieldNodes) := by
  induction fields with
  | nil => exact quiet_nil
  | cons f fields ih =>
    have hf : f ∉ keywords := (h f mem_cons_self).notKeyword
    have hline : Quiet (fieldNodes f) :=
      (((((quiet_nil.mark ';').word hf).mark '=').word hf).mark '.').word (w := "this") (by decide)
    exact hline.append (ih fun f' hf' => h f' (mem_cons_of_mem f hf'))

theorem wordsOf_fields (fields : List String) :
    wordsOf (fields.flatMap fieldNodes) = fields.flatMap fun f => ["this", f, f] := by
  induction fields with
  | nil => rfl
  | cons f fields ih => rw [flatMap_cons, wordsOf_append, ih]; rfl

theorem walksBlock_fields (v : View) (h : ∀ f ∈ fields, IsName f) :
    WalksBlock v (fields.flatMap fieldNodes) [] (v.at (fields.flatMap fun f => ["this", f, f])) := by
  have hquiet := quiet_fields h
  refine ⟨functionNames_quiet hquiet, v, ?_⟩
  rw [← wordsOf_fields]
  exact walks_quiet _ v (.inl rfl) hquiet

theorem walks_condition {guard : Expr} (v : View) (hopening : Quiet opening) (hguard : guard.Legible) :
    Walks ⟨v, .plain⟩ (opening ++ [.group .paren guard.nodes]) ⟨v, .plain⟩
      (v.at (wordsOf opening ++ guard.words)) := by
  have hparen : Quiet [.group .paren guard.nodes] := .cons (Expr.quiet hguard) quiet_nil
  refine (walks_quiet _ v (.inl rfl) (hopening.append hparen)).of_eq ?_
  simp [wordsOf, Node.words, Expr.words]

mutual

theorem Stmt.walks (s : Stmt) (h : s.Legible) (v : View) :
    Walks ⟨v, .plain⟩ s.nodes ⟨v.bindAll s.binds, .plain⟩ (s.occurrences v) := by
  match s, h with
  | .expression e, h =>
    have hend : Walks ⟨v, .plain⟩ [.mark ';'] ⟨v, .plain⟩ [] := rfl
    exact ((walks_expr h v).append hend).of_eq (append_nil _).symm
  | .declare constant names values, h => exact walks_declaration v constant names h.2
  | .assign targets values, h =>
    have hquiet := (quiet_destructure h.1 h.2).append (quiet_nil.mark ';')
    refine (walks_quiet _ v (.inl rfl) hquiet).of_eq ?_
    simp [Stmt.occurrences, wordsOf, Node.words, flatMap_allNodes]
  | .function async name params body, h => exact walks_function h.2.1 (walks_block body h.2.2 _)
  | .constructor name params fields, h => exact walks_function h.2.1 (walksBlock_fields _ h.2.2)
  | .attach c m, h => exact walks_quiet _ v (.inl rfl) (quiet_attach h.1 h.2)
  | .conditional branches otherwise, h =>
    exact (walks_branches [.word "if"] branches (quiet_nil.word (by decide)) h.2.1 v).append
      (walks_otherwise otherwise h.2.2 v)
  | .whileLoop condition body, h =>
    have hkeyword : Quiet [.word "while"] := quiet_nil.word (by decide)
    exact (walks_condition v hkeyword h.1).append (.one (walks_block body h.2 v).walk)
  | .forLoop index init test target update body, ⟨_, hinit, htest, htarget, hupdate, hbody⟩ =>
    exact walks_for hinit htest htarget hupdate (walks_block body hbody (v.bind index))
  | .switch cases otherwise, h =>
    have hblock : WalksBlock v (caseNodes cases ++ defaultNodes otherwise)
        (switchFunctions cases otherwise) _ :=
      ⟨((hoists_cases h.1).append (hoists_default h.2)).functionNames, _,
        (walks_cases cases h.1 _).append (walks_default otherwise h.2 _)⟩
    have hheader : Walks ⟨v, .plain⟩ [.word "switch", .group .paren [.word "true"]] ⟨v, .plain⟩
      (v.at ["switch", "true"]) := rfl
    exact hheader.append (.one hblock.walk)
  | .breakLoop, _ | .continueLoop, _ | .returnValue none, _ => rfl
  | .returnValue (some e), h =>
    have hquiet := ((Expr.quiet (h e rfl)).append (quiet_nil.mark ';')).word (w := "return") (by decide)
    refine (walks_quiet _ v (.inl rfl) hquiet).of_eq ?_
    simp [Stmt.occurrences, wordsOf, Node.words, Expr.words]
  | .print e, h =>
    have hlog : Quiet [.word "console", .mark '.', .word "log"] :=
      ((quiet_nil.word (w := "log") (by decide)).mark '.').word (by decide)
    have hend : Walks ⟨v, .plain⟩ [.mark ';'] ⟨v, .plain⟩ [] := rfl
    exact ((walks_condition v hlog h).append hend).of_eq (append_nil _).symm
  | .block body, h => exact .one (walks_block body h v).walk

theorem walks_body (body : List Stmt) (h : BodyLegible body) (v : View) :
    Walks ⟨v, .plain⟩ (bodyNodes body) ⟨v.bindAll (bodyBinds body), .plain⟩ (bodyOccurrences v body) := by
  match body, h with
  | [], _ => rfl
  | s :: ss, h =>
    have hall := (s.walks h.1 v).append (walks_body ss h.2 (v.bindAll s.binds))
    rw [← View.bindAll_append] at hall
    exact hall

theorem walks_block (body : List Stmt) (h : BodyLegible body) (v : View) :
    WalksBlock v (bodyNodes body) (declaredFunctions body)
      (bodyOccurrences (v.block (declaredFunctions body)) body) := by
  exact ⟨(hoists_body h).functionNames, _, walks_body body h _⟩

theorem walks_branches (opening : List Node) (gs : List (Guarded Stmt)) (hopening : Quiet opening)
    (h : BranchesLegible gs) (v : View) :
    Walks ⟨v, .plain⟩ (branchNodes opening gs) ⟨v, .plain⟩ (branchOccurrences v (wordsOf opening) gs) := by
  match gs, h with
  | [], _ => rfl
  | ⟨guard, body⟩ :: gs, h =>
    have helse : Quiet [.word "else", .word "if"] :=
      (quiet_nil.word (w := "if") (by decide)).word (by decide)
    have hrest := Walks.cons (walks_block body h.2.1 v).walk (walks_branches _ gs helse h.2.2 v)
    have hall := (walks_condition v hopening h.1).append hrest
    rw [append_assoc] at hall
    exact hall

theorem walks_otherwise (o : Option (List Stmt)) (h : OtherwiseLegible o) (v : View) :
    Walks ⟨v, .plain⟩ (otherwiseNodes o) ⟨v, .plain⟩ (otherwiseOccurrences v o) := by
  match o, h with
  | none, _ => rfl
  | some body, h =>
    have helse : (Node.word "else").walk ⟨v, .plain⟩ = (⟨v, .plain⟩, v.at ["else"]) := rfl
    exact .cons helse (.one (walks_block body h v).walk)

theorem walks_cases (gs : List (Guarded Stmt)) (h : BranchesLegible gs) (v : View) :
    Walks ⟨v, .plain⟩ (caseNodes gs) ⟨v.bindAll (caseBinds gs), .plain⟩ (caseOccurrences v gs) := by
  match gs, h with
  | [], _ => rfl
  | ⟨guard, body⟩ :: gs, h =>
    have hquiet := ((Expr.quiet h.1).append (quiet_nil.mark ':')).word (w := "case") (by decide)
    have hguard : Walks ⟨v, .plain⟩ (.word "case" :: (guard.nodes ++ [.mark ':'])) ⟨v, .plain⟩
        (v.at ("case" :: guard.words)) := by
      refine (walks_quiet _ v (.inl rfl) hquiet).of_eq ?_
      simp [wordsOf, Node.words, Expr.words]
    have hbreak : Walks ⟨v.bindAll (bodyBinds body), .plain⟩ [.word "break", .mark ';']
      ⟨v.bindAll (bodyBinds body), .plain⟩ ((v.bindAll (bodyBinds body)).at ["break"]) := rfl
    have hrest := hbreak.append (walks_cases gs h.2.2 (v.bindAll (bodyBinds body)))
    have hall := hguard.append ((walks_body body h.2.1 v).append hrest)
    rw [← View.bindAll_append] at hall
    simp only [cons_append, append_assoc, nil_append] at hall
    exact hall

theorem walks_default (o : Option (List Stmt)) (h : OtherwiseLegible o) (v : View) :
    Walks ⟨v, .plain⟩ (defaultNodes o) ⟨v.bindAll (bodyBinds (o.getD [])), .plain⟩
      (defaultOccurrences v o) := by
  match o, h with
  | none, _ => rfl
  | some body, h =>
    have hdefault : Walks ⟨v, .plain⟩ [.word "default", .mark ':'] ⟨v, .plain⟩ (v.at ["default"]) := rfl
    exact hdefault.append (walks_body body h v)

end

theorem occurrences_layout (h : BodyLegible ss) (width : Nat) :
    occurrences (layout width (bodyLines 0 ss)) = some (bodyOccurrences ⟨[], declaredFunctions ss⟩ ss) := by
  have hwalk : walkAll _ (bodyNodes ss) = _ := walks_body ss h ⟨[], declaredFunctions ss⟩
  rw [occurrences_of_reads (reads_bodyLines ss h 0 width).reads, blockOccurrences,
    (hoists_body h).functionNames, hwalk]

end TypedScript.Script
