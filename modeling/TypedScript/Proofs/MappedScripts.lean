import TypedScript.Proofs.ScriptNodes

/-!
# Scripts with other names and literals

A scan of a text that maps names and literals, and copies what every script may hold, turns the text of a
script into the text of the script with its names and literals mapped.
-/

namespace TypedScript.Script

open List

variable {T : List Char → List Char} {f : String → String} {g : Literal → Literal}

/-! ## trees with other names and literals -/

section

variable (f : String → String) (g : Literal → Literal)

mutual

def Expr.map : Expr → Expr
  | .literal v => .literal (g v)
  | .ident x => .ident (f x)
  | .binary op l r => .binary op l.map r.map
  | .truncate q => .truncate q.map
  | .unary op x => .unary op x.map
  | .group x => .group x.map
  | .call e as => .call e.map (Expr.mapAll as)
  | .construct e as => .construct e.map (Expr.mapAll as)
  | .await x => .await x.map
  | .subscript b i => .subscript b.map i.map
  | .member o x => .member o.map (f x)
  | .array es => .array (Expr.mapAll es)
  | .newSet es => .newSet (Expr.mapAll es)
  | .object entries => .object (Expr.mapEntries entries)

def Expr.mapAll : List Expr → List Expr
  | [] => []
  | e :: es => e.map :: Expr.mapAll es

def Expr.mapEntries : List (Expr × Expr) → List (Expr × Expr)
  | [] => []
  | (k, v) :: es => (k.map, v.map) :: Expr.mapEntries es

end

def Param.map (p : Param) : Param := ⟨f p.name, p.default.map (Expr.map f g)⟩

def mapUpdate : Update Expr → Update Expr
  | .increment => .increment
  | .decrement => .decrement
  | .increase e => .increase (e.map f g)
  | .decrease e => .decrease (e.map f g)

mutual

def Stmt.map : Stmt → Stmt
  | .expression e => .expression (e.map f g)
  | .declare constant names values => .declare constant (names.map f) (Expr.mapAll f g values)
  | .assign targets values => .assign (Expr.mapAll f g targets) (Expr.mapAll f g values)
  | .function async name params body => .function async (f name) (params.map (Param.map f g)) (mapBody body)
  | .constructor name params fields => .constructor (f name) (params.map (Param.map f g)) (fields.map f)
  | .attach constructor method => .attach (f constructor) (f method)
  | .conditional branches otherwise => .conditional (mapBranches branches) (mapOtherwise otherwise)
  | .whileLoop condition body => .whileLoop (condition.map f g) (mapBody body)
  | .forLoop index init test target update body =>
    .forLoop (f index) (init.map f g) (test.map f g) (f target) (mapUpdate f g update) (mapBody body)
  | .switch cases otherwise => .switch (mapBranches cases) (mapOtherwise otherwise)
  | .breakLoop => .breakLoop
  | .continueLoop => .continueLoop
  | .returnValue value => .returnValue (value.map (Expr.map f g))
  | .print e => .print (e.map f g)
  | .block body => .block (mapBody body)

def mapBody : List Stmt → List Stmt
  | [] => []
  | s :: ss => s.map :: mapBody ss

def mapBranches : List (Guarded Stmt) → List (Guarded Stmt)
  | [] => []
  | ⟨guard, body⟩ :: gs => ⟨guard.map f g, mapBody body⟩ :: mapBranches gs

def mapOtherwise : Option (List Stmt) → Option (List Stmt)
  | none => none
  | some body => some (mapBody body)

end

end

theorem mapBody_append (ss ts : List Stmt) : mapBody f g (ss ++ ts) = mapBody f g ss ++ mapBody f g ts := by
  induction ss with
  | nil => rfl
  | cons s ss ih =>
    rw [cons_append, mapBody, mapBody, ih]
    rfl

theorem mapBody_attach (name : String) (methods : List String) :
    mapBody f g (methods.map (.attach name)) = (methods.map f).map (.attach (f name)) := by
  induction methods with
  | nil => rfl
  | cons x methods ih =>
    rw [map_cons, mapBody, ih]
    rfl

/-! ## scans -/

/-- the first character, if there is one, ends a word in front of it -/
def HeadApart (cs : List Char) : Prop := ∀ c ∈ cs.head?, Text.isWordPart c = false

theorem apart_append (h : startsApart t = true) (rest : List Char) : HeadApart (t.toList ++ rest) := by
  unfold startsApart at h
  cases hlist : t.toList with
  | nil =>
    rw [hlist] at h
    exact nomatch h
  | cons c cs =>
    rw [hlist] at h
    rintro c' ⟨⟩
    simpa using h

/-- a text without underscores and quotes -/
def isPlain (t : String) : Bool := t.toList.all fun c => c ≠ '_' && c ≠ '"'

/-- a text whose last character, if there is one, ends a word -/
def endsApart (t : String) : Bool := t.toList.getLast?.all fun c => !Text.isWordPart c

theorem plain_chars (h : isPlain t = true) : ∀ c ∈ t.toList, c ≠ '_' ∧ c ≠ '"' := by
  intro c hc
  have hplain := all_eq_true.mp h c hc
  rwa [Bool.and_eq_true, decide_eq_true_iff, decide_eq_true_iff] at hplain

/-- a plain text that ends apart may stand in front of anything -/
def isLead (t : String) : Bool := isPlain t && endsApart t

/-- a plain text that is apart from everything around it -/
def isMark (t : String) : Bool := isLead t && startsApart t

/-- the scan maps names by `f` and literals by `g`, and copies plain texts -/
structure Scans (T : List Char → List Char) (f : String → String) (g : Literal → Literal) : Prop where
  lead : ∀ {t : String}, isLead t = true → ∀ rest, T (t.toList ++ rest) = t.toList ++ T rest
  name : ∀ {x : String}, IsName x → ∀ {rest}, HeadApart rest → T (x.toList ++ rest) = (f x).toList ++ T rest
  literal : ∀ {v : Literal}, Literal.Legible v → ∀ {rest}, HeadApart rest →
    T ((literalText v).toList ++ rest) = (literalText (g v)).toList ++ T rest
  nil : T [] = []

theorem isPlain_literalText (h : Literal.Legible v) (hv : ∀ s, v ≠ .string s) :
    isPlain (literalText v) = true := by
  -- digits are neither underscores nor quotes
  have hdigits : ∀ c : Char, Text.isDigit c = true → (c ≠ '_' && c ≠ '"') = true := by
    intro c hc
    have hne : ∀ c' : Char, Text.isDigit c' = false → decide (c ≠ c') = true := by
      intro c' hc'
      refine decide_eq_true ?_
      rintro rfl
      exact Bool.noConfusion (hc.symm.trans hc')
    rw [hne '_' (by decide), hne '"' (by decide)]
    rfl
  cases v with
  | integer n =>
    cases n with
    | ofNat m => exact all_eq_true.mpr fun c hc => hdigits c (isDigit_of_mem_toString hc)
    | negSucc m =>
      show isPlain ("-" ++ toString (m + 1)) = true
      refine all_eq_true.mpr fun c hc => ?_
      rw [String.toList_append] at hc
      rcases mem_append.mp hc with hc | hc
      · cases mem_singleton.mp hc
        decide
      · exact hdigits c (isDigit_of_mem_toString hc)
  | long digits =>
    have hnumeral : isNumeral digits = true := h
    unfold isNumeral at hnumeral
    rw [Bool.and_eq_true] at hnumeral
    show isPlain (digits ++ "n") = true
    refine all_eq_true.mpr fun c hc => ?_
    rw [String.toList_append] at hc
    rcases mem_append.mp hc with hc | hc
    · exact hdigits c (all_eq_true.mp hnumeral.2 c hc)
    · cases mem_singleton.mp hc
      decide
  | string s => exact absurd rfl (hv s)
  | boolean b => cases b <;> decide
  | null => decide

/-! ## pieces -/

/-- the scan turns some pieces into others, whatever comes after them apart -/
def Turns (T : List Char → List Char) (ps qs : List Piece) : Prop :=
  ∀ rest, HeadApart rest → T ((piecesText ps).toList ++ rest) = (piecesText qs).toList ++ T rest

/-- the scan turns some pieces into others, whatever comes after them -/
def Leads (T : List Char → List Char) (ps qs : List Piece) : Prop :=
  ∀ rest, T ((piecesText ps).toList ++ rest) = (piecesText qs).toList ++ T rest

theorem turns_nil : Turns T [] [] := fun _ _ => rfl

theorem leads_nil : Leads T [] [] := fun _ => rfl

theorem Leads.turns_append (h : Leads T ps qs) (h' : Turns T ps' qs') : Turns T (ps ++ ps') (qs ++ qs') := by
  intro rest hrest
  rw [piecesText_append, piecesText_append, String.toList_append, String.toList_append, append_assoc,
    append_assoc, h, h' rest hrest]

theorem Leads.append (h : Leads T ps qs) (h' : Leads T ps' qs') : Leads T (ps ++ ps') (qs ++ qs') := by
  intro rest
  rw [piecesText_append, piecesText_append, String.toList_append, String.toList_append, append_assoc,
    append_assoc, h, h']

section

variable (hT : Scans T f g)

include hT

theorem leads_plain (ht : isLead t = true) : Leads T [.plain t] [.plain t] := by
  intro rest
  rw [piecesText_cons, piecesText_nil, String.append_empty]
  exact hT.lead ht rest

theorem turns_name (h : IsName x) : Turns T [.name x] [.name (f x)] := by
  intro rest hrest
  rw [piecesText_cons, piecesText_cons, piecesText_nil, String.append_empty, String.append_empty]
  exact hT.name h hrest

theorem turns_plain (ht : isLead t = true) (h : Turns T ps qs) : Turns T (.plain t :: ps) (.plain t :: qs) :=
  (leads_plain hT ht).turns_append h

theorem Turns.mark (h : Turns T ps qs) (ht : isMark t = true) (h' : Turns T ps' qs') :
    Turns T (ps ++ .plain t :: ps') (qs ++ .plain t :: qs') := by
  intro rest hrest
  obtain ⟨hlead, hstart⟩ := Bool.and_eq_true_iff.mp ht
  have hapart : HeadApart ((piecesText (.plain t :: ps')).toList ++ rest) := by
    rw [piecesText_cons, String.toList_append, append_assoc]
    exact apart_append hstart _
  rw [piecesText_append, piecesText_append, String.toList_append, String.toList_append, append_assoc,
    append_assoc, h _ hapart, turns_plain hT hlead h' rest hrest]

theorem Turns.enclose (h : Turns T ps qs) (hfirst : isLead first = true) (hlast : isMark last = true) :
    Turns T (.plain first :: (ps ++ [.plain last])) (.plain first :: (qs ++ [.plain last])) :=
  turns_plain hT hfirst (h.mark hT hlast turns_nil)

theorem turns_commas (h : List.Forall₂ (Turns T) pss qss) : Turns T (commaPieces pss) (commaPieces qss) := by
  induction h with
  | nil => exact turns_nil
  | cons hps hpss ih =>
    cases hpss with
    | nil => exact hps
    | cons _ _ => exact hps.mark hT (by decide) ih

theorem Turns.line (h : Turns T ps qs) (width d : Nat) :
    Leads T (linePieces width d ps) (linePieces width d qs) := by
  intro rest
  have hblanks : isLead (String.ofList (List.replicate (d * width) ' ')) = true := by
    have hblank : ∀ c ∈ List.replicate (d * width) ' ', c = ' ' := fun c hc => eq_of_mem_replicate hc
    unfold isLead isPlain endsApart
    rw [String.toList_ofList, Bool.and_eq_true]
    refine ⟨all_eq_true.mpr fun c hc => by rw [hblank c hc]; decide, ?_⟩
    cases hlast : (List.replicate (d * width) ' ').getLast? with
    | none => rfl
    | some c =>
      rw [hblank c (mem_of_getLast? hlast)]
      decide
  have hend := leads_plain hT (by decide : isLead "\n" = true) rest
  have hapart : HeadApart ((piecesText [.plain "\n"]).toList ++ rest) := by
    rw [piecesText_cons, piecesText_nil, String.append_empty]
    exact apart_append (by decide) rest
  have hline := turns_plain hT hblanks h _ hapart
  rw [linePieces, linePieces, ← cons_append, ← cons_append, piecesText_append, piecesText_append,
    String.toList_append, String.toList_append, append_assoc, append_assoc, hline, hend]

/-! ## expressions -/

omit hT in
mutual

theorem Expr.turns (hT : Scans T f g) (e : Expr) (h : e.Legible) : Turns T e.pieces (e.map f g).pieces := by
  match e, h with
  | .literal v, h =>
    intro rest hrest
    rw [Expr.map, Expr.pieces, Expr.pieces, piecesText_cons, piecesText_cons, piecesText_nil,
      String.append_empty, String.append_empty]
    exact hT.literal h hrest
  | .ident x, h => exact turns_name hT h
  | .binary op l r, h =>
    refine turns_plain hT (by decide)
      ((l.turns hT h.1).mark hT ?_ ((r.turns hT h.2).mark hT (by decide) turns_nil))
    cases op <;> decide
  | .truncate q, h => exact (q.turns hT h).enclose hT (by decide) (by decide)
  | .unary op x, h => exact (x.turns hT h).enclose hT (by cases op <;> decide) (by decide)
  | .group x, h | .await x, h => exact (x.turns hT h).enclose hT (by decide) (by decide)
  | .call e as, h =>
    have harguments := turns_commas hT (Expr.turns_all hT as h.2)
    exact (e.turns hT h.1).mark hT (by decide) (harguments.mark hT (by decide) turns_nil)
  | .construct e as, h =>
    have harguments := turns_commas hT (Expr.turns_all hT as h.2)
    exact turns_plain hT (by decide)
      ((e.turns hT h.1).mark hT (by decide) (harguments.mark hT (by decide) turns_nil))
  | .subscript b i, h =>
    exact (b.turns hT h.1).mark hT (by decide) ((i.turns hT h.2).mark hT (by decide) turns_nil)
  | .member o x, h => exact (o.turns hT h.1).mark hT (by decide) (turns_name hT h.2)
  | .array es, h | .newSet es, h =>
    exact (turns_commas hT (Expr.turns_all hT es h)).enclose hT (by decide) (by decide)
  | .object [], _ => exact turns_plain hT (by decide) turns_nil
  | .object ((k, v) :: es), h =>
    exact (turns_commas hT (Expr.turns_entries hT ((k, v) :: es) h)).enclose hT (by decide) (by decide)

theorem Expr.turns_all (hT : Scans T f g) (es : List Expr) (h : Expr.AllLegible es) :
    List.Forall₂ (Turns T) (Expr.allPieces es) (Expr.allPieces (Expr.mapAll f g es)) := by
  match es, h with
  | [], _ => exact .nil
  | e :: es, h => exact .cons (e.turns hT h.1) (Expr.turns_all hT es h.2)

theorem Expr.turns_entries (hT : Scans T f g) (es : List (Expr × Expr)) (h : Expr.EntriesLegible es) :
    List.Forall₂ (Turns T) (Expr.entryPieces es) (Expr.entryPieces (Expr.mapEntries f g es)) := by
  match es, h with
  | [], _ => exact .nil
  | (k, v) :: es, h =>
    exact .cons ((k.turns hT h.1).mark hT (by decide) (v.turns hT h.2.1)) (Expr.turns_entries hT es h.2.2)

end

theorem Expr.turns_map (h : Expr.AllLegible es) :
    List.Forall₂ (Turns T) (es.map Expr.pieces) ((Expr.mapAll f g es).map Expr.pieces) := by
  rw [← Expr.allPieces_eq_map, ← Expr.allPieces_eq_map]
  exact Expr.turns_all hT es h

/-! ## statements -/

theorem turns_names {names : List String} (h : ∀ x ∈ names, IsName x) : List.Forall₂ (Turns T)
    (names.map fun x => [Piece.name x]) ((names.map f).map fun x => [Piece.name x]) := by
  rw [List.map_map, List.forall₂_map_left_iff, List.forall₂_map_right_iff]
  exact List.forall₂_same.mpr fun x hx => turns_name hT (h x hx)

theorem turns_destructure (htargets : List.Forall₂ (Turns T) targets targets')
    (hvalues : List.Forall₂ (Turns T) values values') :
    Turns T (destructurePieces targets values) (destructurePieces targets' values') := by
  have hlists := turns_plain hT (by decide : isLead "[" = true) ((turns_commas hT htargets).mark hT
    (by decide : isMark "] = [" = true) ((turns_commas hT hvalues).mark hT (by decide : isMark "]" = true)
      turns_nil))
  -- one target with one value needs no brackets
  cases htargets with
  | nil => exact hlists
  | cons ht hts =>
    cases hts with
    | cons _ _ => exact hlists
    | nil =>
      cases hvalues with
      | nil => exact hlists
      | cons hv hvs =>
        cases hvs with
        | cons _ _ => exact hlists
        | nil => exact ht.mark hT (by decide) hv

theorem turns_declaration (constant : Bool) {names : List String} {values values' : List (List Piece)}
    (hnames : ∀ x ∈ names, IsName x) (hvalues : List.Forall₂ (Turns T) values values') :
    Turns T (declarationPieces constant names values) (declarationPieces constant (names.map f) values') := by
  have hempty : values'.isEmpty = values.isEmpty := by cases hvalues <;> rfl
  unfold declarationPieces
  rw [hempty]
  refine turns_plain hT (by cases constant <;> decide) (Turns.mark hT ?_ (by decide) turns_nil)
  split
  · exact turns_commas hT (turns_names hT hnames)
  · exact turns_destructure hT (turns_names hT hnames) hvalues

theorem Param.turns {p : Param} (h : p.Legible) : Turns T p.pieces (p.map f g).pieces := by
  obtain ⟨name, default⟩ := p
  cases default with
  | none => exact turns_name hT h.name
  | some e => exact (turns_name hT h.name).mark hT (by decide) (e.turns hT (h.default e rfl))

theorem turns_function (async : Bool) (hname : IsName name) (hparams : ∀ p ∈ params, p.Legible) :
    Turns T (functionPieces async name params)
      (functionPieces async (f name) (params.map (Param.map f g))) := by
  have hlist : List.Forall₂ (Turns T) (params.map Param.pieces)
      ((params.map (Param.map f g)).map Param.pieces) := by
    rw [List.map_map, List.forall₂_map_left_iff, List.forall₂_map_right_iff]
    exact List.forall₂_same.mpr fun p hp => p.turns hT (hparams p hp)
  exact turns_plain hT (by cases async <;> decide) ((turns_name hT hname).mark hT (by decide)
    ((turns_commas hT hlist).mark hT (by decide) turns_nil))

theorem turns_update (htarget : IsName target) (h : updateLegible update) :
    Turns T (updatePieces target update) (updatePieces (f target) (mapUpdate f g update)) := by
  cases update with
  | increment | decrement => exact (turns_name hT htarget).mark hT (by decide) turns_nil
  | increase e | decrease e => exact (turns_name hT htarget).mark hT (by decide) (Expr.turns hT e h)

theorem turns_for {init test : Expr} (hindex : IsName index) (hinit : init.Legible) (htest : test.Legible)
    (htarget : IsName target) (hupdate : updateLegible update) :
    Turns T (forPieces index init test target update)
      (forPieces (f index) (init.map f g) (test.map f g) (f target) (mapUpdate f g update)) := by
  have hlast := (turns_update hT htarget hupdate).mark hT (by decide : isMark ") \x7b" = true) turns_nil
  have hmiddle := (test.turns hT htest).mark hT (by decide : isMark "; " = true) hlast
  exact turns_plain hT (by decide) ((turns_name hT hindex).mark hT (by decide)
    ((init.turns hT hinit).mark hT (by decide) hmiddle))

theorem leads_line (h : isLead t = true) (width d : Nat) :
    Leads T (linePieces width d [.plain t]) (linePieces width d [.plain t]) :=
  (turns_plain hT h turns_nil).line hT width d

theorem leads_enclose {e : Expr} (he : e.Legible) (hfirst : isLead first = true) (hlast : isMark last = true)
    (width d : Nat) :
    Leads T (linePieces width d (.plain first :: (e.pieces ++ [.plain last])))
      (linePieces width d (.plain first :: ((e.map f g).pieces ++ [.plain last]))) :=
  ((e.turns hT he).enclose hT hfirst hlast).line hT width d

theorem leads_fields {fields : List String} (h : ∀ x ∈ fields, IsName x) (width d : Nat) :
    Leads T (fields.flatMap fun x => linePieces width d
        [.plain "this.", .name x, .plain " = ", .name x, .plain ";"])
      ((fields.map f).flatMap fun x => linePieces width d
        [.plain "this.", .name x, .plain " = ", .name x, .plain ";"]) := by
  induction fields with
  | nil => exact leads_nil
  | cons x fields ih =>
    obtain ⟨hx, hfields⟩ := forall_mem_cons.mp h
    rw [flatMap_cons, map_cons, flatMap_cons]
    refine Leads.append (Turns.line hT ?_ width d) (ih hfields)
    exact turns_plain hT (by decide) ((turns_name hT hx).mark hT (by decide)
      ((turns_name hT hx).mark hT (by decide) turns_nil))

omit hT in
mutual

theorem Stmt.leads (hT : Scans T f g) (s : Stmt) (h : s.Legible) (width d : Nat) :
    Leads T (s.pieces width d) ((s.map f g).pieces width d) := by
  have hclose := leads_line hT (by decide : isLead "\x7d" = true) width d
  match s, h with
  | .expression e, h => exact ((e.turns hT h).mark hT (by decide) turns_nil).line hT width d
  | .declare constant names values, h =>
    exact (turns_declaration hT constant h.1 (Expr.turns_map hT h.2)).line hT width d
  | .assign targets values, h =>
    have hlists := turns_destructure hT (Expr.turns_map hT h.1) (Expr.turns_map hT h.2)
    exact (hlists.mark hT (by decide) turns_nil).line hT width d
  | .function async name params body, h =>
    exact ((turns_function hT async h.1 h.2.1).line hT width d).append
      ((leads_body hT body h.2.2 width (d + 1)).append hclose)
  | .constructor name params fields, h =>
    exact ((turns_function hT false h.1 h.2.1).line hT width d).append
      ((leads_fields hT h.2.2 width (d + 1)).append hclose)
  | .attach constructor method, h =>
    have hmethod := turns_name hT h.2
    have hvalue := hmethod.mark hT (by decide : isMark " = " = true)
      (hmethod.mark hT (by decide : isMark ";" = true) turns_nil)
    exact ((turns_name hT h.1).mark hT (by decide) hvalue).line hT width d
  | .conditional branches otherwise, h =>
    exact (leads_branches hT (by decide) branches h.2.1 width d).append
      ((leads_otherwise hT otherwise h.2.2 width d).append hclose)
  | .whileLoop condition body, h =>
    exact (leads_enclose hT h.1 (by decide) (by decide) width d).append
      ((leads_body hT body h.2 width (d + 1)).append hclose)
  | .forLoop index init test target update body, h =>
    exact ((turns_for hT h.1 h.2.1 h.2.2.1 h.2.2.2.1 h.2.2.2.2.1).line hT width d).append
      ((leads_body hT body h.2.2.2.2.2 width (d + 1)).append hclose)
  | .switch cases otherwise, h =>
    exact (leads_line hT (by decide) width d).append ((leads_cases hT cases h.1 width (d + 1)).append
      ((leads_default hT otherwise h.2 width (d + 1)).append hclose))
  | .breakLoop, _ | .continueLoop, _ | .returnValue none, _ => exact leads_line hT (by decide) width d
  | .returnValue (some e), h => exact leads_enclose hT (h e rfl) (by decide) (by decide) width d
  | .print e, h => exact leads_enclose hT h (by decide) (by decide) width d
  | .block body, h =>
    exact (leads_line hT (by decide) width d).append ((leads_body hT body h width (d + 1)).append hclose)

theorem leads_body (hT : Scans T f g) (body : List Stmt) (h : BodyLegible body) (width d : Nat) :
    Leads T (bodyPieces width d body) (bodyPieces width d (mapBody f g body)) := by
  match body, h with
  | [], _ => exact leads_nil
  | s :: ss, h => exact (s.leads hT h.1 width d).append (leads_body hT ss h.2 width d)

theorem leads_branches (hT : Scans T f g) (hopening : isLead opening = true)
    (gs : List (Guarded Stmt)) (h : BranchesLegible gs)
    (width d : Nat) :
    Leads T (branchPieces width d opening gs) (branchPieces width d opening (mapBranches f g gs)) := by
  match gs, h with
  | [], _ => exact leads_nil
  | ⟨guard, body⟩ :: gs, h =>
    exact (leads_enclose hT h.1 hopening (by decide) width d).append
      ((leads_body hT body h.2.1 width (d + 1)).append (leads_branches hT (by decide) gs h.2.2 width d))

theorem leads_otherwise (hT : Scans T f g) (o : Option (List Stmt)) (h : OtherwiseLegible o) (width d : Nat) :
    Leads T (otherwisePieces width d o) (otherwisePieces width d (mapOtherwise f g o)) := by
  match o, h with
  | none, _ => exact leads_nil
  | some body, h => exact (leads_line hT (by decide) width d).append (leads_body hT body h width (d + 1))

theorem leads_cases (hT : Scans T f g) (gs : List (Guarded Stmt)) (h : BranchesLegible gs) (width d : Nat) :
    Leads T (casePieces width d gs) (casePieces width d (mapBranches f g gs)) := by
  match gs, h with
  | [], _ => exact leads_nil
  | ⟨guard, body⟩ :: gs, h =>
    exact (leads_enclose hT h.1 (by decide) (by decide) width d).append
      ((leads_body hT body h.2.1 width (d + 1)).append
        ((leads_line hT (by decide) width (d + 1)).append (leads_cases hT gs h.2.2 width d)))

theorem leads_default (hT : Scans T f g) (o : Option (List Stmt)) (h : OtherwiseLegible o) (width d : Nat) :
    Leads T (defaultPieces width d o) (defaultPieces width d (mapOtherwise f g o)) := by
  match o, h with
  | none, _ => exact leads_nil
  | some body, h => exact (leads_line hT (by decide) width d).append (leads_body hT body h width (d + 1))

end

/-- the text of a script is turned into the text of the mapped script -/
theorem Scans.layout (h : BodyLegible ss) (width : Nat) :
    String.ofList (T (layout width (bodyLines 0 ss)).toList)
      = TypedScript.Script.layout width (bodyLines 0 (mapBody f g ss)) := by
  have htext := leads_body hT ss h width 0 []
  rw [append_nil, hT.nil, append_nil, piecesText_bodyPieces, piecesText_bodyPieces] at htext
  rw [htext, String.ofList_toList]

end

end TypedScript.Script
