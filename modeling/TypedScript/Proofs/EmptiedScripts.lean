import TypedScript.Proofs.ChangedScripts
import TypedScript.Proofs.EmptiedTrees

/-!
# Scripts without the contents of their strings

The contents of a string cannot be seen outside of its quotes.  A scan of a script that drops what stands
between quotes gives the text of the script with all strings emptied, so programs that differ in the
values of strings only have scripts that this scan makes equal.
-/

namespace TypedScript

open List

namespace Script

/-! ## texts without what stands between quotes -/

/-- where a scan stands: outside of strings, in a string, or behind a backslash in a string -/
inductive Place where
  | outside | inside | escaped

/-- the rest of a text, without what stands between quotes -/
def Place.drop : Place → List Char → List Char
  | _, [] => []
  | outside, c :: cs => c :: (if c = '"' then inside else outside).drop cs
  | inside, c :: cs =>
    if c = '"' then c :: outside.drop cs else if c = '\\' then escaped.drop cs else inside.drop cs
  | escaped, _ :: cs => inside.drop cs

/-- a text without what stands between its quotes; a quote behind a backslash ends no string -/
def emptyStrings (text : String) : String := String.ofList (Place.outside.drop text.toList)

open TypedScript.Script.Place (outside inside escaped)

theorem drop_outside (h : '"' ∉ cs) (rest : List Char) :
    outside.drop (cs ++ rest) = cs ++ outside.drop rest := by
  induction cs with
  | nil => rfl
  | cons c cs ih =>
    obtain ⟨hc, hcs⟩ := not_or.mp (mt mem_cons.mpr h)
    rw [cons_append, Place.drop, if_neg (Ne.symm hc), ih hcs, cons_append]

theorem drop_inside (hquote : c ≠ '"') (hbackslash : c ≠ '\\') (cs : List Char) :
    inside.drop (c :: cs) = inside.drop cs := by
  rw [Place.drop, if_neg hquote, if_neg hbackslash]

/-- a character of a string literal is dropped, however it is written -/
theorem drop_literalChar (c : Char) (rest : List Char) :
    inside.drop (literalChar c ++ rest) = inside.drop rest := by
  have hhex : ∀ n, n < 16 → ∀ cs, inside.drop (hexDigit n :: cs) = inside.drop cs := by
    intro n hn cs
    have hdigit : ∀ m : Fin 16, hexDigit m ≠ '"' ∧ hexDigit m ≠ '\\' := by decide
    exact drop_inside (hdigit ⟨n, hn⟩).1 (hdigit ⟨n, hn⟩).2 cs
  unfold literalChar
  split
  · rfl
  split
  · rfl
  split
  · rfl
  split
  · rfl
  split
  · rfl
  split
  · rfl
  split
  · next hcontrol =>
    have hc : c.toNat < 128 := by
      rw [Bool.or_eq_true, decide_eq_true_iff, decide_eq_true_iff] at hcontrol
      omega
    show inside.drop (hexDigit _ :: hexDigit _ :: rest) = _
    rw [hhex _ (by omega), hhex _ (by omega)]
  · next hquote hbackslash _ _ _ _ _ => exact drop_inside hquote hbackslash rest

theorem drop_literalChars (cs rest : List Char) :
    outside.drop (literalChars cs ++ rest) = '"' :: '"' :: outside.drop rest := by
  have hinner : inside.drop (cs.flatMap literalChar ++ '"' :: rest) = '"' :: outside.drop rest := by
    induction cs with
    | nil => rfl
    | cons c cs ih => rw [flatMap_cons, append_assoc, drop_literalChar, ih]
  rw [literalChars, cons_append, append_assoc]
  exact congrArg ('"' :: ·) hinner

theorem scans_drop : Scans outside.drop id Literal.emptied where
  lead ht rest := drop_outside (fun hmem => (plain_chars (Bool.and_eq_true_iff.mp ht).1 _ hmem).2 rfl) rest
  name hx rest _ := drop_outside (fun hmem => absurd (hx.word.parts '"' hmem) (by decide)) rest
  literal {v} hv rest _ := by
    cases v with
    | string s =>
      show outside.drop ((String.ofList _).toList ++ rest) = (String.ofList _).toList ++ _
      rw [String.toList_ofList, drop_literalChars, String.toList_ofList]
      rfl
    | _ => exact drop_outside (fun hmem => (plain_chars (isPlain_literalText hv nofun) _ hmem).2 rfl) rest
  nil := rfl

/-- the text of an emptied script is the text of the script without what stands between its quotes -/
theorem emptyStrings_layout (h : BodyLegible ss) (width : Nat) :
    emptyStrings (layout width (bodyLines 0 ss))
      = layout width (bodyLines 0 (mapBody id Literal.emptied ss)) := scans_drop.layout h width

/-! ## legible scripts -/

theorem Literal.legible_emptied {v : Literal} : Literal.Legible v.emptied ↔ Literal.Legible v := by
  cases v <;> rfl

mutual

theorem Expr.legible_emptied (e : Expr) : (e.map id Literal.emptied).Legible ↔ e.Legible := by
  match e with
  | .literal v => exact Literal.legible_emptied
  | .ident x => rfl
  | .binary op l r => exact and_congr l.legible_emptied r.legible_emptied
  | .truncate q => exact q.legible_emptied
  | .unary op x | .group x | .await x => exact x.legible_emptied
  | .call f as | .construct f as => exact and_congr f.legible_emptied (Expr.allLegible_emptied as)
  | .subscript b i => exact and_congr b.legible_emptied i.legible_emptied
  | .member o x => exact and_congr_left' o.legible_emptied
  | .array es | .newSet es => exact Expr.allLegible_emptied es
  | .object entries => exact Expr.entriesLegible_emptied entries

theorem Expr.allLegible_emptied (es : List Expr) :
    Expr.AllLegible (Expr.mapAll id Literal.emptied es) ↔ Expr.AllLegible es := by
  match es with
  | [] => rfl
  | e :: es => exact and_congr e.legible_emptied (Expr.allLegible_emptied es)

theorem Expr.entriesLegible_emptied (es : List (Expr × Expr)) :
    Expr.EntriesLegible (Expr.mapEntries id Literal.emptied es) ↔ Expr.EntriesLegible es := by
  match es with
  | [] => rfl
  | (k, v) :: es =>
    exact and_congr k.legible_emptied (and_congr v.legible_emptied (Expr.entriesLegible_emptied es))

end

theorem Expr.legible_emptied_default {o : Option Expr} :
    (∀ e ∈ o.map (Expr.map id Literal.emptied), e.Legible) ↔ ∀ e ∈ o, e.Legible := by
  cases o with
  | none => exact ⟨nofun, nofun⟩
  | some e => simpa using e.legible_emptied

theorem Param.legible_emptied {ps : List Param} :
    (∀ p ∈ ps.map (Param.map id Literal.emptied), p.Legible) ↔ ∀ p ∈ ps, p.Legible := by
  rw [forall_mem_map]
  refine forall₂_congr fun p _ => ⟨fun h => ⟨h.name, ?_⟩, fun h => ⟨h.name, ?_⟩⟩
  · exact Expr.legible_emptied_default.mp h.default
  · exact Expr.legible_emptied_default.mpr h.default

theorem updateLegible_emptied : updateLegible (mapUpdate id Literal.emptied u) ↔ updateLegible u := by
  cases u with
  | increment | decrement => rfl
  | increase e | decrease e => exact e.legible_emptied

mutual

theorem Stmt.legible_emptied (s : Stmt) : (s.map id Literal.emptied).Legible ↔ s.Legible := by
  match s with
  | .expression e | .print e => exact e.legible_emptied
  | .declare constant names values =>
    rw [Stmt.map, map_id]
    exact and_congr_right' (Expr.allLegible_emptied values)
  | .assign targets values =>
    exact and_congr (Expr.allLegible_emptied targets) (Expr.allLegible_emptied values)
  | .function async name params body =>
    exact and_congr_right' (and_congr Param.legible_emptied (bodyLegible_emptied body))
  | .constructor name params fields =>
    rw [Stmt.map, map_id]
    exact and_congr_right' (and_congr_left' Param.legible_emptied)
  | .attach constructor method | .breakLoop | .continueLoop => rfl
  | .conditional branches otherwise =>
    have hne : mapBranches id Literal.emptied branches ≠ [] ↔ branches ≠ [] := by
      cases branches <;> simp [mapBranches]
    exact and_congr hne (and_congr (branchesLegible_emptied branches) (otherwiseLegible_emptied otherwise))
  | .whileLoop condition body => exact and_congr condition.legible_emptied (bodyLegible_emptied body)
  | .forLoop index init test target update body =>
    exact and_congr_right' (and_congr init.legible_emptied (and_congr test.legible_emptied
      (and_congr_right' (and_congr updateLegible_emptied (bodyLegible_emptied body)))))
  | .switch cases otherwise =>
    exact and_congr (branchesLegible_emptied cases) (otherwiseLegible_emptied otherwise)
  | .returnValue value => exact Expr.legible_emptied_default
  | .block body => exact bodyLegible_emptied body

theorem bodyLegible_emptied (body : List Stmt) : BodyLegible (mapBody id Literal.emptied body) ↔
    BodyLegible body := by
  match body with
  | [] => rfl
  | s :: ss => exact and_congr s.legible_emptied (bodyLegible_emptied ss)

theorem branchesLegible_emptied (gs : List (Guarded Stmt)) :
    BranchesLegible (mapBranches id Literal.emptied gs) ↔ BranchesLegible gs := by
  match gs with
  | [] => rfl
  | ⟨guard, body⟩ :: gs =>
    exact and_congr guard.legible_emptied (and_congr (bodyLegible_emptied body) (branchesLegible_emptied gs))

theorem otherwiseLegible_emptied (o : Option (List Stmt)) :
    OtherwiseLegible (mapOtherwise id Literal.emptied o) ↔ OtherwiseLegible o := by
  match o with
  | none => rfl
  | some body => exact bodyLegible_emptied body

end

end Script

/-! ## programs -/

theorem script_emptied (h : analyse Scope.root p = .ok q) :
    script q.emptied = Script.mapBody id Literal.emptied (script q) := by
  have hname : ∀ x, emptying.name x = Renaming.refl x := fun x => (Renaming.refl_apply x).symm
  obtain ⟨loops, _, hscript⟩ := script_alike trivial hname h (bodyAlike_emptied q)
  rwa [Renaming.remangle_refl] at hscript

/-- The contents of strings change neither the types and identities of a program nor its script: a program
that differs from an accepted one in the values of string literals only is accepted, the annotated trees
differ in these values only, and for all options the outputs are equal without what stands between the
quotes of strings. -/
theorem compile_hides_strings {p p' q : Program} (hp : p.WellFormed)
    (hanalyse : analyse Scope.root p = .ok p')
    (hq : q.emptied = p.emptied) : ∃ q', analyse Scope.root q = .ok q' ∧ q'.emptied = p'.emptied ∧
      ∀ options, (compile options q').map Script.emptyStrings
        = (compile options p').map Script.emptyStrings := by
  obtain ⟨q', hanalyse', hq'⟩ := analyse_of_emptied hanalyse hq
  refine ⟨q', hanalyse', hq', fun options => ?_⟩
  obtain ⟨_, _, hlegible⟩ := exists_naming hp hanalyse
  have hscript : Script.mapBody id Literal.emptied (script q')
    = Script.mapBody id Literal.emptied (script p') := by
    rw [← script_emptied hanalyse, ← script_emptied hanalyse', hq']
  have hlegible' : Script.BodyLegible (script q') := by
    rw [← Script.bodyLegible_emptied, hscript, Script.bodyLegible_emptied]
    exact hlegible
  have htext : Script.emptyStrings (scriptText options.indent q')
      = Script.emptyStrings (scriptText options.indent p') := by
    unfold scriptText
    rw [Script.emptyStrings_layout hlegible, Script.emptyStrings_layout hlegible', hscript]
  unfold compile
  split
  · exact congrArg Except.ok htext
  · rfl

/-- the program `let x = "s"; print x + "t";` for strings `s` and `t`, with its annotations -/
def greeting (s t : String) (id : Option DeclId) (reference : Option Resolution)
    (type : Option Ty) : Program :=
  [.declare false [⟨"x", none, id, type⟩] [.literal (.string s) type],
   .print (.binary .add (.name ⟨"x", reference⟩ type) (.literal (.string t) type) type)]

theorem wellFormed_greeting (s t : String) : (greeting s t none none none).WellFormed := by
  have hstring : ∀ u, Expr.WellFormed (.literal (.string u) none) := fun u => .literal trivial
  have hname : Expr.WellFormed (.name ⟨"x", none⟩ none) := .name (by decide)
  intro st hst
  rcases mem_cons.mp hst with rfl | hst
  · refine .declare (cons_ne_nil _ _) (fun d hd => ?_) fun e he => mem_singleton.mp he ▸ hstring s
    rw [mem_singleton.mp hd]
    exact ⟨by decide, nofun, rfl, rfl⟩
  · rw [mem_singleton.mp hst]
    exact .print (.binary hname (hstring t))

/-- a string that looks like the end of its literal, and a string of backslashes and line breaks -/
theorem compile_hides_strings_greeting :
    let p := greeting "a" "b" none none none
    let p' := greeting "a" "b" (some 1) (some (.declared 1)) (some .string)
    let q := greeting "\"); f(\"" "\\\n\\" none none none
    p.WellFormed ∧ analyse Scope.root p = .ok p' ∧ q.emptied = p.emptied ∧
      ∃ q', analyse Scope.root q = .ok q' ∧ q'.emptied = p'.emptied ∧
        (compile Options.standard q').map Script.emptyStrings
          = .ok "let x_1 = \"\";\nconsole.log((x_1 + \"\"));\n" := by
  intro p p' q
  have hp : p.WellFormed := wellFormed_greeting _ _
  have hp' : analyse Scope.root p = .ok p' := by cbv
  have hq : q.emptied = p.emptied := rfl
  obtain ⟨q', hq', hsame, houtput⟩ := compile_hides_strings hp hp' hq
  refine ⟨hp, hp', hq, q', hq', hsame, (houtput Options.standard).trans (congrArg Except.ok ?_)⟩
  decide +kernel

end TypedScript
