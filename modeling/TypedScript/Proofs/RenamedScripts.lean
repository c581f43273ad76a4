import TypedScript.Proofs.ChangedScripts

/-!
# Compiled programs under renaming

The output of a renamed program is the output of the program with the source names in its names renamed.
The index of a range loop has no source name.
-/

namespace TypedScript

open List

theorem compile_rename (r : Renaming) {p q : Program} (hp : p.WellFormed)
    (h : analyse Scope.root p = .ok q) :
    ∃ loops : Finset Nat, loops.card = bodyLoops q ∧ ∀ options : Options,
      compile options (q.rename r) = (compile options q).map (Script.mapWords (r.remangle loops)) := by
  obtain ⟨ν, _, hlegible⟩ := exists_naming hp h
  obtain ⟨loops, hcard, hscript⟩ := script_alike trivial (fun _ => rfl) h (bodyAlike_rename q)
  refine ⟨loops, hcard, fun options => ?_⟩
  have htext : scriptText options.indent (q.rename r)
      = Script.mapWords (r.remangle loops) (scriptText options.indent q) := by
    unfold scriptText Program.rename
    rw [hscript]
    exact Script.mapWords_layout (Renaming.fixesPlain_remangle loops) hlegible options.indent
  unfold compile
  rw [htext]
  cases options.target.isSupported <;> rfl

/-- Compilation does not look at spellings.  A program and its renaming are both refused, for the same kind
of cause, or both accepted.  In the second case the annotations are the same up to the renaming of class
names, and the outputs are the same up to the renaming of the source names in front of the numbers.  The
index of a range loop is not named after anything in the program, so it keeps its name; this makes no
difference without such loops, or if the name `range` is not renamed. -/
theorem compile_respects_renaming (r : Renaming) {p : Program} (hp : p.WellFormed) :
    match analyse Scope.root p, analyse Scope.root (p.rename r) with
    | .ok q, .ok q' => q' = q.rename r ∧ ∃ loops : Finset Nat, loops.card = bodyLoops q ∧
        (∀ options, compile options q'
          = (compile options q).map (Script.mapWords (r.remangle loops))) ∧
        (bodyLoops q = 0 ∨ r "range" = "range" → r.remangle loops = r.remangle ∅)
    | .error d, .error d' => d'.cause.name = d.cause.name
    | _, _ => False := by
  rcases analyse_rename r p with ⟨q, hq, hq'⟩ | ⟨d, d', hd, hd', hname⟩
  · rw [hq, hq']
    obtain ⟨loops, hcard, hcompile⟩ := compile_rename r hp hq
    refine ⟨rfl, loops, hcard, hcompile, ?_⟩
    rintro (hnone | hrange)
    · rw [Finset.card_eq_zero.mp (hcard.trans hnone)]
    · exact Renaming.remangle_of_range_fixed hrange loops
  · rw [hd, hd']
    exact hname

/-- two identifiers change places -/
def Renaming.swap (x y : Identifier) (hx : x.1 ∉ knownNames) (hy : y.1 ∉ knownNames) : Renaming where
  on := Equiv.swap x y
  injective := (Equiv.swap x y).injective
  fixes _ hz := Equiv.swap_apply_of_ne_of_ne (fun h => hx (h ▸ hz)) (fun h => hy (h ▸ hz))

def Renaming.rangeToX : Renaming := .swap ⟨"range", rfl⟩ ⟨"x", rfl⟩ (by decide) (by decide)

/-- the program `let x = 1; for (x ... 3) { print x; }`, with its annotations -/
def loopFrom (x : String) (id : Option DeclId) (reference : Option Resolution) (t : Option Ty) : Program :=
  [.declare false [⟨x, none, id, t⟩] [.literal (.integer 1) t],
   .rangeLoop (.name ⟨x, reference⟩ t) (.literal (.integer 3) t) [.print (.name ⟨x, reference⟩ t)]]

theorem wellFormed_loopFrom (hx : isName x = true) : (loopFrom x none none none).WellFormed := by
  have hname : Expr.WellFormed (.name ⟨x, none⟩ none) := .name hx
  have hone : Expr.WellFormed (.literal (.integer 1) none) := .literal ⟨by decide, by decide⟩
  have hthree : Expr.WellFormed (.literal (.integer 3) none) := .literal ⟨by decide, by decide⟩
  intro s hs
  rcases mem_cons.mp hs with rfl | hs
  · refine .declare (cons_ne_nil _ _) (fun d hd => ?_) fun e he => mem_singleton.mp he ▸ hone
    rw [mem_singleton.mp hd]
    exact ⟨hx, nofun, rfl, rfl⟩
  · rw [mem_singleton.mp hs]
    exact .rangeLoop hname hthree fun s hs => mem_singleton.mp hs ▸ .print hname

theorem compile_respects_renaming_rangeToX :
    let p := loopFrom "range" none none none
    let q := fun x => loopFrom x (some 1) (some (.declared 1)) (some .int)
    p.WellFormed ∧ analyse Scope.root p = .ok (q "range") ∧
      analyse Scope.root (p.rename .rangeToX) = .ok (q "x") ∧
      ∃ loops : Finset Nat, loops.card = 1 ∧ compile Options.standard (q "x")
        = (compile Options.standard (q "range")).map
          (Script.mapWords (Renaming.rangeToX.remangle loops)) := by
  intro p q
  have hp : p.WellFormed := wellFormed_loopFrom (by decide)
  have hq : analyse Scope.root p = .ok (q "range") := by cbv
  have hrename : p.rename .rangeToX = loopFrom "x" none none none := rfl
  have hq' : analyse Scope.root (p.rename .rangeToX) = .ok (q "x") := by
    rw [hrename]
    cbv
  have h := compile_respects_renaming .rangeToX hp
  rw [hq, hq'] at h
  obtain ⟨_, loops, hcard, hcompile, _⟩ := h
  exact ⟨hp, hq, hq', loops, hcard, hcompile _⟩

/-- the index of the loop is not renamed with the variable -/
theorem compile_keeps_range_index :
    let p := loopFrom "range" none none none
    let q := fun x => loopFrom x (some 1) (some (.declared 1)) (some .int)
    let text := "let x_1 = 1;\nfor (let range_2 = x_1; (range_2 < 3); range_2++) \x7b\n" ++
      "    console.log(x_1);\n\x7d\n"
    let renamed := "let x_1 = 1;\nfor (let x_2 = x_1; (x_2 < 3); x_2++) \x7b\n    console.log(x_1);\n\x7d\n"
    analyse Scope.root p = .ok (q "range") ∧ analyse Scope.root (p.rename .rangeToX) = .ok (q "x") ∧
      compile Options.standard (q "x") = .ok text ∧
      (compile Options.standard (q "range")).map (Script.mapWords (Renaming.rangeToX.remangle ∅))
        = .ok renamed ∧
      compile Options.standard (q "x")
        ≠ (compile Options.standard (q "range")).map (Script.mapWords (Renaming.rangeToX.remangle ∅)) := by
  intro p q text renamed
  have hq : analyse Scope.root p = .ok (q "range") := by cbv
  have hrename : p.rename .rangeToX = loopFrom "x" none none none := rfl
  have hq' : analyse Scope.root (p.rename .rangeToX) = .ok (q "x") := by
    rw [hrename]
    cbv
  have htext : compile Options.standard (q "x") = .ok text := by with_unfolding_all rfl
  have hwords : Script.mapWords (Renaming.rangeToX.remangle ∅) (scriptText 4 (q "range")) = renamed := by
    decide +kernel
  have hrenamed : (compile Options.standard (q "range")).map
      (Script.mapWords (Renaming.rangeToX.remangle ∅)) = .ok renamed := congrArg Except.ok hwords
  have hne : text ≠ renamed := by decide +kernel
  refine ⟨hq, hq', htext, hrenamed, ?_⟩
  rw [htext, hrenamed]
  exact fun h => hne (Except.ok.inj h)

end TypedScript
