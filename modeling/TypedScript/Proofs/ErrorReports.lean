import TypedScript.Proofs.LineLookup
import TypedScript.Proofs.PlainChecks

/-!
# Reports of failing compilations

A compilation fails in the scanner or the parser, with a place in the source, or behind them, without
one.  The report of a fault with a place shows the file and the line of the place; every other report is
its headline only.

* `Cause.headline`                              what a fault is called, and its tip;
* `Diagnostic.Located`, `Diagnostic.General`    the texts of the reports.
-/

namespace TypedScript

open Text List

/-! ## the line of a place -/

theorem Unterminated.within {line shown : List Char} (h : Unterminated line shown) : shown <:+: line := by
  cases h with
  | crlf => exact (prefix_append _ _).isInfix
  | newline _ => exact (prefix_append _ _).isInfix
  | none _ => exact infix_rfl

/-- every place of a text that is not empty has a line, which is a part of the text -/
theorem lineAt_eq_some (h : text ≠ []) (hoffset : offset ≤ byteLength text) :
    ∃ line, lineAt text offset = some line ∧ line.text <:+: text := by
  rcases Nat.lt_or_eq_of_le hoffset with hlt | rfl
  · obtain ⟨before, line, after, _, htext, _, _, _, _, hlookup⟩ := lineAt_of_lt hlt
    exact ⟨_, hlookup, before, after, htext.symm⟩
  · obtain ⟨before, line, shown, htext, _, hshown, hlookup⟩ := lineAt_end h
    exact ⟨_, hlookup, hshown.within.trans ⟨before, [], by rw [append_nil, htext]⟩⟩

/-- what is left of a line without the white space at its ends -/
structure IsTrimmed (line shown : List Char) : Prop where
  within : ∃ left right, line = left ++ shown ++ right ∧ ∀ c ∈ left ++ right, isBlank c = true
  ends : ∀ c, shown.head? = some c ∨ shown.getLast? = some c → isBlank c = false

theorem isTrimmed_trimmed (cs : List Char) : IsTrimmed cs (Diagnostic.trimmed cs) := by
  have hfirst : ∀ (ds : List Char) (c : Char), (ds.dropWhile isBlank).head? = some c → isBlank c = false := by
    intro ds c hc
    have hnot := head?_dropWhile_not isBlank ds
    rw [hc] at hnot
    exact hnot
  let rest := cs.dropWhile isBlank
  have hrest : rest = Diagnostic.trimmed cs ++ (rest.reverse.takeWhile isBlank).reverse := by
    unfold Diagnostic.trimmed
    rw [← reverse_append, takeWhile_append_dropWhile, reverse_reverse]
  refine ⟨⟨cs.takeWhile isBlank, (rest.reverse.takeWhile isBlank).reverse, ?_, fun c hc => ?_⟩,
    fun c hc => ?_⟩
  · rw [append_assoc, ← hrest, takeWhile_append_dropWhile]
  · rcases mem_append.mp hc with hc | hc
    · exact mem_takeWhile_imp hc
    · exact mem_takeWhile_imp (mem_reverse.mp hc)
  · rcases hc with hhead | hlast
    · refine hfirst cs c ?_
      show rest.head? = some c
      rw [hrest, head?_append, hhead]
      rfl
    · rw [Diagnostic.trimmed, getLast?_reverse] at hlast
      exact hfirst _ c hlast

theorem IsTrimmed.of_drop {line shown : List Char}
    (h : IsTrimmed (line.drop (Diagnostic.leadingBlanks line)) shown) :
    IsTrimmed line shown := by
  obtain ⟨⟨left, right, hline, hblank⟩, hends⟩ := h
  refine ⟨⟨line.takeWhile (· == ' ') ++ left, right, ?_, fun c hc => ?_⟩, hends⟩
  · have htake : line.takeWhile (· == ' ') = line.take (Diagnostic.leadingBlanks line) :=
      prefix_iff_eq_take.mp <| takeWhile_prefix _
    rw [append_assoc, append_assoc, ← append_assoc left, ← hline, htake, take_append_drop]
  · rw [append_assoc] at hc
    rcases mem_append.mp hc with hc | hc
    · have hspace : (c == ' ') = true := mem_takeWhile_imp (p := (· == ' ')) hc
      rw [beq_iff_eq.mp hspace]
      decide
    · exact hblank c hc

/-! ## two kinds of faults -/

/-- a fault of syntax: it has a place in the file, between two characters of the source, and its report
goes on with the file and with the line of that place behind its number, over a caret -/
structure Diagnostic.Located (source file : String) (d : Diagnostic) : Prop where
  category : d.cause.category = .grammar
  report : ∃ before after line shown, source.toList = before ++ after ∧
    d.position = some ⟨byteLength before, file⟩ ∧
    lineAt source.toList (byteLength before) = some line ∧ line.text <:+: source.toList ∧
    IsTrimmed line.text shown ∧
    let number := toString line.number
    let bar := String.ofList (replicate (number.length + 1) ' ') ++ "|"
    let dashes := replicate (line.offset - (line.text.takeWhile (· == ' ')).length) '-'
    d.report source = d.cause.headline ++ "\n"
      ++ ("-> " ++ file ++ "\n"
        ++ bar ++ "\n"
        ++ number ++ " | " ++ String.ofList shown ++ "\n"
        ++ bar ++ " " ++ String.ofList dashes ++ "^\n")

/-- any other fault: it has no place, and its report is the headline -/
structure Diagnostic.General (source : String) (d : Diagnostic) : Prop where
  category : d.cause.category ≠ .grammar
  position : d.position = none
  line : IsLine d.cause.headline
  report : d.report source = d.cause.headline ++ "\n"

theorem Diagnostic.located {source file : String} {d : Diagnostic} {before after : List Char}
    (hcategory : d.cause.category = .grammar) (hsource : source.toList = before ++ after)
    (hposition : d.position = some ⟨byteLength before, file⟩) (hne : source.toList ≠ []) :
    d.Located source file := by
  have hoffset : byteLength before ≤ byteLength source.toList := by
    rw [hsource, byteLength_append]
    exact Nat.le_add_right _ _
  obtain ⟨line, hline, hinfix⟩ := lineAt_eq_some hne hoffset
  refine ⟨hcategory, before, after, line, _, hsource, hposition, hline, hinfix,
    (isTrimmed_trimmed _).of_drop, ?_⟩
  unfold Diagnostic.report
  rw [hposition]
  dsimp only
  rw [hline, d.header_eq]
  rfl

theorem Cause.Plain.general {e : Cause} (h : e.Plain True) (source : String) :
    (Diagnostic.unplaced e).General source :=
  ⟨bne_iff_ne.mp h.category, rfl, h.isLine_headline, Diagnostic.header_eq _⟩

/-! ## the stages -/

variable {file source : String} {d : Diagnostic} {p : Program}

theorem Tiles.exists_place {source : List Char} (h : Tiles source file i ts) :
    ∀ t ∈ ts, ∃ before after, source = before ++ after ∧ t.span.position = ⟨byteLength before, file⟩ := by
  induction h with
  | ending _ _ =>
    intro t ht
    rw [mem_singleton.mp ht]
    exact ⟨source, [], (append_nil source).symm, rfl⟩
  | @token _ _ l u _ _ _ hslice _ _ hfile _ ih =>
    intro t ht
    rcases mem_cons.mp ht with rfl | ht
    · obtain ⟨before, after, hsource, hstart, _⟩ := hslice
      refine ⟨before, l ++ after, hsource, ?_⟩
      rw [Span.position, hstart, hfile]
    · exact ih t ht

theorem located_of_scan (h : scan source file = .error d) : d.Located source file := by
  obtain ⟨before, c, after, hsource, rfl, _⟩ := Reader.stops h
  have hne : source.toList ≠ [] := by
    rw [hsource]
    exact append_ne_nil_of_right_ne_nil _ (cons_ne_nil _ _)
  refine Diagnostic.located rfl hsource ?_ hne
  rw [Nat.zero_add]
  rfl

theorem parseSource_eq_ok (h : parseSource source file = .ok p) :
    ∃ ts, scan source file = .ok ts ∧ parse ts file = .ok p := by
  unfold parseSource at h
  cases hscan : scan source file with
  | error d =>
    rw [hscan] at h
    exact nomatch h
  | ok ts =>
    rw [hscan] at h
    exact ⟨ts, rfl, h⟩

theorem parseSource_empty (h : source.toList = []) : parseSource source file = .ok [] := by
  have hscan : scan source file = .ok [.endOf ⟨0, 0, file⟩] := by
    unfold scan Reader.ofText
    rw [h, Reader.tokens_nil]
  unfold parseSource
  rw [hscan]
  rfl

theorem located_of_parseSource (h : parseSource source file = .error d) : d.Located source file := by
  have hne : source.toList ≠ [] := by
    intro hnil
    rw [parseSource_empty hnil] at h
    exact nomatch h
  unfold parseSource at h
  cases hscan : scan source file with
  | error d' =>
    rw [hscan] at h
    cases h
    exact located_of_scan hscan
  | ok ts =>
    rw [hscan] at h
    have hparse : parse ts file = .error d := h
    have htiles := Reader.tiles [] [] (.inl .nil) hscan
    have hblames := passes_parse htiles.endsWithEof file
    rw [hparse] at hblames
    obtain ⟨hcategory, t, ht, hposition⟩ := hblames
    obtain ⟨before, after, hsource, hplace⟩ := htiles.exists_place t ht
    exact Diagnostic.located hcategory hsource (hposition.trans (congrArg some hplace)) hne

theorem wellFormed_of_parseSource (h : parseSource source file = .ok p) : p.WellFormed := by
  obtain ⟨ts, hscan, hparse⟩ := parseSource_eq_ok h
  exact wellFormed_of_parse (scanned_of_scan hscan) hparse

theorem general_of_analyse (hp : p.WellFormed)
    (h : analyse Scope.root p = .error d) (source : String) : d.General source := by
  unfold analyse at h
  dsimp only at h
  split at h
  · exact nomatch h
  · next e he =>
    cases h
    exact ((orderly_checkProgram hp).failure e he).2.general source

theorem general_of_compile (h : compile options p = .error d) (source : String) : d.General source := by
  unfold compile at h
  split at h
  · exact nomatch h
  · cases h
    have hname : IsLine options.target.name := by
      cases options.target <;> exact isLine_ofList (by decide)
    exact Cause.Plain.general (e := .unsupportedTarget options.target.name)
      ⟨rfl, isLine_single fun _ => hname⟩ source

/-! ## compilation -/

theorem located_or_general (h : compileSource Scope.root source file options = .error d) :
    d.Located source file ∨ d.General source := by
  unfold compileSource analyseSource at h
  cases hparse : parseSource source file with
  | error d' =>
    rw [hparse] at h
    cases h
    exact .inl (located_of_parseSource hparse)
  | ok p =>
    rw [hparse] at h
    cases hanalyse : analyse Scope.root p with
    | error d' =>
      have hd : d' = d := Except.error.inj ((congrArg (· >>= compile options) hanalyse).symm.trans h)
      exact .inr (hd ▸ general_of_analyse (wellFormed_of_parseSource hparse) hanalyse source)
    | ok q =>
      have hq : compile options q = .error d := (congrArg (· >>= compile options) hanalyse).symm.trans h
      exact .inr (general_of_compile hq source)

/-- A fault of a compilation has a place exactly if it is one of syntax.  Its report then goes on behind
the headline with the file and the line of that place; the report of any other fault is the headline. -/
theorem compileSource_reports_faults {source file : String} {options : Options} {d : Diagnostic}
    (h : compileSource Scope.root source file options = .error d) :
    (d.position.isSome ↔ d.cause.category = .grammar) ∧
      (d.cause.category = .grammar → d.Located source file) ∧
      (d.cause.category ≠ .grammar → d.General source) := by
  rcases located_or_general h with hlocated | hgeneral
  · obtain ⟨before, after, line, shown, _, hposition, _⟩ := hlocated.report
    refine ⟨⟨fun _ => hlocated.category, fun _ => ?_⟩, fun _ => hlocated, absurd hlocated.category⟩
    rw [hposition]
    rfl
  · refine ⟨⟨fun hsome => ?_, fun h => absurd h hgeneral.category⟩, fun h => absurd h hgeneral.category,
      fun _ => hgeneral⟩
    rw [hgeneral.position] at hsome
    exact nomatch hsome

/-- `f(` and a line break: the end of the source is blamed, and the first line is shown -/
theorem compileSource_reports_faults_open_call :
    let d : Diagnostic := ⟨.unexpectedToken "EOF", some ⟨3, "a.sc"⟩⟩
    compileSource Scope.root "f(\n" "a.sc" .standard = .error d ∧ d.Located "f(\n" "a.sc" ∧
      d.report "f(\n" = "Error: UnexpectedToken (Unexpected token: `EOF`, did you miss a semicolon?)\n"
        ++ "-> a.sc\n  |\n1 | f(\n  | --^\n" := by
  intro d
  have hfail : compileSource Scope.root "f(\n" "a.sc" .standard = .error d := by cbv
  exact ⟨hfail, (compileSource_reports_faults hfail).2.1 rfl, rfl⟩

end TypedScript
