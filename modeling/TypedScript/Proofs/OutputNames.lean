import TypedScript.Compile
import TypedScript.Proofs.LexicalScoping
import TypedScript.Proofs.ScriptNames

/-!
# Names in compiled programs

Two identifiers of a compiled program are the same text if and only if they stand for the same thing.
The names that are given out carry the numbers from one on, one for each declaration and each range loop
of the program.
-/

namespace TypedScript

open Script (namesOf)
open List

/-- the names of the target language that a script may hold -/
def natives : List String := builtins.map Builtin.native ++ ["console", "Math", "Set"]

/-- the declarations and the range loops of a program, with their source names -/
def namedEntries (q : Program) : List (Referent × String) :=
  (bodySites q).map (fun d => (d.referent, d.name)) ++
    (List.range (bodyLoops q)).map fun i => (.loop i, "range")

/-- identifiers, and what they stand for at the same places -/
structure NamesIdentify (names : List String) (rs : List Referent)
    (entries : List (Referent × String)) : Prop where
  length : names.length = rs.length
  /-- the same text for the same thing, and for nothing else -/
  same : ∀ a ∈ names.zip rs, ∀ b ∈ names.zip rs, a.1 = b.1 ↔ a.2 = b.2
  /-- what is printed as it is, is a built-in -/
  native : ∀ s, .verbatim s ∈ rs → ∃ b ∈ builtins, b.native = s
  apart : ∀ a ∈ names.zip rs, (∀ s, a.2 ≠ .verbatim s) → a.1 ∉ natives
  /-- each entry occurs, and its place in an order of all entries is the number in its name -/
  numbers : ∃ order : Order, order.Perm entries ∧ (∀ e ∈ order, e.1 ∈ rs) ∧
    ∀ a ∈ names.zip rs, nameIn order a.2 = some a.1

/-! ## lists side by side -/

variable {rs : List Referent} {names : List String} {ν : Referent → Option String}

theorem Named.length (h : Named ν names rs) : names.length = rs.length := by
  have hlength := congrArg List.length h
  rwa [length_map, length_map] at hlength

theorem Named.zip (h : Named ν names rs) (ha : a ∈ names.zip rs) : ν a.2 = some a.1 := by
  induction names generalizing rs with
  | nil => exact nomatch ha
  | cons s names ih =>
    cases rs with
    | nil => exact nomatch ha
    | cons r rs =>
      obtain ⟨hr, hrs⟩ := List.cons.inj h
      rcases mem_cons.mp ha with rfl | ha
      · exact hr.symm
      · exact ih hrs ha

theorem Named.isSome (h : Named ν names rs) (hr : r ∈ rs) : ∃ s, ν r = some s := by
  have hmem : ν r ∈ rs.map ν := mem_map.mpr ⟨r, hr, rfl⟩
  rw [← h] at hmem
  obtain ⟨s, _, hs⟩ := mem_map.mp hmem
  exact ⟨s, hs.symm⟩

/-! ## names of an order -/

variable {s : String} {r : Referent} {order : Order}

theorem not_mem_natives (base : String) (number : Nat) : mangled base number ∉ natives := by
  have hnatives : ∀ s ∈ natives, '_' ∉ s.toList := by decide
  exact fun h => hnatives _ h (underscore_mem_mangled base number)

theorem mem_natives (h : b ∈ builtins) : b.native ∈ natives :=
  mem_append_left _ (mem_map.mpr ⟨b, h, rfl⟩)

theorem nameIn_cases (order : Order) (r : Referent) :
    (∃ t, r = .verbatim t ∧ nameIn order r = some t) ∨
      ((∀ t, r ≠ .verbatim t) ∧ nameIn order r = given order r) := by
  cases r with
  | verbatim t => exact .inl ⟨t, rfl, rfl⟩
  | declared id => exact .inr ⟨nofun, rfl⟩
  | loop i => exact .inr ⟨nofun, rfl⟩

theorem not_mem_natives_of_given (h : given order r = some s) : s ∉ natives := by
  obtain ⟨base, number, _, _, rfl⟩ := mem_of_given h
  exact not_mem_natives base number

/-- names tell apart what they were given to, and the names of the target language -/
theorem nameIn_inj (hr : ∀ t, r = .verbatim t → t ∈ natives) (hr' : ∀ t, r' = .verbatim t → t ∈ natives)
    (h : nameIn order r = some s) (h' : nameIn order r' = some s) : r = r' := by
  rcases nameIn_cases order r with ⟨t, rfl, ht⟩ | ⟨_, hgiven⟩
  · cases ht.symm.trans h
    rcases nameIn_cases order r' with ⟨t', rfl, ht'⟩ | ⟨_, hgiven'⟩
    · cases ht'.symm.trans h'
      rfl
    · exact absurd (hr s rfl) (not_mem_natives_of_given (hgiven'.symm.trans h'))
  · rcases nameIn_cases order r' with ⟨t', rfl, ht'⟩ | ⟨_, hgiven'⟩
    · cases ht'.symm.trans h'
      exact absurd (hr' s rfl) (not_mem_natives_of_given (hgiven.symm.trans h))
    · exact given_inj (hgiven.symm.trans h) (hgiven'.symm.trans h')

/-! ## accepted programs -/

theorem tracks_initial : Tracks 0 [] Names.initial := ⟨fun _ => rfl, rfl, nodup_nil, nofun, nofun⟩

section

variable {p q : Program} (h : analyse Scope.root p = .ok q)

include h

theorem referent_of_site (hd : d ∈ bodySites q) : ∃ id, d.id = some id ∧ d.referent = .declared id := by
  have hid : d.id ∈ interval 1 (bodyTaken p) :=
    (perm_siteIds_of_analyse h).mem_iff.mp (mem_map.mpr ⟨d, hd, rfl⟩)
  obtain ⟨id, _, hid⟩ := mem_map.mp hid
  refine ⟨id, hid.symm, ?_⟩
  rw [Site.referent, ← hid]
  rfl

theorem nodup_namedEntries : ((namedEntries q).map Prod.fst).Nodup := by
  have hids : (bodySites q).Pairwise fun d d' => d.id ≠ d'.id :=
    pairwise_map.mp (nodup_siteIds_of_analyse h)
  unfold namedEntries
  rw [map_append, List.map_map, List.map_map]
  refine nodup_append.mpr ⟨?_, ?_, ?_⟩
  · refine pairwise_map.mpr (hids.imp_of_mem fun {d d'} hd hd' hne heq => ?_)
    obtain ⟨id, hid, hr⟩ := referent_of_site h hd
    obtain ⟨id', hid', hr'⟩ := referent_of_site h hd'
    have hsame : Referent.declared id = .declared id' := hr.symm.trans (heq.trans hr')
    exact hne (by rw [hid, hid', Referent.declared.inj hsame])
  · exact nodup_range.map fun i j hij => Referent.loop.inj hij
  · intro r hr r' hr' heq
    obtain ⟨d, hd, rfl⟩ := mem_map.mp hr
    obtain ⟨i, _, rfl⟩ := mem_map.mp hr'
    obtain ⟨id, _, hdeclared⟩ := referent_of_site h hd
    exact nomatch hdeclared.symm.trans heq

theorem mem_namedEntries (he : e ∈ bodyEntries 0 q) :
    e ∈ namedEntries q ∨ ∃ b ∈ builtins, e.1 = .verbatim b.native := by
  rcases he with ⟨d, hd, rfl⟩ | ⟨x, hx, rfl⟩ | ⟨i, _, hi, rfl⟩
  · exact .inl (mem_append_left _ (mem_map.mpr ⟨d, hd, rfl⟩))
  · have hresolved := resolved_of_analyse h x hx
    unfold Symbol.Resolved at hresolved
    split at hresolved
    · next id hid =>
      obtain ⟨d, hd, hdid, hname⟩ := hresolved
      refine .inl (mem_append_left _ (mem_map.mpr ⟨d, hd, ?_⟩))
      rw [Site.referent, hdid, hname, Symbol.referent, hid]
      rfl
    · next native hnative =>
      obtain ⟨b, hb, hbn, _⟩ := hresolved
      exact .inr ⟨b, hb, by rw [Symbol.referent, hnative, hbn]⟩
    · exact hresolved.elim
  · rw [Nat.zero_add] at hi
    exact .inl (mem_append_right _ (mem_map.mpr ⟨i, mem_range.mpr hi, rfl⟩))

theorem mem_namedEntries_of_grows (htracks : Tracks n order' ns) (hgrows : Grows M order order')
    (hM : M ⊆ bodyEntries 0 q) (horder : ∀ e ∈ order, e ∈ namedEntries q) :
    ∀ e ∈ order', e ∈ namedEntries q := by
  intro e he
  rcases hgrows.new e he with hold | hentry
  · exact horder e hold
  · rcases mem_namedEntries h (hM hentry) with hmem | ⟨b, _, hb⟩
    · exact hmem
    · obtain ⟨r, base⟩ := e
      exact absurd (show (Referent.verbatim b.native, base) ∈ order' from hb ▸ he)
        (htracks.proper b.native base)

theorem exists_order : ∃ order : Order, order.Perm (namedEntries q) ∧
    ∃ ν : Referent → Option String, ScriptNamed ν (script q) (bodyReferents 0 q) ∧
      ∀ r s, ν r = some s → nameIn order r = some s ∧ ∃ e ∈ bodyEntries 0 q, e.1 = r := by
  classical
  obtain ⟨order, htracks, hgrows, hnames⟩ := gives_lowerBody q 0 [] Names.initial tracks_initial
  have hsub := mem_namedEntries_of_grows h htracks hgrows subset_rfl nofun
  have hsup : ∀ e ∈ namedEntries q, e ∈ order := by
    intro e he
    have hproper : (∀ t, e.1 ≠ .verbatim t) ∧ e ∈ bodyEntries 0 q := by
      rcases mem_append.mp he with he | he
      · obtain ⟨d, hd, rfl⟩ := mem_map.mp he
        obtain ⟨id, _, hr⟩ := referent_of_site h hd
        exact ⟨fun t ht => (nomatch hr.symm.trans ht), .inl ⟨d, hd, rfl⟩⟩
      · obtain ⟨i, hi, rfl⟩ := mem_map.mp he
        refine ⟨nofun, .inr (.inr ⟨i, Nat.zero_le i, ?_, rfl⟩)⟩
        rw [Nat.zero_add]
        exact mem_range.mp hi
    rcases hgrows.all e hproper.2 with ⟨t, ht⟩ | ⟨base, hbase⟩
    · exact absurd ht (hproper.1 t)
    · have hsame := inj_on_of_nodup_map (nodup_namedEntries h) (hsub _ hbase) he rfl
      rw [← hsame]
      exact hbase
  have hperm : order.Perm (namedEntries q) :=
    (perm_ext_iff_of_nodup htracks.nodup.of_map (nodup_namedEntries h).of_map).mpr
      fun e => ⟨hsub e, hsup e⟩
  refine ⟨order, hperm, fun r => if ∃ e ∈ bodyEntries 0 q, e.1 = r then nameIn order r else none,
    hnames _ fun e he => if_pos ⟨e, he, rfl⟩, fun r s hs => ?_⟩
  dsimp only at hs
  split at hs
  · next hentry => exact ⟨hs, hentry⟩
  · exact nomatch hs

theorem namesIdentify_script (width : Nat) :
    NamesIdentify (namesOf (Script.bodyPieces width 0 (script q))) (bodyReferents 0 q) (namedEntries q) := by
  obtain ⟨order, hperm, ν, hscript, hν⟩ := exists_order h
  have hnamed := hscript width 0
  have hname : ∀ a ∈ (namesOf (Script.bodyPieces width 0 (script q))).zip (bodyReferents 0 q),
      nameIn order a.2 = some a.1 := fun a ha => (hν _ _ (hnamed.zip ha)).1
  have hnative : ∀ s, .verbatim s ∈ bodyReferents 0 q → ∃ b ∈ builtins, b.native = s := by
    intro s hs
    obtain ⟨t, ht⟩ := hnamed.isSome hs
    obtain ⟨e, he, heq⟩ := (hν _ _ ht).2
    rcases mem_namedEntries h he with hmem | ⟨b, hb, hbe⟩
    · rcases mem_append.mp hmem with hmem | hmem
      · obtain ⟨d, hd, rfl⟩ := mem_map.mp hmem
        obtain ⟨id, _, hr⟩ := referent_of_site h hd
        exact nomatch hr.symm.trans heq
      · obtain ⟨i, _, rfl⟩ := mem_map.mp hmem
        exact nomatch heq
    · exact ⟨b, hb, Referent.verbatim.inj (hbe.symm.trans heq)⟩
  have hnatives : ∀ a ∈ (namesOf (Script.bodyPieces width 0 (script q))).zip (bodyReferents 0 q),
      ∀ t, a.2 = .verbatim t → t ∈ natives := by
    intro a ha t ht
    obtain ⟨b, hb, rfl⟩ := hnative t (ht ▸ (of_mem_zip ha).2)
    exact mem_natives hb
  refine ⟨hnamed.length, fun a ha b hb => ⟨fun heq => ?_, fun heq => ?_⟩, hnative, ?_, order, hperm,
    fun e he => ?_, hname⟩
  · exact nameIn_inj (hnatives a ha) (hnatives b hb) (hname a ha) (heq ▸ hname b hb)
  · exact Option.some.inj ((hname a ha).symm.trans (heq ▸ hname b hb))
  · intro a ha hproper
    rcases nameIn_cases order a.2 with ⟨t, ht, _⟩ | ⟨_, hgiven⟩
    · exact absurd ht (hproper t)
    · exact not_mem_natives_of_given (hgiven.symm.trans (hname a ha))
  · rcases mem_append.mp (hperm.mem_iff.mp he) with he | he
    · obtain ⟨d, hd, rfl⟩ := mem_map.mp he
      exact (bodyCovers 0 _).sites d hd
    · obtain ⟨i, hi, rfl⟩ := mem_map.mp he
      refine (bodyCovers 0 _).loops i (Nat.zero_le i) ?_
      rw [Nat.zero_add]
      exact mem_range.mp hi

end

theorem scriptText_of_compile (h : compile options q = .ok text) : text = scriptText options.indent q := by
  unfold compile at h
  split at h
  · exact (Except.ok.inj h).symm
  · exact nomatch h

/-- The identifiers of a compiled program tell apart what they stand for.  Cut at its identifiers, the
output gives a list of names; at the same places the program has declarations, range loops and
built-ins. -/
theorem compile_names_identify {p q : Program} {options : Options} {text : String}
    (h : analyse Scope.root p = .ok q) (hcompile : compile options q = .ok text) :
    let pieces := Script.bodyPieces options.indent 0 (script q)
    Script.piecesText pieces = text ∧
      NamesIdentify (namesOf pieces) (bodyReferents 0 q) (namedEntries q) := by
  intro pieces
  refine ⟨?_, namesIdentify_script h options.indent⟩
  rw [scriptText_of_compile hcompile, Script.piecesText_bodyPieces]
  rfl

/-- `let x_1 = 1; for (1...2) { print str(x_1); } fn range() { }`: the names of the source look like names
that are given out -/
theorem compile_names_identify_range : let one := fun t => Expr.literal (.integer 1) t
    let two := fun t => Expr.literal (.integer 2) t
    let str : Ty := .function [⟨.int, false⟩] .string false
    let p : Program :=
      [.declare false [⟨"x_1", none, none, none⟩] [one none],
       .rangeLoop (one none) (two none)
         [.print (.call (.name (.ofName "str") none) [.name (.ofName "x_1") none] false false none)],
       .function ⟨"range", none, [], none, false⟩ []]
    let q : Program :=
      [.declare false [⟨"x_1", none, some 2, some .int⟩] [one (some .int)],
       .rangeLoop (one (some .int)) (two (some .int))
         [.print (.call (.name ⟨"str", some (.builtin "String")⟩ (some str))
           [.name ⟨"x_1", some (.declared 2)⟩ (some .int)] false false (some .string))],
       .function ⟨"range", some 1, [], none, false⟩ []]
    let text := "let x_1_1 = 1;\nfor (let range_2 = 1; (range_2 < 2); range_2++) \x7b\n" ++
      "    console.log(String(x_1_1));\n\x7d\nfunction range_3() \x7b\n\x7d\n"
    let pieces := Script.bodyPieces Options.standard.indent 0 (script q)
    analyse Scope.root p = .ok q ∧ compile Options.standard q = .ok text ∧
      Script.piecesText pieces = text ∧
      NamesIdentify (namesOf pieces) (bodyReferents 0 q) (namedEntries q) := by
  intro one two str p q text pieces
  have h : analyse Scope.root p = .ok q := by with_unfolding_all rfl
  have hcompile : compile Options.standard q = .ok text := by with_unfolding_all rfl
  exact ⟨h, hcompile, compile_names_identify h hcompile⟩

end TypedScript
