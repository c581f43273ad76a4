import TypedScript.Proofs.Layouts
import TypedScript.Proofs.Reading
import TypedScript.Proofs.TypeOrder

/-!
# Reading the text of a type

Messages show a type by its text.  A type without classes and functions is shown as it is written in a
program: its text can be scanned, parsed and resolved, and gives the type back.  So no two of these types
have one text.
-/

namespace TypedScript

open List

/-! ## the marks of written types -/

def typeMarks : List Mark := [.less, .greater, .question, .comma]

/-- a mark of a written type is read as it is, unless an equals sign makes it another mark -/
theorem Pattern.first?_typeMark (hm : m ∈ typeMarks) {rest : List Char} (hrest : rest.head? ≠ some '=') :
    first? (m.spelling.toList ++ rest) = some (mark m, m.spelling.toList, rest) := by
  have hshape : ∀ m ∈ typeMarks, ∃ c, m.spelling.toList = [c] ∧ comment.opens c = false ∧
      ∀ n ∈ m.earlier, (mark n).opens c = false ∨ n.spelling.toList = [c, '='] := by
    simp only [typeMarks, forall_mem_cons]
    exact ⟨⟨'<', by decide⟩, ⟨'>', by decide⟩, ⟨'?', by decide⟩, ⟨',', by decide⟩, nofun⟩
  obtain ⟨c, hc, hcomment, hearlier⟩ := hshape m hm
  obtain ⟨later, hall⟩ := m.exists_all_eq
  obtain ⟨d, ds, hd, hopens⟩ := m.opens_head
  obtain rfl : c = d := (List.cons.inj (hc.symm.trans hd)).1
  refine first?_eq_some_iff.mpr
    ⟨[word, longNumber, number, blank, string] ++ comment :: m.earlier.map mark, later.map mark, ?_,
      split?_of_matches rfl trivial, ?_⟩
  · rw [table, hall, map_append, map_cons]
    rfl
  · rw [hc]
    intro q hq
    rcases mem_append.mp hq with hq | hq
    · exact split?_eq_none_of_opens _ (hopens q hq)
    · rcases mem_cons.mp hq with rfl | hq
      · exact split?_eq_none_of_opens _ hcomment
      · obtain ⟨n, hn, rfl⟩ := mem_map.mp hq
        rcases hearlier n hn with hclosed | hlonger
        · exact split?_eq_none_of_opens _ hclosed
        · refine split?_eq_none_iff.mpr fun l tail he hl => ?_
          have hl' : l = [c, '='] := hl.trans hlonger
          rw [hl'] at he
          have hcons : rest = '=' :: tail := (List.cons.inj he).2
          exact hrest (by rw [hcons]; rfl)

/-! ## scanning -/

/-- what can follow a written type inside another one, or at the end of a text -/
def Closing (rest : List Char) : Prop := ∀ c ∈ rest.head?, c = '>' ∨ c = ',' ∨ c = '?'

theorem Closing.ne_equals (h : Closing rest) : rest.head? ≠ some '=' := by
  intro heq
  have hc := h '=' heq
  simp at hc

theorem Closing.stopsAt (h : Closing rest) : StopsAt Text.isWordPart rest := by
  intro c hc
  rcases h c hc with rfl | rfl | rfl <;> decide

section

variable {file : String}

/-- a text in front of which other lexemes are read, at any offset -/
def ReadsAs (file : String) (text : List Char) (xs : List Lexeme) : Prop :=
  ∀ n, Reader.Yields file n text xs

variable {rest : List Char} {xs : List Lexeme}

theorem ReadsAs.lexeme (hfirst : Pattern.first? (l ++ rest) = some (p, l, rest)) (hread : p.read l = some x)
    (h : ReadsAs file rest xs) : ReadsAs file (l ++ rest) (x :: xs) := by
  intro n
  obtain ⟨ts, hts, rfl⟩ := h (n + Text.byteLength l)
  refine ⟨⟨x.1, x.2, ⟨n, n + Text.byteLength l, file⟩⟩ :: ts, ?_, rfl⟩
  rw [Reader.tokens_token hfirst hread, hts]
  rfl

theorem ReadsAs.typeMark (hm : m ∈ typeMarks) (hc : m.spelling.toList = [c]) (hrest : rest.head? ≠ some '=')
    (h : ReadsAs file rest xs) : ReadsAs file (c :: rest) (m.lexeme :: xs) := by
  have hfirst := Pattern.first?_typeMark hm hrest
  have hmark := h.lexeme hfirst rfl
  rw [hc] at hmark
  exact hmark

theorem ReadsAs.name {x : String} (hx : isName x) (hrest : StopsAt Text.isWordPart rest)
    (h : ReadsAs file rest xs) : ReadsAs file (x.toList ++ rest) (nameLexeme x :: xs) := by
  refine h.lexeme (Pattern.first?_word (matches_word_of_isName hx) hrest) ?_
  simp only [Pattern.read, String.ofList_toList, ofSpelling?_of_isName hx]
  rfl

theorem ReadsAs.comma (h : ReadsAs file rest xs) :
    ReadsAs file (',' :: ' ' :: rest) (Mark.comma.lexeme :: xs) := by
  have hblank : ReadsAs file (' ' :: rest) xs :=
    fun n => .layout (g := [' ']) (.blank (by decide) .nil) (h _)
  exact hblank.typeMark (m := .comma) (c := ',') (by decide) rfl (by simp)

/-- the text of a written type is read as its lexemes, if something follows that ends it -/
def TypeTerm.Scans (file : String) (w : TypeTerm) : Prop :=
  ∀ rest xs, Closing rest → ReadsAs file rest xs → ReadsAs file (w.text.toList ++ rest) (w.lexemes ++ xs)

theorem scans_typeList (hws : ∀ w ∈ ws, w.Scans file) (hne : ws ≠ []) (hrest : Closing rest)
    (h : ReadsAs file rest xs) :
    ReadsAs file ((", ".intercalate (TypeTerm.texts ws)).toList ++ rest)
      (commas (TypeTerm.phrases ws) ++ xs) := by
  induction ws with
  | nil => exact absurd rfl hne
  | cons w ws ih =>
    obtain ⟨hw, hws⟩ := forall_mem_cons.mp hws
    cases ws with
    | nil =>
      have hlast := hw rest xs hrest h
      simpa [TypeTerm.texts, TypeTerm.phrases, commas] using hlast
    | cons v ws =>
      have htail := (ih hws (cons_ne_nil v ws)).comma
      have hhead := hw _ _ (fun c hc => .inr (.inl (by simpa using hc.symm))) htail
      simpa [TypeTerm.texts, TypeTerm.phrases, commas] using hhead

theorem TypeTerm.WellFormed.head {w : TypeTerm} (hw : w.WellFormed) :
    ∃ c, w.text.toList.head? = some c ∧ c ≠ '=' := by
  have hname : ∀ {x : String}, isName x = true → ∃ c, x.toList.head? = some c ∧ c ≠ '=' := by
    intro x hx
    obtain ⟨c, cs, hlist, hc, _⟩ := matches_word_of_isName hx
    refine ⟨c, by rw [hlist]; rfl, ?_⟩
    rintro rfl
    exact absurd hc (by decide)
  induction hw with
  | named hx => exact hname hx
  | generic hx _ _ _ =>
    obtain ⟨c, hhead, hc⟩ := hname hx
    exact ⟨c, by simp [TypeTerm.text, hhead], hc⟩
  | nullable _ ih =>
    obtain ⟨c, hhead, hc⟩ := ih
    exact ⟨c, by simp [TypeTerm.text, hhead], hc⟩

theorem head_typeList_ne (hws : ∀ w ∈ ws, w.WellFormed) (hne : ws ≠ []) :
    ((", ".intercalate (TypeTerm.texts ws)).toList ++ rest).head? ≠ some '=' := by
  cases ws with
  | nil => exact absurd rfl hne
  | cons w ws =>
    obtain ⟨c, hhead, hc⟩ := (hws w mem_cons_self).head
    cases ws with
    | nil | cons v ws => simp [TypeTerm.texts, hhead, hc]

theorem TypeTerm.WellFormed.scans {w : TypeTerm} (hw : w.WellFormed) : w.Scans file := by
  induction hw with
  | @named x hx => exact fun rest xs hrest h => h.name hx hrest.stopsAt
  | @generic x ws hx hne hws ih =>
    intro rest xs hrest h
    have hgreater := h.typeMark (m := .greater) (c := '>') (by decide) rfl hrest.ne_equals
    have hlist := scans_typeList ih hne (fun c hc => .inl (by simpa using hc.symm)) hgreater
    have hless := hlist.typeMark (m := .less) (c := '<') (by decide) rfl (head_typeList_ne hws hne)
    have hall := hless.name hx (stopsAt_cons (by decide))
    simpa [TypeTerm.text, TypeTerm.lexemes] using hall
  | @nullable w _ ih =>
    intro rest xs hrest h
    have hquestion := h.typeMark (m := .question) (c := '?') (by decide) rfl hrest.ne_equals
    have hall := ih _ _ (fun c hc => .inr (.inr (by simpa using hc.symm))) hquestion
    simpa [TypeTerm.text, TypeTerm.lexemes] using hall

end

/-! ## types as they are written -/

namespace Ty

/-- primitive types, and the types of collections and nullable types that are made of them; the members
of a tuple are listed in increasing order -/
inductive Writable : Ty → Prop
  | int : Writable int
  | long : Writable long
  | string : Writable string
  | bool : Writable bool
  | none : Writable none
  | array : Writable t → Writable (array t)
  | set : Writable t → Writable (set t)
  | dict : Writable k → Writable v → Writable (dict k v)
  | tuple : ts ≠ [] → Ascending ts → (∀ t ∈ ts, Writable t) → Writable (tuple ts)
  | nullable : Writable t → Writable (nullable t)

/-- a written type that has the text of a type and stands for it in every program -/
structure WrittenAs (t : Ty) (w : TypeTerm) : Prop where
  wellFormed : w.WellFormed
  text : w.text = t.text
  resolves : w.resolve Scope.root = .ok t

theorem exists_writtenAs_all (h : ∀ t ∈ ts, ∃ w, WrittenAs t w) :
    ∃ ws : List TypeTerm, (∀ w ∈ ws, w.WellFormed) ∧ TypeTerm.texts ws = texts ts ∧
      TypeTerm.resolveAll Scope.root ws = .ok ts ∧ ws.length = ts.length := by
  induction ts with
  | nil => exact ⟨[], nofun, rfl, rfl, rfl⟩
  | cons t ts ih =>
    obtain ⟨⟨w, hw⟩, hts⟩ := forall_mem_cons.mp h
    obtain ⟨ws, hformed, htexts, hresolves, hlength⟩ := ih hts
    refine ⟨w :: ws, forall_mem_cons.mpr ⟨hw.wellFormed, hformed⟩, ?_, ?_, ?_⟩
    · simp only [TypeTerm.texts, texts, hw.text, htexts]
    · rw [TypeTerm.resolveAll, hw.resolves, hresolves]
      rfl
    · simp only [length_cons, hlength]

theorem exists_writtenAs_generic (name : String) (ts : List Ty) (hname : isName name)
    (hg : Generic.ofName? name = some g) (hts : ∀ t ∈ ts, ∃ w, WrittenAs t w) (hne : ts ≠ [])
    (hcount : g.accepts ts.length = true) (htext : t.text = name ++ "<" ++ ", ".intercalate (texts ts) ++ ">")
    (hbuild : g.build ts = t) : ∃ w, WrittenAs t w := by
  obtain ⟨ws, hformed, htexts, hresolves, hlength⟩ := exists_writtenAs_all hts
  have hws : ws ≠ [] := by
    rintro rfl
    exact hne (length_eq_zero_iff.mp hlength.symm)
  refine ⟨.generic name ws, .generic hname hws hformed, ?_, ?_⟩
  · rw [TypeTerm.text, htexts, htext]
  · rw [TypeTerm.resolve, hg]
    simp only [hlength, hcount, hresolves, if_true]
    rw [← hbuild]
    rfl

theorem Writable.exists_writtenAs {t : Ty} (h : t.Writable) : ∃ w, WrittenAs t w := by
  induction h with
  | int => exact ⟨.named "int", .named (by decide), rfl, rfl⟩
  | long => exact ⟨.named "long", .named (by decide), rfl, rfl⟩
  | string => exact ⟨.named "string", .named (by decide), rfl, rfl⟩
  | bool => exact ⟨.named "bool", .named (by decide), rfl, rfl⟩
  | none => exact ⟨.named "none", .named (by decide), rfl, rfl⟩
  | @array t _ ih =>
    exact exists_writtenAs_generic "array" [t] (by decide) rfl (by simpa using ih)
      (cons_ne_nil t []) rfl (by simp [text, texts]) rfl
  | @set t _ ih =>
    exact exists_writtenAs_generic "set" [t] (by decide) rfl (by simpa using ih)
      (cons_ne_nil t []) rfl (by simp [text, texts]) rfl
  | @dict k v _ _ ihk ihv =>
    exact exists_writtenAs_generic "dict" [k, v] (by decide) rfl
      (by simpa using ⟨ihk, ihv⟩) (cons_ne_nil k [v]) rfl
      (by simp [text, texts, String.append_assoc]) rfl
  | @tuple ts hne hascending _ ih =>
    refine exists_writtenAs_generic "tuple" ts (by decide) rfl ih hne ?_ rfl ?_
    · exact decide_eq_true (length_pos_iff.mpr hne)
    · show tupleOf ts = .tuple ts
      rw [tupleOf_eq hne, hascending.sortedSet_eq]
  | nullable _ ih =>
    obtain ⟨w, hw⟩ := ih
    refine ⟨.nullable w, .nullable hw.wellFormed, ?_, ?_⟩
    · rw [TypeTerm.text, hw.text, text]
    · rw [TypeTerm.resolve, hw.resolves]
      rfl

end Ty

/-! ## reading back -/

theorem scan_typeTerm {w : TypeTerm} (hw : w.WellFormed) (file : String) :
    ∃ ts last, scan w.text file = .ok (ts ++ [last]) ∧ ts.map Token.lexeme = w.lexemes ∧
      last.kind = .eof := by
  have hscans : w.Scans file := hw.scans
  have hreads := hscans [] [(.eof, "EOF")] nofun (fun n => Reader.yields_nil)
  obtain ⟨us, hus, hlexemes⟩ := hreads 0
  obtain ⟨ts, ends, rfl, hts, hends⟩ := map_eq_append_iff.mp hlexemes
  obtain ⟨last, rfl, hlast⟩ := map_eq_singleton_iff.mp hends
  refine ⟨ts, last, ?_, hts, congrArg Prod.fst hlast⟩
  rw [append_nil] at hus
  exact hus

theorem typeTerm_ofTokens {w : TypeTerm} (hw : w.WellFormed) {ts : List Token} {last : Token}
    (hts : ts.map Token.lexeme = w.lexemes) (hlast : last.kind = .eof) (file : String) :
    typeTerm .standard .base (.ofTokens (ts ++ [last]) file) = .done w ⟨[], last⟩ := by
  have hstart : Cursor.ofTokens (ts ++ [last]) file = ⟨ts ++ [], last⟩ := by
    simp [Cursor.ofTokens, hlast]
  have hends : endsType (Cursor.kind ⟨[], last⟩) := by
    show endsType last.kind
    rw [hlast]
    decide
  rw [hstart]
  exact reads_typeTerm hw ts [] last hts hends

/-- The text of a type without classes and functions is scanned and read as a written type up to its end,
and what is read stands for that type.  So types with the same text are the same. -/
theorem Ty.text_reads_back :
    (∀ (t : Ty) (file : String), t.Writable → ∃ ts w rest, scan t.text file = .ok ts ∧
      typeTerm .standard .base (.ofTokens ts file) = .done w rest ∧ rest.kind = .eof ∧
      w.resolve Scope.root = .ok t) ∧
    ∀ t u : Ty, t.Writable → u.Writable → t.text = u.text → t = u := by
  have hread : ∀ (t : Ty) (file : String), t.Writable → ∃ ts w rest, scan t.text file = .ok ts ∧
      typeTerm .standard .base (.ofTokens ts file) = .done w rest ∧ rest.kind = .eof ∧
      w.resolve Scope.root = .ok t := by
    intro t file ht
    obtain ⟨w, hw⟩ := ht.exists_writtenAs
    obtain ⟨ts, last, hscan, hts, hlast⟩ := scan_typeTerm hw.wellFormed file
    rw [hw.text] at hscan
    exact ⟨_, w, _, hscan, typeTerm_ofTokens hw.wellFormed hts hlast file, hlast, hw.resolves⟩
  refine ⟨hread, fun t u ht hu htext => ?_⟩
  obtain ⟨ts, w, _, hscan, hparse, _, hresolve⟩ := hread t "" ht
  obtain ⟨us, v, _, hscan', hparse', _, hresolve'⟩ := hread u "" hu
  rw [htext] at hscan
  cases hscan.symm.trans hscan'
  cases hparse.symm.trans hparse'
  exact Except.ok.inj (hresolve.symm.trans hresolve')

/-- a dictionary of nullable tuples, and the one type with its text -/
theorem Ty.text_reads_back_nested :
    (Ty.dict .string (.nullable (.tuple [.int, .array .long]))).text =
      "dict<string, tuple<int, array<long>>?>" ∧
    (∃ ts w rest, scan "dict<string, tuple<int, array<long>>?>" "" = .ok ts ∧
      typeTerm .standard .base (.ofTokens ts "") = .done w rest ∧ rest.kind = .eof ∧
      w.resolve Scope.root = .ok (.dict .string (.nullable (.tuple [.int, .array .long])))) ∧
    ∀ u : Ty, u.Writable → u.text = "dict<string, tuple<int, array<long>>?>" →
      u = .dict .string (.nullable (.tuple [.int, .array .long])) := by
  have htext : (Ty.dict .string (.nullable (.tuple [.int, .array .long]))).text =
      "dict<string, tuple<int, array<long>>?>" := by decide
  have hwritable : (Ty.dict .string (.nullable (.tuple [.int, .array .long]))).Writable := by
    refine .dict .string (.nullable (.tuple (by simp) (by decide) ?_))
    simpa using ⟨Ty.Writable.int, Ty.Writable.array .long⟩
  refine ⟨htext, ?_, fun u hu hu_text => ?_⟩
  · rw [← htext]
    exact Ty.text_reads_back.1 _ "" hwritable
  · exact Ty.text_reads_back.2 _ _ hu hwritable (hu_text.trans htext.symm)

end TypedScript
