import ApiMigrator.Engine.IntroducedErrors

/-!
Whether a compiler run that is not skipped has been read completely. The errors are read from
standard output followed by standard error, the other lines only from standard output. The errors
carry all lines of standard output exactly when a blank standard error leaves its last line alone.
-/

set_option autoImplicit false
set_option relaxedAutoImplicit false

namespace ApiMigrator.Engine.Verifier

open Foundation.Text Foundation.Pattern

/-! ### Lines -/

theorem trim_eq_nil {s : JsString} : trim s = [] ↔ ∀ c ∈ s, isSpace c = true := by
  rw [trim, List.rdropWhile_eq_nil_iff]
  constructor
  · intro h c hc
    by_cases hdrop : s.dropWhile isSpace = []
    · exact List.dropWhile_eq_nil_iff.mp hdrop c hc
    · have hhead := h _ (List.head_mem hdrop)
      exact absurd hhead (by simp [List.head_dropWhile_not isSpace hdrop])
  · exact fun h c hc ↦ h c ((List.dropWhile_suffix isSpace).mem hc)

theorem isBlank_iff {line : JsString} : isBlank line = true ↔ ∀ c ∈ line, isSpace c = true := by
  rw [isBlank, decide_eq_true_eq, trim_eq_nil]

def nonBlank (lines : List JsString) : List JsString := lines.filter fun line ↦ !isBlank line

theorem nonBlank_cons_blank {line : JsString} (h : isBlank line = true) (lines : List JsString) :
    nonBlank (line :: lines) = nonBlank lines := by
  rw [nonBlank, List.filter_cons, if_neg (by simp [h]), nonBlank]

theorem nonBlank_cons {line : JsString} (h : isBlank line = false) (lines : List JsString) :
    nonBlank (line :: lines) = line :: nonBlank lines := by
  rw [nonBlank, List.filter_cons, if_pos (by simp [h]), nonBlank]

theorem splitLines_ne_nil (s : JsString) : splitLines s ≠ [] := by
  induction s with
  | nil => exact List.cons_ne_nil _ _
  | cons c rest ih =>
    unfold splitLines
    split_ifs
    · exact List.cons_ne_nil _ _
    · exact ih
    · split <;> exact List.cons_ne_nil _ _

/-- A line holds no line feed. -/
theorem notMem_of_mem_splitLines {s line : JsString} (h : line ∈ splitLines s) :
    (0x0a : UInt16) ∉ line := by
  induction s generalizing line with
  | nil =>
    rw [List.mem_singleton.mp h]
    exact List.not_mem_nil
  | cons c rest ih =>
    unfold splitLines at h
    split_ifs at h with hfeed hreturn
    · rcases List.mem_cons.mp h with rfl | h
      · exact List.not_mem_nil
      · exact ih h
    · exact ih h
    · have hc : (0x0a : UInt16) ≠ c := Ne.symm hfeed
      split at h
      · rename_i first lines heq
        rcases List.mem_cons.mp h with rfl | h
        · exact fun hmem ↦ (List.mem_cons.mp hmem).elim hc
            (ih (heq ▸ List.mem_cons_self))
        · exact ih (heq ▸ List.mem_cons_of_mem _ h)
      · rw [List.mem_singleton.mp h]
        exact fun hmem ↦ hc (List.mem_singleton.mp hmem)

theorem mem_of_mem_splitLines {s line : JsString} (h : line ∈ splitLines s) {d : UInt16}
    (hd : d ∈ line) : d ∈ s := by
  induction s generalizing line with
  | nil =>
    rw [List.mem_singleton.mp h] at hd
    exact hd
  | cons c rest ih =>
    unfold splitLines at h
    split_ifs at h with hfeed hreturn
    · rcases List.mem_cons.mp h with rfl | h
      · cases hd
      · exact List.mem_cons_of_mem _ (ih h hd)
    · exact List.mem_cons_of_mem _ (ih h hd)
    · split at h
      · rename_i first lines heq
        rcases List.mem_cons.mp h with rfl | h
        · rcases List.mem_cons.mp hd with rfl | hd
          · exact List.mem_cons_self
          · exact List.mem_cons_of_mem _ (ih (heq ▸ List.mem_cons_self) hd)
        · exact List.mem_cons_of_mem _ (ih (heq ▸ List.mem_cons_of_mem _ h) hd)
      · rename_i heq
        exact absurd heq (splitLines_ne_nil rest)

theorem isBlank_of_mem_splitLines {s line : JsString} (hs : ∀ c ∈ s, isSpace c = true)
    (h : line ∈ splitLines s) : isBlank line = true :=
  isBlank_iff.mpr fun c hc ↦ hs c (mem_of_mem_splitLines h hc)

theorem nonBlank_eq_nil {lines : List JsString} (h : ∀ line ∈ lines, isBlank line = true) :
    nonBlank lines = [] :=
  List.filter_eq_nil_iff.mpr fun line hline ↦ by simp [h line hline]

theorem isBlank_cons (c : UInt16) (line : JsString) :
    isBlank (c :: line) = (isSpace c && isBlank line) := by
  rw [Bool.eq_iff_iff, Bool.and_eq_true, isBlank_iff, isBlank_iff]
  exact List.forall_mem_cons

theorem length_nonBlank_cons {line line' : JsString} {lines lines' : List JsString}
    (hline : isBlank line = isBlank line')
    (hlines : (nonBlank lines).length = (nonBlank lines').length) :
    (nonBlank (line :: lines)).length = (nonBlank (line' :: lines')).length := by
  cases h : isBlank line' with
  | true => rw [nonBlank_cons_blank (hline.trans h), nonBlank_cons_blank h, hlines]
  | false => rw [nonBlank_cons (hline.trans h), nonBlank_cons h, List.length_cons,
      List.length_cons, hlines]

/-- Blank text at the end leaves the number of lines that are not blank alone. -/
theorem splitLines_append_blank {tail : JsString} (htail : ∀ c ∈ tail, isSpace c = true)
    (s : JsString) : ∃ line lines line' lines', splitLines s = line :: lines ∧
      splitLines (s ++ tail) = line' :: lines' ∧ isBlank line = isBlank line' ∧
        (nonBlank lines).length = (nonBlank lines').length := by
  have hblank : ∃ line' lines', splitLines tail = line' :: lines' ∧ isBlank line' = true ∧
      nonBlank lines' = [] := by
    obtain ⟨line', lines', heq⟩ := List.exists_cons_of_ne_nil (splitLines_ne_nil tail)
    refine ⟨line', lines', heq, isBlank_of_mem_splitLines htail (heq ▸ List.mem_cons_self),
      nonBlank_eq_nil fun line hline ↦ ?_⟩
    exact isBlank_of_mem_splitLines htail (heq ▸ List.mem_cons_of_mem _ hline)
  induction s with
  | nil =>
    obtain ⟨line', lines', heq, hline, hlines⟩ := hblank
    exact ⟨[], [], line', lines', rfl, heq, hline.symm, by rw [hlines]; rfl⟩
  | cons c rest ih =>
    obtain ⟨line, lines, line', lines', heq, heq', hline, hlines⟩ := ih
    by_cases hfeed : c = 0x0a
    · refine ⟨[], line :: lines, [], line' :: lines', ?_, ?_, rfl,
        length_nonBlank_cons hline hlines⟩
      · rw [splitLines, if_pos hfeed, heq]
      · rw [List.cons_append, splitLines, if_pos hfeed, heq']
    · by_cases hreturn : c = 0x0d ∧ rest.head? = some 0x0a
      · refine ⟨line, lines, line', lines', ?_, ?_, hline, hlines⟩
        · rw [splitLines, if_neg hfeed, if_pos hreturn, heq]
        · obtain ⟨next, hnext⟩ := List.head?_eq_some_iff.mp hreturn.2
          have hhead : (rest ++ tail).head? = some 0x0a := by rw [hnext]; rfl
          rw [List.cons_append, splitLines, if_neg hfeed, if_pos ⟨hreturn.1, hhead⟩, heq']
      · have hleft : splitLines (c :: rest) = (c :: line) :: lines := by
          rw [splitLines, if_neg hfeed, if_neg hreturn, heq]
        by_cases hjoined : c = 0x0d ∧ (rest ++ tail).head? = some 0x0a
        · -- a carriage return at the end of the text meets a line feed at the start of the tail
          obtain rfl : rest = [] := by
            by_contra hne
            rw [List.head?_append_of_ne_nil _ hne] at hjoined
            exact hreturn hjoined
          obtain ⟨rfl, rfl⟩ := List.cons.inj (heq : [[]] = line :: lines)
          refine ⟨_, [], line', lines', hleft, ?_, ?_, hlines⟩
          · rw [List.cons_append, splitLines, if_neg hfeed, if_pos hjoined, heq']
          · rw [← hline, hjoined.1]
            decide
        · refine ⟨c :: line, lines, c :: line', lines', hleft, ?_, ?_, hlines⟩
          · rw [List.cons_append, splitLines, if_neg hfeed, if_neg hjoined, heq']
          · rw [isBlank_cons, isBlank_cons, hline]

theorem length_nonBlank_append {s tail : JsString} (htail : ∀ c ∈ tail, isSpace c = true) :
    (nonBlank (splitLines (s ++ tail))).length = (nonBlank (splitLines s)).length := by
  obtain ⟨line, lines, line', lines', heq, heq', hline, hlines⟩ := splitLines_append_blank htail s
  rw [heq, heq', length_nonBlank_cons hline hlines]

/-! ### Diagnostics -/

theorem mem_of_startsWith {p : String} {s : JsString} (h : startsWith s p = true) {c : UInt16}
    (hc : c ∈ js p) : c ∈ s :=
  (List.isPrefixOf_iff_prefix.mp h).mem hc

theorem startsWith_of_readText {p : String} {s rest : JsString} (h : readText p s = some rest) :
    startsWith s p = true := by
  unfold readText at h
  split_ifs at h with hstart
  exact hstart

theorem tsError_eq_some {line : JsString} {e : TypeError} (h : tsError line = some e) :
    e.raw = line ∧ isBlank line = false := by
  obtain ⟨i, -, hi⟩ := List.exists_of_findSome?_eq_some h
  dsimp only at hi
  split_ifs at hi
  obtain ⟨location, hlocation, rfl⟩ := Option.map_eq_some_iff.mp hi
  refine ⟨rfl, Bool.eq_false_iff.mpr fun hblank ↦ ?_⟩
  have hopen : startsWith (line.drop (i + 1)) "(" = true := by
    unfold readLocation at hlocation
    obtain ⟨_, hfirst, -⟩ := Option.bind_eq_some_iff.mp hlocation
    obtain ⟨_, htext, -⟩ := Option.bind_eq_some_iff.mp hfirst
    exact startsWith_of_readText htext
  have hmem := List.mem_of_mem_drop (mem_of_startsWith hopen (c := 0x28) (by decide))
  exact absurd (isBlank_iff.mp hblank _ hmem) (by decide)

theorem tsError_of_blank {line : JsString} (h : isBlank line = true) : tsError line = none :=
  Option.eq_none_iff_forall_ne_some.mpr fun _ he ↦
    absurd (h.symm.trans (tsError_eq_some he).2) (by decide)

theorem tsGlobalError_of_blank {line : JsString} (h : isBlank line = true) :
    tsGlobalError line = none := by
  refine Option.eq_none_iff_forall_ne_some.mpr fun code hcode ↦ ?_
  obtain ⟨_, hbind, -⟩ := Option.map_eq_some_iff.mp hcode
  obtain ⟨_, hspaces, -⟩ := Option.bind_eq_some_iff.mp hbind
  obtain ⟨_, htext, -⟩ := Option.bind_eq_some_iff.mp hspaces
  have hmem := mem_of_startsWith (startsWith_of_readText htext) (c := 0x65) (by decide)
  exact absurd (isBlank_iff.mp h _ hmem) (by decide)

/-! ### What the errors carry -/

def TypeError.rawLines (e : TypeError) : List JsString := e.raw.splitOn 0x0a

theorem splitOn_append_line {s line : JsString} (hline : (0x0a : UInt16) ∉ line) :
    (s ++ 0x0a :: line).splitOn 0x0a = s.splitOn 0x0a ++ [line] := by
  rw [List.splitOn_append_cons_self, List.splitOn_eq_singleton hline]

theorem TypeError.rawLines_extend (e : TypeError) {line : JsString}
    (hline : (0x0a : UInt16) ∉ line) : (e.extend line).rawLines = e.rawLines ++ [line] :=
  splitOn_append_line hline

theorem rawLines_of_tsError {line : JsString} {e : TypeError} (hfeed : (0x0a : UInt16) ∉ line)
    (h : tsError line = some e) : e.rawLines = [line] := by
  rw [TypeError.rawLines, (tsError_eq_some h).1, List.splitOn_eq_singleton hfeed]

/-- A located diagnostic starts an error, and the indented lines after it belong to it. -/
structure Reads (e : TypeError) (head : JsString) (indented : List JsString) : Prop where
  start : ∃ located, tsError head = some located ∧ e = indented.foldl TypeError.extend located
  belongs : ∀ line ∈ indented, isContinuation line = true ∧ tsError line = none
  rawLines : e.rawLines = head :: indented

theorem reads_located {line : JsString} {e : TypeError} (hfeed : (0x0a : UInt16) ∉ line)
    (h : tsError line = some e) : Reads e line [] where
  start := ⟨e, h, rfl⟩
  belongs := fun _ h ↦ absurd h List.not_mem_nil
  rawLines := rawLines_of_tsError hfeed h

theorem Reads.extend {e : TypeError} {head line : JsString} {indented : List JsString}
    (h : Reads e head indented) (hfeed : (0x0a : UInt16) ∉ line)
    (hline : isContinuation line = true) (herror : tsError line = none) :
    Reads (e.extend line) head (indented ++ [line]) where
  start := by
    obtain ⟨located, hlocated, rfl⟩ := h.start
    exact ⟨located, hlocated, by rw [List.foldl_append]; rfl⟩
  belongs other hother := by
    rcases List.mem_append.mp hother with hother | hother
    · exact h.belongs other hother
    · exact List.mem_singleton.mp hother ▸ ⟨hline, herror⟩
  rawLines := by rw [e.rawLines_extend hfeed, h.rawLines, List.cons_append]

theorem isContinuation_of_blank {line : JsString} (h : isBlank line = true) :
    isContinuation line = false := by
  refine Bool.eq_false_iff.mpr fun hline ↦ ?_
  obtain ⟨c, hc, hspace⟩ := (Option.any_eq_true _ _).mp (Bool.and_eq_true_iff.mp hline).2
  have hmem := (List.dropWhile_suffix _).mem (List.mem_of_mem_head? hc)
  rw [isBlank_iff.mp h c hmem] at hspace
  exact absurd hspace (by decide)

/-! ### One line -/

theorem parseLines_located {line : JsString} {e : TypeError} (h : tsError line = some e)
    (current : Option TypeError) (lines : List JsString) :
    parseLines current (line :: lines) = current.toList ++ parseLines (some e) lines := by
  simp only [parseLines, h]

theorem parseLines_indented {line : JsString} (herror : tsError line = none)
    (hline : isContinuation line = true) (e : TypeError) (lines : List JsString) :
    parseLines (some e) (line :: lines) = parseLines (some (e.extend line)) lines := by
  simp only [parseLines, herror]
  exact if_pos hline

theorem parseLines_blank {line : JsString} (hline : isBlank line = true)
    (current : Option TypeError) (lines : List JsString) :
    parseLines current (line :: lines) = parseLines current lines := by
  cases current with
  | none => simp only [parseLines, tsError_of_blank hline]
  | some e =>
    simp only [parseLines, tsError_of_blank hline]
    exact (if_neg (by simp [isContinuation_of_blank hline])).trans (if_pos hline)

theorem parseLines_other {line : JsString} (herror : tsError line = none)
    (hblank : isBlank line = false) {current : Option TypeError}
    (hline : current = none ∨ isContinuation line = false) (lines : List JsString) :
    parseLines current (line :: lines) = current.toList ++ parseLines none lines := by
  cases current with
  | none =>
    simp only [parseLines, herror]
    rfl
  | some e =>
    simp only [parseLines, herror]
    have hline : isContinuation line = false := hline.resolve_left (Option.some_ne_none e)
    exact (if_neg (by simp [hline])).trans (if_neg (by simp [hblank]))

theorem hasUnclassifiedLine_blank {line : JsString} (hline : isBlank line = true)
    (insideDiagnostic : Bool) (lines : List JsString) :
    hasUnclassifiedLine insideDiagnostic (line :: lines) =
      hasUnclassifiedLine insideDiagnostic lines := by
  rw [hasUnclassifiedLine, if_pos hline]

/-- What the scans do at a line: a located diagnostic, an indented line below one, a blank line, or
another one. -/
theorem line_cases (line : JsString) (current : Option TypeError) :
    (∃ e, tsError line = some e) ∨
      (∃ e, current = some e ∧ tsError line = none ∧ isContinuation line = true) ∨
      isBlank line = true ∨
      tsError line = none ∧ isBlank line = false ∧
        (current = none ∨ isContinuation line = false) := by
  cases herror : tsError line with
  | some e => exact .inl ⟨e, rfl⟩
  | none =>
    cases hblank : isBlank line with
    | true => exact .inr (.inr (.inl rfl))
    | false =>
      cases current with
      | none => exact .inr (.inr (.inr ⟨rfl, rfl, .inl rfl⟩))
      | some e =>
        cases hline : isContinuation line with
        | true => exact .inr (.inl ⟨e, rfl, rfl, rfl⟩)
        | false => exact .inr (.inr (.inr ⟨rfl, rfl, .inr rfl⟩))

/-! ### All lines -/

theorem parseLines_nonBlank (current : Option TypeError) (lines : List JsString) :
    parseLines current (nonBlank lines) = parseLines current lines := by
  induction lines generalizing current with
  | nil => rfl
  | cons line lines ih =>
    cases hblank : isBlank line with
    | true => rw [nonBlank_cons_blank hblank, parseLines_blank hblank, ih]
    | false =>
      rw [nonBlank_cons hblank]
      rcases line_cases line current with ⟨e, he⟩ | ⟨e, rfl, herror, hline⟩ | htrue | ⟨herror, -, h⟩
      · rw [parseLines_located he, parseLines_located he, ih]
      · rw [parseLines_indented herror hline, parseLines_indented herror hline, ih]
      · exact absurd (hblank.symm.trans htrue) Bool.false_ne_true
      · rw [parseLines_other herror hblank h, parseLines_other herror hblank h, ih]

/-- Every error is read off some lines. -/
theorem reads_of_mem_parseLines {current : Option TypeError} {lines : List JsString}
    (hfeed : ∀ line ∈ lines, (0x0a : UInt16) ∉ line)
    (hcurrent : ∀ e ∈ current.toList, ∃ head indented, Reads e head indented) :
    ∀ e ∈ parseLines current lines, ∃ head indented, Reads e head indented := by
  induction lines generalizing current with
  | nil => exact hcurrent
  | cons line lines ih =>
    obtain ⟨hfirst, hrest⟩ := List.forall_mem_cons.mp hfeed
    have hnone : ∀ e ∈ (none : Option TypeError).toList, ∃ head indented, Reads e head indented :=
      fun _ h ↦ absurd h List.not_mem_nil
    rcases line_cases line current with
      ⟨e, he⟩ | ⟨e, rfl, herror, hline⟩ | hblank | ⟨herror, hblank, h⟩
    · rw [parseLines_located he]
      refine List.forall_mem_append.mpr ⟨hcurrent, ih hrest ?_⟩
      rintro other hother
      rw [List.mem_singleton.mp hother]
      exact ⟨line, [], reads_located hfirst he⟩
    · rw [parseLines_indented herror hline]
      refine ih hrest ?_
      rintro other hother
      obtain ⟨head, indented, hreads⟩ := hcurrent e (List.mem_singleton_self e)
      rw [List.mem_singleton.mp hother]
      exact ⟨head, _, hreads.extend hfirst hline herror⟩
    · rw [parseLines_blank hblank]
      exact ih hrest hcurrent
    · rw [parseLines_other herror hblank h]
      exact List.forall_mem_append.mpr ⟨hcurrent, ih hrest hnone⟩

def rawLinesOf (errors : List TypeError) : List JsString := errors.flatMap TypeError.rawLines

theorem rawLinesOf_append (xs ys : List TypeError) :
    rawLinesOf (xs ++ ys) = rawLinesOf xs ++ rawLinesOf ys :=
  List.flatMap_append

theorem rawLinesOf_singleton (e : TypeError) : rawLinesOf [e] = e.rawLines :=
  List.flatMap_singleton _ _

/-- The errors carry lines of the text, in order. -/
theorem rawLinesOf_sublist (current : Option TypeError) {lines : List JsString}
    (hfeed : ∀ line ∈ lines, (0x0a : UInt16) ∉ line) :
    (rawLinesOf (parseLines current lines)).Sublist
      (rawLinesOf current.toList ++ nonBlank lines) := by
  induction lines generalizing current with
  | nil => exact (List.append_nil _).symm ▸ List.Sublist.refl _
  | cons line lines ih =>
    obtain ⟨hfirst, hrest⟩ := List.forall_mem_cons.mp hfeed
    rcases line_cases line current with
      ⟨e, he⟩ | ⟨e, rfl, herror, hline⟩ | hblank | ⟨herror, hblank, h⟩
    · have hraw : rawLinesOf (some e).toList = [line] :=
        (rawLinesOf_singleton e).trans (rawLines_of_tsError hfirst he)
      rw [parseLines_located he, rawLinesOf_append, nonBlank_cons (tsError_eq_some he).2]
      have hrest := ih (some e) hrest
      rw [hraw] at hrest
      exact (List.Sublist.refl _).append hrest
    · have hblank : isBlank line = false := by
        by_contra htrue
        rw [isContinuation_of_blank (Bool.not_eq_false _ ▸ htrue)] at hline
        exact absurd hline Bool.false_ne_true
      have hraw : rawLinesOf (some (e.extend line)).toList = e.rawLines ++ [line] :=
        (rawLinesOf_singleton _).trans (e.rawLines_extend hfirst)
      rw [parseLines_indented herror hline, nonBlank_cons hblank, Option.toList_some,
        rawLinesOf_singleton, List.append_cons, ← hraw]
      exact ih _ hrest
    · rw [parseLines_blank hblank, nonBlank_cons_blank hblank]
      exact ih _ hrest
    · rw [parseLines_other herror hblank h, rawLinesOf_append, nonBlank_cons hblank]
      exact (List.Sublist.refl _).append ((ih _ hrest).trans (List.sublist_cons_self _ _))

/-- When each line is part of a located diagnostic, the errors carry all of them. -/
theorem rawLinesOf_of_classified (current : Option TypeError) {lines : List JsString}
    (hfeed : ∀ line ∈ lines, (0x0a : UInt16) ∉ line)
    (hlocated : ∀ line ∈ lines, tsGlobalError line = none)
    (h : hasUnclassifiedLine current.isSome lines = false) :
    rawLinesOf (parseLines current lines) = rawLinesOf current.toList ++ nonBlank lines := by
  induction lines generalizing current with
  | nil => exact (List.append_nil _).symm
  | cons line lines ih =>
    obtain ⟨hfirst, hrest⟩ := List.forall_mem_cons.mp hfeed
    obtain ⟨hglobal, hothers⟩ := List.forall_mem_cons.mp hlocated
    have hcons := h
    rw [hasUnclassifiedLine] at h
    rcases line_cases line current with
      ⟨e, he⟩ | ⟨e, rfl, herror, hline⟩ | hblank | ⟨herror, hblank, hother⟩
    · have hblank := (tsError_eq_some he).2
      have hraw : rawLinesOf (some e).toList = [line] :=
        (rawLinesOf_singleton e).trans (rawLines_of_tsError hfirst he)
      rw [if_neg (by simp [hblank]), if_pos (.inl (by rw [he]; rfl))] at h
      rw [parseLines_located he, rawLinesOf_append, nonBlank_cons hblank,
        ih (some e) hrest hothers h, hraw, List.singleton_append]
    · have hblank : isBlank line = false := by
        by_contra htrue
        rw [isContinuation_of_blank (Bool.not_eq_false _ ▸ htrue)] at hline
        exact absurd hline Bool.false_ne_true
      have hraw : rawLinesOf (some (e.extend line)).toList = e.rawLines ++ [line] :=
        (rawLinesOf_singleton _).trans (e.rawLines_extend hfirst)
      rw [if_neg (by simp [hblank]), if_neg (by simp [herror, hglobal]),
        if_pos ⟨rfl, hline⟩] at h
      rw [parseLines_indented herror hline, nonBlank_cons hblank, Option.toList_some,
        rawLinesOf_singleton, List.append_cons, ← hraw]
      exact ih (some (e.extend line)) hrest hothers h
    · rw [parseLines_blank hblank, nonBlank_cons_blank hblank]
      exact ih _ hrest hothers (hasUnclassifiedLine_blank hblank _ _ ▸ hcons)
    · -- such a line is reported
      have hinside : ¬(current.isSome = true ∧ isContinuation line = true) := by
        rintro ⟨hsome, hline⟩
        rcases hother with rfl | hother
        · exact Bool.false_ne_true hsome
        · exact Bool.false_ne_true (hother.symm.trans hline)
      rw [if_neg (by simp [hblank]), if_neg (by simp [herror, hglobal]), if_neg hinside] at h
      exact absurd h.symm Bool.false_ne_true

/-! ### Runs -/

theorem tscRefusal_eq_none {run : TscRun} (h : tscRefusal run = none) :
    globalTscErrorCodes (run.raw.stdout ++ run.raw.stderr) = [] ∧
      configurationTscErrorCodes (parseTscErrors (run.raw.stdout ++ run.raw.stderr)) = [] ∧
      hasUnclassifiedTscOutput run.raw.stdout run.raw.stderr = false ∧
      ∃ exitCode, run.raw.exitCode = some exitCode ∧ exitCode ∈ [0, 1, 2] ∧
        (exitCode = 0 ↔ parseTscErrors (run.raw.stdout ++ run.raw.stderr) = []) := by
  cases hexit : run.raw.exitCode with
  | none =>
    simp only [tscRefusal, hexit] at h
    split_ifs at h
  | some exitCode =>
    simp only [tscRefusal, hexit] at h
    split_ifs at h with _ _ _ _ hglobal hconfiguration hunclassified hzero hnonzero hrange
    refine ⟨not_not.mp hglobal, not_not.mp hconfiguration, Bool.not_eq_true _ ▸ hunclassified,
      exitCode, rfl, hrange, fun hcode ↦ ?_, fun herrors ↦ ?_⟩
    · exact not_not.mp fun herrors ↦ hzero ⟨hcode, herrors⟩
    · exact not_not.mp fun hcode ↦ hnonzero ⟨hcode, herrors⟩

theorem runTsc_of_not_skipped {run : TscRun} (h : (runTsc run).skipped = false) :
    tscRefusal run = none ∧
      (runTsc run).after = parseTscErrors (run.raw.stdout ++ run.raw.stderr) := by
  unfold runTsc at h ⊢
  split at h
  · exact absurd h.symm Bool.false_ne_true
  · split at h
    · exact absurd h.symm Bool.false_ne_true
    · rename_i hrefusal
      exact ⟨hrefusal, rfl⟩

/-- A result that accounts for every line of the compiler's output. -/
structure ReadCompletely (raw : RunnerResult) (result : VerifyResult) : Prop where
  stderr : isBlank raw.stderr = true
  exitCode : ∃ exitCode, raw.exitCode = some exitCode ∧ exitCode ∈ [0, 1, 2] ∧
    (exitCode = 0 ↔ result.after = [])
  located : ∀ line ∈ splitLines raw.stdout, tsGlobalError line = none
  sources : ∀ e ∈ result.after, namesJson e.file = false
  lines : nonBlank (splitLines raw.stdout) = rawLinesOf result.after
  reads : ∀ e ∈ result.after, ∃ head indented, Reads e head indented

theorem tsGlobalError_of_globalTscErrorCodes {output : JsString}
    (h : globalTscErrorCodes output = []) : ∀ line ∈ splitLines output, tsGlobalError line = none := by
  have hnil : (splitLines output).filterMap tsGlobalError = [] := by
    refine List.eq_nil_iff_forall_not_mem.mpr fun code hcode ↦ ?_
    have hmem := List.mem_eraseDups.mpr hcode
    rw [globalTscErrorCodes] at h
    rw [h] at hmem
    exact List.not_mem_nil hmem
  exact List.filterMap_eq_nil_iff.mp hnil

theorem namesJson_of_configurationTscErrorCodes {errors : List TypeError}
    (h : configurationTscErrorCodes errors = []) : ∀ e ∈ errors, namesJson e.file = false := by
  intro e he
  by_contra hjson
  have hmem : e.code ∈ configurationTscErrorCodes errors :=
    List.mem_eraseDups.mpr (List.mem_map.mpr
      ⟨e, List.mem_filter.mpr ⟨he, Bool.not_eq_false _ ▸ hjson⟩, rfl⟩)
  rw [h] at hmem
  exact List.not_mem_nil hmem

/-- What a result that is not skipped has been checked for. -/
theorem readCompletely_of_lines {run : TscRun} (h : (runTsc run).skipped = false)
    (hlines : nonBlank (splitLines (run.raw.stdout ++ run.raw.stderr)) =
      nonBlank (splitLines run.raw.stdout)) : ReadCompletely run.raw (runTsc run) := by
  obtain ⟨hrefusal, hafter⟩ := runTsc_of_not_skipped h
  obtain ⟨hglobal, hconfiguration, hunclassified, exitCode, hexit, hrange, hzero⟩ :=
    tscRefusal_eq_none hrefusal
  obtain ⟨hstderr, hstdout⟩ := Bool.or_eq_false_iff.mp hunclassified
  have hlocated : ∀ line ∈ splitLines run.raw.stdout, tsGlobalError line = none := by
    intro line hline
    cases hblank : isBlank line with
    | true => exact tsGlobalError_of_blank hblank
    | false =>
      have hmem : line ∈ nonBlank (splitLines run.raw.stdout) :=
        List.mem_filter.mpr ⟨hline, by rw [hblank]; rfl⟩
      rw [← hlines] at hmem
      exact tsGlobalError_of_globalTscErrorCodes hglobal line (List.mem_of_mem_filter hmem)
  have herrors : (runTsc run).after = parseLines none (splitLines run.raw.stdout) := by
    rw [hafter, parseTscErrors, ← parseLines_nonBlank, hlines, parseLines_nonBlank]
  refine ⟨?_, ⟨exitCode, hexit, hrange, hafter ▸ hzero⟩, hlocated, ?_, ?_, ?_⟩
  · exact Bool.not_eq_false _ ▸ fun hblank ↦ decide_eq_false_iff_not.mp hstderr
      (of_decide_eq_false hblank)
  · exact hafter ▸ namesJson_of_configurationTscErrorCodes hconfiguration
  · rw [herrors, rawLinesOf_of_classified none (fun _ ↦ notMem_of_mem_splitLines) hlocated hstdout]
    rfl
  · rw [herrors]
    exact reads_of_mem_parseLines (fun _ ↦ notMem_of_mem_splitLines)
      fun _ he ↦ absurd he List.not_mem_nil

/-- A run that is not skipped is accounted for exactly when standard error leaves the lines of
standard output alone, and a skipped run is not reported as clean. -/
theorem tsc_output_classified_iff (run : TscRun) :
    ((runTsc run).skipped = false →
      (ReadCompletely run.raw (runTsc run) ↔
        nonBlank (splitLines (run.raw.stdout ++ run.raw.stderr)) =
          nonBlank (splitLines run.raw.stdout))) ∧
      ((runTsc run).skipped = true → (runTsc run).ok = false) := by
  refine ⟨fun h ↦ ⟨fun hread ↦ ?_, readCompletely_of_lines h⟩, fun h ↦ (runTsc_skipped h).1⟩
  have hblank : ∀ c ∈ run.raw.stderr, isSpace c = true := isBlank_iff.mp hread.stderr
  have hsub := rawLinesOf_sublist none fun line
    (hline : line ∈ splitLines (run.raw.stdout ++ run.raw.stderr)) ↦ notMem_of_mem_splitLines hline
  rw [← parseTscErrors, ← (runTsc_of_not_skipped h).2, ← hread.lines] at hsub
  exact (hsub.eq_of_length (length_nonBlank_append hblank).symm).symm

/-- A run of the compiler alone, in a tree that is otherwise not checked. -/
def compilerRun (raw : RunnerResult) : TscRun where
  runner := js "host"
  preparation := .ready
    { install := skippedCheck "not run", typecheck := skippedCheck "not run", repoTypecheck := none,
      test := skippedCheck "not run", lint := skippedCheck "not run", runtime := none }
  command := js "tsc"
  raw := raw
  cleanupFailed := false
  treeChanged := false

theorem tsc_output_classified_iff_indented :
    ReadCompletely ⟨some 2, js "a.ts(1,1): error TS1: m\n  n\n", [], none, false⟩
      (runTsc (compilerRun ⟨some 2, js "a.ts(1,1): error TS1: m\n  n\n", [], none, false⟩)) :=
  ((tsc_output_classified_iff
    (compilerRun ⟨some 2, js "a.ts(1,1): error TS1: m\n  n\n", [], none, false⟩)).1
      (by decide +kernel)).2 (by decide +kernel)

/-- A compiler that finds no input files and ends standard error with a line separator. -/
def lostDiagnosticRun : TscRun :=
  compilerRun ⟨some 0, js "error TS18003: No inputs were found", [0x2028], none, false⟩

/-- The diagnostic of such a run is lost, and the run passes. -/
theorem tsc_diagnostic_lost :
    ¬ ∀ run : TscRun, (runTsc run).skipped = false → ReadCompletely run.raw (runTsc run) := by
  intro h
  have hread := h lostDiagnosticRun (by decide +kernel)
  exact absurd (hread.located (js "error TS18003: No inputs were found") (by decide +kernel))
    (by decide +kernel)

end ApiMigrator.Engine.Verifier
