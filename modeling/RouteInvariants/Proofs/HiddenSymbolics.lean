import Mathlib.Data.List.Basic
import RouteInvariants.Report.Document
import RouteInvariants.Settings.Basic

/-!
Hidden symbolic values. A report that does not show the symbolic values of a counterexample does not
depend on them (`reports_hide_symbolics`), whatever the names, the routes and the values are.

In a document the entry of the symbolic values is left out. In a text the counterexample is written
out, split into lines again and cut before the first line that announces symbolic values. Lines that
are written before it can hold line breaks, and even that very line, but the last of them ends with
the literal of a route or with a full stop, and so within a line (`exists_last_line`). Hence the lines
up to the announcement are those of the counterexample without symbolic values (`shownLines_format`).
-/

namespace RouteInvariants

/-! ### Texts that end within a line -/

namespace Text

/-- The characters do not end with a line break. -/
def OpenEnded (cs : List Char) : Prop := ∀ c ∈ cs.getLast?, isLineBreak c = false

variable {cs ds : List Char} {c : Char}

theorem OpenEnded.append (hcs : OpenEnded cs) (hds : OpenEnded ds) : OpenEnded (cs ++ ds) := by
  intro c hc
  rw [List.getLast?_append, Option.mem_def, Option.or_eq_some_iff] at hc
  exact hc.elim (hds c) fun h => hcs c h.2

theorem openEnded_concat (cs : List Char) (h : isLineBreak c = false) : OpenEnded (cs ++ [c]) := by
  intro d hd
  rw [List.getLast?_concat, Option.mem_some_iff] at hd
  exact hd ▸ h

/-- A text whose last character starts no new line ends within a line, and so does what follows a
line break in it. -/
theorem OpenEnded.of_cons (h : OpenEnded (c :: cs)) (hc : isLineBreak c = true) :
    cs ≠ [] ∧ OpenEnded cs := by
  cases cs with
  | nil => exact absurd (h c rfl) (by rw [hc]; exact Bool.noConfusion)
  | cons d ds => exact ⟨List.cons_ne_nil d ds, fun e he => h e he⟩

/-- Where a line ends with a line feed, the lines before and after it are split on their own. -/
theorem splitLines_append {acc p q : List Char} (hne : acc ≠ [] ∨ p ≠ []) (hopen : OpenEnded p) :
    splitLines acc (p ++ '\n' :: q) = splitLines acc p ++ splitLines [] q := by
  fun_induction splitLines acc p with
  | case1 acc hacc => exact absurd (List.isEmpty_iff.1 hacc) (hne.resolve_right fun h => h rfl)
  | case2 acc hacc =>
    have hfeed : isLineBreak '\n' = true := rfl
    rw [List.nil_append, splitLines, if_pos hfeed]
    · rfl
    · intro rest hreturn
      cases hreturn
  | case3 acc rest ih =>
    obtain ⟨-, hopen⟩ := hopen.of_cons rfl
    obtain ⟨hrest, hopen⟩ := hopen.of_cons rfl
    rw [List.cons_append, List.cons_append, splitLines, ih (.inr hrest) hopen, List.cons_append]
  | case4 acc c rest hcrlf hc ih =>
    obtain ⟨hrest, hopen⟩ := hopen.of_cons hc
    rw [List.cons_append, splitLines, if_pos hc, ih (.inr hrest) hopen, List.cons_append]
    -- the line feed that is added belongs to no carriage return, for the text goes on after `c`
    intro rest' hreturn hfeed
    cases rest with
    | nil => exact hrest rfl
    | cons d ds => exact hcrlf ds hreturn (congrArg (· :: ds) (List.cons.inj hfeed).1)
  | case5 acc c rest hcrlf hc ih =>
    have hopen : OpenEnded rest := by
      cases rest with
      | nil =>
        intro e he
        cases he
      | cons d ds => exact fun e he => hopen e he
    rw [List.cons_append, splitLines, if_neg hc, ih (.inl (List.cons_ne_nil c acc)) hopen]
    intro rest' hreturn _
    rw [hreturn] at hc
    exact hc rfl

/-- The text ends within a line that has begun. -/
structure EndsInLine (s : String) : Prop where
  ne_empty : s ≠ ""
  openEnded : OpenEnded s.toList

variable {s t : String}

theorem endsInLine_of_getLast? (h : s.toList.getLast? = some c) (hc : isLineBreak c = false) :
    EndsInLine s := by
  constructor
  · rintro rfl
    cases h
  · intro d hd
    rw [h, Option.mem_some_iff] at hd
    exact hd ▸ hc

theorem EndsInLine.append_left (s : String) (ht : EndsInLine t) : EndsInLine (s ++ t) := by
  constructor
  · rw [ne_eq, String.append_eq_empty_iff]
    exact fun h => ht.ne_empty h.2
  · intro c hc
    have hne : t.toList ≠ [] := fun h => ht.ne_empty (String.toList_eq_nil_iff.1 h)
    rw [String.toList_append, List.getLast?_append_of_ne_nil _ hne] at hc
    exact ht.openEnded c hc

theorem EndsInLine.append_right (hs : EndsInLine s) (ht : OpenEnded t.toList) :
    EndsInLine (s ++ t) := by
  constructor
  · rw [ne_eq, String.append_eq_empty_iff]
    exact fun h => hs.ne_empty h.1
  · rw [String.toList_append]
    exact hs.openEnded.append ht

/-- The lines of a text that goes on after a line feed. -/
theorem EndsInLine.lines_append (hs : EndsInLine s) (t : String) :
    lines (s ++ "\n" ++ t) = lines s ++ lines t := by
  have hchars : (s ++ "\n" ++ t).toList = s.toList ++ '\n' :: t.toList := by
    rw [String.toList_append, String.toList_append, List.append_assoc]
    rfl
  have hne : s.toList ≠ [] := fun h => hs.ne_empty (String.toList_eq_nil_iff.1 h)
  rw [lines, hchars, splitLines_append (.inr hne) hs.openEnded, List.map_append]
  rfl

end Text

/-! ### Literals end within a line -/

namespace Text

/-- The characters hold no line break. -/
def Unbroken (cs : List Char) : Prop := ∀ c ∈ cs, isLineBreak c = false

variable {cs ds : List Char} {c : Char}

theorem Unbroken.openEnded (h : Unbroken cs) : OpenEnded cs :=
  fun c hc => h c (List.mem_of_getLast? hc)

theorem Unbroken.append (hcs : Unbroken cs) (hds : Unbroken ds) : Unbroken (cs ++ ds) :=
  List.forall_mem_append.2 ⟨hcs, hds⟩

theorem Unbroken.cons (hc : isLineBreak c = false) (hcs : Unbroken cs) : Unbroken (c :: cs) :=
  List.forall_mem_cons.2 ⟨hc, hcs⟩

theorem unbroken_of_all (h : cs.all (fun c => !isLineBreak c) = true) : Unbroken cs := by
  intro c hc
  have hc := List.all_eq_true.1 h c hc
  rwa [Bool.not_eq_true'] at hc

theorem unbroken_replicate (n : Nat) (h : isLineBreak c = false) : Unbroken (List.replicate n c) :=
  fun _ hd => List.eq_of_mem_replicate hd ▸ h

theorem unbroken_toDigits (n : Nat) : Unbroken (Nat.toDigits 10 n) := by
  intro c hc
  have hdigit := Char.isDigit_iff_toNat.1 (Nat.isDigit_of_mem_toDigits (by decide) (by decide) hc)
  have hzero : '0'.toNat = 48 := rfl
  have hnine : '9'.toNat = 57 := rfl
  rw [hzero, hnine] at hdigit
  unfold isLineBreak
  grind

theorem unbroken_toString (n : Int) : Unbroken (toString n).toList := by
  cases n with
  | ofNat n =>
    have hdigits : (toString (Int.ofNat n)).toList = Nat.toDigits 10 n := String.toList_ofList
    rw [hdigits]
    exact unbroken_toDigits n
  | negSucc n =>
    have hdigits : (toString (Int.negSucc n)).toList = '-' :: Nat.toDigits 10 (n + 1) := by
      show ("-" ++ String.ofList (Nat.toDigits 10 (n + 1))).toList = _
      rw [String.toList_append]
      exact congrArg ('-' :: ·) String.toList_ofList
    rw [hdigits]
    exact (unbroken_toDigits (n + 1)).cons rfl

end Text

namespace Binary64

open Text (Unbroken unbroken_replicate unbroken_toDigits)

theorem unbroken_positional {ds : List Char} (h : Unbroken ds) (place : Int) :
    Unbroken (positional ds place) := by
  unfold positional
  split
  · exact ((Unbroken.cons rfl (Unbroken.cons rfl (unbroken_replicate _ rfl))).append h)
  · dsimp only
    split
    · exact (h.append (unbroken_replicate _ rfl)).append (Text.unbroken_of_all rfl)
    · exact Unbroken.append (fun c hc => h c (List.mem_of_mem_take hc))
        (Unbroken.cons rfl fun c hc => h c (List.mem_of_mem_drop hc))

theorem unbroken_scientific {ds : List Char} (h : Unbroken ds) (place : Int) :
    Unbroken (scientific ds place) := by
  unfold scientific
  refine Unbroken.append ?_ (Unbroken.cons rfl (Unbroken.cons ?_ ?_))
  · cases ds with
    | nil => exact h
    | cons d rest =>
      obtain ⟨hd, hrest⟩ := List.forall_mem_cons.1 h
      cases rest with
      | nil => exact h
      | cons e rest => exact Unbroken.cons hd (Unbroken.cons rfl hrest)
  · split <;> rfl
  · split
    · exact (unbroken_toDigits _).cons rfl
    · exact unbroken_toDigits _

theorem unbroken_text (x : Binary64) : Unbroken x.text.toList := by
  cases x with
  | nan => exact Text.unbroken_of_all rfl
  | infinite negative => cases negative <;> exact Text.unbroken_of_all rfl
  | finite negative m e =>
    have hsigned {body : List Char} (h : Unbroken body) :
        Unbroken (if negative then '-' :: body else body) := by
      split
      · exact h.cons rfl
      · exact h
    rw [text, String.toList_ofList]
    refine hsigned ?_
    split
    · exact Text.unbroken_of_all rfl
    · dsimp only
      split
      · exact unbroken_positional (unbroken_toDigits _) _
      · exact unbroken_scientific (unbroken_toDigits _) _

end Binary64

namespace Datum

open Text (OpenEnded endsInLine_of_getLast?)

/-- The literal of a datum does not end with a line break. -/
theorem openEnded_literal (d : Datum) : OpenEnded d.literal.toList := by
  cases d with
  | null => exact (Text.unbroken_of_all rfl).openEnded
  | bool b => cases b <;> exact (Text.unbroken_of_all rfl).openEnded
  | int n => exact (Text.unbroken_toString n).openEnded
  | float x => exact x.unbroken_text.openEnded
  | ratio q => exact (endsInLine_of_getLast? (c := ')') rfl rfl).append_left _ |>.openEnded
  | text s =>
    rw [literal, Text.quoted, String.toList_ofList]
    refine Text.openEnded_concat _ ?_
    unfold Text.quoteMark
    split <;> rfl
  | tuple xs =>
    cases xs with
    | nil => exact (endsInLine_of_getLast? (c := ')') rfl rfl).append_left _ |>.openEnded
    | cons x xs =>
      cases xs with
      | nil => exact (endsInLine_of_getLast? (c := ')') rfl rfl).append_left _ |>.openEnded
      | cons y xs => exact (endsInLine_of_getLast? (c := ')') rfl rfl).append_left _ |>.openEnded
  | list xs => exact (endsInLine_of_getLast? (c := ']') rfl rfl).append_left _ |>.openEnded
  | dict es => exact (endsInLine_of_getLast? (c := '\x7d') rfl rfl).append_left _ |>.openEnded
  | calendar kind written => exact Text.Unbroken.openEnded written.unbroken

end Datum

/-! ### Counterexamples without symbolic values -/

namespace State

open Text (OpenEnded)

def withoutSymbolics (s : State) : State := { s with symbolics := [] }

theorem format?_eq (s : State) : s.format? =
    s.lines?.map fun ls => "\n".intercalate (s.headLine :: ls ++ s.symbolicLines) := by
  unfold format?
  cases s.lines? <;> rfl

/-- The last line before the symbolic values ends with a literal, or it is the first line and ends
with a full stop. -/
theorem exists_last_line {s : State} {ls : List String} (h : s.lines? = some ls) :
    ∃ init last, s.headLine :: ls = init ++ [last] ∧ Text.EndsInLine last := by
  have hliteral (s t : String) (d : Datum) (ht : t.toList.getLast? = some ' ') :
      Text.EndsInLine (s ++ t ++ d.literal) :=
    ((Text.endsInLine_of_getLast? ht rfl).append_left s).append_right d.openEnded_literal
  unfold lines? at h
  split at h
  · rename_i route hdetail
    obtain rfl := Option.some.inj h
    refine ⟨[s.headLine], _, rfl, ?_⟩
    exact (Text.endsInLine_of_getLast? (c := ' ') rfl rfl).append_right route.openEnded_literal
  · rename_i route neighbors time hdetail
    obtain ⟨earlier, -, h⟩ := Option.bind_eq_some_iff.1 h
    obtain rfl := Option.some.inj h
    exact ⟨s.headLine :: ("time: " ++ time.display) :: earlier, _, rfl, hliteral _ _ route rfl⟩
  · rename_i route time hdetail
    obtain rfl := Option.some.inj h
    refine ⟨[s.headLine, "time: " ++ time.display], _, rfl, ?_⟩
    exact (Text.endsInLine_of_getLast? (c := ' ') rfl rfl).append_right route.openEnded_literal
  · rename_i routes hdetail
    obtain rfl := Option.some.inj h
    obtain rfl | ⟨init, r, rfl⟩ := List.eq_nil_or_concat' routes
    · exact ⟨[], s.headLine, rfl, (Text.endsInLine_of_getLast? (c := '.') rfl rfl).append_left _⟩
    · refine ⟨s.headLine :: init.map fun r => r.1 ++ " route: " ++ r.2.literal, _, ?_,
        hliteral r.1 " route: " r.2 rfl⟩
      rw [List.map_append]
      rfl

/-- Everything before the symbolic values ends within a line. -/
theorem endsInLine_front {s : State} {ls : List String} (h : s.lines? = some ls) :
    Text.EndsInLine ("\n".intercalate (s.headLine :: ls)) := by
  obtain ⟨init, last, hlines, hlast⟩ := exists_last_line h
  rw [hlines]
  cases init with
  | nil => rwa [List.nil_append, String.intercalate_singleton]
  | cons l init =>
    rw [String.intercalate_append_of_ne_nil (List.cons_ne_nil l init) (List.cons_ne_nil last []),
      String.intercalate_singleton]
    exact hlast.append_left _

end State

/-! ### Reports -/

/-- The first element that breaks a condition ends the start that meets it. -/
theorem takeWhile_append_cons {α : Type} {p : α → Bool} {a : α} (ha : p a = false)
    (xs ys : List α) : (xs ++ a :: ys).takeWhile p = xs.takeWhile p := by
  rw [List.takeWhile_append, List.takeWhile_cons_of_neg (by rw [ha]; exact Bool.false_ne_true),
    List.append_nil]
  split
  · rename_i hlength
    exact ((List.takeWhile_prefix p).eq_of_length hlength).symm
  · rfl

namespace Verdict

def withoutSymbolics (v : Verdict) : Verdict :=
  { v with counterexample := v.counterexample.map State.withoutSymbolics }

/-- The lines that are shown are those on the check and the fields, as far as they are shown without
symbolic values. -/
theorem shownLines_format {s : State} {ls : List String} (h : s.lines? = some ls) :
    shownLines ("\n".intercalate (s.headLine :: ls ++ s.symbolicLines)) false =
      shownLines ("\n".intercalate (s.headLine :: ls)) false := by
  unfold State.symbolicLines
  split
  · rw [List.append_nil]
  · rename_i hsome
    have hne : (s.symbolics.map fun x => "  " ++ x.1 ++ " = " ++ x.2.literal) ≠ [] := by
      rw [ne_eq, List.map_eq_nil_iff]
      exact fun hnil => hsome (List.isEmpty_iff.2 hnil)
    have hannounced : Text.lines "symbolics:" = ["symbolics:"] := by decide
    have hfront := State.endsInLine_front h
    have hline : Text.EndsInLine "symbolics:" := Text.endsInLine_of_getLast? (c := ':') rfl rfl
    unfold shownLines
    rw [String.intercalate_append_of_ne_nil (List.cons_ne_nil _ _) (List.cons_ne_nil _ _),
      String.intercalate_cons_of_ne_nil hne, hfront.lines_append, hline.lines_append, hannounced,
      if_neg Bool.false_ne_true, if_neg Bool.false_ne_true]
    exact takeWhile_append_cons rfl _ _

theorem textReport_withoutSymbolics (v : Verdict) {o : TextOptions} (ho : o.showSymbolics = false) :
    v.textReport o = v.withoutSymbolics.textReport o := by
  obtain ⟨mode, counterexample, seconds, network⟩ := v
  cases counterexample with
  | none => rfl
  | some s =>
    have hlines : s.withoutSymbolics.lines? = s.lines? := rfl
    have hformat := s.format?_eq
    have hformat' := s.withoutSymbolics.format?_eq
    unfold textReport withoutSymbolics
    cases h : s.lines? with
    | none =>
      rw [h] at hformat
      rw [hlines, h] at hformat'
      simp only [Option.map_some, hformat, hformat', Option.map_none]
      rfl
    | some ls =>
      rw [h] at hformat
      rw [hlines, h] at hformat'
      have hshown := shownLines_format h
      have hshown' := shownLines_format (s := s.withoutSymbolics) (hlines.trans h)
      simp only [Option.map_some, hformat, hformat', ho, hshown, hshown']
      rfl

theorem document_withoutSymbolics (v : Verdict) {o : DocumentOptions}
    (ho : o.showSymbolics = false) (timestamp : String) :
    v.document o timestamp = v.withoutSymbolics.document o timestamp := by
  obtain ⟨mode, counterexample, seconds, network⟩ := v
  cases counterexample with
  | none => rfl
  | some s =>
    have hentries : shownEntries s false = shownEntries s.withoutSymbolics false := rfl
    unfold document withoutSymbolics
    rw [ho]
    simp only [Option.map_some, entries, List.map_cons, List.map_nil, hentries]
    rfl

/-- The options of the two kinds of report. -/
theorem report_withoutSymbolics (v : Verdict) (format : Datum) {options : Named}
    (htext : ∀ o, TextOptions.ofNamed? options = some o → o.showSymbolics = false)
    (hdocument : ∀ o, DocumentOptions.ofNamed? options = some o → o.showSymbolics = false)
    (timestamp : String) :
    v.report format options timestamp = v.withoutSymbolics.report format options timestamp := by
  unfold report
  split
  · split
    · cases h : DocumentOptions.ofNamed? options with
      | none => rfl
      | some o => exact congrArg Except.ok (v.document_withoutSymbolics (hdocument o h) timestamp)
    · cases h : TextOptions.ofNamed? options with
      | none => rfl
      | some o => exact v.textReport_withoutSymbolics (htext o h)
  · rfl

/-- Output settings are values for the four names. -/
theorem eq_of_keys_output {output : Named}
    (h : Entries.keys output = Entries.keys Section.output.defaults) :
    ∃ format color verbose symbolics, output = [("format", format), ("color", color),
      ("verbose", verbose), ("show_symbolics", symbolics)] := by
  obtain ⟨⟨-, format⟩, rest, rfl, rfl, h₁⟩ := List.map_eq_cons_iff.1 h
  obtain ⟨⟨-, color⟩, rest, rfl, rfl, h₂⟩ := List.map_eq_cons_iff.1 h₁
  obtain ⟨⟨-, verbose⟩, rest, rfl, rfl, h₃⟩ := List.map_eq_cons_iff.1 h₂
  obtain ⟨⟨-, symbolics⟩, rest, rfl, rfl, h₄⟩ := List.map_eq_cons_iff.1 h₃
  obtain rfl := List.map_eq_nil_iff.1 h₄
  exact ⟨format, color, verbose, symbolics, rfl⟩

/-- The options of either kind of report are taken from the output settings. -/
theorem reportFor_withoutSymbolics (v : Verdict) {output : Named}
    (hkeys : Entries.keys output = Entries.keys Section.output.defaults)
    (hhidden : Entries.get? output "show_symbolics" = some (.bool false)) (timestamp : String) :
    v.reportFor output timestamp = v.withoutSymbolics.reportFor output timestamp := by
  obtain ⟨format, color, verbose, symbolics, rfl⟩ := eq_of_keys_output hkeys
  obtain rfl : symbolics = .bool false := Option.some.inj hhidden
  cases format with
  | text name =>
    have hformat : Entries.get? [("format", Datum.text name), ("color", color),
        ("verbose", verbose), ("show_symbolics", .bool false)] "format" = some (.text name) := rfl
    unfold reportFor
    rw [hformat, Option.getD_some]
    cases hname : isDocument name with
    | true =>
      simp only [hname, if_true]
      refine v.report_withoutSymbolics _ (fun o ho => ?_) (fun o ho => ?_) timestamp
      · obtain rfl := Option.some.inj ho
        rfl
      · obtain rfl := Option.some.inj ho
        rfl
    | false =>
      simp only [hname, Bool.false_eq_true, if_false]
      refine v.report_withoutSymbolics _ (fun o ho => ?_) (fun o ho => ?_) timestamp
      · obtain rfl := Option.some.inj ho
        rfl
      · cases ho
  | _ => rfl

/-- Reports that do not show symbolic values are the same for verdicts that differ in nothing but the
symbolic values of their counterexamples: the text with any other options, the document with any
indentation and at any time, and the report that any output settings ask for. -/
theorem reports_hide_symbolics {v w : Verdict} (h : v.withoutSymbolics = w.withoutSymbolics) :
    (∀ o : TextOptions, o.showSymbolics = false → v.textReport o = w.textReport o) ∧
    (∀ o : DocumentOptions, o.showSymbolics = false →
      ∀ timestamp, v.document o timestamp = w.document o timestamp) ∧
    ∀ output : Named, Entries.keys output = Entries.keys Section.output.defaults →
      Entries.get? output "show_symbolics" = some (.bool false) →
      ∀ timestamp, v.reportFor output timestamp = w.reportFor output timestamp := by
  refine ⟨fun o ho => ?_, fun o ho timestamp => ?_, fun output hkeys hhidden timestamp => ?_⟩
  · rw [v.textReport_withoutSymbolics ho, w.textReport_withoutSymbolics ho, h]
  · rw [v.document_withoutSymbolics ho, w.document_withoutSymbolics ho, h]
  · rw [v.reportFor_withoutSymbolics hkeys hhidden, w.reportFor_withoutSymbolics hkeys hhidden, h]

/-- A stable state with a node whose name holds the very line that announces symbolic values. -/
def announced (symbolics : Named) : Verdict :=
  ⟨.text "monolithic",
    some ⟨symbolics, .null, .monolithic [("A\nsymbolics:\nB", .text "x\n"), ("C", .null)]⟩,
    .int 2, .text ""⟩

/-- With a symbolic value and without one the reports that hide it are the same, and the reports that
show it are not. -/
theorem reports_hide_symbolics_announced :
    let v := announced [("key", .int 3)]
    let w := announced []
    let output : Named := [("format", .text "JSON"), ("color", .bool true),
      ("verbose", .bool false), ("show_symbolics", .bool false)]
    v.textReport ⟨true, true, false⟩ = w.textReport ⟨true, true, false⟩ ∧
      v.document ⟨some "  ", false⟩ "T" = w.document ⟨some "  ", false⟩ "T" ∧
      v.reportFor output "T" = w.reportFor output "T" ∧
      v.textReport ⟨true, true, true⟩ ≠ w.textReport ⟨true, true, true⟩ := by
  intro v w output
  have h : v.withoutSymbolics = w.withoutSymbolics := rfl
  obtain ⟨htext, hdocument, hreport⟩ := reports_hide_symbolics h
  refine ⟨htext _ rfl, hdocument _ rfl "T", hreport output rfl rfl "T", ?_⟩
  decide +kernel

end Verdict

end RouteInvariants
