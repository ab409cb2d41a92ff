import Mathlib.Data.List.Basic
import RouteInvariants.Toml.Document

/-!
Lines of a settings file, as they are written and as they are read. A line says what it does to the
draft (`ReadsLine`): nothing, open the table under a header, or assign a value to a key. A value is
followed by the end of its line, so numbers are read to their last digit (`readsAs_int`), and a text
without quotes, backslashes and control characters is read as it stands (`readsAs_text`). Lines that
follow each other do one after the other what each of them does (`resume_lines`, `read?_lines`).
-/

namespace RouteInvariants.Toml

open Decimal (isDigit digitsToNat splitSign)

/-- The line is over. -/
def EndsLine (rest : List Char) : Prop := ∀ c ∈ rest.head?, c = '\n'

theorem endsLine_nil : EndsLine [] := by simp [EndsLine]

theorem endsLine_break (rest : List Char) : EndsLine ('\n' :: rest) := by simp [EndsLine]

theorem EndsLine.cases {rest : List Char} (h : EndsLine rest) :
    rest = [] ∨ ∃ after, rest = '\n' :: after := by
  cases rest with
  | nil => exact .inl rfl
  | cons c after => exact .inr ⟨after, by rw [h c rfl]⟩

/-- The characters are those of a value. -/
structure ReadsAs (cs : List Char) (v : Datum) : Prop where
  start : ∀ c ∈ cs.head?, isBlank c = false
  ne_nil : cs ≠ []
  noReturn : '\r' ∉ cs
  value : ∀ n {rest}, EndsLine rest → value (n + 1) (cs ++ rest) = some (v, rest)

theorem skipBlanks_of_head {cs : List Char} (h : ∀ c ∈ cs.head?, isBlank c = false) :
    skipBlanks cs = cs := by
  cases cs with
  | nil => rfl
  | cons c cs => exact List.dropWhile_cons_of_neg (by simp [h c rfl])

/-! ### Truth values and texts -/

theorem readsAs_bool (b : Bool) : ReadsAs (if b then "true" else "false").toList (.bool b) where
  start := by cases b <;> simp [isBlank]
  ne_nil := by cases b <;> simp
  noReturn := by cases b <;> decide
  value := by
    intro n rest _
    cases b <;> rfl

/-- A text that stands between double quotes as it is. -/
def IsPlain (cs : List Char) : Prop := ∀ c ∈ cs, c ≠ '"' ∧ c ≠ '\\' ∧ isControl c = false

theorem basicRest_of_isPlain {cs : List Char} (h : IsPlain cs) (rest : List Char) :
    basicRest false .text (cs ++ '"' :: rest) = some (cs, rest) := by
  induction cs with
  | nil =>
    rw [List.nil_append, basicRest.eq_def]
    simp
  | cons c cs ih =>
    obtain ⟨⟨hquote, hbackslash, hcontrol⟩, hcs⟩ := List.forall_mem_cons.1 h
    rw [List.cons_append, basicRest.eq_def]
    simp [hquote, hbackslash, hcontrol, ih hcs, keep]

/-- The form on one line, where two more quotes do not follow the first. -/
theorem quotedText_short {cs : List Char} (h : ∀ rest, cs ≠ '"' :: '"' :: rest) :
    quotedText ('"' :: cs) =
      (basicRest false .text cs).map fun p => (String.ofList p.1, p.2) := by
  rw [quotedText]
  exact h

theorem readsAs_text {s : String} (h : IsPlain s.toList) :
    ReadsAs ('"' :: (s.toList ++ ['"'])) (.text s) where
  start := by simp [isBlank]
  ne_nil := by simp
  noReturn := by
    intro hmem
    have hmem : '\r' ∈ s.toList := by simpa using hmem
    cases (h '\r' hmem).2.2
  value := by
    intro n rest hrest
    have hshort : ∀ rest', s.toList ++ '"' :: rest ≠ '"' :: '"' :: rest' := by
      intro rest' heq
      cases hs : s.toList with
      | nil =>
        rw [hs] at heq
        obtain rfl : rest = '"' :: rest' := (List.cons.inj heq).2
        cases hrest '"' rfl
      | cons c cs =>
        rw [hs] at heq
        exact (h c (hs ▸ List.mem_cons_self)).1 (List.cons.inj heq).1
    rw [List.cons_append, List.append_assoc, List.singleton_append, Toml.value,
      quotedText_short hshort, basicRest_of_isPlain h]
    simp

/-! ### Integers -/

theorem moreDigits_append {ds rest : List Char} (hds : ∀ c ∈ ds, isDigit c = true)
    (hrest : EndsLine rest) : moreDigits isDigit (ds ++ rest) = (ds, rest) := by
  induction ds with
  | nil =>
    rcases hrest.cases with rfl | ⟨after, rfl⟩
    · rfl
    · rw [List.nil_append, moreDigits]
      · rfl
      · rintro _ _ ⟨⟩
  | cons c ds ih =>
    rw [List.forall_mem_cons] at hds
    have hc : c ≠ '_' := by
      rintro rfl
      cases hds.1
    rw [List.cons_append, moreDigits, if_pos hds.1, ih hds.2]
    exact fun _ _ hunderscore => absurd hunderscore hc

theorem wholeDigits_append {ds rest : List Char} (hds : ∀ c ∈ ds, isDigit c = true) (hne : ds ≠ [])
    (hzero : ds.head? = some '0' → ds = ['0']) (hrest : EndsLine rest) :
    wholeDigits (ds ++ rest) = some (ds, rest) := by
  obtain ⟨c, ds, rfl⟩ := List.exists_cons_of_ne_nil hne
  by_cases hc : c = '0'
  · subst hc
    obtain rfl : ds = [] := (List.cons.inj (hzero rfl)).2
    rfl
  · rw [List.forall_mem_cons] at hds
    rw [List.cons_append, wholeDigits, digits, if_pos hds.1, moreDigits_append hds.2 hrest]
    exact fun cs heq => hc (List.cons.inj heq).1

theorem decimal_append {negative : Bool} {cs ds rest : List Char}
    (hsign : splitSign (cs ++ rest) = (negative, ds ++ rest)) (hds : ∀ c ∈ ds, isDigit c = true)
    (hne : ds ≠ []) (hzero : ds.head? = some '0' → ds = ['0']) (hrest : EndsLine rest) :
    decimal (cs ++ rest) =
      some (.int (if negative then -(digitsToNat ds : Int) else digitsToNat ds), rest) := by
  have hfraction : fraction rest = ([], rest) := by
    rcases hrest.cases with rfl | ⟨after, rfl⟩ <;> rfl
  have hexponent : exponent rest = (none, rest) := by
    rcases hrest.cases with rfl | ⟨after, rfl⟩ <;> rfl
  unfold decimal
  simp only [hsign, wholeDigits_append hds hne hzero hrest, hfraction, hexponent, bind,
    Option.bind]
  rfl

theorem dropWhile_isDigit {ds rest : List Char} (hds : ∀ c ∈ ds, isDigit c = true)
    (hrest : EndsLine rest) : (ds ++ rest).dropWhile isDigit = rest := by
  rw [List.dropWhile_append_of_pos hds]
  rcases hrest.cases with rfl | ⟨after, rfl⟩ <;> rfl

/-- A date begins with digits and a hyphen, a time with digits and a colon. -/
theorem calendar_eq_none {cs : List Char}
    (h : ∀ c ∈ cs.head?, isDigit c = true → EndsLine (cs.dropWhile isDigit)) :
    calendar cs = none := by
  have hdate : date cs = none := by
    unfold date
    split
    · dsimp only
      split
      · rename_i hall
        simp only [Bool.and_eq_true, List.all_cons, List.all_nil, Bool.and_true] at hall
        obtain ⟨⟨⟨⟨h₁, h₂, h₃, h₄⟩, -⟩, -⟩, -⟩ := hall
        have hrest := h _ rfl h₁
        simp only [List.dropWhile_cons, h₁, h₂, h₃, h₄, if_true] at hrest
        cases hrest '-' rfl
      · rfl
    · rfl
  have htime : time cs = none := by
    unfold time
    split
    · split
      · rename_i hall
        simp only [Bool.and_eq_true, pair] at hall
        obtain ⟨⟨⟨⟨⟨h₁, h₂⟩, -⟩, -⟩, -⟩, -⟩ := hall
        have hrest := h _ rfl h₁
        simp only [List.dropWhile_cons, h₁, h₂, if_true] at hrest
        cases hrest ':' rfl
      · rfl
    · rfl
  rw [calendar, hdate, htime]
  rfl

theorem isDigit_of_mem_toDigits {n : Nat} {c : Char} (hc : c ∈ Nat.toDigits 10 n) :
    isDigit c = true := by
  have hdigit := Char.isDigit_iff_toNat.1 (Nat.isDigit_of_mem_toDigits (by decide) (by decide) hc)
  have hlow : '0' ≤ c := hdigit.1
  have hhigh : c ≤ '9' := hdigit.2
  simp [isDigit, hlow, hhigh]

/-- Only zero is written with a leading zero. -/
theorem head?_toDigits (n : Nat) (h : (Nat.toDigits 10 n).head? = some '0') :
    Nat.toDigits 10 n = ['0'] := by
  induction n using Nat.strongRecOn with
  | ind n ih =>
    by_cases hn : n < 10
    · rw [Nat.toDigits_of_lt_base hn] at h ⊢
      simpa using h
    · rw [Nat.toDigits_of_base_le (by decide) (by omega),
        List.head?_append_of_ne_nil _ Nat.toDigits_ne_nil] at h
      have hzero : n / 10 = Nat.ofDigitChars 10 ['0'] 0 := by
        rw [← ih (n / 10) (by omega) h, Nat.ofDigitChars_ten_toDigits]
      have : Nat.ofDigitChars 10 ['0'] 0 = 0 := rfl
      omega

theorem digitsToNat_toDigits (n : Nat) : digitsToNat (Nat.toDigits 10 n) = n :=
  Nat.ofDigitChars_toDigits (by decide) (by decide)

/-- The digits of an integer after its sign. -/
theorem toList_toString_int (n : Int) : (toString n).toList =
    if n < 0 then '-' :: Nat.toDigits 10 n.natAbs else Nat.toDigits 10 n.natAbs := by
  cases n with
  | ofNat n => exact String.toList_ofList
  | negSucc n =>
    show ("-" ++ String.ofList (Nat.toDigits 10 (n + 1))).toList = _
    rw [String.toList_append, if_pos (Int.negSucc_lt_zero n)]
    exact congrArg ('-' :: ·) String.toList_ofList

theorem value_eq_scalar {c : Char} (hc : c = '-' ∨ isDigit c = true) (n : Nat) (cs : List Char) :
    value (n + 1) (c :: cs) = scalar (c :: cs) := by
  rw [value]
  all_goals
    rintro rest ⟨⟩
    exact absurd hc (by decide)

/-- A number is a decimal one unless a base or a name says otherwise. -/
theorem number_eq_decimal {cs : List Char}
    (hbase : ∀ d tail, cs = '0' :: d :: tail → isDigit d = true ∨ d = '\n')
    (hbody : ∀ c ∈ (splitSign cs).2.head?, isDigit c = true) : number cs = decimal cs := by
  unfold number
  split
  · exact absurd (hbase _ _ rfl) (by decide)
  · exact absurd (hbase _ _ rfl) (by decide)
  · exact absurd (hbase _ _ rfl) (by decide)
  · generalize splitSign cs = signed at hbody ⊢
    obtain ⟨negative, body⟩ := signed
    dsimp only at hbody ⊢
    split
    · cases hbody 'i' rfl
    · cases hbody 'n' rfl
    · rfl

theorem scalar_append {negative : Bool} {cs ds rest : List Char}
    (hcs : cs = if negative then '-' :: ds else ds) (hds : ∀ c ∈ ds, isDigit c = true)
    (hne : ds ≠ []) (hzero : ds.head? = some '0' → ds = ['0']) (hrest : EndsLine rest) :
    scalar (cs ++ rest) =
      some (.int (if negative then -(digitsToNat ds : Int) else digitsToNat ds), rest) := by
  obtain ⟨c, ds, rfl⟩ := List.exists_cons_of_ne_nil hne
  have hc : isDigit c = true := hds c List.mem_cons_self
  have hsign : splitSign (cs ++ rest) = (negative, c :: ds ++ rest) := by
    subst hcs
    cases negative with
    | true => rfl
    | false =>
      show splitSign (c :: (ds ++ rest)) = _
      rw [splitSign]
      · rfl
      all_goals
        rintro tail ⟨⟩
        cases hc
  have hbody : ∀ d ∈ (splitSign (cs ++ rest)).2.head?, isDigit d = true := by
    rw [hsign]
    rintro d ⟨⟩
    exact hc
  have hbase : ∀ d tail, cs ++ rest = '0' :: d :: tail → isDigit d = true ∨ d = '\n' := by
    intro d tail heq
    subst hcs
    cases negative with
    | true => cases heq
    | false =>
      obtain ⟨rfl, hafter⟩ := List.cons.inj heq
      obtain rfl : ds = [] := (List.cons.inj (hzero rfl)).2
      obtain rfl : rest = d :: tail := hafter
      exact .inr (hrest d rfl)
  have hcalendar : calendar (cs ++ rest) = none := by
    refine calendar_eq_none ?_
    subst hcs
    cases negative with
    | true =>
      rintro d ⟨⟩ hdigit
      cases hdigit
    | false =>
      intro _ _ _
      exact (dropWhile_isDigit hds hrest).symm ▸ hrest
  rw [scalar, hcalendar, Option.none_or, number_eq_decimal hbase hbody,
    decimal_append hsign hds (List.cons_ne_nil c ds) hzero hrest]

theorem readsAs_int (n : Int) : ReadsAs (toString n).toList (.int n) := by
  have hds : ∀ c ∈ Nat.toDigits 10 n.natAbs, isDigit c = true := fun c hc =>
    isDigit_of_mem_toDigits hc
  have hcs : (toString n).toList = if decide (n < 0) then '-' :: Nat.toDigits 10 n.natAbs
      else Nat.toDigits 10 n.natAbs := by
    rw [toList_toString_int]
    simp
  have hhead : ∀ c ∈ (toString n).toList.head?, c = '-' ∨ isDigit c = true := by
    rw [hcs]
    split
    · rintro c ⟨⟩
      exact .inl rfl
    · intro c hc
      exact .inr (hds c (List.mem_of_mem_head? hc))
  have hne : (toString n).toList ≠ [] := by
    rw [hcs]
    split
    · exact List.cons_ne_nil _ _
    · exact Nat.toDigits_ne_nil
  have hreturn : '\r' ∉ (toString n).toList := by
    have hdigit : '\r' ∉ Nat.toDigits 10 n.natAbs := by
      intro hmem
      cases hds '\r' hmem
    rw [hcs]
    split
    · simpa using hdigit
    · exact hdigit
  refine ⟨fun c hc => ?_, hne, hreturn, fun k rest hrest => ?_⟩
  · rcases hhead c hc with rfl | hdigit
    · rfl
    · by_contra hblank
      rw [Bool.not_eq_false, isBlank, Bool.or_eq_true, decide_eq_true_eq,
        decide_eq_true_eq] at hblank
      rcases hblank with rfl | rfl <;> cases hdigit
  · obtain ⟨c, cs, heq⟩ := List.exists_cons_of_ne_nil hne
    have hscalar := scalar_append hcs hds Nat.toDigits_ne_nil (head?_toDigits _) hrest
    rw [heq] at hhead hscalar ⊢
    rw [List.cons_append, value_eq_scalar (hhead c rfl), ← List.cons_append, hscalar,
      digitsToNat_toDigits]
    congr 3
    simp only [decide_eq_true_eq]
    omega

/-! ### Keys -/

def StartsBare (cs : List Char) : Prop := ∃ c ∈ cs.head?, isBare c = true

theorem StartsBare.ne_cons {cs : List Char} (h : StartsBare cs) {q : Char} (hq : isBare q = false)
    (tail : List Char) : cs ≠ q :: tail := by
  rintro rfl
  obtain ⟨c, hc, hbare⟩ := h
  rw [← Option.some.inj hc, hq] at hbare
  cases hbare

theorem isBlank_of_isBare {c : Char} (h : isBare c = true) : isBlank c = false := by
  by_contra hblank
  rw [Bool.not_eq_false, isBlank, Bool.or_eq_true, decide_eq_true_eq, decide_eq_true_eq] at hblank
  rcases hblank with rfl | rfl <;> cases h

theorem StartsBare.skipBlanks {cs : List Char} (h : StartsBare cs) : skipBlanks cs = cs := by
  refine skipBlanks_of_head fun c hc => ?_
  obtain ⟨d, hd, hbare⟩ := h
  obtain rfl : d = c := Option.some.inj (hd.symm.trans hc)
  exact isBlank_of_isBare hbare

/-- A name that is written without quotes. -/
def IsBareName (name : String) : Prop := name.toList ≠ [] ∧ ∀ c ∈ name.toList, isBare c = true

theorem IsBareName.noReturn {name : String} (h : IsBareName name) : '\r' ∉ name.toList := by
  intro hmem
  cases h.2 '\r' hmem

theorem IsBareName.startsBare {name : String} (h : IsBareName name) (rest : List Char) :
    StartsBare (name.toList ++ rest) := by
  obtain ⟨c, cs, hcs⟩ := List.exists_cons_of_ne_nil h.1
  exact ⟨c, by rw [hcs]; rfl, h.2 c (hcs ▸ List.mem_cons_self)⟩

theorem IsBareName.keyPart_append {name : String} (h : IsBareName name) {rest : List Char}
    (hrest : ∀ c ∈ rest.head?, isBare c = false) :
    keyPart (name.toList ++ rest) = some (name, rest) := by
  have htake : (name.toList ++ rest).takeWhile isBare = name.toList := by
    rw [List.takeWhile_append_of_pos h.2]
    cases rest with
    | nil => simp
    | cons c rest => simp [hrest c rfl]
  have hdrop : (name.toList ++ rest).dropWhile isBare = rest := by
    rw [List.dropWhile_append_of_pos h.2]
    cases rest with
    | nil => rfl
    | cons c rest => simp [hrest c rfl]
  rw [keyPart]
  · simp only [htake, hdrop]
    rw [if_neg (by simpa using h.1), String.ofList_toList]
  · exact (h.startsBare rest).ne_cons (by decide)
  · exact (h.startsBare rest).ne_cons (by decide)

theorem keyParts_last {name : String} (h : IsBareName name) (n : Nat) (parents : List String)
    {rest after : List Char} (hrest : ∀ c ∈ rest.head?, isBare c = false)
    (hafter : skipBlanks rest = after) (hdot : ∀ c ∈ after.head?, c ≠ '.') :
    keyParts (n + 1) parents (name.toList ++ rest) = some (⟨parents, name⟩, after) := by
  simp only [keyParts, h.keyPart_append hrest, hafter, Option.bind_eq_bind, Option.bind_some]
  split
  · exact absurd rfl (hdot '.' rfl)
  · rfl

theorem keyParts_dot {name : String} (h : IsBareName name) (n : Nat) (parents : List String)
    (rest : List Char) : keyParts (n + 1) parents (name.toList ++ '.' :: rest) =
      keyParts n (parents ++ [name]) (skipBlanks rest) := by
  rw [keyParts, h.keyPart_append (by rintro c ⟨⟩; rfl)]
  rfl

/-- The key in front of a value. -/
theorem key_entry {name : String} (h : IsBareName name) (rest : List Char) :
    key (name.toList ++ ' ' :: '=' :: rest) = some (⟨[], name⟩, '=' :: rest) := by
  refine keyParts_last h _ [] ?_ rfl ?_
  · rintro c ⟨⟩
    rfl
  · rintro c ⟨⟩
    decide

/-- A dotted path as it is written. -/
def dotted (parents : List String) (name : String) : List Char :=
  parents.foldr (fun p rest => p.toList ++ '.' :: rest) name.toList

theorem noReturn_dotted {parents : List String} {name : String}
    (hparents : ∀ p ∈ parents, IsBareName p) (hname : IsBareName name) :
    '\r' ∉ dotted parents name := by
  induction parents with
  | nil => exact hname.noReturn
  | cons p ps ih =>
    rw [List.forall_mem_cons] at hparents
    have hps : '\r' ∉ dotted ps name := ih hparents.2
    show '\r' ∉ p.toList ++ '.' :: dotted ps name
    simp [hparents.1.noReturn, hps]

theorem startsBare_dotted {parents : List String} {name : String}
    (hparents : ∀ p ∈ parents, IsBareName p) (hname : IsBareName name) (rest : List Char) :
    StartsBare (dotted parents name ++ rest) := by
  cases parents with
  | nil => exact hname.startsBare rest
  | cons p ps =>
    rw [dotted, List.foldr_cons, List.append_assoc]
    exact (hparents p List.mem_cons_self).startsBare _

theorem keyParts_dotted {parents : List String} {name : String}
    (hparents : ∀ p ∈ parents, IsBareName p) (hname : IsBareName name) (rest : List Char)
    (before : List String) {n : Nat} (hn : parents.length < n) :
    keyParts n before (dotted parents name ++ ']' :: rest) =
      some (⟨before ++ parents, name⟩, ']' :: rest) := by
  induction parents generalizing before n with
  | nil =>
    obtain ⟨n, rfl⟩ := Nat.exists_eq_succ_of_ne_zero (Nat.ne_of_gt hn)
    rw [List.append_nil]
    refine keyParts_last hname n before ?_ rfl ?_
    · rintro c ⟨⟩
      rfl
    · rintro c ⟨⟩
      decide
  | cons p ps ih =>
    obtain ⟨n, rfl⟩ := Nat.exists_eq_succ_of_ne_zero (Nat.ne_of_gt (Nat.zero_lt_of_lt hn))
    rw [List.forall_mem_cons] at hparents
    have hrest := startsBare_dotted hparents.2 hname (']' :: rest)
    have htext : dotted (p :: ps) name ++ ']' :: rest =
        p.toList ++ '.' :: (dotted ps name ++ ']' :: rest) := List.append_assoc _ _ _
    rw [htext, keyParts_dot hparents.1, hrest.skipBlanks,
      ih hparents.2 _ (Nat.lt_of_succ_lt_succ hn), List.append_assoc, List.singleton_append]

theorem length_le_dotted (parents : List String) (name : String) :
    parents.length ≤ (dotted parents name).length := by
  induction parents with
  | nil => exact Nat.zero_le _
  | cons p ps ih =>
    rw [dotted, List.foldr_cons, List.length_append, List.length_cons, List.length_cons]
    exact Nat.le_add_left_of_le (Nat.succ_le_succ ih)

theorem key_dotted {parents : List String} {name : String} (hparents : ∀ p ∈ parents, IsBareName p)
    (hname : IsBareName name) (rest : List Char) :
    key (dotted parents name ++ ']' :: rest) = some (⟨parents, name⟩, ']' :: rest) := by
  refine keyParts_dotted hparents hname rest [] ?_
  have := length_le_dotted parents name
  rw [List.length_append]
  omega

/-! ### Statements -/

theorem statement_assign {name : String} (hname : IsBareName name) (d : Draft) {cs : List Char}
    (hcs : ∀ c ∈ cs.head?, isBlank c = false) :
    ∃ n, d.statement (name.toList ++ ' ' :: '=' :: ' ' :: cs) =
      (value (n + 1) cs).bind fun p => (d.assign ⟨[], name⟩ p.1).map fun d => (d, p.2) := by
  have hblank : skipBlanks (' ' :: cs) = cs := skipBlanks_of_head hcs
  have hstart := hname.startsBare (' ' :: '=' :: ' ' :: cs)
  refine ⟨2 * (' ' :: cs).length + 1, ?_⟩
  rw [Draft.statement]
  · simp only [key_entry hname, Option.bind_eq_bind, Option.bind_some, hblank]
  · exact hstart.ne_cons (by decide)
  · exact fun tail => hstart.ne_cons (by decide) ('[' :: tail)
  · exact hstart.ne_cons (by decide)

theorem statement_entry {name : String} (hname : IsBareName name) {cs : List Char} {v : Datum}
    (hcs : ReadsAs cs v) (d : Draft) {rest : List Char} (hrest : EndsLine rest) :
    d.statement (name.toList ++ ' ' :: '=' :: ' ' :: (cs ++ rest)) =
      (d.assign ⟨[], name⟩ v).map fun d => (d, rest) := by
  have hhead : ∀ c ∈ (cs ++ rest).head?, isBlank c = false := by
    rw [List.head?_append_of_ne_nil _ hcs.ne_nil]
    exact hcs.start
  obtain ⟨n, hn⟩ := statement_assign hname d hhead
  rw [hn, hcs.value n hrest, Option.bind_some]

theorem statement_header {parents : List String} {name : String}
    (hparents : ∀ p ∈ parents, IsBareName p) (hname : IsBareName name) (d : Draft)
    (rest : List Char) : d.statement ('[' :: (dotted parents name ++ ']' :: rest)) =
      (d.open_ ⟨parents, name⟩ Table.declare).map fun d => (d, rest) := by
  have hstart := startsBare_dotted hparents hname (']' :: rest)
  rw [Draft.statement]
  · simp only [hstart.skipBlanks, key_dotted hparents hname, Option.bind_eq_bind, Option.bind_some]
  · exact hstart.ne_cons (by decide)

/-! ### Lines -/

/-- What remains to be read when a line is over. -/
def resume (n : Nat) (d : Draft) : List Char → Option Table
  | [] => some d.table
  | _ :: rest => statements n d rest

/-- A line that changes the draft as the function does, where the function has a result. -/
structure ReadsLine (l : List Char) (f : Draft → Option Draft) : Prop where
  noReturn : '\r' ∉ l
  read : ∀ d d' : Draft, f d = some d' → ∀ (n : Nat) (rest : List Char), EndsLine rest →
    statements (n + 1) d (l ++ rest) = resume n d' rest

theorem readsLine_blank : ReadsLine [] some := by
  refine ⟨List.not_mem_nil, ?_⟩
  rintro d _ ⟨⟩ n rest hrest
  rcases hrest.cases with rfl | ⟨after, rfl⟩ <;> rfl

/-- A statement takes the whole line. -/
theorem readsLine_of_statement {l : List Char} {f : Draft → Option Draft}
    (hstart : ∃ c ∈ l.head?, isBlank c = false ∧ c ≠ '\n') (hreturn : '\r' ∉ l)
    (h : ∀ (d : Draft) (rest : List Char), EndsLine rest →
      d.statement (l ++ rest) = (f d).map fun d => (d, rest)) :
    ReadsLine l f := by
  refine ⟨hreturn, fun d d' hd n rest hrest => ?_⟩
  obtain ⟨c, hc, hblank, hbreak⟩ := hstart
  obtain ⟨cs, rfl⟩ : ∃ cs, l = c :: cs := List.head?_eq_some_iff.1 hc
  have hskip : skipBlanks (c :: cs ++ rest) = c :: (cs ++ rest) :=
    List.dropWhile_cons_of_neg (by simp [hblank])
  have hstatement := h d rest hrest
  rw [hd] at hstatement
  have hcomment : skipComment (skipBlanks rest) = some rest := by
    rcases hrest.cases with rfl | ⟨after, rfl⟩ <;> rfl
  rw [statements, hskip]
  split
  · rename_i heq
    cases heq
  · rename_i heq
    exact absurd (List.cons.inj heq).1 hbreak
  · rw [← List.cons_append, hstatement]
    simp only [Option.map_some, Option.bind_eq_bind, Option.bind_some, hcomment]
    rcases hrest.cases with rfl | ⟨after, rfl⟩ <;> rfl

theorem readsLine_entry {name : String} (hname : IsBareName name) {cs : List Char} {v : Datum}
    (hcs : ReadsAs cs v) : ReadsLine (name.toList ++ ' ' :: '=' :: ' ' :: cs)
      fun d => d.assign ⟨[], name⟩ v := by
  refine readsLine_of_statement ?_ ?_ fun d rest hrest => ?_
  · obtain ⟨c, hc, hbare⟩ := hname.startsBare (' ' :: '=' :: ' ' :: cs)
    refine ⟨c, hc, isBlank_of_isBare hbare, ?_⟩
    rintro rfl
    cases hbare
  · simp [hname.noReturn, hcs.noReturn]
  · rw [List.append_assoc]
    exact statement_entry hname hcs d hrest

theorem readsLine_header {parents : List String} {name : String}
    (hparents : ∀ p ∈ parents, IsBareName p) (hname : IsBareName name) :
    ReadsLine ('[' :: (dotted parents name ++ [']']))
      fun d => d.open_ ⟨parents, name⟩ Table.declare := by
  have hreturn : '\r' ∉ '[' :: (dotted parents name ++ [']']) := by
    simp [noReturn_dotted hparents hname]
  refine readsLine_of_statement ⟨'[', rfl, rfl, by decide⟩ hreturn fun d rest _ => ?_
  have htext : '[' :: (dotted parents name ++ [']']) ++ rest =
      '[' :: (dotted parents name ++ ']' :: rest) :=
    congrArg ('[' :: ·) (List.append_assoc _ _ _)
  rw [htext]
  exact statement_header hparents hname d rest

/-- The characters of lines that follow an earlier one. -/
def continued (ls : List (List Char)) : List Char := ls.flatMap ('\n' :: ·)

theorem endsLine_continued {ls : List (List Char)} {rest : List Char} (hrest : EndsLine rest) :
    EndsLine (continued ls ++ rest) := by
  cases ls with
  | nil => exact hrest
  | cons l ls => exact endsLine_break _

theorem resume_lines {ls : List (List Char × (Draft → Option Draft))}
    (hls : ∀ l ∈ ls, ReadsLine l.1 l.2) {d d' : Draft}
    (hd : ls.foldlM (fun d l => l.2 d) d = some d') (n : Nat) {rest : List Char}
    (hrest : EndsLine rest) :
    resume (n + ls.length) d (continued (ls.map Prod.fst) ++ rest) = resume n d' rest := by
  induction ls generalizing d with
  | nil =>
    cases hd
    rfl
  | cons l ls ih =>
    rw [List.forall_mem_cons] at hls
    rw [List.foldlM_cons, Option.bind_eq_bind, Option.bind_eq_some_iff] at hd
    obtain ⟨d₁, hd₁, hd⟩ := hd
    rw [← ih hls.2 hd]
    have htext : continued ((l :: ls).map Prod.fst) ++ rest =
        '\n' :: (l.1 ++ (continued (ls.map Prod.fst) ++ rest)) :=
      congrArg ('\n' :: ·) (List.append_assoc _ _ _)
    rw [htext]
    exact hls.1.read d d₁ hd₁ (n + ls.length) _ (endsLine_continued hrest)

/-! ### The file -/

theorem unifyBreaks_cons {c : Char} (hc : c ≠ '\r') (cs : List Char) :
    unifyBreaks (c :: cs) = c :: unifyBreaks cs := by
  rw [unifyBreaks]
  exact fun _ heq => absurd heq hc

theorem length_unifyBreaks_le (cs : List Char) : (unifyBreaks cs).length ≤ cs.length := by
  fun_induction unifyBreaks cs with
  | case1 cs ih => exact Nat.le_succ_of_le (Nat.succ_le_succ ih)
  | case2 c cs _ ih => exact Nat.succ_le_succ ih
  | case3 => exact Nat.le_refl _

/-- A break is not torn apart. -/
theorem unifyBreaks_append {rest : List Char} (h : ∀ c ∈ rest.head?, c ≠ '\n') (cs : List Char) :
    unifyBreaks (cs ++ rest) = unifyBreaks cs ++ unifyBreaks rest := by
  fun_induction unifyBreaks cs with
  | case1 cs ih =>
    rw [List.cons_append, List.cons_append, unifyBreaks, ih, List.cons_append]
  | case2 c cs hbreak ih =>
    rw [List.cons_append, unifyBreaks, ih, List.cons_append]
    intro after hc heq
    cases cs with
    | nil =>
      obtain rfl : rest = '\n' :: after := heq
      exact h '\n' rfl rfl
    | cons d cs => exact hbreak cs hc (by rw [(List.cons.inj heq).1])
  | case3 => rfl

theorem unifyBreaks_append_left {cs : List Char} (h : '\r' ∉ cs) (rest : List Char) :
    unifyBreaks (cs ++ rest) = cs ++ unifyBreaks rest := by
  induction cs with
  | nil => rfl
  | cons c cs ih =>
    have hc : c ≠ '\r' := Ne.symm (List.ne_of_not_mem_cons h)
    rw [List.cons_append, unifyBreaks_cons hc, ih (List.not_mem_of_not_mem_cons h),
      List.cons_append]

theorem endsLine_unifyBreaks {rest : List Char} (h : EndsLine rest) :
    EndsLine (unifyBreaks rest) := by
  rcases h.cases with rfl | ⟨after, rfl⟩
  · exact endsLine_nil
  · rw [unifyBreaks_cons (by decide)]
    exact endsLine_break _

theorem noReturn_continued {ls : List (List Char)} (h : ∀ l ∈ ls, '\r' ∉ l) :
    '\r' ∉ continued ls := by
  intro hmem
  obtain ⟨l, hl, hmem⟩ := List.mem_flatMap.1 hmem
  rcases List.mem_cons.1 hmem with heq | hmem
  · cases heq
  · exact h l hl hmem

theorem length_le_continued (ls : List (List Char)) : ls.length ≤ (continued ls).length := by
  induction ls with
  | nil => exact Nat.zero_le _
  | cons l ls ih =>
    have htext : continued (l :: ls) = '\n' :: (l ++ continued ls) := rfl
    rw [htext, List.length_cons, List.length_cons, List.length_append]
    omega

/-- A file whose first lines are known goes on with the draft that they leave. -/
theorem read?_lines {ls : List (List Char × (Draft → Option Draft))}
    (hls : ∀ l ∈ ls, ReadsLine l.1 l.2) {d : Draft}
    (hd : ls.foldlM (fun d l => l.2 d) Draft.empty = some d) {s : String} {rest : List Char}
    (hrest : EndsLine rest) (hs : '\n' :: s.toList = continued (ls.map Prod.fst) ++ rest) :
    ∃ n, read? s = (resume n d (unifyBreaks rest)).map tableData := by
  have hreturn : '\r' ∉ continued (ls.map Prod.fst) := by
    refine noReturn_continued fun l hl => ?_
    obtain ⟨p, hp, rfl⟩ := List.mem_map.1 hl
    exact (hls p hp).noReturn
  have htext : '\n' :: unifyBreaks s.toList = continued (ls.map Prod.fst) ++ unifyBreaks rest := by
    rw [← unifyBreaks_cons (by decide), hs, unifyBreaks_append_left hreturn]
  have hcount : ls.length ≤ (unifyBreaks s.toList).length + 1 := by
    have hlength := congrArg List.length htext
    have hlines := length_le_continued (ls.map Prod.fst)
    rw [List.length_map] at hlines
    rw [List.length_cons, List.length_append] at hlength
    omega
  refine ⟨(unifyBreaks s.toList).length + 1 - ls.length, ?_⟩
  rw [← resume_lines hls hd _ (endsLine_unifyBreaks hrest), ← htext, Nat.sub_add_cancel hcount]
  rfl

end RouteInvariants.Toml
