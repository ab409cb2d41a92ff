import RouteInvariants.Proofs.Representation
import RouteInvariants.Proofs.TomlLines

/-!
The texts that a settings file can give. Each of them stands between quotes, so it is shorter than
the file up to its last quote (`reach`) by two characters at least (`has_statements`), and a text in
double quotes that uses all this room is one that stands there as it is (`quotedText_tight`). So a
text that is written between double quotes, with no quotes after it, comes out again only if it
needs no escape (`isPlain_of_has`).
-/

namespace RouteInvariants

/-- The text stands somewhere in the datum. -/
inductive Datum.Has (t : String) : Datum → Prop
  | text : Has t (.text t)
  | tuple {xs d} : d ∈ xs → Has t d → Has t (.tuple xs)
  | list {xs d} : d ∈ xs → Has t d → Has t (.list xs)
  | dict {es e} : e ∈ es → Has t e.2 → Has t (.dict es)

namespace Toml

open Decimal (isDigit splitSign)

inductive Node.Has (t : String) : Node → Prop
  | value {d} : d.Has t → Has t (.value d)
  | table {o u e} : e ∈ u → Has t e.2 → Has t (.table o u)
  | closed {us u u' e} : u ∈ us → e ∈ u → Has t e.2 → Has t (.tables us u')
  | current {us u e} : e ∈ u → Has t e.2 → Has t (.tables us u)

def Table.Has (t : String) (u : Table) : Prop := ∃ e ∈ u, e.2.Has t

/-! ### The last quote -/

/-- The number of characters up to the last quote. -/
def reach : List Char → Nat
  | [] => 0
  | c :: cs => if 0 < reach cs then reach cs + 1 else if c = '"' ∨ c = '\'' then 1 else 0

theorem reach_cons_of_pos {cs : List Char} (h : 0 < reach cs) (c : Char) :
    reach (c :: cs) = reach cs + 1 := if_pos h

theorem reach_le_cons (c : Char) (cs : List Char) : reach cs ≤ reach (c :: cs) := by
  simp only [reach]
  split <;> omega

theorem reach_quote_pos {q : Char} (hq : q = '"' ∨ q = '\'') (cs : List Char) :
    0 < reach (q :: cs) := by
  rw [reach, if_pos hq]
  split <;> omega

theorem reach_le_of_suffix {rest cs : List Char} (h : rest <:+ cs) : reach rest ≤ reach cs := by
  obtain ⟨front, rfl⟩ := h
  induction front with
  | nil => exact Nat.le_refl _
  | cons c front ih => exact ih.trans (reach_le_cons c _)

theorem reach_append_le (cs rest : List Char) : reach (cs ++ rest) ≤ cs.length + reach rest := by
  induction cs with
  | nil => simp
  | cons c cs ih =>
    simp only [List.cons_append, reach, List.length_cons]
    split
    · omega
    · split <;> omega

theorem reach_append_of_pos {rest : List Char} (h : 0 < reach rest) (cs : List Char) :
    reach (cs ++ rest) = cs.length + reach rest := by
  induction cs with
  | nil => simp
  | cons c cs ih =>
    rw [List.cons_append, reach_cons_of_pos (by omega), ih, List.length_cons]
    omega

theorem reach_eq_zero {cs : List Char} (h : ∀ c ∈ cs, c ≠ '"' ∧ c ≠ '\'') : reach cs = 0 := by
  induction cs with
  | nil => rfl
  | cons c cs ih =>
    obtain ⟨hc, hcs⟩ := List.forall_mem_cons.1 h
    simp [reach, ih hcs, hc]

/-! ### Quoted texts -/

theorem trailing_spec (q : Char) (hq : q = '"' ∨ q = '\'') (cs : List Char) :
    (trailing q cs).2 <:+ cs ∧ (trailing q cs).1.length ≤ reach cs := by
  fun_cases trailing q cs with
  | case1 cs =>
    refine ⟨(List.suffix_cons _ _).trans (List.suffix_cons _ _), ?_⟩
    have hpos := reach_quote_pos hq cs
    rw [reach_cons_of_pos hpos]
    exact Nat.succ_le_succ hpos
  | case2 d cs => exact ⟨List.suffix_cons _ _, reach_quote_pos hq _⟩
  | case3 => exact ⟨List.suffix_refl _, Nat.zero_le _⟩
  | case4 => exact ⟨List.suffix_cons _ _, reach_quote_pos hq _⟩
  | case5 => exact ⟨List.suffix_refl _, Nat.zero_le _⟩
  | case6 => exact ⟨List.suffix_refl _, Nat.zero_le _⟩

/-- A reader of the rest of a text, up to the closing quote. -/
def Closes (cs t rest : List Char) : Prop := rest <:+ cs ∧ t.length < reach cs

theorem Closes.skip {cs t rest : List Char} (h : Closes cs t rest) (front : List Char) :
    Closes (front ++ cs) t rest :=
  ⟨h.1.trans (List.suffix_append front cs),
    h.2.trans_le (reach_le_of_suffix (List.suffix_append front cs))⟩

theorem Closes.keep {cs t rest : List Char} (h : Closes cs t rest) (c d : Char) :
    Closes (c :: cs) (d :: t) rest := by
  refine ⟨h.1.trans (List.suffix_cons c cs), ?_⟩
  rw [reach_cons_of_pos (Nat.zero_lt_of_lt h.2), List.length_cons]
  exact Nat.succ_lt_succ h.2

theorem closes_quote {q : Char} (hq : q = '"' ∨ q = '\'') (cs : List Char) :
    Closes (q :: cs) [] cs :=
  ⟨List.suffix_cons q cs, reach_quote_pos hq cs⟩

theorem closes_trailing {q : Char} (hq : q = '"' ∨ q = '\'') (cs : List Char) :
    Closes (q :: q :: q :: cs) (trailing q cs).1 (trailing q cs).2 := by
  obtain ⟨hrest, hlength⟩ := trailing_spec q hq cs
  refine ⟨hrest.trans ⟨[q, q, q], rfl⟩, ?_⟩
  have hpos := reach_quote_pos hq cs
  have hpos' := reach_quote_pos hq (q :: cs)
  rw [reach_cons_of_pos hpos', reach_cons_of_pos hpos]
  have := reach_le_cons q cs
  omega

theorem keep_eq_some {c : Char} {r : Option (List Char × List Char)} {t rest : List Char}
    (h : keep c r = some (t, rest)) : ∃ t', r = some (t', rest) ∧ t = c :: t' := by
  obtain ⟨⟨t', rest'⟩, hr, heq⟩ := Option.map_eq_some_iff.1 h
  cases heq
  exact ⟨t', hr, rfl⟩

theorem closes_basicRest {long : Bool} {p : Position} {cs t rest : List Char}
    (h : basicRest long p cs = some (t, rest)) : Closes cs t rest := by
  fun_induction basicRest long p cs generalizing t rest with
  | case1 => cases h
  | case2 c cs _ ih => exact (ih h).skip [c]
  | case3 cs _ ih => exact (ih h).skip ['\n']
  | case4 => cases h
  | case5 p c cs _ _ ih => exact (ih h).skip [c]
  | case6 p _ _ cs =>
    have hcloses := closes_trailing (.inl rfl : '"' = '"' ∨ _) cs
    rwa [Option.some.inj h] at hcloses
  | case7 p cs _ _ _ _ ih =>
    obtain ⟨t, ht, rfl⟩ := keep_eq_some h
    exact (ih ht).keep '"' '"'
  | case8 p cs =>
    cases h
    exact closes_quote (.inl rfl) cs
  | case9 p _ h₁ h₂ h₃ h₄ cs _ _ ih =>
    obtain ⟨c, -, h⟩ := Option.bind_eq_some_iff.1 h
    obtain ⟨t, ht, rfl⟩ := keep_eq_some h
    exact ((ih ht).keep h₄ c).skip ['\\', 'u', h₁, h₂, h₃]
  | case10 p _ h₁ h₂ h₃ h₄ h₅ h₆ h₇ h₈ cs _ _ ih =>
    obtain ⟨c, -, h⟩ := Option.bind_eq_some_iff.1 h
    obtain ⟨t, ht, rfl⟩ := keep_eq_some h
    exact ((ih ht).keep h₈ c).skip ['\\', 'U', h₁, h₂, h₃, h₄, h₅, h₆, h₇]
  | case11 p _ e cs _ _ c _ _ _ ih =>
    obtain ⟨t, ht, rfl⟩ := keep_eq_some h
    exact ((ih ht).keep e c).skip ['\\']
  | case12 p _ e cs _ _ _ _ _ _ ih => exact (ih h).skip ['\\', e]
  | case13 p _ e cs _ _ _ _ _ _ _ ih => exact (ih h).skip ['\\', e]
  | case14 => cases h
  | case15 => cases h
  | case16 => cases h
  | case17 p c cs _ _ _ _ _ ih =>
    obtain ⟨t, ht, rfl⟩ := keep_eq_some h
    exact (ih ht).keep c c

/-- An escape takes more room in the file than in the text. -/
theorem lt_reach_of_escape {cs t rest : List Char}
    (h : basicRest false .text ('\\' :: cs) = some (t, rest)) :
    t.length + 1 < reach ('\\' :: cs) := by
  obtain ⟨front, after, t', c, rfl, hne, hafter, rfl⟩ : ∃ front after t' c, cs = front ++ after ∧
      front ≠ [] ∧ basicRest false .text after = some (t', rest) ∧ t = c :: t' := by
    rw [basicRest.eq_def] at h
    simp only [reduceCtorEq, if_false, decide_false, Bool.false_and, Bool.false_eq_true,
      if_true] at h
    rw [if_neg (by decide)] at h
    split at h
    · rename_i h₁ h₂ h₃ h₄ after
      obtain ⟨c, -, h⟩ := Option.bind_eq_some_iff.1 h
      obtain ⟨t, ht, rfl⟩ := keep_eq_some h
      exact ⟨['u', h₁, h₂, h₃, h₄], after, t, c, rfl, List.cons_ne_nil _ _, ht, rfl⟩
    · rename_i h₁ h₂ h₃ h₄ h₅ h₆ h₇ h₈ after
      obtain ⟨c, -, h⟩ := Option.bind_eq_some_iff.1 h
      obtain ⟨t, ht, rfl⟩ := keep_eq_some h
      exact ⟨['U', h₁, h₂, h₃, h₄, h₅, h₆, h₇, h₈], after, t, c, rfl, List.cons_ne_nil _ _, ht, rfl⟩
    · rename_i e after _ _
      split at h
      · rename_i c _
        obtain ⟨t, ht, rfl⟩ := keep_eq_some h
        exact ⟨[e], after, t, c, rfl, List.cons_ne_nil _ _, ht, rfl⟩
      · cases h
    · cases h
  have hroom := (closes_basicRest hafter).2
  have hlength := List.length_pos_of_ne_nil hne
  rw [reach_cons_of_pos, reach_append_of_pos (Nat.zero_lt_of_lt hroom), List.length_cons]
  · omega
  · rw [reach_append_of_pos (Nat.zero_lt_of_lt hroom)]
    omega

theorem basicRest_tight {cs t rest : List Char} (h : basicRest false .text cs = some (t, rest))
    (ht : reach cs ≤ t.length + 1) : cs = t ++ '"' :: rest ∧ IsPlain t := by
  induction cs generalizing t with
  | nil => cases h
  | cons c cs ih =>
    by_cases hquote : c = '"'
    · subst hquote
      rw [basicRest.eq_def] at h
      cases h
      exact ⟨rfl, List.forall_mem_nil _⟩
    by_cases hbackslash : c = '\\'
    · subst hbackslash
      have := lt_reach_of_escape h
      omega
    by_cases hcontrol : isControl c = true
    · rw [basicRest.eq_def] at h
      simp [hquote, hbackslash, hcontrol] at h
    · have hkeep : keep c (basicRest false .text cs) = some (t, rest) := by
        rw [← h, basicRest.eq_def false .text (c :: cs)]
        simp [hquote, hbackslash, hcontrol]
      obtain ⟨t, ht', rfl⟩ := keep_eq_some hkeep
      have hroom : reach cs ≤ t.length + 1 := by
        have hpos := Nat.zero_lt_of_lt (closes_basicRest ht').2
        rw [reach_cons_of_pos hpos, List.length_cons] at ht
        omega
      obtain ⟨rfl, hplain⟩ := ih ht' hroom
      refine ⟨rfl, List.forall_mem_cons.2 ⟨⟨hquote, hbackslash, by simpa using hcontrol⟩, hplain⟩⟩

theorem closes_literalRest {cs t rest : List Char} (h : literalRest cs = some (t, rest)) :
    Closes cs t rest := by
  simp only [literalRest] at h
  split at h
  · cases h
  · rename_i q after hdrop
    split at h
    · cases h
    obtain ⟨rfl, rfl⟩ := Prod.mk.inj (Option.some.inj h)
    have hcs : cs = cs.takeWhile (· ≠ '\'') ++ q :: after := by
      rw [← hdrop]
      exact List.takeWhile_append_dropWhile.symm
    have hq : q = '\'' := by
      have hhead := List.head?_dropWhile_not (· ≠ '\'') cs
      rw [hdrop] at hhead
      simpa using hhead
    generalize cs.takeWhile (· ≠ '\'') = body at hcs ⊢
    have hpos := reach_quote_pos (.inr hq) after
    rw [hcs]
    refine ⟨(List.suffix_cons q after).trans (List.suffix_append _ _), ?_⟩
    rw [reach_append_of_pos hpos]
    omega

theorem closes_longLiteralRest {cs t rest : List Char}
    (h : longLiteralRest cs = some (t, rest)) : Closes cs t rest := by
  fun_induction longLiteralRest cs generalizing t rest with
  | case1 cs =>
    have hcloses := closes_trailing (.inr rfl : '\'' = _ ∨ '\'' = '\'') cs
    rwa [Option.some.inj h] at hcloses
  | case2 => cases h
  | case3 c cs _ _ ih =>
    obtain ⟨t, ht, rfl⟩ := keep_eq_some h
    exact (ih ht).keep c c
  | case4 => cases h

theorem dropBreak_suffix (cs : List Char) : dropBreak cs <:+ cs := by
  unfold dropBreak
  split
  · exact List.suffix_cons _ _
  · exact List.suffix_refl _

theorem Closes.of_suffix {cs after t rest : List Char} (h : Closes after t rest)
    (hafter : after <:+ cs) : Closes cs t rest := by
  obtain ⟨front, rfl⟩ := hafter
  exact h.skip front

/-- The opening quote is one more character. -/
theorem quotedText_bound {cs rest : List Char} {t : String} (h : quotedText cs = some (t, rest)) :
    rest <:+ cs.tail ∧ t.length + 2 ≤ reach cs := by
  obtain ⟨⟨t', rest'⟩, hbody, heq⟩ := Option.map_eq_some_iff.1 h
  obtain ⟨rfl, rfl⟩ := Prod.mk.inj heq
  obtain ⟨q, after, rfl, hafter⟩ : ∃ q after, cs = q :: after ∧ Closes after t' rest' := by
    split at hbody
    · exact ⟨_, _, rfl, (closes_basicRest hbody).of_suffix
        ((dropBreak_suffix _).trans ⟨['"', '"'], rfl⟩)⟩
    · exact ⟨_, _, rfl, closes_basicRest hbody⟩
    · exact ⟨_, _, rfl, (closes_longLiteralRest hbody).of_suffix
        ((dropBreak_suffix _).trans ⟨['\'', '\''], rfl⟩)⟩
    · exact ⟨_, _, rfl, closes_literalRest hbody⟩
    · cases hbody
  refine ⟨hafter.1, ?_⟩
  rw [reach_cons_of_pos (Nat.zero_lt_of_lt hafter.2), String.length_ofList]
  exact Nat.succ_le_succ hafter.2

/-- A text that is no shorter than the room between the quotes stands there as it is. -/
theorem quotedText_tight {cs rest : List Char} {t : String}
    (h : quotedText ('"' :: cs) = some (t, rest)) (ht : reach cs ≤ t.length + 1) :
    cs = t.toList ++ '"' :: rest ∧ IsPlain t.toList := by
  by_cases hlong : ∃ after, cs = '"' :: '"' :: after
  · obtain ⟨after, rfl⟩ := hlong
    obtain ⟨⟨t', rest'⟩, hbody, heq⟩ := Option.map_eq_some_iff.1 h
    obtain ⟨rfl, rfl⟩ := Prod.mk.inj heq
    have hroom := ((closes_basicRest hbody).of_suffix (dropBreak_suffix after)).2
    rw [String.length_ofList, reach_cons_of_pos (reach_quote_pos (.inl rfl) after),
      reach_cons_of_pos (Nat.zero_lt_of_lt hroom)] at ht
    dsimp only at ht
    omega
  · rw [quotedText_short fun after heq => hlong ⟨after, heq⟩] at h
    obtain ⟨⟨t', rest'⟩, hbody, heq⟩ := Option.map_eq_some_iff.1 h
    obtain ⟨rfl, rfl⟩ := Prod.mk.inj heq
    rw [String.length_ofList] at ht
    rw [String.toList_ofList]
    exact basicRest_tight hbody ht

/-! ### What readers leave -/

theorem skipBlanks_suffix (cs : List Char) : skipBlanks cs <:+ cs := List.dropWhile_suffix _

theorem skipComment_suffix {cs rest : List Char} (h : skipComment cs = some rest) :
    rest <:+ cs := by
  unfold skipComment at h
  split at h
  · split at h
    · cases h
    · cases h
      exact (List.dropWhile_suffix _).trans (List.suffix_cons _ _)
  · cases h
    exact List.suffix_refl _

theorem skipSpace_suffix {comment : Bool} {cs rest : List Char}
    (h : skipSpace comment cs = some rest) : rest <:+ cs := by
  fun_induction skipSpace comment cs with
  | case1 =>
    cases h
    exact List.suffix_refl _
  | case2 cs ih => exact (ih h).trans (List.suffix_cons _ _)
  | case3 => cases h
  | case4 c cs _ _ ih => exact (ih h).trans (List.suffix_cons _ _)
  | case5 _ c cs _ _ ih => exact (ih h).trans (List.suffix_cons _ _)
  | case6 _ cs _ _ ih => exact (ih h).trans (List.suffix_cons _ _)
  | case7 =>
    cases h
    exact List.suffix_refl _

theorem keyPart_suffix {cs rest : List Char} {name : String} (h : keyPart cs = some (name, rest)) :
    rest <:+ cs := by
  unfold keyPart at h
  split at h
  · obtain ⟨p, hp, heq⟩ := Option.map_eq_some_iff.1 h
    cases heq
    exact (closes_basicRest hp).1.trans (List.suffix_cons _ _)
  · obtain ⟨p, hp, heq⟩ := Option.map_eq_some_iff.1 h
    cases heq
    exact (closes_literalRest hp).1.trans (List.suffix_cons _ _)
  · dsimp only at h
    split at h
    · cases h
    · cases h
      exact List.dropWhile_suffix _

theorem keyParts_suffix {n : Nat} {parents : List String} {cs rest : List Char} {k : Key}
    (h : keyParts n parents cs = some (k, rest)) : rest <:+ cs := by
  induction n generalizing parents cs with
  | zero => cases h
  | succ n ih =>
    rw [keyParts] at h
    obtain ⟨⟨name, after⟩, hname, h⟩ := Option.bind_eq_some_iff.1 h
    have hafter := (skipBlanks_suffix after).trans (keyPart_suffix hname)
    dsimp only at h
    split at h
    · rename_i after' heq
      rw [heq] at hafter
      exact (ih h).trans ((skipBlanks_suffix after').trans ((List.suffix_cons _ _).trans hafter))
    · cases h
      exact hafter

theorem key_suffix {cs rest : List Char} {k : Key} (h : key cs = some (k, rest)) : rest <:+ cs :=
  keyParts_suffix h

/-! ### Scalars -/

theorem moreDigits_suffix (p : Char → Bool) (cs : List Char) : (moreDigits p cs).2 <:+ cs := by
  fun_induction moreDigits p cs with
  | case1 c cs _ _ ih => exact ih.trans ⟨['_', c], rfl⟩
  | case2 => exact List.suffix_refl _
  | case3 c cs _ _ _ ih => exact ih.trans (List.suffix_cons _ _)
  | case4 => exact List.suffix_refl _
  | case5 => exact List.suffix_refl _

theorem digits_suffix {p : Char → Bool} {cs ds rest : List Char}
    (h : digits p cs = some (ds, rest)) : rest <:+ cs := by
  unfold digits at h
  split at h
  · split at h
    · cases h
      exact (moreDigits_suffix p _).trans (List.suffix_cons _ _)
    · cases h
  · cases h

theorem wholeDigits_suffix {cs ds rest : List Char} (h : wholeDigits cs = some (ds, rest)) :
    rest <:+ cs := by
  unfold wholeDigits at h
  split at h
  · cases h
    exact List.suffix_cons _ _
  · exact digits_suffix h

theorem splitSign_suffix (cs : List Char) : (splitSign cs).2 <:+ cs := by
  unfold splitSign
  split
  · exact List.suffix_cons _ _
  · exact List.suffix_cons _ _
  · exact List.suffix_refl _

theorem fraction_suffix (cs : List Char) : (fraction cs).2 <:+ cs := by
  unfold fraction
  split
  · rename_i after
    cases hdigits : digits isDigit after with
    | none => exact List.suffix_refl _
    | some r => exact (digits_suffix hdigits).trans (List.suffix_cons _ _)
  · exact List.suffix_refl _

theorem exponent_suffix (cs : List Char) : (exponent cs).2 <:+ cs := by
  unfold exponent
  split
  · rename_i c after
    split
    · dsimp only
      split
      · rename_i hdigits
        exact (digits_suffix hdigits).trans
          ((splitSign_suffix after).trans (List.suffix_cons _ _))
      · exact List.suffix_refl _
    · exact List.suffix_refl _
  · exact List.suffix_refl _

/-- A reader whose values hold no texts. -/
def Textless (cs : List Char) (r : Option (Datum × List Char)) : Prop :=
  ∀ d rest, r = some (d, rest) → rest <:+ cs ∧ ∀ t, ¬ d.Has t

theorem textless_decimal (cs : List Char) : Textless cs (decimal cs) := by
  intro d rest h
  unfold decimal at h
  dsimp only at h
  obtain ⟨⟨whole, after⟩, hwhole, h⟩ := Option.bind_eq_some_iff.1 h
  have hafter := (wholeDigits_suffix hwhole).trans (splitSign_suffix cs)
  have hrest := (exponent_suffix (fraction after).2).trans ((fraction_suffix after).trans hafter)
  split at h
  · cases h
    exact ⟨hrest, fun t ht => by cases ht⟩
  · cases h
    exact ⟨hrest, fun t ht => by cases ht⟩

theorem textless_number (cs : List Char) : Textless cs (number cs) := by
  have hbased : ∀ base p after, after <:+ cs → Textless cs (based base p after) := by
    intro base p after hafter d rest h
    obtain ⟨r, hr, heq⟩ := Option.map_eq_some_iff.1 h
    cases heq
    exact ⟨(digits_suffix hr).trans hafter, fun t ht => by cases ht⟩
  unfold number
  split
  · exact hbased _ _ _ ⟨['0', 'x'], rfl⟩
  · exact hbased _ _ _ ⟨['0', 'o'], rfl⟩
  · exact hbased _ _ _ ⟨['0', 'b'], rfl⟩
  · have hsign := splitSign_suffix cs
    dsimp only
    split
    · rename_i after heq
      rw [heq] at hsign
      rintro d rest ⟨⟩
      exact ⟨.trans ⟨['i', 'n', 'f'], rfl⟩ hsign, fun t ht => by cases ht⟩
    · rename_i after heq
      rw [heq] at hsign
      rintro d rest ⟨⟩
      exact ⟨.trans ⟨['n', 'a', 'n'], rfl⟩ hsign, fun t ht => by cases ht⟩
    · exact textless_decimal cs

theorem date_suffix {cs day rest : List Char} (h : date cs = some (day, rest)) : rest <:+ cs := by
  unfold date at h
  split at h
  · dsimp only at h
    split at h
    · cases h
      exact ⟨[_, _, _, _, _, _, _, _, _, _], rfl⟩
    · cases h
  · cases h

theorem micros_suffix (cs : List Char) : (micros cs).2 <:+ cs := by
  unfold micros
  split
  · dsimp only
    split
    · exact List.suffix_refl _
    · exact (List.dropWhile_suffix _).trans (List.suffix_cons _ _)
  · exact List.suffix_refl _

theorem time_suffix {cs clock rest : List Char} (h : time cs = some (clock, rest)) :
    rest <:+ cs := by
  unfold time at h
  split at h
  · rename_i after
    split at h
    · cases h
      exact (micros_suffix after).trans ⟨[_, _, _, _, _, _, _, _], rfl⟩
    · cases h
  · cases h

theorem zone_suffix (cs : List Char) : (zone cs).2 <:+ cs := by
  unfold zone
  split
  · split
    · exact ⟨[_, _, _, _, _, _], rfl⟩
    · split
      · exact List.suffix_cons _ _
      · exact List.suffix_refl _
  · split
    · exact List.suffix_cons _ _
    · exact List.suffix_refl _
  · exact List.suffix_refl _

theorem textless_calendar (cs : List Char) : Textless cs (calendar cs) := by
  have hwritten : ∀ kind written after, after <:+ cs →
      Textless cs (some (.calendar kind written, after)) := by
    rintro kind written after hafter d rest ⟨⟩
    exact ⟨hafter, fun t ht => by cases ht⟩
  unfold calendar
  split
  · rename_i day after hday
    have hafter := date_suffix hday
    dsimp only
    split
    · split
      · split
        · rename_i clock after' htime
          exact hwritten _ _ _ ((zone_suffix after').trans ((time_suffix htime).trans
            ((List.suffix_cons _ _).trans hafter)))
        · exact hwritten _ _ _ hafter
      · exact hwritten _ _ _ hafter
    · exact hwritten _ _ _ hafter
  · cases htime : time cs with
    | none =>
      intro d rest h
      cases h
    | some r => exact hwritten _ _ _ (time_suffix htime)

theorem textless_scalar (cs : List Char) : Textless cs (scalar cs) := by
  intro d rest h
  rcases Option.or_eq_some_iff.1 h with h | ⟨-, h⟩
  · exact textless_calendar cs d rest h
  · exact textless_number cs d rest h

/-! ### Tables -/

theorem has_insert {t k : String} {u : Table} {n : Node}
    (h : Table.Has t (Entries.insert u k n)) : n.Has t ∨ u.Has t := by
  obtain ⟨e, he, ht⟩ := h
  rcases Entries.mem_of_mem_insert he with he | rfl
  · exact .inr ⟨e, he, ht⟩
  · exact .inl ht

theorem has_of_get? {t k : String} {u : Table} {n : Node} (hn : Entries.get? u k = some n)
    (ht : n.Has t) : u.Has t :=
  ⟨(k, n), Entries.mem_of_get? hn, ht⟩

theorem not_has_nil (t : String) : ¬ Table.Has t [] := by
  rintro ⟨e, he, -⟩
  cases he

/-- A change of a table brings in no texts but those of `Q`. -/
def Adds (Q : String → Prop) (f : Table → Option Table) : Prop :=
  ∀ u u' : Table, f u = some u' → ∀ t, u'.Has t → u.Has t ∨ Q t

theorem adds_within {Q : String → Prop} {f : Table → Option Table} (hf : Adds Q f)
    (ks : List String) : Adds Q (Table.within f ks) := by
  induction ks with
  | nil => exact hf
  | cons k ks ih =>
    intro u u' h t ht
    rw [Table.within] at h
    split at h
    · obtain ⟨v, hv, rfl⟩ := Option.map_eq_some_iff.1 h
      rcases has_insert ht with ht | ht
      · cases ht with
        | table he ht => exact (ih [] v hv t ⟨_, he, ht⟩).imp_left (absurd · (not_has_nil t))
      · exact .inl ht
    · rename_i o w hget
      obtain ⟨v, hv, rfl⟩ := Option.map_eq_some_iff.1 h
      rcases has_insert ht with ht | ht
      · cases ht with
        | table he ht =>
          refine (ih w v hv t ⟨_, he, ht⟩).imp_left fun hw => ?_
          obtain ⟨e, he, ht⟩ := hw
          exact has_of_get? hget (.table he ht)
      · exact .inl ht
    · rename_i ws w hget
      obtain ⟨v, hv, rfl⟩ := Option.map_eq_some_iff.1 h
      rcases has_insert ht with ht | ht
      · cases ht with
        | closed hu he ht => exact .inl (has_of_get? hget (.closed hu he ht))
        | current he ht =>
          refine (ih w v hv t ⟨_, he, ht⟩).imp_left fun hw => ?_
          obtain ⟨e, he, ht⟩ := hw
          exact has_of_get? hget (.current he ht)
      · exact .inl ht
    · cases h

theorem adds_declare (Q : String → Prop) (name : String) : Adds Q (Table.declare name) := by
  intro u u' h t ht
  unfold Table.declare at h
  split at h
  · cases h
    rcases has_insert ht with ht | ht
    · cases ht with
      | table he _ => cases he
    · exact .inl ht
  · rename_i w hget
    cases h
    rcases has_insert ht with ht | ht
    · cases ht with
      | table he ht => exact .inl (has_of_get? hget (.table he ht))
    · exact .inl ht
  · cases h

theorem adds_append (Q : String → Prop) (name : String) : Adds Q (Table.append name) := by
  intro u u' h t ht
  unfold Table.append at h
  split at h
  · cases h
    rcases has_insert ht with ht | ht
    · cases ht with
      | closed hu _ _ => cases hu
      | current he _ => cases he
    · exact .inl ht
  · rename_i ws w hget
    cases h
    rcases has_insert ht with ht | ht
    · cases ht with
      | closed hu he ht =>
        rcases List.mem_append.1 hu with hu | hu
        · exact .inl (has_of_get? hget (.closed hu he ht))
        · rw [List.mem_singleton.1 hu] at he
          exact .inl (has_of_get? hget (.current he ht))
      | current he _ => cases he
    · exact .inl ht
  · cases h

theorem adds_assign (block : Nat) (name : String) (v : Datum) (ks : List String) :
    Adds (v.Has ·) (Table.assign block name v ks) := by
  induction ks with
  | nil =>
    intro u u' h t ht
    rw [Table.assign] at h
    split at h
    · cases h
    · cases h
      rcases has_insert ht with ht | ht
      · cases ht with
        | value ht => exact .inr ht
      · exact .inl ht
  | cons k ks ih =>
    intro u u' h t ht
    have hopened : ∀ w, (∀ e ∈ w, e.2.Has t → u.Has t) →
        (Table.assign block name v ks w).map
          (fun w' => Entries.insert u k (.table (.dotted block) w')) = some u' →
        u.Has t ∨ v.Has t := by
      intro w hw h
      obtain ⟨w', hw', rfl⟩ := Option.map_eq_some_iff.1 h
      rcases has_insert ht with ht | ht
      · cases ht with
        | table he ht =>
          refine (ih w w' hw' t ⟨_, he, ht⟩).imp_left fun hold => ?_
          obtain ⟨e, he, ht⟩ := hold
          exact hw e he ht
      · exact .inl ht
    rw [Table.assign] at h
    split at h
    · exact hopened [] (List.forall_mem_nil _) h
    · rename_i w hget
      exact hopened w (fun e he ht => has_of_get? hget (.table he ht)) h
    · rename_i b w hget
      split at h
      · exact hopened w (fun e he ht => has_of_get? hget (.table he ht)) h
      · cases h
    · cases h

mutual

theorem Node.has_toDatum {t : String} : ∀ n : Node, n.toDatum.Has t → n.Has t
  | .value _, h => .value h
  | .table _ u, .dict he h => by
    obtain ⟨e, he, ht⟩ := has_tableData u _ he h
    exact .table he ht
  | .tables us u, .list hd h => by
    rcases List.mem_append.1 hd with hd | hd
    · obtain ⟨w, hw, e, he, ht⟩ := has_tablesData us _ hd h
      exact .closed hw he ht
    · rw [List.mem_singleton.1 hd] at h
      cases h with
      | dict he h =>
        obtain ⟨e, he, ht⟩ := has_tableData u _ he h
        exact .current he ht

theorem has_tableData {t : String} : ∀ (u : List (String × Node)) (e : String × Datum),
    e ∈ tableData u → e.2.Has t → Table.Has t u
  | (k, n) :: u, e, he, ht => by
    rcases List.mem_cons.1 he with rfl | he
    · exact ⟨(k, n), List.mem_cons_self, n.has_toDatum ht⟩
    · obtain ⟨e', he', ht'⟩ := has_tableData u e he ht
      exact ⟨e', List.mem_cons_of_mem _ he', ht'⟩

theorem has_tablesData {t : String} : ∀ (us : List (List (String × Node))) (d : Datum),
    d ∈ tablesData us → d.Has t → ∃ u ∈ us, Table.Has t u
  | u :: us, d, hd, ht => by
    rcases List.mem_cons.1 hd with rfl | hd
    · cases ht with
      | dict he ht => exact ⟨u, List.mem_cons_self, has_tableData u _ he ht⟩
    · obtain ⟨w, hw, ht⟩ := has_tablesData us d hd ht
      exact ⟨w, List.mem_cons_of_mem _ hw, ht⟩

end

/-! ### Values and statements -/

/-- There is room for the text between quotes. -/
def HasRoom (cs : List Char) (t : String) : Prop := t.length + 2 ≤ reach cs

theorem HasRoom.of_suffix {cs rest : List Char} {t : String} (h : HasRoom rest t)
    (hrest : rest <:+ cs) : HasRoom cs t :=
  Nat.le_trans h (reach_le_of_suffix hrest)

theorem textless_hasRoom {cs rest : List Char} {r : Option (Datum × List Char)} {d : Datum}
    (hr : Textless cs r) (h : r = some (d, rest)) :
    rest <:+ cs ∧ ∀ t, d.Has t → HasRoom cs t :=
  ⟨(hr d rest h).1, fun t ht => absurd ht ((hr d rest h).2 t)⟩

/-- What the readers of values that are given the number `n` leave and bring in. -/
structure Bounded (n : Nat) : Prop where
  value : ∀ {cs d rest}, value n cs = some (d, rest) → rest <:+ cs ∧ ∀ t, d.Has t → HasRoom cs t
  elements : ∀ {cs ds rest}, elements n cs = some (ds, rest) →
    rest <:+ cs ∧ ∀ d ∈ ds, ∀ t, d.Has t → HasRoom cs t
  members : ∀ {u cs u' rest}, members n u cs = some (u', rest) →
    rest <:+ cs ∧ ∀ t, Table.Has t u' → u.Has t ∨ HasRoom cs t

namespace Bounded

variable {n : Nat} {cs rest : List Char}

theorem value_succ (hn : Bounded n) {d : Datum} (h : Toml.value (n + 1) cs = some (d, rest)) :
    rest <:+ cs ∧ ∀ t, d.Has t → HasRoom cs t := by
  have hquoted : (quotedText cs).map (fun p => (Datum.text p.1, p.2)) = some (d, rest) →
      rest <:+ cs ∧ ∀ t, d.Has t → HasRoom cs t := by
    intro h
    obtain ⟨p, hp, heq⟩ := Option.map_eq_some_iff.1 h
    cases heq
    refine ⟨(quotedText_bound hp).1.trans (List.tail_suffix cs), fun t ht => ?_⟩
    cases ht with
    | text => exact (quotedText_bound hp).2
  rw [Toml.value.eq_def] at h
  dsimp only at h
  split at h
  · rename_i after
    obtain ⟨p, hp, heq⟩ := Option.map_eq_some_iff.1 h
    cases heq
    obtain ⟨hrest, htexts⟩ := hn.elements hp
    refine ⟨hrest.trans (List.suffix_cons _ _), fun t ht => ?_⟩
    cases ht with
    | list hd ht => exact (htexts _ hd t ht).of_suffix (List.suffix_cons _ _)
  · rename_i after
    have hafter := (skipBlanks_suffix after).trans (List.suffix_cons '\x7b' after)
    split at h
    · rename_i after' heq
      rw [heq] at hafter
      cases h
      refine ⟨(List.suffix_cons _ _).trans hafter, fun t ht => ?_⟩
      cases ht with
      | dict he _ => cases he
    · obtain ⟨p, hp, heq⟩ := Option.map_eq_some_iff.1 h
      cases heq
      obtain ⟨hrest, htexts⟩ := hn.members hp
      refine ⟨hrest.trans hafter, fun t ht => ?_⟩
      cases ht with
      | dict he ht =>
        rcases htexts t (has_tableData _ _ he ht) with hnil | hroom
        · exact absurd hnil (not_has_nil t)
        · exact hroom.of_suffix hafter
  · cases h
    exact ⟨⟨['t', 'r', 'u', 'e'], rfl⟩, fun t ht => by cases ht⟩
  · cases h
    exact ⟨⟨['f', 'a', 'l', 's', 'e'], rfl⟩, fun t ht => by cases ht⟩
  · exact hquoted h
  · exact hquoted h
  · exact textless_hasRoom (textless_scalar cs) h

theorem elements_succ (hn : Bounded n) {ds : List Datum}
    (h : Toml.elements (n + 1) cs = some (ds, rest)) :
    rest <:+ cs ∧ ∀ d ∈ ds, ∀ t, d.Has t → HasRoom cs t := by
  rw [Toml.elements] at h
  obtain ⟨after, hspace, h⟩ := Option.bind_eq_some_iff.1 h
  have hafter := skipSpace_suffix hspace
  dsimp only at h
  split at h
  · cases h
    exact ⟨(List.suffix_cons _ _).trans hafter, List.forall_mem_nil _⟩
  · obtain ⟨⟨v, after'⟩, hv, h⟩ := Option.bind_eq_some_iff.1 h
    obtain ⟨hv, htexts⟩ := hn.value hv
    obtain ⟨after'', hspace', h⟩ := Option.bind_eq_some_iff.1 h
    have hafter'' := (skipSpace_suffix hspace').trans (hv.trans hafter)
    have hfirst : ∀ t, v.Has t → HasRoom cs t := fun t ht => (htexts t ht).of_suffix hafter
    dsimp only at h
    split at h
    · cases h
      exact ⟨(List.suffix_cons _ _).trans hafter'', List.forall_mem_singleton.2 hfirst⟩
    · obtain ⟨p, hp, heq⟩ := Option.map_eq_some_iff.1 h
      cases heq
      obtain ⟨hrest, hmore⟩ := hn.elements hp
      have hcomma := (List.suffix_cons _ _).trans hafter''
      exact ⟨hrest.trans hcomma, List.forall_mem_cons.2
        ⟨hfirst, fun d hd t ht => (hmore d hd t ht).of_suffix hcomma⟩⟩
    · cases h

theorem members_succ (hn : Bounded n) {u u' : Table}
    (h : Toml.members (n + 1) u cs = some (u', rest)) :
    rest <:+ cs ∧ ∀ t, Table.Has t u' → u.Has t ∨ HasRoom cs t := by
  rw [Toml.members] at h
  obtain ⟨⟨k, after⟩, hkey, h⟩ := Option.bind_eq_some_iff.1 h
  have hafter := key_suffix hkey
  dsimp only at h
  split at h
  · rename_i after₁
    obtain ⟨⟨v, after₂⟩, hv, h⟩ := Option.bind_eq_some_iff.1 h
    obtain ⟨hv, htexts⟩ := hn.value hv
    have hstart := (skipBlanks_suffix after₁).trans ((List.suffix_cons _ _).trans hafter)
    obtain ⟨w, hw, h⟩ := Option.bind_eq_some_iff.1 h
    have hassigned : ∀ t, Table.Has t w → u.Has t ∨ HasRoom cs t := fun t ht =>
      (adds_assign 0 k.name v k.parents u w hw t ht).imp_right fun ht =>
        (htexts t ht).of_suffix hstart
    have hend := (skipBlanks_suffix after₂).trans (hv.trans hstart)
    dsimp only at h
    split at h
    · rename_i heq
      rw [heq] at hend
      cases h
      exact ⟨(List.suffix_cons _ _).trans hend, hassigned⟩
    · rename_i after₃ heq
      rw [heq] at hend
      have hcomma := (skipBlanks_suffix after₃).trans ((List.suffix_cons _ _).trans hend)
      obtain ⟨hrest, hmore⟩ := hn.members h
      refine ⟨hrest.trans hcomma, fun t ht => ?_⟩
      rcases hmore t ht with ht | hroom
      · exact hassigned t ht
      · exact .inr (hroom.of_suffix hcomma)
    · cases h
  · cases h

end Bounded

theorem bounded (n : Nat) : Bounded n := by
  induction n with
  | zero =>
    refine ⟨fun h => ?_, fun h => ?_, fun h => ?_⟩
    · simp [value] at h
    · simp [elements] at h
    · simp [members] at h
  | succ n ih => exact ⟨ih.value_succ, ih.elements_succ, ih.members_succ⟩

theorem Draft.has_open {d d' : Draft} {k : Key} {f : String → Table → Option Table}
    (hf : Adds (fun _ => False) (f k.name)) (h : d.open_ k f = some d') {t : String}
    (ht : d'.table.Has t) : d.table.Has t := by
  obtain ⟨u, hu, rfl⟩ := Option.map_eq_some_iff.1 h
  exact (adds_within hf k.parents d.table u hu t ht).resolve_right id

theorem Draft.has_assign {d d' : Draft} {k : Key} {v : Datum} (h : d.assign k v = some d')
    {t : String} (ht : d'.table.Has t) : d.table.Has t ∨ v.Has t := by
  obtain ⟨u, hu, rfl⟩ := Option.map_eq_some_iff.1 h
  exact adds_within (adds_assign d.block k.name v k.parents) d.header d.table u hu t ht

theorem Draft.has_statement {d d' : Draft} {cs rest : List Char}
    (h : d.statement cs = some (d', rest)) :
    rest <:+ cs ∧ ∀ t, d'.table.Has t → d.table.Has t ∨ HasRoom cs t := by
  unfold Draft.statement at h
  split at h
  · cases h
    exact ⟨List.suffix_refl _, fun t ht => .inl ht⟩
  · rename_i after
    obtain ⟨⟨k, after'⟩, hkey, h⟩ := Option.bind_eq_some_iff.1 h
    have hafter := (key_suffix hkey).trans ((skipBlanks_suffix after).trans ⟨['[', '['], rfl⟩)
    dsimp only at h
    split at h
    · obtain ⟨d₁, hd₁, heq⟩ := Option.map_eq_some_iff.1 h
      cases heq
      exact ⟨.trans ⟨[']', ']'], rfl⟩ hafter,
        fun t ht => .inl (Draft.has_open (adds_append _ _) hd₁ ht)⟩
    · cases h
  · rename_i after _
    obtain ⟨⟨k, after'⟩, hkey, h⟩ := Option.bind_eq_some_iff.1 h
    have hafter := (key_suffix hkey).trans
      ((skipBlanks_suffix after).trans (List.suffix_cons '[' _))
    dsimp only at h
    split at h
    · obtain ⟨d₁, hd₁, heq⟩ := Option.map_eq_some_iff.1 h
      cases heq
      exact ⟨.trans (List.suffix_cons _ _) hafter,
        fun t ht => .inl (Draft.has_open (adds_declare _ _) hd₁ ht)⟩
    · cases h
  · obtain ⟨⟨k, after⟩, hkey, h⟩ := Option.bind_eq_some_iff.1 h
    have hafter := key_suffix hkey
    dsimp only at h
    split at h
    · rename_i after₁
      obtain ⟨⟨v, after₂⟩, hv, h⟩ := Option.bind_eq_some_iff.1 h
      obtain ⟨d₁, hd₁, heq⟩ := Option.map_eq_some_iff.1 h
      cases heq
      obtain ⟨hv, htexts⟩ := (bounded _).value hv
      have hstart := (skipBlanks_suffix after₁).trans ((List.suffix_cons _ _).trans hafter)
      exact ⟨hv.trans hstart, fun t ht =>
        (Draft.has_assign hd₁ ht).imp_right fun ht => (htexts t ht).of_suffix hstart⟩
    · cases h

theorem has_statements {n : Nat} {d : Draft} {cs : List Char} {u : Table}
    (h : statements n d cs = some u) {t : String} (ht : u.Has t) :
    d.table.Has t ∨ HasRoom cs t := by
  induction n generalizing d cs with
  | zero => simp [statements] at h
  | succ n ih =>
    have hblanks := skipBlanks_suffix cs
    rw [statements] at h
    split at h
    · cases h
      exact .inl ht
    · rename_i after heq
      rw [heq] at hblanks
      exact (ih h).imp_right (·.of_suffix ((List.suffix_cons _ _).trans hblanks))
    · obtain ⟨⟨d₁, after⟩, hd₁, h⟩ := Option.bind_eq_some_iff.1 h
      obtain ⟨hafter, htexts⟩ := Draft.has_statement hd₁
      obtain ⟨after₁, hcomment, h⟩ := Option.bind_eq_some_iff.1 h
      have hrest := (skipComment_suffix hcomment).trans
        ((skipBlanks_suffix after).trans (hafter.trans hblanks))
      have hstep : d₁.table.Has t → d.table.Has t ∨ HasRoom cs t := fun ht =>
        (htexts t ht).imp_right (·.of_suffix hblanks)
      split at h
      · cases h
        exact hstep ht
      · rcases ih h with ht | hroom
        · exact hstep ht
        · exact .inr (hroom.of_suffix ((List.suffix_cons _ _).trans hrest))
      · cases h

/-- A text comes out of a file whose last quotes are those around it only if it is plain. -/
theorem isPlain_of_has {d : Draft} {name s : String} (hname : IsBareName name)
    {cs tail : List Char} (hcs : cs.length ≤ s.length) (htail : reach tail = 0) {n : Nat}
    {u : Table}
    (h : statements n d (name.toList ++ ' ' :: '=' :: ' ' :: '"' :: (cs ++ '"' :: tail)) = some u)
    (hd : ¬ d.table.Has s) (hs : u.Has s) : IsPlain s.toList := by
  have hroom : reach (cs ++ '"' :: tail) ≤ s.length + 1 := by
    have hquote : reach ('"' :: tail) = 1 := by simp [reach, htail]
    have := reach_append_le cs ('"' :: tail)
    omega
  cases n with
  | zero => simp [statements] at h
  | succ n =>
    have hhead : ∀ c ∈ ('"' :: (cs ++ '"' :: tail)).head?, isBlank c = false := by
      rintro c ⟨⟩
      rfl
    obtain ⟨k, hstatement⟩ := statement_assign hname d hhead
    have hstart := hname.startsBare (' ' :: '=' :: ' ' :: '"' :: (cs ++ '"' :: tail))
    rw [statements, hstart.skipBlanks] at h
    split at h
    · rename_i heq
      simp at heq
    · rename_i heq
      exact absurd heq (hstart.ne_cons (by decide) _)
    · obtain ⟨⟨d₁, after⟩, hd₁, h⟩ := Option.bind_eq_some_iff.1 h
      rw [hstatement] at hd₁
      obtain ⟨⟨v, after'⟩, hvalue, hassign⟩ := Option.bind_eq_some_iff.1 hd₁
      obtain ⟨d₂, hassigned, heq⟩ := Option.map_eq_some_iff.1 hassign
      cases heq
      obtain ⟨⟨t, after''⟩, hquoted, heq⟩ := Option.map_eq_some_iff.1 hvalue
      cases heq
      obtain ⟨after₁, hcomment, h⟩ := Option.bind_eq_some_iff.1 h
      have hlater : ∀ rest, rest <:+ after₁ → ¬ HasRoom rest s := by
        intro rest hrest hroom'
        have hsuffix := hrest.trans ((skipComment_suffix hcomment).trans
          ((skipBlanks_suffix _).trans (quotedText_bound hquoted).1))
        have := Nat.le_trans hroom' (reach_le_of_suffix hsuffix)
        simp only [List.tail_cons] at this
        omega
      have hfirst : d₁.table.Has s → IsPlain s.toList := by
        intro hs
        rcases Draft.has_assign hassigned hs with hs | hs
        · exact absurd hs hd
        · cases hs with
          | text => exact (quotedText_tight hquoted hroom).2
      split at h
      · cases h
        exact hfirst hs
      · rcases has_statements h hs with hs | hlate
        · exact hfirst hs
        · exact absurd hlate (hlater _ (List.suffix_cons _ _))
      · cases h

end Toml

end RouteInvariants
