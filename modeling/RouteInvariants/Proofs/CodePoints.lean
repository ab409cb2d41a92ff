import Mathlib.Data.List.Infix
import RouteInvariants.Proofs.FailedEdges
import RouteInvariants.Route.CodePoints

/-!
Texts and their code points. A text without the start of an escape, a backslash before a `u`, is read
character by character (`ofString_eq_flatMap`), and no two such texts have the same code points
(`ofString_injOn`). So the names of nodes differ as texts if none of them has the start of an escape
(`Topology.namesDiffer_of_isPlain`).
-/

namespace RouteInvariants

/-! ### Hexadecimal digits -/

namespace Text

theorem hexDigits_succ (width n : Nat) :
    hexDigits (width + 1) n = hexDigits width (n / 16) ++ [hexDigit (n % 16)] := by
  unfold hexDigits
  rw [List.range_succ, List.map_append, List.map_singleton]
  congr 1
  · refine List.map_congr_left fun i hi => ?_
    have hlt := List.mem_range.1 hi
    have hexponent : width + 1 - 1 - i = (width - 1 - i) + 1 := by omega
    rw [hexponent, Nat.pow_eq, Nat.pow_eq, pow_succ, Nat.mul_comm, Nat.div_div_eq_div_mul]
  · have hexponent : width + 1 - 1 - width = 0 := by omega
    rw [hexponent, Nat.pow_eq, pow_zero, Nat.div_one]

theorem length_hexDigits (width n : Nat) : (hexDigits width n).length = width := by
  rw [hexDigits, List.length_map, List.length_range]

/-- How many digits a number has. -/
def hexWidth (n : Nat) : Nat := if n = 0 then 1 else Nat.log2 n / 4 + 1

theorem toList_hex (n : Nat) : (hex n).toList = hexDigits (hexWidth n) n := String.toList_ofList

theorem one_le_hexWidth (n : Nat) : 1 ≤ hexWidth n := by
  unfold hexWidth
  split <;> omega

theorem lt_pow_hexWidth (n : Nat) : n < 16 ^ hexWidth n := by
  unfold hexWidth
  split
  · rename_i h
    rw [h]
    decide
  · have hlog : n < 2 ^ (n.log2 + 1) := Nat.lt_log2_self
    calc n < 2 ^ (n.log2 + 1) := hlog
      _ ≤ 2 ^ (4 * (n.log2 / 4 + 1)) := Nat.pow_le_pow_right (by decide) (by omega)
      _ = 16 ^ (n.log2 / 4 + 1) := pow_mul 2 4 _

theorem hexWidth_le {n : Nat} (h : n < 0x30000) : hexWidth n ≤ 5 := by
  unfold hexWidth
  split
  · decide
  · rename_i hne
    have hlog : n.log2 < 18 := (Nat.log2_lt hne).2 (by omega)
    omega

end Text

namespace CodePoint

open Text (hexDigit hexDigits hexWidth)

theorem hexValue?_hexDigit : ∀ d < 16, hexValue? (hexDigit d) = some d := by decide

theorem hexDigit_ne_backslash : ∀ d < 16, hexDigit d ≠ '\\' := by decide

/-- A number is read from its digits. -/
theorem hexNumber?_hexDigits (width n : Nat) :
    hexNumber? (hexDigits width n) = some (n % 16 ^ width) := by
  induction width generalizing n with
  | zero =>
    rw [pow_zero, Nat.mod_one]
    rfl
  | succ width ih =>
    have happend (cs : List Char) (c : Char) : hexNumber? (cs ++ [c]) =
        (hexNumber? cs).bind fun n => (hexValue? c).map fun d => 16 * n + d := by
      rw [hexNumber?, List.foldl_append]
      rfl
    rw [Text.hexDigits_succ, happend, ih, hexValue?_hexDigit _ (Nat.mod_lt _ (by decide)),
      pow_succ, Nat.mul_comm (16 ^ width), Nat.mod_mul]
    exact congrArg some (Nat.add_comm _ _)

theorem hexNumber?_hexDigits_hexWidth (n : Nat) :
    hexNumber? (hexDigits (hexWidth n) n) = some n := by
  rw [hexNumber?_hexDigits, Nat.mod_eq_of_lt (Text.lt_pow_hexWidth n)]

theorem exists_of_mem_hexDigits {width n : Nat} {c : Char} (h : c ∈ hexDigits width n) :
    ∃ d < 16, c = hexDigit d := by
  obtain ⟨i, -, rfl⟩ := List.mem_map.1 h
  exact ⟨_, Nat.mod_lt _ (by decide), rfl⟩

theorem isSome_hexValue? {width n : Nat} {c : Char} (h : c ∈ hexDigits width n) :
    (hexValue? c).isSome = true := by
  obtain ⟨d, hd, rfl⟩ := exists_of_mem_hexDigits h
  rw [hexValue?_hexDigit d hd]
  rfl

/-! ### Escapes -/

theorem escaped_eq (n : Nat) :
    escaped n = '\\' :: 'u' :: '\x7b' :: (hexDigits (hexWidth n) n ++ ['\x7d']) := by
  rw [escaped, Text.toList_hex]
  rfl

/-- Only a backslash before a `u` starts an escape. -/
theorem escape?_eq_none {c : Char} {rest : List Char} (h : c = '\\' → rest.head? ≠ some 'u') :
    escape? (c :: rest) = none := by
  unfold escape?
  split
  · rename_i heq
    obtain ⟨rfl, rfl⟩ := List.cons.inj heq
    exact absurd rfl (h rfl)
  · rename_i heq
    obtain ⟨rfl, rfl⟩ := List.cons.inj heq
    exact absurd rfl (h rfl)
  · rfl

/-- The escape of a number that is a code point is one. -/
theorem escape?_escaped (n : Nat) (rest : List Char) : escape? (escaped n ++ rest) =
    if n < 0x30000 then some (n, (escaped n).length) else none := by
  have hdigits : (hexDigits (hexWidth n) n ++ '\x7d' :: rest).takeWhile
      (fun c => (hexValue? c).isSome) = hexDigits (hexWidth n) n := by
    rw [List.takeWhile_append_of_pos fun c hc => isSome_hexValue? hc,
      List.takeWhile_cons_of_neg (by decide), List.append_nil]
  have happend : escaped n ++ rest =
      '\\' :: 'u' :: '\x7b' :: (hexDigits (hexWidth n) n ++ '\x7d' :: rest) := by
    rw [escaped_eq, List.cons_append, List.cons_append, List.cons_append, List.append_assoc]
    rfl
  have hlength : (escaped n).length = hexWidth n + 4 := by
    rw [escaped_eq]
    simp only [List.length_cons, List.length_append, Text.length_hexDigits, List.length_nil]
  have hclose : (hexDigits (hexWidth n) n ++ '\x7d' :: rest)[hexWidth n]? = some '\x7d' := by
    rw [List.getElem?_append_right (Text.length_hexDigits _ _).le, Text.length_hexDigits,
      Nat.sub_self]
    rfl
  rw [happend, escape?]
  simp only [hdigits, Text.length_hexDigits, hclose, hexNumber?_hexDigits_hexWidth, hlength,
    Text.one_le_hexWidth, decide_true, Bool.true_and, beq_self_eq_true, Bool.and_true]
  by_cases hn : n < 0x30000
  · simp only [Text.hexWidth_le hn, hn, decide_true, if_true]
  · simp only [hn, if_false, ite_self]

/-! ### Reading -/

theorem decode_of_length (cs rest : List Char) : decode cs.length (cs ++ rest) = decode 0 rest := by
  induction cs with
  | nil => rfl
  | cons c cs ih => exact ih

theorem decode_cons {c : Char} {rest : List Char} (h : escape? (c :: rest) = none) :
    decode 0 (c :: rest) = ofNat c.toNat :: decode 0 rest := by
  rw [decode, h]

/-- Characters that start no escape are read as they are. -/
theorem decode_append {cs : List Char} (h : ∀ c ∈ cs, c ≠ '\\') (rest : List Char) :
    decode 0 (cs ++ rest) = cs.map (fun c => ofNat c.toNat) ++ decode 0 rest := by
  induction cs with
  | nil => rfl
  | cons c cs ih =>
    rw [List.forall_mem_cons] at h
    rw [List.cons_append, decode_cons (escape?_eq_none fun hc => absurd hc h.1), ih h.2]
    rfl

/-- The escape of a code point is read as the code point. -/
theorem decode_escaped {n : Nat} (h : n < 0x30000) (rest : List Char) :
    decode 0 (escaped n ++ rest) = ofNat n :: decode 0 rest := by
  have hescape := (escape?_escaped n rest).trans (if_pos h)
  rw [escaped_eq, List.cons_append] at hescape ⊢
  rw [decode, hescape]
  exact congrArg (ofNat n :: ·) (decode_of_length _ rest)

/-- How a character is written. -/
def written (c : Char) : List Char :=
  if 32 ≤ c.toNat && c.toNat < 127 then [c] else escaped c.toNat

/-- What a character is read as: a code point, or the text of an escape if it is beyond the range. -/
def piece (c : Char) : List CodePoint :=
  if c.toNat < 0x30000 then [ofNat c.toNat] else (escaped c.toNat).map fun c => ofNat c.toNat

theorem ne_backslash_of_mem_escaped (n : Nat) :
    ∀ c ∈ 'u' :: '\x7b' :: (hexDigits (hexWidth n) n ++ ['\x7d']), c ≠ '\\' := by
  simp only [List.forall_mem_cons, List.forall_mem_append]
  refine ⟨by decide, by decide, fun c hc => ?_, by decide, fun _ hc => (nomatch hc)⟩
  obtain ⟨d, hd, rfl⟩ := exists_of_mem_hexDigits hc
  exact hexDigit_ne_backslash d hd

theorem decode_written {c : Char} {rest : List Char} (h : c = '\\' → rest.head? ≠ some 'u') :
    decode 0 (written c ++ rest) = piece c ++ decode 0 rest := by
  unfold written
  split
  · rename_i hprintable
    have hc : c.toNat < 0x30000 := by
      simp only [Bool.and_eq_true, decide_eq_true_eq] at hprintable
      omega
    rw [List.singleton_append, decode_cons (escape?_eq_none h), piece, if_pos hc]
    rfl
  · by_cases hc : c.toNat < 0x30000
    · rw [decode_escaped hc, piece, if_pos hc]
      rfl
    · have hescape := (escape?_escaped c.toNat rest).trans (if_neg hc)
      rw [piece, if_neg hc]
      rw [escaped_eq, List.cons_append] at hescape ⊢
      rw [decode_cons hescape, decode_append (ne_backslash_of_mem_escaped c.toNat)]
      rfl

/-! ### Texts without escapes -/

/-- No backslash stands before a `u`. -/
def IsPlain (cs : List Char) : Prop := ¬ ['\\', 'u'] <:+: cs

instance (cs : List Char) : Decidable (IsPlain cs) := inferInstanceAs (Decidable (¬ _))

theorem IsPlain.tail {c : Char} {cs : List Char} (h : IsPlain (c :: cs)) : IsPlain cs :=
  fun hinfix => h (List.infix_cons hinfix)

theorem IsPlain.head {c : Char} {cs : List Char} (h : IsPlain (c :: cs)) (hc : c = '\\') :
    cs.head? ≠ some 'u' := by
  intro hhead
  obtain ⟨rest, rfl⟩ := List.head?_eq_some_iff.1 hhead
  exact h ⟨[], rest, by rw [hc]; rfl⟩

theorem head?_flatMap_written {cs : List Char} (h : (cs.flatMap written).head? = some 'u') :
    cs.head? = some 'u' := by
  cases cs with
  | nil => cases h
  | cons c cs =>
    rw [List.flatMap_cons, written] at h
    split at h
    · exact h
    · rw [escaped_eq] at h
      cases h

/-- A plain text is read character by character. -/
theorem ofString_eq_flatMap {s : String} (h : IsPlain s.toList) :
    ofString s = s.toList.flatMap piece := by
  have hdecode (cs : List Char) (h : IsPlain cs) :
      decode 0 (cs.flatMap written) = cs.flatMap piece := by
    induction cs with
    | nil => rfl
    | cons c cs ih =>
      rw [List.flatMap_cons, List.flatMap_cons,
        decode_written fun hc hhead => h.head hc (head?_flatMap_written hhead), ih h.tail]
  exact hdecode s.toList h

/-! ### Different texts -/

theorem ofNat_inj {m n : Nat} (hm : m < 0x30000) (hn : n < 0x30000) (h : ofNat m = ofNat n) :
    m = n := by
  have hval := congrArg Fin.val h
  rwa [ofNat, ofNat, Fin.val_ofNat, Fin.val_ofNat, Nat.mod_eq_of_lt hm, Nat.mod_eq_of_lt hn] at hval

theorem head?_flatMap_piece {cs : List Char} (h : (cs.flatMap piece).head? = some (ofNat 117)) :
    cs.head? = some 'u' := by
  cases cs with
  | nil => cases h
  | cons c cs =>
    rw [List.flatMap_cons, piece] at h
    split at h
    · rename_i hc
      have hc := ofNat_inj hc (by decide) (Option.some.inj h)
      exact congrArg some (Char.toNat_inj.1 hc)
    · rw [escaped_eq] at h
      exact absurd (Option.some.inj h) (by decide)

/-- The text of an escape is not the start of a plain text in which it does not stand. -/
theorem piece_append_ne {c d : Char} {cs : List Char} {ds : List CodePoint}
    (hplain : IsPlain (c :: cs)) (hc : c.toNat < 0x30000) (hd : ¬ d.toNat < 0x30000) :
    piece c ++ cs.flatMap piece ≠ piece d ++ ds := by
  intro h
  rw [piece, piece, if_pos hc, if_neg hd, escaped_eq] at h
  obtain ⟨hhead, htail⟩ := List.cons.inj h
  have hc : c = '\\' := Char.toNat_inj.1 (ofNat_inj hc (by decide) hhead)
  refine hplain.head hc (head?_flatMap_piece ?_)
  exact congrArg List.head? htail

/-- The digits of a number, as code points, are not the end of an escape. -/
theorem ofNat_ne_of_mem_hexDigits {width n : Nat} {k : CodePoint}
    (hk : k ∈ (hexDigits width n).map fun c => ofNat c.toNat) : (k != ofNat 125) = true := by
  obtain ⟨c, hc, rfl⟩ := List.mem_map.1 hk
  obtain ⟨d, hd, rfl⟩ := exists_of_mem_hexDigits hc
  have hdigits : ∀ d < 16, (ofNat (hexDigit d).toNat != ofNat 125) = true := by decide
  exact hdigits d hd

/-- Numbers are told apart by the code points of their digits. -/
theorem map_hexDigits_inj {m n : Nat}
    (h : (hexDigits (hexWidth m) m).map (fun c => ofNat c.toNat) =
      (hexDigits (hexWidth n) n).map fun c => ofNat c.toNat) : m = n := by
  have hread (n : Nat) : ((hexDigits (hexWidth n) n).map fun c => ofNat c.toNat).map
      (fun k => Char.ofNat k.val) = hexDigits (hexWidth n) n := by
    rw [List.map_map]
    refine (List.map_congr_left fun c hc => ?_).trans (List.map_id _)
    obtain ⟨d, hd, rfl⟩ := exists_of_mem_hexDigits hc
    have hdigits : ∀ d < 16, Char.ofNat (ofNat (hexDigit d).toNat).val = hexDigit d := by decide
    exact hdigits d hd
  have hdigits := congrArg (List.map fun k : CodePoint => Char.ofNat k.val) h
  rw [hread, hread] at hdigits
  have hnumber := congrArg hexNumber? hdigits
  rw [hexNumber?_hexDigits_hexWidth, hexNumber?_hexDigits_hexWidth] at hnumber
  exact Option.some.inj hnumber

/-- Characters beyond the range are told apart by the digits up to the end of the escape. -/
theorem piece_append_inj {c d : Char} {cs ds : List CodePoint} (hc : ¬ c.toNat < 0x30000)
    (hd : ¬ d.toNat < 0x30000) (h : piece c ++ cs = piece d ++ ds) : c = d ∧ cs = ds := by
  have hpiece (c : Char) (hc : ¬ c.toNat < 0x30000) (cs : List CodePoint) : piece c ++ cs =
      ofNat 92 :: ofNat 117 :: ofNat 123 :: ((hexDigits (hexWidth c.toNat) c.toNat).map
        (fun c => ofNat c.toNat) ++ ofNat 125 :: cs) := by
    rw [piece, if_neg hc, escaped_eq]
    simp only [List.map_cons, List.map_append, List.map_nil, List.cons_append, List.append_assoc,
      List.nil_append]
    rfl
  rw [hpiece c hc, hpiece d hd] at h
  have h := (List.cons.inj (List.cons.inj (List.cons.inj h).2).2).2
  have hdigits := congrArg (List.takeWhile (· != ofNat 125)) h
  have hrest := congrArg (List.dropWhile (· != ofNat 125)) h
  rw [List.takeWhile_append_of_pos fun k hk => ofNat_ne_of_mem_hexDigits hk,
    List.takeWhile_append_of_pos fun k hk => ofNat_ne_of_mem_hexDigits hk,
    List.takeWhile_cons_of_neg (by decide), List.takeWhile_cons_of_neg (by decide),
    List.append_nil, List.append_nil] at hdigits
  rw [List.dropWhile_append_of_pos fun k hk => ofNat_ne_of_mem_hexDigits hk,
    List.dropWhile_append_of_pos fun k hk => ofNat_ne_of_mem_hexDigits hk,
    List.dropWhile_cons_of_neg (by decide), List.dropWhile_cons_of_neg (by decide)] at hrest
  exact ⟨Char.toNat_inj.1 (map_hexDigits_inj hdigits), (List.cons.inj hrest).2⟩

theorem flatMap_piece_inj {cs ds : List Char} (hcs : IsPlain cs) (hds : IsPlain ds)
    (h : cs.flatMap piece = ds.flatMap piece) : cs = ds := by
  have hne (c : Char) (rest : List CodePoint) : piece c ++ rest ≠ [] := by
    intro hnil
    have hnil := (List.append_eq_nil_iff.1 hnil).1
    rw [piece, escaped_eq] at hnil
    split at hnil <;> cases hnil
  induction cs generalizing ds with
  | nil =>
    cases ds with
    | nil => rfl
    | cons d ds => exact absurd h.symm (hne d _)
  | cons c cs ih =>
    cases ds with
    | nil => exact absurd h (hne c _)
    | cons d ds =>
      rw [List.flatMap_cons, List.flatMap_cons] at h
      by_cases hc : c.toNat < 0x30000
      · by_cases hd : d.toNat < 0x30000
        · rw [piece, piece, if_pos hc, if_pos hd] at h
          obtain ⟨hhead, htail⟩ := List.cons.inj h
          rw [Char.toNat_inj.1 (ofNat_inj hc hd hhead), ih hcs.tail hds.tail htail]
        · exact absurd h (piece_append_ne hcs hc hd)
      · by_cases hd : d.toNat < 0x30000
        · exact absurd h.symm (piece_append_ne hds hd hc)
        · obtain ⟨rfl, htail⟩ := piece_append_inj hc hd h
          rw [ih hcs.tail hds.tail htail]

/-- Different plain texts have different code points. -/
theorem ofString_injOn : Set.InjOn ofString { s | IsPlain s.toList } := by
  intro s hs s' hs' h
  rw [ofString_eq_flatMap hs, ofString_eq_flatMap hs'] at h
  exact String.toList_inj.1 (flatMap_piece_inj hs hs' h)

end CodePoint

/-- Names without the start of an escape differ as texts. -/
theorem Topology.namesDiffer_of_isPlain {t : Topology}
    (h : ∀ n ∈ t.nodes, CodePoint.IsPlain n.toList) : t.NamesDiffer :=
  fun m hm n hn heq => CodePoint.ofString_injOn (h m hm) (h n hn) (Value.text.inj heq)

end RouteInvariants
