import RouteInvariants.Proofs.CodePoints
import RouteInvariants.Proofs.Values
import RouteInvariants.Route.Elaborate

/-!
Reported scalars as constants. Texts are written with escapes (`CodePoint.toText`) and read with
escapes (`CodePoint.ofString`), and the two have different rules for what is escaped. Still a written
text is read as the text that was written (`ofString_toText`): the only backslash before a `u` in it
is that of an escape. So the datum of a scalar, lifted at the sort of the scalar, is the scalar again
(`lift_toDatum`).
-/

namespace RouteInvariants

namespace CodePoint

/-! ### Writing -/

/-- The code points that are not written as they are. -/
def IsEscaped (c : CodePoint) (rest : List CodePoint) : Prop :=
  c.val = 0 ∨ 255 < c.val ∨ c.val = 92 ∧ rest.head? = some (ofNat 117)

instance (c : CodePoint) (rest : List CodePoint) : Decidable (IsEscaped c rest) :=
  inferInstanceAs (Decidable (_ ∨ _))

theorem encode_cons (c : CodePoint) (cs : List CodePoint) : encode (c :: cs) =
    if IsEscaped c cs then escaped c.val ++ encode cs else Char.ofNat c.val :: encode cs := by
  have hhead : (cs.head?.any fun d => decide (d.val = 117)) = true ↔ cs.head? = some (ofNat 117) := by
    cases cs with
    | nil => simp
    | cons d ds =>
      rw [List.head?_cons, Option.any_some, decide_eq_true_eq, Option.some_inj, Fin.ext_iff]
      rfl
  rw [encode]
  refine if_congr ?_ rfl rfl
  rw [IsEscaped, Bool.or_eq_true, Bool.or_eq_true, Bool.and_eq_true, hhead, decide_eq_true_eq,
    decide_eq_true_eq, decide_eq_true_eq, or_assoc]

theorem toNat_ofNat_val {c : CodePoint} (h : c.val ≤ 255) : (Char.ofNat c.val).toNat = c.val := by
  rw [Char.ofNat, dif_pos (.inl (by omega))]
  rfl

/-- A written text starts with a `u` only if the text does. -/
theorem head?_of_head?_encode {cs : List CodePoint} (h : (encode cs).head? = some 'u') :
    cs.head? = some (ofNat 117) := by
  cases cs with
  | nil => cases h
  | cons c cs =>
    rw [encode_cons] at h
    split at h
    · rw [escaped_eq] at h
      cases h
    · rename_i hplain
      have hc : c.val ≤ 255 := by
        by_contra hlarge
        exact hplain (.inr (.inl (by omega)))
      have hu := congrArg Char.toNat (Option.some.inj h)
      rw [toNat_ofNat_val hc] at hu
      exact congrArg some (Fin.ext hu)

/-- The text of an escape has no characters that are escaped in turn. -/
theorem flatMap_written_escaped (n : Nat) : (escaped n).flatMap written = escaped n := by
  have hprintable : ∀ c ∈ escaped n, written c = [c] := by
    rw [escaped_eq]
    simp only [List.forall_mem_cons, List.forall_mem_append]
    refine ⟨by decide, by decide, by decide, fun c hc => ?_, by decide,
      fun c hc => absurd hc List.not_mem_nil⟩
    obtain ⟨d, hd, rfl⟩ := exists_of_mem_hexDigits hc
    have hdigits : ∀ d < 16, written (Text.hexDigit d) = [Text.hexDigit d] := by decide
    exact hdigits d hd
  rw [List.flatMap_congr hprintable, List.flatMap_singleton']

/-! ### Reading what was written -/

theorem ofNat_val (c : CodePoint) : ofNat c.val = c :=
  Fin.ext (Nat.mod_eq_of_lt c.isLt)

theorem decode_encode (cs : List CodePoint) : decode 0 ((encode cs).flatMap written) = cs := by
  induction cs with
  | nil => rfl
  | cons c cs ih =>
    rw [encode_cons]
    split
    · rw [List.flatMap_append, flatMap_written_escaped, decode_escaped c.isLt, ih, ofNat_val]
    · rename_i hplain
      simp only [IsEscaped, not_or, not_and, not_lt] at hplain
      obtain ⟨-, hsmall, hbackslash⟩ := hplain
      have hnat := toNat_ofNat_val hsmall
      -- a backslash is written as it is only where no `u` follows, in the text as in what is written
      have hstart : Char.ofNat c.val = '\\' → ((encode cs).flatMap written).head? ≠ some 'u' := by
        intro hc hhead
        rw [hc] at hnat
        exact hbackslash hnat.symm (head?_of_head?_encode (head?_flatMap_written hhead))
      rw [List.flatMap_cons, decode_written hstart, ih, piece, hnat, if_pos c.isLt, ofNat_val]
      rfl

/-- A written text is read as the text that was written. -/
theorem ofString_toText (cs : List CodePoint) : ofString (toText cs) = cs := by
  have hread := decode_encode cs
  rw [ofString, toText, String.toList_ofList]
  exact hread

theorem toText_injective : Function.Injective toText :=
  Function.LeftInverse.injective ofString_toText

end CodePoint

/-! ### Scalars -/

/-- The sorts whose values are reported as data that can be lifted. -/
def Ty.isScalar : Ty → Bool
  | .bool | .int | .bits _ | .text => true
  | _ => false

namespace Value

theorem bitsOfInt_toNat {w : Nat} (b : BitVec w) : bitsOfInt w b.toNat = bits w b := by
  rw [bitsOfInt, BitVec.ofInt_natCast, BitVec.ofNat_toNat, BitVec.setWidth_eq]

/-- The datum of a scalar, lifted at the sort of the scalar, is a constant of that sort, and its value
is the scalar, whatever the variables and arguments are. -/
theorem lift_toDatum {t : Ty} {v : Value} (ht : t.isScalar = true) (hv : v.fits t = true) :
    ∃ e, (v.toDatum t).lift (Option.some t) = .ok e ∧ e.ty = t ∧
      ∀ σ args, e.term.eval σ args = v := by
  have hshape := shape_of_fits hv
  cases t with
  | bool =>
    obtain ⟨b, rfl⟩ := hshape
    exact ⟨_, rfl, rfl, fun _ _ => rfl⟩
  | int =>
    obtain ⟨n, rfl⟩ := hshape
    exact ⟨_, rfl, rfl, fun _ _ => rfl⟩
  | bits w =>
    obtain ⟨b, rfl⟩ := hshape
    exact ⟨_, rfl, rfl, fun _ _ => bitsOfInt_toNat b⟩
  | text =>
    obtain ⟨cs, rfl⟩ := hshape
    exact ⟨_, rfl, rfl, fun _ _ => congrArg text (CodePoint.ofString_toText cs)⟩
  | _ => cases ht

/-- A backslash, a `u` and braces around digits, which are no escape, and an escaped code point after
a backslash. -/
theorem lift_toDatum_backslashes :
    let v : Value := .text [92, 117, 123, 52, 49, 125, 92, 0x101, 92, 92, 117, 0]
    v.toDatum .text = .text "\\u\x7b5c\x7du\x7b41\x7d\\\\u\x7b101\x7d\\\\u\x7b5c\x7du\\u\x7b0\x7d" ∧
      ∃ e, (v.toDatum .text).lift (Option.some .text) = .ok e ∧ e.ty = .text ∧
        ∀ σ args, e.term.eval σ args = v :=
  ⟨by rw [toDatum, Datum.text.injEq]; decide +kernel, lift_toDatum rfl rfl⟩

end Value

end RouteInvariants
