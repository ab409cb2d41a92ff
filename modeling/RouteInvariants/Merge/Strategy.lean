import RouteInvariants.Failure
import RouteInvariants.Route.Term

/-!
Sample values of a sort. A strategy says which values may be drawn: any of a basic sort, or one of
several constructors with drawn fields. Directly recursive constructors are used up to a depth.
-/

namespace RouteInvariants

/-! ### Fields of a sort -/

theorem Fields.eq_or_sizeOf_lt (owner : Ty) : ∀ (fs : Fields), ∀ f ∈ fs.toList owner,
    f.2 = owner ∨ sizeOf f.2 < sizeOf fs
  | .nil, _, hf => nomatch hf
  | .self _ rest, f, hf => by
    rcases List.mem_cons.1 hf with rfl | hf
    · exact .inl rfl
    · exact (eq_or_sizeOf_lt owner rest f hf).imp id fun h => by simp; omega
  | .field _ t rest, f, hf => by
    rcases List.mem_cons.1 hf with rfl | hf
    · exact .inr (by simp; omega)
    · exact (eq_or_sizeOf_lt owner rest f hf).imp id fun h => by simp; omega

theorem Ctors.eq_or_sizeOf_lt (owner : Ty) : ∀ (cs : Ctors), ∀ c ∈ cs.toList owner, ∀ f ∈ c.fields,
    f.2 = owner ∨ sizeOf f.2 < sizeOf cs
  | .nil, _, hc, _, _ => nomatch hc
  | .cons _ fields rest, c, hc, f, hf => by
    rcases List.mem_cons.1 hc with rfl | hc
    · exact (fields.eq_or_sizeOf_lt owner f hf).imp id fun h => by simp; omega
    · exact (eq_or_sizeOf_lt owner rest c hc f hf).imp id fun h => by simp; omega

/-- A field is of the sort itself or of a smaller one. -/
theorem Ty.eq_or_sizeOf_lt {t : Ty} {c : Ctor} (hc : c ∈ t.ctors) {f : String × Ty}
    (hf : f ∈ c.fields) : f.2 = t ∨ sizeOf f.2 < sizeOf t := by
  cases t with
  | data name cs => exact (cs.eq_or_sizeOf_lt _ c hc f hf).imp id fun h => by simp; omega
  | _ => nomatch hc

/-- Whether a constructor has a field of the sort that it builds. -/
def Ctor.isRecursive (owner : Ty) (c : Ctor) : Bool := c.fields.any fun f => f.2 = owner

/-! ### Strategies -/

inductive Strategy where
  | bools
  | ints
  | words (width : Nat)
  | texts
  | oneOf (options : List (Nat × List Strategy))
deriving Inhabited

namespace Strategy

/-- The constructors from which values are drawn, with their indices: the directly recursive ones only
above depth zero. -/
def drawnCtors (depth : Int) (t : Ty) : List (Ctor × Nat) :=
  t.ctors.zipIdx.filter fun p => 0 < depth || !p.1.isRecursive t

theorem mem_drawnCtors {depth : Int} {t : Ty} {p : Ctor × Nat} : p ∈ drawnCtors depth t ↔
    t.ctor? p.2 = some p.1 ∧ (p.1.isRecursive t = true → 0 < depth) := by
  rw [drawnCtors, List.mem_filter, Bool.or_eq_true, decide_eq_true_eq, Ty.ctor?,
    List.mem_zipIdx_iff_getElem?]
  cases p.1.isRecursive t <;> simp

/-- From a sort to that of a field the depth or the size goes down: where the field is of the sort
itself, there is depth to go down. -/
theorem descends {depth : Int} {t : Ty} {p : Ctor × Nat} (hp : p ∈ drawnCtors depth t)
    {f : String × Ty} (hf : f ∈ p.1.fields) :
    (depth - 1).toNat + sizeOf f.2 < depth.toNat + sizeOf t := by
  obtain ⟨hmem, hdepth⟩ := mem_drawnCtors.1 hp
  rcases Ty.eq_or_sizeOf_lt (List.mem_of_getElem? hmem) hf with hself | hlt
  · have hrec : p.1.isRecursive t = true :=
      List.any_eq_true.2 ⟨f, hf, decide_eq_true hself⟩
    have hpos := hdepth hrec
    rw [hself]
    omega
  · omega

/-- The strategy of a sort. Each constructor takes one from the depth. -/
def ofTy (depth : Int) : Ty → Except SampleError Strategy
  | .bool => .ok bools
  | .int => .ok ints
  | .bits w => .ok (words w)
  | .text => .ok texts
  | .data name cs => do
    let options ← (drawnCtors depth (.data name cs)).attach.mapM fun ⟨p, _⟩ => do
      .ok (p.2, ← p.1.fields.attach.mapM fun ⟨f, _⟩ => ofTy (depth - 1) f.2)
    if options.isEmpty then .error (.infinite (.data name cs)) else .ok (oneOf options)
  | t => .error (.unsupported t)
termination_by t => depth.toNat + sizeOf t
decreasing_by exact descends ‹_› ‹_›

theorem ofTy_data (depth : Int) (name : String) (cs : Ctors) : ofTy depth (.data name cs) = (do
    let options ← (drawnCtors depth (.data name cs)).mapM fun p => do
      .ok (p.2, ← p.1.fields.mapM fun f => ofTy (depth - 1) f.2)
    if options.isEmpty then .error (.infinite (.data name cs)) else .ok (oneOf options)) := by
  rw [ofTy, List.mapM_subtype (g := fun p => do
    .ok (p.2, ← p.1.fields.mapM fun f => ofTy (depth - 1) f.2)), List.unattach_attach]
  intro p _
  dsimp only
  rw [List.mapM_subtype (g := fun f => ofTy (depth - 1) f.2) fun _ _ => rfl, List.unattach_attach]

/-! ### Small values -/

/-- How many values are drawn for one constructor. -/
def sampleLimit : Nat := 12

def applyEach (heads values : List Value) : List Value :=
  heads.flatMap fun f => values.map fun v => .app f v

mutual

/-- Some small values of a strategy. -/
def samples : Strategy → List Value
  | bools => [.bool false, .bool true]
  | ints => [0, 1, -1, 2, -2, 3].map Value.int
  | words w =>
    if w ≤ 3 then (List.range (Nat.pow 2 w)).map fun n => .bits w (BitVec.ofNat w n)
    else [0, 1, 2, Nat.pow 2 (w - 1), Nat.pow 2 w - 1].map fun n => .bits w (BitVec.ofNat w n)
  | texts => ["", "a", "b", "ab", "ba"].map Value.ofString
  | oneOf options => optionSamples options

def optionSamples : List (Nat × List Strategy) → List Value
  | [] => []
  | (i, fields) :: rest => (fieldSamples [.con i] fields).take sampleLimit ++ optionSamples rest

def fieldSamples (heads : List Value) : List Strategy → List Value
  | [] => heads
  | s :: rest => fieldSamples (applyEach heads (samples s)) rest

end

/-! ### All values -/

/-- Integers are drawn from the range between two bounds. -/
def intBounds : Int × Int := (-100, 100)

/-- Texts are drawn from some letters, up to a length. -/
def textLetters : List CodePoint := CodePoint.ofString "abcdefgh"

def textLimit : Nat := 8

mutual

/-- That a term of sort `t` is a value that may be drawn, where terms can say so: they cannot say of
which characters a text is. -/
def drawn? (t : Ty) (x : Term) : Strategy → Option Term
  | bools => some .tt
  | ints => some (.and (.le (.int intBounds.1) x) (.le x (.int intBounds.2)))
  | words _ => some .tt
  | texts => none
  | oneOf options => (optionsDrawn? t x options).map Term.disj

def optionsDrawn? (t : Ty) (x : Term) : List (Nat × List Strategy) → Option (List Term)
  | [] => some []
  | (i, fields) :: rest => do
    let here ← fieldsDrawn? t i x 0 fields
    let others ← optionsDrawn? t x rest
    some (.conj (.isCon i x :: here) :: others)

def fieldsDrawn? (t : Ty) (i : Nat) (x : Term) (j : Nat) : List Strategy → Option (List Term)
  | [] => some []
  | s :: rest => do
    let ty := ((t.field? i j).map Prod.snd).getD default
    let here ← drawn? ty (.field t i j x) s
    let others ← fieldsDrawn? t i x (j + 1) rest
    some (here :: others)

end

end Strategy

end RouteInvariants
