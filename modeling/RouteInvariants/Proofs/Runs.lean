import RouteInvariants.Proofs.Results
import RouteInvariants.Verify.Obligation

/-!
What runs in a session come to. Of a session only the number of queries asked so far matters to a
run's result; the journal and the clock do not. `r.Gives f` says that the run `r` has the result
`(f k).1` after `k` earlier queries, and that `(f k).2` queries have been asked by then. Each way to
build a run has a rule.
-/

namespace RouteInvariants

namespace Run

variable {ε α β : Type}

def exec (r : Run ε α) (s : Session) : Except ε α × Session := r.run.run s

/-- The result of a run, and the number of queries asked by then. -/
def outcome (r : Run ε α) (s : Session) : Except ε α × Nat := ((r.exec s).1, (r.exec s).2.asked)

def Gives (r : Run ε α) (f : Nat → Except ε α × Nat) : Prop := ∀ s, r.outcome s = f s.asked

/-- The outcome of a sequence, from the outcomes of its parts. -/
def followedBy (f : Nat → Except ε α × Nat) (h : α → Nat → Except ε β × Nat) (k : Nat) :
    Except ε β × Nat :=
  match f k with
  | (.ok a, k') => h a k'
  | (.error e, k') => (.error e, k')

theorem exec_bind (r : Run ε α) (g : α → Run ε β) (s : Session) :
    (r >>= g).exec s = match r.exec s with
      | (.ok a, s') => (g a).exec s'
      | (.error e, s') => (.error e, s') := by
  unfold exec
  rw [ExceptT.run_bind, StateT.run_bind]
  generalize r.run.run s = p
  obtain ⟨x, s'⟩ := (p : Except ε α × Session)
  cases x <;> rfl

theorem exec_get_bind (g : Session → Run ε β) (s : Session) :
    (get >>= g : Run ε β).exec s = (g s).exec s := rfl

theorem exec_set_bind (s' : Session) (g : PUnit → Run ε β) (s : Session) :
    (set s' >>= g : Run ε β).exec s = (g ⟨⟩).exec s' := rfl

theorem gives_pure (a : α) : (pure a : Run ε α).Gives fun k => (.ok a, k) := fun _ => rfl

theorem gives_throw (e : ε) : (throw e : Run ε α).Gives fun k => (.error e, k) := fun _ => rfl

theorem gives_bind {r : Run ε α} {g : α → Run ε β} {f : Nat → Except ε α × Nat}
    {h : α → Nat → Except ε β × Nat} (hr : r.Gives f) (hg : ∀ a, (g a).Gives (h a)) :
    (r >>= g).Gives (followedBy f h) := by
  intro s
  unfold followedBy
  rw [← hr s, outcome, outcome, exec_bind]
  generalize r.exec s = p
  obtain ⟨x, s'⟩ := p
  cases x with
  | error e => rfl
  | ok a => exact hg a s'

theorem gives_journal (f : Journal → Journal) :
    (Run.journal f : Run ε Unit).Gives fun k => (.ok (), k) := fun _ => rfl

theorem gives_verbose (message category : String) :
    (Run.verbose message category : Run ε Unit).Gives fun k => (.ok (), k) := fun _ => rfl

theorem exec_liftM (body : Run ε α) (s : Session) :
    (liftM (m := StateM Session) body.run : Run ε (Except ε α)).exec s =
      (.ok (body.exec s).1, (body.exec s).2) := rfl

theorem exec_readClock (s : Session) : (readClock : Run ε Nat).exec s =
    (.ok (s.readings + 1), { s with readings := s.readings + 1 }) := rfl

/-- Timing a run changes nothing about it. -/
theorem gives_timed (name category : String) {body : Run ε α} {f : Nat → Except ε α × Nat}
    (hb : body.Gives f) : (Run.timed name category body).Gives f := by
  intro s
  have h := hb { s with readings := s.readings + 1 }
  rw [← h]
  unfold outcome timed
  simp only [exec_bind, exec_readClock, exec_liftM]
  generalize body.exec { s with readings := s.readings + 1 } = p
  obtain ⟨x, s'⟩ := p
  cases x <;> rfl

/-! ### Runs that return -/

/-- The run has the result in every session. -/
def Returns (r : Run ε α) (a : α) : Prop := ∀ s, (r.outcome s).1 = .ok a

theorem Gives.returns {r : Run ε α} {f : Nat → Except ε α × Nat} {a : α} (h : r.Gives f)
    (hf : ∀ k, (f k).1 = .ok a) : r.Returns a := fun s => by
  rw [h s, hf]

theorem returns_pure (a : α) : (pure a : Run ε α).Returns a := fun _ => rfl

theorem returns_bind {r : Run ε α} {g : α → Run ε β} {a : α} {b : β} (hr : r.Returns a)
    (hg : (g a).Returns b) : (r >>= g).Returns b := by
  intro s
  have hs : (r.exec s).1 = .ok a := hr s
  rw [outcome, exec_bind]
  generalize r.exec s = p at hs
  obtain ⟨x, s'⟩ := p
  cases hs
  exact hg s'

theorem returns_forM {f : α → Run ε Unit} {as : List α} (h : ∀ a ∈ as, (f a).Returns ()) :
    (as.forM f).Returns () := by
  induction as with
  | nil => exact returns_pure ()
  | cons a as ih =>
    rw [List.forall_mem_cons] at h
    exact returns_bind h.1 (ih h.2)

end Run

namespace Obligation

open Run

theorem gives_fetch {α : Type} (r : Except Failure α) : (fetch r).Gives fun k => (r, k) := by
  cases r with
  | ok a => exact gives_pure a
  | error e => exact gives_throw e

theorem gives_attempt {α : Type} {task : Run Failure α} {f : Nat → Except Failure α × Nat}
    (ht : task.Gives f) : (attempt task).Gives fun k => (.ok (f k).1, (f k).2) := by
  intro s
  show _ = (Except.ok (f s.asked).1, (f s.asked).2)
  rw [← ht s]
  rfl

end Obligation

end RouteInvariants
