import Mathlib.Tactic.Common

/-!
# Systems that move

A system is given by a partial step function: which state a move leads to, if the move is
possible. A run makes admitted moves only. The invariant rule turns what each admitted move
keeps into a fact about every reachable state, the simulation rule takes the runs of one system to
those of another, and a script of moves shows a state to be reachable.
-/

namespace Moves

variable {σ μ : Type}

/-- The states that are reached from an initial state by admitted moves. -/
inductive Reach (step : σ → μ → Option σ) (admits : σ → μ → Prop) (init : σ → Prop) : σ → Prop
  | start {s} : init s → Reach step admits init s
  | move {s s'} (m : μ) : Reach step admits init s → admits s m → step s m = some s' →
      Reach step admits init s'

variable {step : σ → μ → Option σ} {admits : σ → μ → Prop} {init : σ → Prop} {s s' : σ}

/-- The invariant rule. -/
theorem Reach.invariant {I : σ → Prop} (hinit : ∀ s, init s → I s)
    (hstep : ∀ s m s', I s → admits s m → step s m = some s' → I s')
    (h : Reach step admits init s) : I s := by
  induction h with
  | start hs => exact hinit _ hs
  | move m _ hadmits hmove ih => exact hstep _ m _ ih hadmits hmove

/-- Fewer moves reach fewer states. -/
theorem Reach.mono {admits' : σ → μ → Prop} (hadmits : ∀ s m, admits s m → admits' s m)
    (h : Reach step admits init s) : Reach step admits' init s := by
  induction h with
  | start hs => exact .start hs
  | move m _ hm hmove ih => exact .move m ih (hadmits _ m hm) hmove

/-- The simulation rule: a move of one system is a move of the other one, or is not seen there. -/
theorem Reach.simulate {τ ν : Type} {step' : τ → ν → Option τ} {admits' : τ → ν → Prop}
    {init' : τ → Prop} (f : σ → τ) (hinit : ∀ s, init s → init' (f s))
    (hstep : ∀ s m s', Reach step admits init s → admits s m → step s m = some s' →
      f s' = f s ∨ ∃ m', admits' (f s) m' ∧ step' (f s) m' = some (f s'))
    (h : Reach step admits init s) : Reach step' admits' init' (f s) := by
  induction h with
  | start hs => exact .start (hinit _ hs)
  | move m hs hadmits hmove ih =>
    rcases hstep _ m _ hs hadmits hmove with hsame | ⟨m', hm', hmove'⟩
    · rw [hsame]
      exact ih
    · exact .move m' ih hm' hmove'

/-- Make a move if it is admitted. -/
def attempt (step : σ → μ → Option σ) (admits : σ → μ → Prop)
    [∀ s m, Decidable (admits s m)] (s : σ) (m : μ) : Option σ :=
  if admits s m then step s m else none

/-- A script of admitted moves leads to a reachable state. -/
theorem Reach.play [∀ s m, Decidable (admits s m)] {moves : List μ}
    (h : Reach step admits init s) (hmoves : moves.foldlM (attempt step admits) s = some s') :
    Reach step admits init s' := by
  induction moves generalizing s with
  | nil =>
    obtain rfl : s = s' := by simpa using hmoves
    exact h
  | cons m moves ih =>
    simp only [List.foldlM_cons, Option.bind_eq_bind] at hmoves
    obtain ⟨t, ht, hrest⟩ := Option.bind_eq_some_iff.mp hmoves
    unfold attempt at ht
    split at ht
    · rename_i hadmits
      exact ih (.move m h hadmits ht) hrest
    · cases ht

variable (step admits) in
/-- What is true of the end of a script is true of a reachable state. -/
theorem exists_reach [∀ s m, Decidable (admits s m)] {p : σ → Bool} (hinit : init s)
    (moves : List μ) (h : (moves.foldlM (attempt step admits) s).any p = true) :
    ∃ s', Reach step admits init s' ∧ p s' = true := by
  obtain ⟨s', hmoves, hp⟩ := (Option.any_eq_true p _).mp h
  exact ⟨s', Reach.play (.start hinit) hmoves, hp⟩

end Moves
