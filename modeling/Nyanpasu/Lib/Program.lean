import Mathlib.Data.Nat.Notation
import Mathlib.Tactic.Common

/-!
# Programs that call their environment

A program is a tree: it returns a value, or it performs an effect and continues with the
answer. A machine says which answers a state allows and how an answered effect changes the
state. The weakest precondition of a program quantifies over every allowed answer, and it
asks a second condition of the states in which the program is suspended in an awaiting
effect, since that is where its future may be dropped.
-/

/-- A program over the effects `ε`, where the effect `e` is answered in `ρ e`. -/
inductive Program (ε : Type) (ρ : ε → Type) (α : Type) where
  | ret (value : α)
  | call (effect : ε) (next : ρ effect → Program ε ρ α)

namespace Program

variable {ε : Type} {ρ : ε → Type} {α β γ : Type}

/-- Continue with another program. -/
def bind : Program ε ρ α → (α → Program ε ρ β) → Program ε ρ β
  | .ret value, f => f value
  | .call effect next, f => .call effect fun answer => (next answer).bind f

instance : Monad (Program ε ρ) where
  pure := .ret
  bind := bind

/-- Perform one effect and return its answer. -/
def perform (effect : ε) : Program ε ρ (ρ effect) := .call effect .ret

/-- Continue with the value of a successful attempt; a failure is the result. -/
def andThen {E : Type} (p : Program ε ρ (Except E α)) (f : α → Program ε ρ (Except E β)) :
    Program ε ρ (Except E β) :=
  p >>= fun result => match result with
    | .ok value => f value
    | .error error => pure (.error error)

/-- Run a program under a timer: before each effect the timer is asked whether it has
elapsed, and the program is abandoned when it has. -/
def timeout (timer : ε) (elapsed : ρ timer → Bool) :
    Program ε ρ α → Program ε ρ (Option α)
  | .ret value => .ret (some value)
  | .call effect next => .call timer fun answer =>
      if elapsed answer then .ret none
      else .call effect fun answer => (next answer).timeout timer elapsed

/-- Every effect of the program satisfies a predicate. -/
def Uses (P : ε → Prop) : Program ε ρ α → Prop
  | .ret _ => True
  | .call effect next => P effect ∧ ∀ answer, (next answer).Uses P

variable {P : ε → Prop}

theorem Uses.mono {Q : ε → Prop} {p : Program ε ρ α} (hp : p.Uses P) (h : ∀ e, P e → Q e) :
    p.Uses Q := by
  induction p with
  | ret value => trivial
  | call effect next ih => exact ⟨h _ hp.1, fun answer => ih answer (hp.2 answer)⟩

theorem uses_bind {p : Program ε ρ α} {f : α → Program ε ρ β} (hp : p.Uses P)
    (hf : ∀ value, (f value).Uses P) : (p >>= f).Uses P := by
  change (p.bind f).Uses P
  induction p with
  | ret value => exact hf value
  | call effect next ih => exact ⟨hp.1, fun answer => ih answer (hp.2 answer)⟩

theorem uses_andThen {E : Type} {p : Program ε ρ (Except E α)} {f : α → Program ε ρ (Except E β)}
    (hp : p.Uses P) (hf : ∀ value, (f value).Uses P) : (p.andThen f).Uses P := by
  refine uses_bind hp fun result => ?_
  cases result with
  | ok value => exact hf value
  | error error => trivial

theorem uses_perform {effect : ε} (h : P effect) :
    (perform effect : Program ε ρ (ρ effect)).Uses P := ⟨h, fun _ => trivial⟩

theorem uses_timeout {timer : ε} {elapsed : ρ timer → Bool} {p : Program ε ρ α} (hp : p.Uses P)
    (htimer : P timer) : (p.timeout timer elapsed).Uses P := by
  induction p with
  | ret value => trivial
  | call effect next ih =>
    refine ⟨htimer, fun answer => ?_⟩
    by_cases helapsed : elapsed answer = true
    · simp only [helapsed, if_true]
      trivial
    · simp only [helapsed]
      exact ⟨hp.1, fun answer => ih answer (hp.2 answer)⟩

/-- Every value that the program can return satisfies a predicate, whatever it is answered. -/
def Returns (P : α → Prop) : Program ε ρ α → Prop
  | .ret value => P value
  | .call _ next => ∀ answer, (next answer).Returns P

theorem Returns.mono {P Q : α → Prop} {p : Program ε ρ α} (hp : p.Returns P)
    (h : ∀ value, P value → Q value) : p.Returns Q := by
  induction p with
  | ret value => exact h value hp
  | call effect next ih => exact fun answer => ih answer (hp answer)

theorem returns_of_forall {P : α → Prop} (h : ∀ value, P value) (p : Program ε ρ α) :
    p.Returns P := by
  induction p with
  | ret value => exact h value
  | call effect next ih => exact ih

theorem returns_bind {Q : α → Prop} {P : β → Prop} {p : Program ε ρ α}
    {f : α → Program ε ρ β} (hp : p.Returns Q) (hf : ∀ value, Q value → (f value).Returns P) :
    (p >>= f).Returns P := by
  change (p.bind f).Returns P
  induction p with
  | ret value => exact hf value hp
  | call effect next ih => exact fun answer => ih answer (hp answer)

/-- What follows a program decides what the sequence returns. -/
theorem returns_then {P : β → Prop} {p : Program ε ρ α} {f : α → Program ε ρ β}
    (hf : ∀ value, (f value).Returns P) : (p >>= f).Returns P :=
  returns_bind (returns_of_forall (fun _ => trivial) p) fun value (_ : True) => hf value

theorem returns_andThen {E : Type} {Q : Except E α → Prop} {P : Except E β → Prop}
    {p : Program ε ρ (Except E α)} {f : α → Program ε ρ (Except E β)} (hp : p.Returns Q)
    (hok : ∀ value, Q (.ok value) → (f value).Returns P) (herror : ∀ error, P (.error error)) :
    (p.andThen f).Returns P := by
  refine returns_bind hp fun result hQ => ?_
  cases result with
  | ok value => exact hok value hQ
  | error error => exact herror error

/-- What follows a program may count on what it returns. -/
theorem uses_bind_returns {Q : α → Prop} {p : Program ε ρ α} {f : α → Program ε ρ β}
    (hp : p.Uses P) (hQ : p.Returns Q) (hf : ∀ value, Q value → (f value).Uses P) :
    (p >>= f).Uses P := by
  change (p.bind f).Uses P
  induction p with
  | ret value => exact hf value hQ
  | call effect next ih => exact ⟨hp.1, fun answer => ih answer (hp.2 answer) (hQ answer)⟩

theorem uses_andThen_returns {E : Type} {Q : Except E α → Prop} {p : Program ε ρ (Except E α)}
    {f : α → Program ε ρ (Except E β)} (hp : p.Uses P) (hQ : p.Returns Q)
    (hf : ∀ value, Q (.ok value) → (f value).Uses P) : (p.andThen f).Uses P := by
  refine uses_bind_returns hp hQ fun result hresult => ?_
  cases result with
  | ok value => exact hf value hresult
  | error error => trivial

/-- A program over other effects, each of which is answered through a translation. -/
def lift {ε' : Type} {ρ' : ε' → Type} (inject : ε → ε')
    (reply : ∀ effect, ρ' (inject effect) → ρ effect) : Program ε ρ α → Program ε' ρ' α
  | .ret value => .ret value
  | .call effect next => .call (inject effect) fun answer =>
      (next (reply effect answer)).lift inject reply

end Program

/-- What the effects do to a state. -/
structure Machine (ε : Type) (ρ : ε → Type) (σ : Type) where
  /-- The answers that the state allows. -/
  allowed : σ → (effect : ε) → ρ effect → Prop
  /-- The state after an answered effect. -/
  step : σ → (effect : ε) → ρ effect → σ
  /-- Whether a program may be suspended in the effect. -/
  awaits : ε → Bool

namespace Machine

variable {ε : Type} {ρ : ε → Type} {σ α β : Type}

/-- The machine with fewer allowed steps. -/
def restrict (M : Machine ε ρ σ) (admits : σ → (effect : ε) → ρ effect → Prop) :
    Machine ε ρ σ :=
  { M with allowed := fun s effect answer =>
      M.allowed s effect answer ∧ admits s effect answer }

/-- Every run of the program from the state ends in `post`, and every state in which it is
suspended satisfies `cut`. -/
def wp (M : Machine ε ρ σ) (cut : σ → Prop) : Program ε ρ α → (α → σ → Prop) → σ → Prop
  | .ret value, post, s => post value s
  | .call effect next, post, s =>
      (M.awaits effect = true → cut s) ∧
        ∀ answer, M.allowed s effect answer →
          (M.awaits effect = true → cut (M.step s effect answer)) ∧
            wp M cut (next answer) post (M.step s effect answer)

variable {M : Machine ε ρ σ} {cut : σ → Prop} {post : α → σ → Prop} {s : σ}

@[simp] theorem wp_ret {value : α} : M.wp cut (.ret value) post s ↔ post value s := Iff.rfl

@[simp] theorem wp_pure {value : α} : M.wp cut (pure value) post s ↔ post value s := Iff.rfl

/-- A sequence is run up to the state where its first part returns. -/
theorem wp_bind {p : Program ε ρ α} {f : α → Program ε ρ β} {post : β → σ → Prop} :
    M.wp cut (p >>= f) post s ↔ M.wp cut p (fun value s => M.wp cut (f value) post s) s := by
  change M.wp cut (p.bind f) post s ↔ _
  induction p generalizing s with
  | ret value => exact Iff.rfl
  | call effect next ih =>
    simp only [Program.bind, wp, ih]

/-- The postcondition and the cut condition may be weakened. -/
theorem wp_mono {p : Program ε ρ α} {cut' : σ → Prop} {post' : α → σ → Prop}
    (hp : M.wp cut p post s) (hcut : ∀ s, cut s → cut' s)
    (hpost : ∀ value s, post value s → post' value s) : M.wp cut' p post' s := by
  induction p generalizing s with
  | ret value => exact hpost value s hp
  | call effect next ih =>
    refine ⟨fun ha => hcut _ (hp.1 ha), fun answer hanswer => ?_⟩
    obtain ⟨hsuspended, hnext⟩ := hp.2 answer hanswer
    exact ⟨fun ha => hcut _ (hsuspended ha), ih answer hnext⟩

/-- The rule of consequence for the postcondition alone. -/
theorem wp_imp {p : Program ε ρ α} {post' : α → σ → Prop} (hp : M.wp cut p post s)
    (hpost : ∀ value s, post value s → post' value s) : M.wp cut p post' s :=
  wp_mono hp (fun _ => id) hpost

/-- Two postconditions are met together. -/
theorem wp_and {p : Program ε ρ α} {cut' : σ → Prop} {post' : α → σ → Prop}
    (hp : M.wp cut p post s) (hp' : M.wp cut' p post' s) :
    M.wp cut p (fun value s => post value s ∧ post' value s) s := by
  induction p generalizing s with
  | ret value => exact ⟨hp, hp'⟩
  | call effect next ih =>
    refine ⟨hp.1, fun answer hanswer => ?_⟩
    exact ⟨(hp.2 answer hanswer).1, ih answer (hp.2 answer hanswer).2 (hp'.2 answer hanswer).2⟩

/-- The rule of sequence, with the intermediate condition given. -/
theorem wp_seq {p : Program ε ρ α} {f : α → Program ε ρ β} {post : β → σ → Prop}
    {Q : α → σ → Prop} (hp : M.wp cut p Q s)
    (hf : ∀ value s, Q value s → M.wp cut (f value) post s) : M.wp cut (p >>= f) post s :=
  wp_bind.mpr (wp_imp hp hf)

/-- The rule of sequence for attempts: a failure must satisfy the postcondition as it is. -/
theorem wp_andThen {E : Type} {p : Program ε ρ (Except E α)}
    {f : α → Program ε ρ (Except E β)} {post : Except E β → σ → Prop}
    {Q : Except E α → σ → Prop} (hp : M.wp cut p Q s)
    (hok : ∀ value s, Q (.ok value) s → M.wp cut (f value) post s)
    (herror : ∀ error s, Q (.error error) s → post (.error error) s) :
    M.wp cut (p.andThen f) post s := by
  refine wp_seq hp fun result s hQ => ?_
  cases result with
  | ok value => exact hok value s hQ
  | error error => exact herror error s hQ

/-- The rule for one effect. -/
theorem wp_perform {effect : ε} {post : ρ effect → σ → Prop}
    (hbefore : M.awaits effect = true → cut s)
    (hafter : ∀ answer, M.allowed s effect answer →
      (M.awaits effect = true → cut (M.step s effect answer)) ∧
        post answer (M.step s effect answer)) :
    M.wp cut (Program.perform effect) post s := ⟨hbefore, hafter⟩

/-- The machine on which a program may be suspended anywhere. -/
def eager (M : Machine ε ρ σ) : Machine ε ρ σ := { M with awaits := fun _ => true }

/-- A run of the program from one state to another. -/
inductive Runs (M : Machine ε ρ σ) : Program ε ρ α → σ → α → σ → Prop
  | ret {value s} : Runs M (.ret value) s value s
  | call {effect next s value s'} (answer : ρ effect) : M.allowed s effect answer →
      Runs M (next answer) (M.step s effect answer) value s' →
      Runs M (.call effect next) s value s'

/-- A run ends in the postcondition of its program. -/
theorem Runs.satisfies {p : Program ε ρ α} {value : α} {s' : σ} (h : M.Runs p s value s')
    (hp : M.wp cut p post s) : post value s' := by
  induction h with
  | ret => exact hp
  | call answer hanswer _ ih => exact ih (hp.2 answer hanswer).2

/-- A run of the first part and a run of the rest are a run of the sequence. -/
theorem Runs.bind {p : Program ε ρ α} {f : α → Program ε ρ β} {first : α} {value : β} {t s' : σ}
    (h : M.Runs p s first t) (hrest : M.Runs (f first) t value s') :
    M.Runs (p >>= f) s value s' := by
  induction h with
  | ret => exact hrest
  | call answer hallowed _ ih => exact .call answer hallowed (ih hrest)

/-- A run of the program, with the effects that it performs and their answers. -/
inductive Traces (M : Machine ε ρ σ) :
    Program ε ρ α → σ → List ((effect : ε) × ρ effect) → α → σ → Prop
  | ret {value s} : Traces M (.ret value) s [] value s
  | call {effect next s trace value s'} (answer : ρ effect) : M.allowed s effect answer →
      Traces M (next answer) (M.step s effect answer) trace value s' →
      Traces M (.call effect next) s (⟨effect, answer⟩ :: trace) value s'

section Traces

variable {trace : List ((effect : ε) × ρ effect)} {value : α} {s' : σ}

theorem Traces.runs {p : Program ε ρ α} (h : M.Traces p s trace value s') :
    M.Runs p s value s' := by
  induction h with
  | ret => exact .ret
  | call answer hallowed _ ih => exact .call answer hallowed ih

/-- A traced run ends in the postcondition of its program. -/
theorem Traces.satisfies {p : Program ε ρ α} (h : M.Traces p s trace value s')
    (hp : M.wp cut p post s) : post value s' := h.runs.satisfies hp

/-- The trace of a sequence is the trace of its first part and then that of the rest. -/
theorem Traces.of_bind {p : Program ε ρ β} {f : β → Program ε ρ α}
    (h : M.Traces (p >>= f) s trace value s') :
    ∃ made rest first t, trace = made ++ rest ∧ M.Traces p s made first t ∧
      M.Traces (f first) t rest value s' := by
  change M.Traces (p.bind f) s trace value s' at h
  induction p generalizing s trace with
  | ret first => exact ⟨[], trace, first, s, rfl, .ret, h⟩
  | call effect next ih =>
    cases h with
    | call answer hallowed hrest =>
      obtain ⟨made, rest, first, t, rfl, hfirst, hlast⟩ := ih answer hrest
      exact ⟨_, rest, first, t, rfl, .call answer hallowed hfirst, hlast⟩

/-- The trace of one effect. -/
theorem Traces.of_perform {effect : ε} {answer : ρ effect}
    (h : M.Traces (Program.perform effect) s trace answer s') :
    trace = [⟨effect, answer⟩] ∧ M.allowed s effect answer ∧ s' = M.step s effect answer := by
  cases h with
  | call answer hallowed hrest =>
    cases hrest with
    | ret => exact ⟨rfl, hallowed, rfl⟩

/-- The trace of a program that returns at once. -/
theorem Traces.of_ret {value' : α} (h : M.Traces (.ret value) s trace value' s') :
    trace = [] ∧ value' = value ∧ s' = s := by
  cases h with
  | ret => exact ⟨rfl, rfl, rfl⟩

/-- The trace of an attempt that is continued ends where it fails. -/
theorem Traces.of_andThen {E γ : Type} {p : Program ε ρ (Except E β)}
    {f : β → Program ε ρ (Except E γ)} {result : Except E γ}
    (h : M.Traces (p.andThen f) s trace result s') :
    ∃ made rest first t, trace = made ++ rest ∧ M.Traces p s made first t ∧
      match first with
      | .ok value => M.Traces (f value) t rest result s'
      | .error error => rest = [] ∧ result = .error error ∧ s' = t := by
  obtain ⟨made, rest, first, t, htrace, hfirst, hlast⟩ := h.of_bind
  refine ⟨made, rest, first, t, htrace, hfirst, ?_⟩
  cases first with
  | ok value => exact hlast
  | error error => exact hlast.of_ret

/-- A program performs no other effects than those it uses. -/
theorem Traces.uses {P : ε → Prop} {p : Program ε ρ α} (h : M.Traces p s trace value s')
    (hp : p.Uses P) : ∀ done ∈ trace, P done.1 := by
  induction h with
  | ret =>
    intro done hdone
    cases hdone
  | call answer _ _ ih =>
    intro done hdone
    rcases List.mem_cons.mp hdone with rfl | hdone
    · exact hp.1
    · exact ih (hp.2 answer) done hdone

end Traces

/-- What a program returns whatever it is answered, it returns in every run. -/
theorem wp_of_returns {P : α → Prop} {p : Program ε ρ α} (hp : p.Returns P) :
    M.wp (fun _ => True) p (fun value _ => P value) s := by
  induction p generalizing s with
  | ret value => exact hp
  | call effect next ih =>
    exact ⟨fun _ => trivial, fun answer _ => ⟨fun _ => trivial, ih answer (hp answer)⟩⟩

/-- Nothing is promised of a program. -/
theorem wp_any (p : Program ε ρ α) (s : σ) : M.wp (fun _ => True) p (fun _ _ => True) s :=
  wp_of_returns (Program.returns_of_forall (fun _ => trivial) p)

/-- What every step keeps is kept by every program. -/
theorem wp_kept {P : σ → Prop} {p : Program ε ρ α}
    (hstep : ∀ s effect answer, P s → P (M.step s effect answer)) (hs : P s) :
    M.wp (fun _ => True) p (fun _ => P) s := by
  induction p generalizing s with
  | ret value => exact hs
  | call effect next ih =>
    exact ⟨fun _ => trivial, fun answer _ => ⟨fun _ => trivial, ih answer (hstep _ _ _ hs)⟩⟩

/-- What holds of a program holds of it on a machine with fewer steps. -/
theorem wp_restrict {admits : σ → (effect : ε) → ρ effect → Prop} {p : Program ε ρ α}
    (hp : M.wp cut p post s) : (M.restrict admits).wp cut p post s := by
  induction p generalizing s with
  | ret value => exact hp
  | call effect next ih =>
    refine ⟨hp.1, fun answer hanswer => ?_⟩
    obtain ⟨hsuspended, hnext⟩ := hp.2 answer hanswer.1
    exact ⟨hsuspended, ih answer hnext⟩

section Lift

variable {ε' : Type} {ρ' : ε' → Type} {σ' : Type} {M' : Machine ε' ρ' σ'} {inject : ε → ε'}
  {reply : ∀ effect, ρ' (inject effect) → ρ effect}

/-- One machine contains another: its states have a part on which the injected effects act
as the other machine does, and a rest that they leave alone. -/
structure Contains (M' : Machine ε' ρ' σ') (M : Machine ε ρ σ) (inject : ε → ε')
    (reply : ∀ effect, ρ' (inject effect) → ρ effect) (part : σ' → σ) {κ : Type}
    (rest : σ' → κ) : Prop where
  allowed : ∀ s effect answer, M'.allowed s (inject effect) answer →
    M.allowed (part s) effect (reply effect answer)
  step : ∀ s effect answer, part (M'.step s (inject effect) answer) =
    M.step (part s) effect (reply effect answer)
  rest : ∀ s effect answer, rest (M'.step s (inject effect) answer) = rest s
  awaits : ∀ effect, M'.awaits (inject effect) = M.awaits effect

/-- The rule of lifting: a program keeps its precondition on the part it acts on. -/
theorem wp_lift {part : σ' → σ} {κ : Type} {rest : σ' → κ}
    (hM : Contains M' M inject reply part rest) {p : Program ε ρ α} {s : σ'}
    (hp : M.wp cut p post (part s)) :
    M'.wp (fun s' => cut (part s')) (p.lift inject reply)
      (fun value s' => post value (part s') ∧ rest s' = rest s) s := by
  induction p generalizing s with
  | ret value => exact ⟨hp, rfl⟩
  | call effect next ih =>
    refine ⟨fun ha => hp.1 (hM.awaits effect ▸ ha), fun answer hanswer => ?_⟩
    obtain ⟨hcut, hnext⟩ := hp.2 (reply effect answer) (hM.allowed s effect answer hanswer)
    rw [← hM.step s effect answer] at hcut hnext
    refine ⟨fun ha => hcut (hM.awaits effect ▸ ha), ?_⟩
    exact wp_imp (ih _ hnext) fun value s' hdone => ⟨hdone.1, hdone.2.trans (hM.rest _ _ _)⟩

end Lift

end Machine
