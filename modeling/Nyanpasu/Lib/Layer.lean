import Nyanpasu.Lib.Serial

/-!
# A plant over a plant

The programs of one plant run on a state of which another plant has a part. They touch that part
in one way only: they run the program of a request of the other plant from its beginning to its
end. Then the part goes through a run of the other plant, whatever else the programs do.
-/

namespace Program

variable {ε : Type} {ρ : ε → Type} {α β γ : Type}

theorem bind_bind (p : Program ε ρ α) (f : α → Program ε ρ β) (g : β → Program ε ρ γ) :
    (p.bind f).bind g = p.bind fun value => (f value).bind g := by
  induction p with
  | ret value => rfl
  | call effect next ih => exact congrArg _ (funext ih)

theorem bind_ret (p : Program ε ρ α) : p.bind .ret = p := by
  induction p with
  | ret value => rfl
  | call effect next ih => exact congrArg _ (funext ih)

end Program

namespace Serial

open Machine

variable {ε ε' : Type} {ρ : ε → Type} {ρ' : ε' → Type} {σ σ' ω ω' α α' κ : Type}

/-- A program that is not within a request of the lower plant. -/
inductive Idle (P : Plant ε ρ σ ω α) (M' : Machine ε' ρ' σ') (inject : ε → ε')
    (reply : ∀ effect, ρ' (inject effect) → ρ effect) (part : σ' → σ) :
    Program ε' ρ' α' → Prop
  | ret (value : α') : Idle P M' inject reply part (.ret value)
  /-- An effect that leaves the part alone. -/
  | call (effect : ε') (next : ρ' effect → Program ε' ρ' α')
      (hpart : ∀ s answer, part (M'.step s effect answer) = part s)
      (hnext : ∀ answer, Idle P M' inject reply part (next answer)) :
      Idle P M' inject reply part (.call effect next)
  /-- A request, whose value is translated. -/
  | enter {β : Type} (request : ω) (p : Program ε ρ β) (value : β → α)
      (hp : P.program request = p >>= fun result => .ret (value result))
      (next : β → Program ε' ρ' α') (hnext : ∀ result, Idle P M' inject reply part (next result)) :
      Idle P M' inject reply part ((p.lift inject reply).bind next)

namespace Idle

variable {P : Plant ε ρ σ ω α} {M' : Machine ε' ρ' σ'} {inject : ε → ε'}
  {reply : ∀ effect, ρ' (inject effect) → ρ effect} {part : σ' → σ} {β γ : Type}

theorem bind {p : Program ε' ρ' β} {f : β → Program ε' ρ' γ} (hp : Idle P M' inject reply part p)
    (hf : ∀ value, Idle P M' inject reply part (f value)) :
    Idle P M' inject reply part (p >>= f) := by
  change Idle P M' inject reply part (p.bind f)
  induction hp with
  | ret value => exact hf value
  | call effect next hpart _ ih => exact .call effect _ hpart ih
  | enter request p value hp next _ ih =>
    rw [Program.bind_bind]
    exact .enter request p value hp _ ih

/-- The program of a request by itself. -/
theorem request (request : ω) (p : Program ε ρ β) (value : β → α)
    (hp : P.program request = p >>= fun result => .ret (value result)) :
    Idle P M' inject reply part (p.lift inject reply) := by
  have hidle : Idle P M' inject reply part ((p.lift inject reply).bind .ret) :=
    .enter request p value hp .ret fun result => .ret result
  rwa [Program.bind_ret] at hidle

end Idle

variable {P : Plant ε ρ σ ω α} {Q : Plant ε' ρ' σ' ω' α'} {inject : ε → ε'}
  {reply : ∀ effect, ρ' (inject effect) → ρ effect} {part : σ' → σ} {rest : σ' → κ}

/-- How a program stands to what the lower plant does: it is idle while that is free, and within
a request while that serves it. -/
inductive Layered (P : Plant ε ρ σ ω α) (M' : Machine ε' ρ' σ') (inject : ε → ε')
    (reply : ∀ effect, ρ' (inject effect) → ρ effect) (part : σ' → σ) :
    Program ε' ρ' α' → Option (Job ε ρ σ ω α) → Prop
  | idle {q} : Idle P M' inject reply part q → Layered P M' inject reply part q none
  | within {β : Type} {client : ℕ} {request : ω} {before : σ} (p : Program ε ρ β) (value : β → α)
      (next : β → Program ε' ρ' α') (hnext : ∀ result, Idle P M' inject reply part (next result)) :
      Layered P M' inject reply part ((p.lift inject reply).bind next)
        (some ⟨client, request, before, p >>= fun result => .ret (value result)⟩)

variable {init : σ → Prop} {init' : σ' → Prop} {effect : ε'} {next : ρ' effect → Program ε' ρ' α'}
  {q : Program ε' ρ' α'} {s : σ'} {answer : ρ' effect} {replies : List (Reply σ ω α)}

/-- The lower plant has followed a program up to its rest. -/
def Followed (P : Plant ε ρ σ ω α) (init : σ → Prop) (M' : Machine ε' ρ' σ') (inject : ε → ε')
    (reply : ∀ effect, ρ' (inject effect) → ρ effect) (part : σ' → σ) (s : σ')
    (q : Program ε' ρ' α') : Prop :=
  ∃ c, Reach P init c ∧ c.state = part s ∧ Layered P M' inject reply part q c.active

/-- It makes the effects of a request. -/
theorem followed_call {β : Type} {client : ℕ} {request : ω} {before : σ} {effect : ε}
    {next : ρ effect → Program ε ρ β} {value : β → α} {answer : ρ' (inject effect)}
    (hM : Contains Q.machine P.machine inject reply part rest)
    (hanswer : Q.machine.allowed s (inject effect) answer) (then_ : β → Program ε' ρ' α')
    (hthen : ∀ result, Idle P Q.machine inject reply part (then_ result))
    (hc : Reach P init ⟨part s, some ⟨client, request, before,
      .call effect next >>= fun result => .ret (value result)⟩, replies⟩) :
    Followed P init Q.machine inject reply part (Q.machine.step s (inject effect) answer)
      (((next (reply effect answer)).lift inject reply).bind then_) := by
  refine ⟨_, .call (reply effect answer) hc (hM.allowed s effect answer hanswer),
    (hM.step s effect answer).symm, ?_⟩
  exact .within (next (reply effect answer)) value then_ hthen

/-- The lower plant follows an effect of a program that is idle. -/
theorem Idle.follow (hM : Contains Q.machine P.machine inject reply part rest)
    (hanswer : Q.machine.allowed s effect answer) (h : Idle P Q.machine inject reply part q)
    (hq : q = .call effect next) (hc : Reach P init ⟨part s, none, replies⟩) :
    Followed P init Q.machine inject reply part (Q.machine.step s effect answer) (next answer) := by
  induction h with
  | ret value => cases hq
  | call effect next hpart hnext _ =>
    cases hq
    exact ⟨_, hc, (hpart s answer).symm, .idle (hnext answer)⟩
  | enter request p value hp then_ hthen ih =>
    cases p with
    | ret result => exact ih result hq
    | call effect next =>
      cases hq
      have hacquired := Reach.acquire 0 request hc
      rw [hp] at hacquired
      exact followed_call hM hanswer then_ hthen hacquired

/-- The lower plant follows an effect of a program. -/
theorem Layered.follow {job : Option (Job ε ρ σ ω α)}
    (hM : Contains Q.machine P.machine inject reply part rest)
    (hanswer : Q.machine.allowed s effect answer)
    (h : Layered P Q.machine inject reply part q job) (hq : q = .call effect next)
    (hc : Reach P init ⟨part s, job, replies⟩) :
    Followed P init Q.machine inject reply part (Q.machine.step s effect answer) (next answer) := by
  cases h with
  | idle hidle => exact hidle.follow hM hanswer hq hc
  | within p value then_ hthen =>
    cases p with
    | ret result => exact (hthen result).follow hM hanswer hq (.finish hc)
    | call effect next =>
      cases hq
      exact followed_call hM hanswer then_ hthen hc

/-- When a program returns, the lower plant is free, or about to be. -/
theorem Layered.free {job : Option (Job ε ρ σ ω α)} {result : α'}
    (h : Layered P Q.machine inject reply part q job) (hq : q = .ret result)
    (hc : Reach P init ⟨part s, job, replies⟩) :
    ∃ replies', Reach P init ⟨part s, none, replies'⟩ := by
  cases h with
  | idle _ => exact ⟨replies, hc⟩
  | within p value then_ hthen =>
    cases p with
    | ret result => exact ⟨_, .finish hc⟩
    | call effect next => cases hq

/-- The rule of layers: when every program of the upper plant enters the lower one through its
requests only, the part of a state that the upper plant reaches is reached by the lower one. -/
theorem Reach.layered (hM : Contains Q.machine P.machine inject reply part rest)
    (hidle : ∀ request, Idle P Q.machine inject reply part (Q.program request))
    (hinit : ∀ s, init' s → init (part s)) (hdrift : ∀ d s, Q.drift d s = none)
    (hcuts : ∀ s, ¬ Q.cuts s) {c : Config ε' ρ' σ' ω' α'} (h : Reach Q init' c) :
    match c.active with
    | none => ∃ replies, Reach P init ⟨part c.state, none, replies⟩
    | some job => Followed P init Q.machine inject reply part c.state job.rest := by
  induction h with
  | start hs => exact ⟨[], .start (hinit _ hs)⟩
  | acquire client request _ ih =>
    obtain ⟨replies, hc⟩ := ih
    exact ⟨_, hc, rfl, .idle (hidle request)⟩
  | call answer _ hanswer ih =>
    obtain ⟨⟨state, job, replies⟩, hc, rfl, hlayered⟩ := ih
    exact hlayered.follow hM hanswer rfl hc
  | finish _ ih =>
    obtain ⟨⟨state, job, replies⟩, hc, rfl, hlayered⟩ := ih
    exact hlayered.free rfl hc
  | drift d _ hd _ => simp [hdrift] at hd
  | cutBefore d _ _ hcut _ => exact absurd hcut (hcuts _)
  | cutAfter d answer _ _ _ hcut _ => exact absurd hcut (hcuts _)

end Serial
