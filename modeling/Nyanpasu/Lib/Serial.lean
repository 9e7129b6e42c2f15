import Nyanpasu.Lib.Program

/-!
# Requests served one at a time

A plant serves requests from any number of clients. A request runs its program while it
holds the lock, other tasks drift at any moment, and a suspended program may be dropped,
which frees the lock. The rules below turn the weakest preconditions of the programs into
facts about every reachable configuration.
-/

namespace Serial

/-- The parts of a plant: the machine that the programs run on, the program of each
request, what other tasks do, and what the drop of a suspended program does. -/
structure Plant (ε : Type) (ρ : ε → Type) (σ ω α : Type) where
  machine : Machine ε ρ σ
  program : ω → Program ε ρ α
  Drift : Type
  drift : Drift → σ → Option σ
  Drop : Type
  drop : Drop → σ → σ
  /-- The states in which a suspended program may be dropped. -/
  cuts : σ → Prop

/-- A request that holds the lock, with the state in which it got it. -/
structure Job (ε : Type) (ρ : ε → Type) (σ ω α : Type) where
  client : ℕ
  request : ω
  before : σ
  rest : Program ε ρ α

/-- A request that has returned. -/
structure Reply (σ ω α : Type) where
  client : ℕ
  request : ω
  before : σ
  result : α
  after : σ

/-- The state, the request that holds the lock, and the replies so far, newest first. -/
structure Config (ε : Type) (ρ : ε → Type) (σ ω α : Type) where
  state : σ
  active : Option (Job ε ρ σ ω α)
  replies : List (Reply σ ω α)

variable {ε : Type} {ρ : ε → Type} {σ τ ω α : Type}

/-- The configurations that a plant reaches from an initial state. -/
inductive Reach (P : Plant ε ρ σ ω α) (init : σ → Prop) : Config ε ρ σ ω α → Prop
  | start {s} : init s → Reach P init ⟨s, none, []⟩
  | acquire {s replies} (client : ℕ) (request : ω) : Reach P init ⟨s, none, replies⟩ →
      Reach P init ⟨s, some ⟨client, request, s, P.program request⟩, replies⟩
  | call {s replies client request before effect next} (answer : ρ effect) :
      Reach P init ⟨s, some ⟨client, request, before, .call effect next⟩, replies⟩ →
      P.machine.allowed s effect answer →
      Reach P init ⟨P.machine.step s effect answer,
        some ⟨client, request, before, next answer⟩, replies⟩
  | finish {s replies client request before value} :
      Reach P init ⟨s, some ⟨client, request, before, .ret value⟩, replies⟩ →
      Reach P init ⟨s, none, ⟨client, request, before, value, s⟩ :: replies⟩
  | drift {s active replies s'} (d : P.Drift) : Reach P init ⟨s, active, replies⟩ →
      P.drift d s = some s' → Reach P init ⟨s', active, replies⟩
  | cutBefore {s replies client request before effect next} (d : P.Drop) :
      Reach P init ⟨s, some ⟨client, request, before, .call effect next⟩, replies⟩ →
      P.machine.awaits effect = true → P.cuts s → Reach P init ⟨P.drop d s, none, replies⟩
  | cutAfter {s replies client request before effect next} (d : P.Drop) (answer : ρ effect) :
      Reach P init ⟨s, some ⟨client, request, before, .call effect next⟩, replies⟩ →
      P.machine.awaits effect = true → P.machine.allowed s effect answer →
      P.cuts (P.machine.step s effect answer) →
      Reach P init ⟨P.drop d (P.machine.step s effect answer), none, replies⟩

/-- What every reachable configuration satisfies when each request keeps an invariant of
the free states and meets its contract. -/
structure Sound (P : Plant ε ρ σ ω α) (I : σ → Prop) (contract : ω → σ → α → σ → Prop)
    (c : Config ε ρ σ ω α) : Prop where
  free : c.active = none → I c.state
  /-- The rest of the request in progress meets the contract. -/
  held : ∀ job, c.active = some job →
    P.machine.wp (fun s => P.cuts s → ∀ d, I (P.drop d s)) job.rest
      (fun value s => I s ∧ contract job.request job.before value s) c.state
  began : ∀ job, c.active = some job → I job.before
  replied : ∀ reply ∈ c.replies, I reply.before ∧ I reply.after ∧
    contract reply.request reply.before reply.result reply.after

section Invariant

variable {P : Plant ε ρ σ ω α} {init : σ → Prop} {c : Config ε ρ σ ω α}

/-- The invariant rule: a request that starts in the invariant keeps it to its end and at
every cut. -/
theorem Reach.sound {I : σ → Prop} {contract : ω → σ → α → σ → Prop}
    (hinit : ∀ s, init s → I s)
    (hrequest : ∀ request s, I s →
      P.machine.wp (fun s => P.cuts s → ∀ d, I (P.drop d s)) (P.program request)
        (fun value s' => I s' ∧ contract request s value s') s)
    (hdrift : ∀ d s, P.drift d s = none) (h : Reach P init c) : Sound P I contract c := by
  induction h with
  | start hs =>
    exact ⟨fun _ => hinit _ hs, by simp, by simp, by simp⟩
  | @acquire s replies client request _ ih =>
    have hI : I s := ih.free rfl
    refine ⟨by simp, fun job hjob => ?_, fun job hjob => ?_, ih.replied⟩
    · obtain rfl := Option.some.inj hjob
      exact hrequest request s hI
    · obtain rfl := Option.some.inj hjob
      exact hI
  | @call s replies client request before effect next answer _ hanswer ih =>
    have hwp := ih.held _ rfl
    have hbefore : I before := ih.began _ rfl
    refine ⟨by simp, fun job hjob => ?_, fun job hjob => ?_, ih.replied⟩
    · obtain rfl := Option.some.inj hjob
      exact (hwp.2 answer hanswer).2
    · obtain rfl := Option.some.inj hjob
      exact hbefore
  | @finish s replies client request before value _ ih =>
    obtain ⟨hI, hcontract⟩ := ih.held _ rfl
    refine ⟨fun _ => hI, by simp, by simp, fun reply hreply => ?_⟩
    rcases List.mem_cons.mp hreply with rfl | hreply
    · exact ⟨ih.began _ rfl, hI, hcontract⟩
    · exact ih.replied reply hreply
  | drift d _ hd _ => simp [hdrift] at hd
  | @cutBefore s replies client request before effect next d _ hawaits hcut ih =>
    have hwp := ih.held _ rfl
    exact ⟨fun _ => hwp.1 hawaits hcut d, by simp, by simp, ih.replied⟩
  | @cutAfter s replies client request before effect next d answer _ hawaits hanswer hcut ih =>
    have hwp := ih.held _ rfl
    exact ⟨fun _ => (hwp.2 answer hanswer).1 hawaits hcut d, by simp, by simp, ih.replied⟩

/-- A property that every single step keeps, with the help of what is known of every
configuration, holds in every reachable state. -/
theorem Reach.always_given {J K : σ → Prop} (hK : ∀ c, Reach P init c → K c.state)
    (hinit : ∀ s, init s → J s)
    (hstep : ∀ s effect answer, K s → K (P.machine.step s effect answer) → J s →
      P.machine.allowed s effect answer → J (P.machine.step s effect answer))
    (hdrift : ∀ d s s', K s → J s → P.drift d s = some s' → J s')
    (hdrop : ∀ d s, P.cuts s → J s → J (P.drop d s)) (h : Reach P init c) : J c.state := by
  induction h with
  | start hs => exact hinit _ hs
  | acquire _ _ _ ih => exact ih
  | call answer hbefore hanswer ih =>
    exact hstep _ _ answer (hK _ hbefore) (hK _ (.call answer hbefore hanswer)) ih hanswer
  | finish _ ih => exact ih
  | drift d hbefore hd ih => exact hdrift d _ _ (hK _ hbefore) ih hd
  | cutBefore d _ _ hcut ih => exact hdrop d _ hcut ih
  | cutAfter d answer hbefore _ hanswer hcut ih =>
    exact hdrop d _ hcut
      (hstep _ _ answer (hK _ hbefore) (hK _ (.call answer hbefore hanswer)) ih hanswer)

/-- A property that every single step keeps holds in every reachable state. -/
theorem Reach.always {J : σ → Prop} (hinit : ∀ s, init s → J s)
    (hstep : ∀ s effect answer, J s → P.machine.allowed s effect answer →
      J (P.machine.step s effect answer))
    (hdrift : ∀ d s s', J s → P.drift d s = some s' → J s')
    (hdrop : ∀ d s, P.cuts s → J s → J (P.drop d s)) (h : Reach P init c) : J c.state :=
  h.always_given (K := fun _ => True) (fun _ _ => trivial) hinit
    (fun s effect answer _ _ hJ => hstep s effect answer hJ) (fun d s s' _ => hdrift d s s') hdrop

/-- A property that the programs keep at each of their effects holds in every reachable
state. -/
theorem Reach.everywhere {K : σ → Prop} (hinit : ∀ s, init s → K s)
    (hrequest : ∀ request s, K s →
      P.machine.eager.wp K (P.program request) (fun _ s' => K s') s)
    (hdrift : ∀ d s, P.drift d s = none) (hdrop : ∀ d s, K s → K (P.drop d s))
    (h : Reach P init c) : K c.state ∧ ∀ job, c.active = some job →
      P.machine.eager.wp K job.rest (fun _ s' => K s') c.state := by
  induction h with
  | start hs => exact ⟨hinit _ hs, by simp⟩
  | @acquire s replies client request _ ih =>
    refine ⟨ih.1, fun job hjob => ?_⟩
    obtain rfl := Option.some.inj hjob
    exact hrequest request s ih.1
  | @call s replies client request before effect next answer _ hanswer ih =>
    obtain ⟨hcut, hnext⟩ := (ih.2 _ rfl).2 answer hanswer
    refine ⟨hcut rfl, fun job hjob => ?_⟩
    obtain rfl := Option.some.inj hjob
    exact hnext
  | finish _ ih => exact ⟨ih.1, by simp⟩
  | drift d _ hd _ => simp [hdrift] at hd
  | cutBefore d _ _ _ ih => exact ⟨hdrop d _ ih.1, by simp⟩
  | cutAfter d answer _ _ hanswer _ ih =>
    exact ⟨hdrop d _ (((ih.2 _ rfl).2 answer hanswer).1 rfl), by simp⟩

/-- How the states of a run are ordered when every step goes up: the replies, newest first,
follow each other, and the request in progress follows all of them. -/
structure Ordered (R : σ → σ → Prop) (c : Config ε ρ σ ω α) : Prop where
  replies : c.replies.Pairwise fun newer older => R older.after newer.before
  within : ∀ reply ∈ c.replies, R reply.before reply.after
  job : ∀ job, c.active = some job →
    R job.before c.state ∧ ∀ reply ∈ c.replies, R reply.after job.before
  state : ∀ reply ∈ c.replies, R reply.after c.state

/-- A step of the run keeps the order. -/
theorem Ordered.step {R : σ → σ → Prop} [IsTrans σ R] {s s' : σ}
    {active active' : Option (Job ε ρ σ ω α)} {replies : List (Reply σ ω α)}
    (h : Ordered R ⟨s, active, replies⟩) (hs : R s s')
    (hjob : ∀ job, active' = some job → ∃ job', active = some job' ∧ job'.before = job.before) :
    Ordered R ⟨s', active', replies⟩ where
  replies := h.replies
  within := h.within
  job := fun job hactive => by
    obtain ⟨job', hjob', heq⟩ := hjob job hactive
    exact heq ▸ ⟨IsTrans.trans _ _ _ (h.job job' hjob').1 hs, (h.job job' hjob').2⟩
  state := fun reply hreply => IsTrans.trans _ _ _ (h.state reply hreply) hs

/-- The rule of monotone runs. -/
theorem Reach.ordered {R : σ → σ → Prop} [IsPreorder σ R]
    (hstep : ∀ s effect answer, R s (P.machine.step s effect answer))
    (hdrift : ∀ d s s', P.drift d s = some s' → R s s') (hdrop : ∀ d s, R s (P.drop d s))
    (h : Reach P init c) : Ordered R c := by
  induction h with
  | start _ => exact ⟨by simp, by simp, by simp, by simp⟩
  | acquire client request _ ih =>
    refine ⟨ih.replies, ih.within, fun job hjob => ?_, ih.state⟩
    obtain rfl := Option.some.inj hjob
    exact ⟨Std.Refl.refl _, ih.state⟩
  | @call s replies client request before effect next answer _ _ ih =>
    refine ih.step (hstep s effect answer) fun job hjob => ?_
    obtain rfl := Option.some.inj hjob
    exact ⟨_, rfl, rfl⟩
  | @finish s replies client request before value _ ih =>
    obtain ⟨hbefore, hreplies⟩ := ih.job _ rfl
    refine ⟨List.pairwise_cons.mpr ⟨hreplies, ih.replies⟩, fun reply hreply => ?_,
      fun job hjob => (nomatch hjob), fun reply hreply => ?_⟩
    · rcases List.mem_cons.mp hreply with rfl | hreply
      · exact hbefore
      · exact ih.within reply hreply
    · rcases List.mem_cons.mp hreply with rfl | hreply
      · exact Std.Refl.refl _
      · exact ih.state reply hreply
  | drift d _ hd ih => exact ih.step (hdrift d _ _ hd) fun job hjob => ⟨job, hjob, rfl⟩
  | cutBefore d _ _ _ ih => exact ih.step (hdrop d _) fun job hjob => nomatch hjob
  | cutAfter d answer _ _ _ _ ih =>
    exact ih.step (IsTrans.trans _ _ _ (hstep _ _ answer) (hdrop d _)) fun job hjob => nomatch hjob

end Invariant

section Projection

/-- The configuration seen through a projection of the states. -/
def Config.map (f : σ → τ) (c : Config ε ρ σ ω α) : Config ε ρ τ ω α where
  state := f c.state
  active := c.active.map fun job => ⟨job.client, job.request, f job.before, job.rest⟩
  replies := c.replies.map fun reply =>
    ⟨reply.client, reply.request, f reply.before, reply.result, f reply.after⟩

/-- A plant refines another one through a projection of its states when every step of the
first is a step of the second, or none at all. -/
structure Refines (Q : Plant ε ρ τ ω α) (P : Plant ε ρ σ ω α) (f : τ → σ) : Prop where
  program : ∀ request, Q.program request = P.program request
  awaits : ∀ effect, Q.machine.awaits effect = P.machine.awaits effect
  allowed : ∀ t effect answer, Q.machine.allowed t effect answer →
    P.machine.allowed (f t) effect answer
  step : ∀ t effect answer, Q.machine.allowed t effect answer →
    f (Q.machine.step t effect answer) = P.machine.step (f t) effect answer
  drift : ∀ d t t', Q.drift d t = some t' → f t' = f t
  drop : ∀ d t, ∃ d', f (Q.drop d t) = P.drop d' (f t)
  cuts : ∀ t, Q.cuts t → P.cuts (f t)

/-- A run of the refined plant projects to a run of the abstract one. -/
theorem Refines.reach {Q : Plant ε ρ τ ω α} {P : Plant ε ρ σ ω α} {f : τ → σ}
    (hf : Refines Q P f) {initQ : τ → Prop} {initP : σ → Prop}
    (hinit : ∀ t, initQ t → initP (f t)) {c : Config ε ρ τ ω α} (h : Reach Q initQ c) :
    Reach P initP (c.map f) := by
  induction h with
  | start hs => exact .start (hinit _ hs)
  | acquire client request _ ih =>
    have := Reach.acquire client request ih
    rwa [← hf.program] at this
  | call answer _ hanswer ih =>
    have := Reach.call answer ih (hf.allowed _ _ _ hanswer)
    rwa [← hf.step _ _ _ hanswer] at this
  | finish _ ih => exact .finish ih
  | @drift s active replies s' d _ hd ih =>
    have heq := hf.drift d _ _ hd
    simpa only [Config.map, heq] using ih
  | @cutBefore s replies client request before effect next d _ hawaits hcut ih =>
    obtain ⟨d', hd'⟩ := hf.drop d s
    have := Reach.cutBefore d' ih ((hf.awaits _).symm.trans hawaits) (hf.cuts _ hcut)
    rwa [← hd'] at this
  | @cutAfter s replies client request before effect next d answer _ hawaits hanswer hcut ih =>
    obtain ⟨d', hd'⟩ := hf.drop d (Q.machine.step s effect answer)
    have hstep := hf.step _ _ _ hanswer
    have := Reach.cutAfter d' answer ih ((hf.awaits _).symm.trans hawaits)
      (hf.allowed _ _ _ hanswer) (hstep ▸ hf.cuts _ hcut)
    rwa [← hstep, ← hd'] at this

end Projection

section Play

/-- One move of a scripted run, where an oracle answers the effects: a request is served to
its end within a number of effects, or begun for a number of effects. -/
inductive Move (ε : Type) (ρ : ε → Type) (σ ω D K : Type) where
  | serve (client : ℕ) (request : ω) (fuel : ℕ) (oracle : σ → (effect : ε) → ρ effect)
  | enter (client : ℕ) (request : ω) (count : ℕ) (oracle : σ → (effect : ε) → ρ effect)
  | proceed (count : ℕ) (oracle : σ → (effect : ε) → ρ effect)
  | finish
  | drift (d : D)
  | cut (d : K)

variable (P : Plant ε ρ σ ω α) [∀ s effect answer, Decidable (P.machine.allowed s effect answer)]
  [∀ s, Decidable (P.cuts s)]

/-- Give the lock to a request. -/
def acquire (client : ℕ) (request : ω) (c : Config ε ρ σ ω α) : Option (Config ε ρ σ ω α) :=
  match c with
  | ⟨s, none, replies⟩ => some ⟨s, some ⟨client, request, s, P.program request⟩, replies⟩
  | _ => none

/-- Answer a number of effects of the active request. -/
def calls (oracle : σ → (effect : ε) → ρ effect) :
    ℕ → Config ε ρ σ ω α → Option (Config ε ρ σ ω α)
  | 0, c => some c
  | count + 1, c =>
      match c with
      | ⟨s, some ⟨client, request, before, .call effect next⟩, replies⟩ =>
          let answer := oracle s effect
          if P.machine.allowed s effect answer then
            calls oracle count ⟨P.machine.step s effect answer,
              some ⟨client, request, before, next answer⟩, replies⟩
          else none
      | _ => none

/-- Answer the effects of the active request until it returns. -/
def complete (oracle : σ → (effect : ε) → ρ effect) :
    ℕ → Config ε ρ σ ω α → Option (Config ε ρ σ ω α)
  | 0, _ => none
  | fuel + 1, c =>
      match c with
      | ⟨s, some ⟨client, request, before, .ret value⟩, replies⟩ =>
          some ⟨s, none, ⟨client, request, before, value, s⟩ :: replies⟩
      | ⟨s, some ⟨client, request, before, .call effect next⟩, replies⟩ =>
          let answer := oracle s effect
          if P.machine.allowed s effect answer then
            complete oracle fuel ⟨P.machine.step s effect answer,
              some ⟨client, request, before, next answer⟩, replies⟩
          else none
      | _ => none

/-- Make one move. -/
def move (c : Config ε ρ σ ω α) :
    Move ε ρ σ ω P.Drift P.Drop → Option (Config ε ρ σ ω α)
  | .serve client request fuel oracle => (acquire P client request c).bind (complete P oracle fuel)
  | .enter client request count oracle => (acquire P client request c).bind (calls P oracle count)
  | .proceed count oracle => calls P oracle count c
  | .finish =>
      match c with
      | ⟨s, some ⟨client, request, before, .ret value⟩, replies⟩ =>
          some ⟨s, none, ⟨client, request, before, value, s⟩ :: replies⟩
      | _ => none
  | .drift d => (P.drift d c.state).map fun s => ⟨s, c.active, c.replies⟩
  | .cut d =>
      match c with
      | ⟨s, some ⟨_, _, _, .call effect _⟩, replies⟩ =>
          if P.machine.awaits effect = true ∧ P.cuts s then some ⟨P.drop d s, none, replies⟩
          else none
      | _ => none

/-- Play a script. -/
def play (moves : List (Move ε ρ σ ω P.Drift P.Drop)) (c : Config ε ρ σ ω α) :
    Option (Config ε ρ σ ω α) := moves.foldlM (move P) c

variable {P} {init : σ → Prop} {c c' : Config ε ρ σ ω α}

omit [∀ s effect answer, Decidable (P.machine.allowed s effect answer)]
  [∀ s, Decidable (P.cuts s)] in
theorem Reach.acquired {client : ℕ} {request : ω} (h : Reach P init c)
    (hc : Serial.acquire P client request c = some c') : Reach P init c' := by
  unfold Serial.acquire at hc
  split at hc
  · obtain rfl := Option.some.inj hc
    exact .acquire client request h
  · cases hc

omit [∀ s, Decidable (P.cuts s)] in
theorem Reach.calls {oracle : σ → (effect : ε) → ρ effect} {count : ℕ} (h : Reach P init c)
    (hc : Serial.calls P oracle count c = some c') : Reach P init c' := by
  induction count generalizing c with
  | zero =>
    obtain rfl : c = c' := by simpa [Serial.calls] using hc
    exact h
  | succ count ih =>
    unfold Serial.calls at hc
    split at hc
    · dsimp only at hc
      split at hc
      · rename_i hallowed
        exact ih (.call _ h hallowed) hc
      · cases hc
    · cases hc

omit [∀ s, Decidable (P.cuts s)] in
theorem Reach.complete {oracle : σ → (effect : ε) → ρ effect} {fuel : ℕ} (h : Reach P init c)
    (hc : Serial.complete P oracle fuel c = some c') : Reach P init c' := by
  induction fuel generalizing c with
  | zero => cases hc
  | succ fuel ih =>
    unfold Serial.complete at hc
    split at hc
    · obtain rfl := Option.some.inj hc
      exact .finish h
    · dsimp only at hc
      split at hc
      · rename_i hallowed
        exact ih (.call _ h hallowed) hc
      · cases hc
    · cases hc

theorem Reach.move {m : Move ε ρ σ ω P.Drift P.Drop} (h : Reach P init c)
    (hc : Serial.move P c m = some c') : Reach P init c' := by
  cases m with
  | serve client request fuel oracle =>
    obtain ⟨d, hd, hrest⟩ := Option.bind_eq_some_iff.mp hc
    exact (h.acquired hd).complete hrest
  | enter client request count oracle =>
    obtain ⟨d, hd, hrest⟩ := Option.bind_eq_some_iff.mp hc
    exact (h.acquired hd).calls hrest
  | proceed count oracle => exact h.calls hc
  | finish =>
    simp only [Serial.move] at hc
    split at hc
    · obtain rfl := Option.some.inj hc
      exact .finish h
    · cases hc
  | drift d =>
    simp only [Serial.move, Option.map_eq_some_iff] at hc
    obtain ⟨s, hs, rfl⟩ := hc
    exact .drift d h hs
  | cut d =>
    simp only [Serial.move] at hc
    split at hc
    · split at hc
      · rename_i hcut
        obtain rfl := Option.some.inj hc
        exact .cutBefore d h hcut.1 hcut.2
      · cases hc
    · cases hc

/-- A scripted run ends in a reachable configuration. -/
theorem Reach.play {moves : List (Move ε ρ σ ω P.Drift P.Drop)} (h : Reach P init c)
    (hc : Serial.play P moves c = some c') : Reach P init c' := by
  induction moves generalizing c with
  | nil =>
    obtain rfl : c = c' := by simpa [Serial.play] using hc
    exact h
  | cons m moves ih =>
    simp only [Serial.play, List.foldlM_cons, Option.bind_eq_bind] at hc
    obtain ⟨d, hd, hrest⟩ := Option.bind_eq_some_iff.mp hc
    exact ih (h.move hd) hrest

end Play

end Serial
