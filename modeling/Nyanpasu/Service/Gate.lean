import Nyanpasu.Lib.Moves
import Nyanpasu.Lib.Permits

/-!
# The gate of the service

Requests reach the manager through a lock, which also guards the latch of the shutdown. A
control operation keeps the lock while it is in the manager; a config check gives it back and
takes one of a few slots, or is refused; the shutdown sets the latch, gives the lock back and
then stops the core. The timeout may drop any request where it awaits, but not the shutdown.
-/

namespace Nyanpasu.Service

open Moves Permits

/-- `MAX_CONCURRENT_CHECKS`. -/
def maxConcurrentChecks : ℕ := 2

/-- The shapes of the requests of `CoreManagerService`. -/
inductive CallerKind where
  /-- `start`, `stop`, `restart`, `apply` and `recover`. -/
  | control
  | check
  | shutdown
  deriving DecidableEq, Repr

/-- Where a request stands. -/
inductive CallerStage where
  /-- In `control.lock().await`. -/
  | waiting
  /-- With the lock, before it looks at the latch. -/
  | locked
  /-- A control operation, in the manager, with the lock. -/
  | serving
  /-- A check that gave the lock back. -/
  | admitted
  /-- A check with a slot. -/
  | checking
  /-- The shutdown, in the manager, without the lock. -/
  | stopping
  | served
  /-- The service is shutting down. -/
  | refused
  /-- Too many checks run. -/
  | flooded
  | stopped
  | dropped
  deriving DecidableEq, Repr

/-- A request. -/
structure Caller where
  kind : CallerKind
  stage : CallerStage
  deriving DecidableEq, Repr

namespace Caller

/-- Whether it has the lock. -/
def locks (caller : Caller) : Bool := caller.stage = .locked || caller.stage = .serving

/-- Whether it has a slot. -/
def checks (caller : Caller) : Bool := caller.stage = .checking

/-- Whether it has set the latch. -/
def latches (caller : Caller) : Bool := caller.stage = .stopping || caller.stage = .stopped

/-- Whether it is in an operation of the manager that changes something. -/
def manages (caller : Caller) : Bool := caller.stage = .serving || caller.stage = .stopping

end Caller

/-- `Inner`: the permits of the lock and of the check slots, and the latch of `ControlState`; and
the requests so far. -/
structure Gate where
  lock : ℕ
  closing : Bool
  slots : ℕ
  callers : List Caller
  deriving DecidableEq

/-- What can happen next. -/
inductive GateMove where
  | arrive (kind : CallerKind)
  | acquire (index : ℕ)
  /-- The latch is read and obeyed. -/
  | look (index : ℕ)
  /-- `check_slots.try_acquire()`. -/
  | slot (index : ℕ)
  | finish (index : ℕ)
  | drop (index : ℕ)
  deriving DecidableEq, Repr

namespace Gate

/-- A request moves on. -/
def enter (g : Gate) (index : ℕ) (caller : Caller) (stage : CallerStage) : Gate :=
  { g with callers := g.callers.set index { caller with stage } }

/-- What a request does once it has the lock. -/
def look (g : Gate) (index : ℕ) (caller : Caller) : Gate :=
  if g.closing then { g.enter index caller .refused with lock := g.lock + 1 }
  else match caller.kind with
    | .control => g.enter index caller .serving
    | .check => { g.enter index caller .admitted with lock := g.lock + 1 }
    | .shutdown =>
        { g.enter index caller .stopping with closing := true, lock := g.lock + 1 }

/-- A check that finds no slot is refused, not queued. -/
def slot (g : Gate) (index : ℕ) (caller : Caller) : Gate :=
  if 0 < g.slots then { g.enter index caller .checking with slots := g.slots - 1 }
  else g.enter index caller .flooded

/-- A request returns. -/
def finish (g : Gate) (index : ℕ) (caller : Caller) : Option Gate :=
  match caller.stage with
  | .serving => some { g.enter index caller .served with lock := g.lock + 1 }
  | .checking => some { g.enter index caller .served with slots := g.slots + 1 }
  | .stopping => some (g.enter index caller .stopped)
  | _ => none

/-- A request is dropped where it awaits; its guards go with it. -/
def drop (g : Gate) (index : ℕ) (caller : Caller) : Option Gate :=
  match caller.stage with
  | .waiting => if caller.kind = .shutdown then none else some (g.enter index caller .dropped)
  | .serving => some { g.enter index caller .dropped with lock := g.lock + 1 }
  | .checking => some { g.enter index caller .dropped with slots := g.slots + 1 }
  | _ => none

/-- One move. -/
def step (g : Gate) : GateMove → Option Gate
  | .arrive kind => some { g with callers := g.callers ++ [⟨kind, .waiting⟩] }
  | .acquire index => g.callers[index]?.bind fun caller =>
      if caller.stage = .waiting ∧ 0 < g.lock then
        some { g.enter index caller .locked with lock := g.lock - 1 }
      else none
  | .look index => g.callers[index]?.bind fun caller =>
      if caller.stage = .locked then some (g.look index caller) else none
  | .slot index => g.callers[index]?.bind fun caller =>
      if caller.stage = .admitted then some (g.slot index caller) else none
  | .finish index => g.callers[index]?.bind fun caller => g.finish index caller
  | .drop index => g.callers[index]?.bind fun caller => g.drop index caller

end Gate

/-- The gate of a new service. -/
def newGate : Gate := ⟨1, false, maxConcurrentChecks, []⟩

/-- The gates that any interleaving leads to. -/
abbrev Gate.Run : Gate → Prop := Reach Gate.step (fun _ _ => True) (Eq newGate)

/-- What one move does: a request comes in, or one goes from a stage to another. The fields say
what it takes and gives back, and where it is that the latch matters. -/
structure Gate.Moved (g g' : Gate) (index : ℕ) (caller caller' : Caller) : Prop where
  before : g.callers[index]? = some caller
  after : g'.callers = g.callers.set index caller'
  lock : g'.lock + caller'.locks.toNat = g.lock + caller.locks.toNat
  slots : g'.slots + caller'.checks.toNat = g.slots + caller.checks.toNat
  latch : (!g'.closing).toNat + caller'.latches.toNat = (!g.closing).toNat + caller.latches.toNat
  kept : g.closing = true → g'.closing = true
  /-- The latch is set by a request with the lock. -/
  set : g'.closing = true → g.closing = true ∨ caller.locks = true ∧ caller'.stage ≠ .serving
  /-- Once the latch is set no request enters the manager to change something, and no check is
  let in. -/
  begun : caller'.manages = true ∨ caller'.stage = .admitted → g.closing = false
  /-- A slot is taken by a check that was let in. -/
  slotted : caller'.stage = .checking → caller = { caller' with stage := .admitted }
  kind : caller'.kind = caller.kind
  /-- Only a shutdown sets the latch. -/
  latched : caller'.latches = true → caller.latches = true ∨ caller.kind = .shutdown

variable {g g' : Gate} {index : ℕ} {caller : Caller}

/-- A move between stages that touch neither the lock nor a slot nor the latch. -/
theorem Gate.moved_of_plain {stage : CallerStage} (hget : g.callers[index]? = some caller)
    (hlocks : caller.locks = false) (hchecks : caller.checks = false)
    (hstage : stage = .dropped ∨ stage = .flooded) (hlatches : caller.latches = false) :
    g.Moved (g.enter index caller stage) index caller { caller with stage } := by
  refine ⟨hget, rfl, ?_, ?_, ?_, id, Or.inl, ?_, ?_, rfl, ?_⟩
  all_goals
    rcases hstage with rfl | rfl <;> simp_all [Gate.enter, Caller.locks, Caller.checks,
      Caller.latches, Caller.manages]

theorem Gate.moved_of_look (hget : g.callers[index]? = some caller)
    (hstage : caller.stage = .locked) :
    ∃ caller', g.Moved (g.look index caller) index caller caller' := by
  cases hclosing : g.closing with
  | true =>
    refine ⟨{ caller with stage := .refused }, hget, ?_, ?_, ?_, ?_, ?_, ?_, ?_, ?_, rfl, ?_⟩
    all_goals simp [Gate.look, Gate.enter, hclosing, hstage, Caller.locks, Caller.checks,
      Caller.latches, Caller.manages]
  | false =>
    cases hkind : caller.kind with
    | control =>
      refine ⟨{ caller with stage := .serving }, hget, ?_, ?_, ?_, ?_, ?_, ?_, ?_, ?_, rfl, ?_⟩
      all_goals simp [Gate.look, Gate.enter, hclosing, hkind, hstage, Caller.locks,
        Caller.checks, Caller.latches, Caller.manages]
    | check =>
      refine ⟨{ caller with stage := .admitted }, hget, ?_, ?_, ?_, ?_, ?_, ?_, ?_, ?_, rfl, ?_⟩
      all_goals simp [Gate.look, Gate.enter, hclosing, hkind, hstage, Caller.locks,
        Caller.checks, Caller.latches, Caller.manages]
    | shutdown =>
      refine ⟨{ caller with stage := .stopping }, hget, ?_, ?_, ?_, ?_, ?_, ?_, ?_, ?_, rfl, ?_⟩
      all_goals simp [Gate.look, Gate.enter, hclosing, hkind, hstage, Caller.locks,
        Caller.checks, Caller.latches, Caller.manages]

theorem Gate.moved_of_acquire (hget : g.callers[index]? = some caller)
    (hstage : caller.stage = .waiting) (hfree : 0 < g.lock) :
    g.Moved { g.enter index caller .locked with lock := g.lock - 1 } index caller
      { caller with stage := .locked } := by
  refine ⟨hget, rfl, ?_, ?_, ?_, id, Or.inl, ?_, ?_, rfl, ?_⟩
  · simp [Caller.locks, hstage]
    omega
  all_goals simp [Gate.enter, hstage, Caller.checks, Caller.latches, Caller.manages]

theorem Gate.moved_of_slot (hget : g.callers[index]? = some caller)
    (hstage : caller.stage = .admitted) :
    ∃ caller', g.Moved (g.slot index caller) index caller caller' := by
  by_cases hfree : 0 < g.slots
  · refine ⟨{ caller with stage := .checking }, hget, ?_, ?_, ?_, ?_, ?_, ?_, ?_, ?_, rfl, ?_⟩
    case refine_3 =>
      simp [Gate.slot, Gate.enter, hfree, Caller.checks, hstage]
      omega
    case refine_8 =>
      obtain ⟨kind, stage⟩ := caller
      exact fun _ => congrArg (Caller.mk kind) hstage
    all_goals simp [Gate.slot, Gate.enter, hfree, hstage, Caller.locks, Caller.latches,
      Caller.manages]
  · rw [Gate.slot, if_neg hfree]
    exact ⟨_, Gate.moved_of_plain hget (by simp [Caller.locks, hstage])
      (by simp [Caller.checks, hstage]) (Or.inr rfl) (by simp [Caller.latches, hstage])⟩

theorem Gate.moved_of_finish (hget : g.callers[index]? = some caller)
    (h : g.finish index caller = some g') : ∃ caller', g.Moved g' index caller caller' := by
  cases hstage : caller.stage with
  | serving | checking =>
    simp only [Gate.finish, hstage, Option.some.injEq] at h
    subst h
    refine ⟨{ caller with stage := .served }, hget, ?_, ?_, ?_, ?_, ?_, ?_, ?_, ?_, rfl, ?_⟩
    all_goals simp [Gate.enter, hstage, Caller.locks, Caller.checks, Caller.latches,
      Caller.manages]
  | stopping =>
    simp only [Gate.finish, hstage, Option.some.injEq] at h
    subst h
    refine ⟨{ caller with stage := .stopped }, hget, ?_, ?_, ?_, ?_, ?_, ?_, ?_, ?_, rfl, ?_⟩
    all_goals simp [Gate.enter, hstage, Caller.locks, Caller.checks, Caller.latches,
      Caller.manages]
  | waiting | locked | admitted | served | refused | flooded | stopped | dropped =>
    simp only [Gate.finish, hstage] at h
    cases h

theorem Gate.moved_of_drop (hget : g.callers[index]? = some caller)
    (h : g.drop index caller = some g') : ∃ caller', g.Moved g' index caller caller' := by
  cases hstage : caller.stage with
  | waiting =>
    simp only [Gate.drop, hstage] at h
    split at h
    · cases h
    · obtain rfl := Option.some.inj h
      exact ⟨_, Gate.moved_of_plain hget (by simp [Caller.locks, hstage])
        (by simp [Caller.checks, hstage]) (Or.inl rfl) (by simp [Caller.latches, hstage])⟩
  | serving | checking =>
    simp only [Gate.drop, hstage, Option.some.injEq] at h
    subst h
    refine ⟨{ caller with stage := .dropped }, hget, ?_, ?_, ?_, ?_, ?_, ?_, ?_, ?_, rfl, ?_⟩
    all_goals simp [Gate.enter, hstage, Caller.locks, Caller.checks, Caller.latches,
      Caller.manages]
  | stopping | locked | admitted | served | refused | flooded | stopped | dropped =>
    simp only [Gate.drop, hstage] at h
    cases h

theorem Gate.moved_of_step {move : GateMove} (h : g.step move = some g') :
    (∃ kind, g' = { g with callers := g.callers ++ [⟨kind, .waiting⟩] }) ∨
      ∃ index caller caller', g.Moved g' index caller caller' := by
  cases move with
  | arrive kind => exact Or.inl ⟨kind, (Option.some.inj h).symm⟩
  | acquire index =>
    obtain ⟨caller, hget, hnext⟩ := Option.bind_eq_some_iff.mp h
    split at hnext
    next hcan =>
      obtain rfl := Option.some.inj hnext
      exact Or.inr ⟨index, caller, _, Gate.moved_of_acquire hget hcan.1 hcan.2⟩
    next => cases hnext
  | look index =>
    obtain ⟨caller, hget, hnext⟩ := Option.bind_eq_some_iff.mp h
    split at hnext
    next hstage =>
      obtain rfl := Option.some.inj hnext
      exact Or.inr ⟨index, caller, Gate.moved_of_look hget hstage⟩
    next => cases hnext
  | slot index =>
    obtain ⟨caller, hget, hnext⟩ := Option.bind_eq_some_iff.mp h
    split at hnext
    next hstage =>
      obtain rfl := Option.some.inj hnext
      exact Or.inr ⟨index, caller, Gate.moved_of_slot hget hstage⟩
    next => cases hnext
  | finish index =>
    obtain ⟨caller, hget, hnext⟩ := Option.bind_eq_some_iff.mp h
    exact Or.inr ⟨index, caller, Gate.moved_of_finish hget hnext⟩
  | drop index =>
    obtain ⟨caller, hget, hnext⟩ := Option.bind_eq_some_iff.mp h
    exact Or.inr ⟨index, caller, Gate.moved_of_drop hget hnext⟩

/-- The invariant of the gate: the lock, the slots and the latch are conserved, the latch is the
shutdown's, and no control operation is in the manager once it is set. -/
structure Gate.Sound (g : Gate) : Prop where
  lock : Conserved (fun caller : Caller => caller.locks.toNat) 1 g.lock g.callers
  slots : Conserved (fun caller : Caller => caller.checks.toNat) maxConcurrentChecks g.slots
    g.callers
  latch : Conserved (fun caller : Caller => caller.latches.toNat) 1 (!g.closing).toNat g.callers
  shutdown : ∀ caller ∈ g.callers, caller.latches = true → caller.kind = .shutdown
  serving : g.closing = true → ∀ caller ∈ g.callers, caller.stage ≠ .serving

theorem Gate.Sound.moved {caller' : Caller} (h : g.Sound)
    (hmoved : g.Moved g' index caller caller') :
    g'.Sound := by
  obtain ⟨hbefore, hafter, hlock, hslots, hlatch, -, hset, hbegun, -, hkind, hlatched⟩ := hmoved
  refine ⟨?_, ?_, ?_, fun other hother hlatches => ?_, fun hclosing other hother hserving => ?_⟩
  · rw [hafter]
    exact h.lock.move hbefore hlock
  · rw [hafter]
    exact h.slots.move hbefore hslots
  · rw [hafter]
    exact h.latch.move hbefore hlatch
  · rw [hafter] at hother
    rcases List.mem_or_eq_of_mem_set hother with hmem | rfl
    · exact h.shutdown other hmem hlatches
    · rw [hkind]
      rcases hlatched hlatches with hwas | hshutdown
      · exact h.shutdown caller (List.mem_of_getElem? hbefore) hwas
      · exact hshutdown
  · rw [hafter] at hother
    rcases List.mem_or_eq_of_mem_set hother with hmem | rfl
    · -- It was serving before, so that the latch was set just now, by a request with the lock.
      rcases hset hclosing with hwas | ⟨hlocks, hnot⟩
      · exact h.serving hwas other hmem hserving
      · obtain ⟨j, hj⟩ := List.mem_iff_getElem?.mp hother
        have hholds : other.locks = true := by simp [Caller.locks, hserving]
        by_cases hji : j = index
        · subst hji
          rw [List.getElem?_set_self'] at hj
          obtain ⟨_, -, heq⟩ := Option.map_eq_some_iff.mp hj
          have heq' : caller' = other := heq
          exact hnot (heq' ▸ hserving)
        · rw [List.getElem?_set_ne (Ne.symm hji)] at hj
          exact hji (h.lock.exclusive hj hbefore (by simp [hholds]) (by simp [hlocks]))
    · have hopen : g.closing = false := hbegun (Or.inl (by simp [Caller.manages, hserving]))
      rcases hset hclosing with hwas | ⟨-, hnot⟩
      · rw [hopen] at hwas
        cases hwas
      · exact hnot hserving

theorem Gate.Sound.step {move : GateMove} (h : g.Sound) (hstep : g.step move = some g') :
    g'.Sound := by
  rcases Gate.moved_of_step hstep with ⟨kind, rfl⟩ | ⟨index, caller, caller', hmoved⟩
  · refine ⟨h.lock.arrive rfl, h.slots.arrive rfl, h.latch.arrive rfl,
      fun other hother hlatches => ?_, fun hclosing other hother => ?_⟩
    · rcases List.mem_append.mp hother with hmem | hmem
      · exact h.shutdown other hmem hlatches
      · obtain rfl := List.mem_singleton.mp hmem
        cases hlatches
    rcases List.mem_append.mp hother with hmem | hmem
    · exact h.serving hclosing other hmem
    · obtain rfl := List.mem_singleton.mp hmem
      intro heq
      cases heq
  · exact h.moved hmoved

theorem Gate.Run.sound (h : Gate.Run g) : g.Sound := by
  refine Reach.invariant ?_ (fun _ _ _ hs _ hstep => hs.step hstep) h
  rintro _ rfl
  exact ⟨rfl, rfl, rfl, fun _ hmem => absurd hmem List.not_mem_nil,
    fun _ _ hmem => absurd hmem List.not_mem_nil⟩

/-- What a request of a later gate was where the latch was set. -/
structure Gate.Remains (g : Gate) (index : ℕ) (caller : Caller) : Prop where
  /-- Only the shutdown that has set the latch is in an operation that changes something. -/
  manages : caller.manages = true →
    caller.kind = .shutdown ∧ caller.stage = .stopping ∧ g.callers[index]? = some caller
  admitted : caller.stage = .admitted → g.callers[index]? = some caller
  /-- A check runs if it ran, or was let in, before. -/
  checking : caller.stage = .checking →
    g.callers[index]? = some caller ∨ g.callers[index]? = some { caller with stage := .admitted }

/-- A request that stands where it stood. -/
theorem Gate.Sound.remains (h : g.Sound) (hclosing : g.closing = true)
    (hget : g.callers[index]? = some caller) : g.Remains index caller := by
  refine ⟨fun hmanages => ?_, fun _ => hget, fun _ => Or.inl hget⟩
  have hmem : caller ∈ g.callers := List.mem_of_getElem? hget
  have hstopping : caller.stage = .stopping := by
    simp only [Caller.manages, Bool.or_eq_true, decide_eq_true_eq] at hmanages
    exact hmanages.resolve_left (h.serving hclosing caller hmem)
  exact ⟨h.shutdown caller hmem (by simp [Caller.latches, hstopping]), hstopping, hget⟩

/-- From where the latch is set, no request enters the manager to change something. -/
theorem Gate.Sound.remains_of_reach (hsound : g.Sound) (hclosing : g.closing = true)
    (h : Reach Gate.step (fun _ _ => True) (Eq g) g') : g'.closing = true ∧
      ∀ (index : ℕ) (caller : Caller), g'.callers[index]? = some caller →
        g.Remains index caller := by
  induction h with
  | start hs =>
    subst hs
    exact ⟨hclosing, fun _ _ hget => hsound.remains hclosing hget⟩
  | @move g₁ g₂ move hreach _ hstep ih =>
    obtain ⟨hkept, hremains⟩ := ih
    rcases Gate.moved_of_step hstep with ⟨kind, rfl⟩ | ⟨index, caller, caller', hmoved⟩
    · refine ⟨hkept, fun j other hget => ?_⟩
      have hget' : (g₁.callers ++ [⟨kind, .waiting⟩])[j]? = some other := hget
      rw [List.getElem?_append] at hget'
      split at hget'
      · exact hremains j other hget'
      · obtain rfl := List.mem_singleton.mp (List.mem_of_getElem? hget')
        constructor <;> intro hother <;> cases hother
    · refine ⟨hmoved.kept hkept, fun j other hget => ?_⟩
      rw [hmoved.after] at hget
      by_cases hj : j = index
      · subst hj
        rw [List.getElem?_set_self'] at hget
        obtain ⟨_, -, heq⟩ := Option.map_eq_some_iff.mp hget
        obtain rfl : caller' = other := heq
        have hnot : ¬(caller'.manages = true ∨ caller'.stage = .admitted) := by
          intro hbegun
          have hopen := hmoved.begun hbegun
          rw [hkept] at hopen
          cases hopen
        refine ⟨fun hmanages => absurd (Or.inl hmanages) hnot,
          fun hadmitted => absurd (Or.inr hadmitted) hnot, fun hchecking => Or.inr ?_⟩
        have hwas := hmoved.slotted hchecking
        have hadmitted := (hremains j caller hmoved.before).admitted (by rw [hwas])
        rwa [hwas] at hadmitted
      · rw [List.getElem?_set_ne (Ne.symm hj)] at hget
        exact hremains j other hget

/-- **The manager is served alone.** In every run at most one request is in an operation of the
manager that changes something, be it a control operation or the shutdown; the checks that run
and the free slots are always two, whatever is dropped. Once the latch is set it stays so, and
only the shutdown that has set it changes something; no check is let in, but one that was let in
before may still take a slot and run. -/
theorem served_alone (h : Gate.Run g) :
    (∀ (i j : ℕ) (a b : Caller), g.callers[i]? = some a → g.callers[j]? = some b →
      a.manages = true → b.manages = true → i = j) ∧
    g.slots + g.callers.countP Caller.checks = maxConcurrentChecks ∧
    g.lock + g.callers.countP Caller.locks = 1 ∧
    (g.closing = true → ∀ g', Reach Gate.step (fun _ _ => True) (Eq g) g' →
      g'.closing = true ∧ ∀ (i : ℕ) (a : Caller), g'.callers[i]? = some a → g.Remains i a) := by
  have hsound := h.sound
  refine ⟨fun i j a b ha hb hamanages hbmanages => ?_, ?_, ?_,
    fun hclosing g' hlater => hsound.remains_of_reach hclosing hlater⟩
  · have hpart : ∀ {k : ℕ} {caller : Caller}, g.callers[k]? = some caller →
        caller.manages = true → caller.locks = true ∧ g.closing = false ∨
          caller.latches = true ∧ g.closing = true := by
      intro k caller hget hmanages
      simp only [Caller.manages, Bool.or_eq_true, decide_eq_true_eq] at hmanages
      rcases hmanages with hserving | hstopping
      · refine Or.inl ⟨by simp [Caller.locks, hserving], ?_⟩
        by_contra hclosing
        exact hsound.serving (by simpa using hclosing) caller (List.mem_of_getElem? hget) hserving
      · have hlatches : caller.latches = true := by simp [Caller.latches, hstopping]
        refine Or.inr ⟨hlatches, ?_⟩
        have hlt := hsound.latch.free_lt hget (by simp [hlatches])
        cases hclosing : g.closing with
        | true => rfl
        | false => simp [hclosing] at hlt
    rcases hpart ha hamanages with ⟨hal, hopen⟩ | ⟨hal, hclosing⟩
    · rcases hpart hb hbmanages with ⟨hbl, -⟩ | ⟨-, hclosing⟩
      · exact hsound.lock.exclusive ha hb (by simp [hal]) (by simp [hbl])
      · rw [hopen] at hclosing
        cases hclosing
    · rcases hpart hb hbmanages with ⟨-, hopen⟩ | ⟨hbl, -⟩
      · rw [hopen] at hclosing
        cases hclosing
      · exact hsound.latch.exclusive ha hb (by simp [hal]) (by simp [hbl])
  · rw [← held_toNat]
    exact hsound.slots
  · rw [← held_toNat]
    exact hsound.lock

/-- Two checks run and a third one is refused; a fourth one is let in before the shutdown sets the
latch, and takes the slot of a dropped one afterwards. -/
theorem served_alone_flooded : ∃ g, Gate.Run g ∧ g.closing = true ∧
    g.callers.map Caller.stage =
      [.checking, .dropped, .flooded, .served, .stopping, .refused, .checking] ∧
    g.slots + g.callers.countP Caller.checks = maxConcurrentChecks := by
  obtain ⟨g, hreach, hg⟩ := exists_reach Gate.step (fun _ _ => True)
    (p := fun g => g.closing && decide (g.callers.map Caller.stage =
      [.checking, .dropped, .flooded, .served, .stopping, .refused, .checking])) (Eq.refl newGate)
    [.arrive .check, .acquire 0, .look 0, .slot 0, .arrive .check, .acquire 1, .look 1, .slot 1,
      .arrive .check, .acquire 2, .look 2, .slot 2, .drop 1, .arrive .control, .acquire 3, .look 3,
      .arrive .shutdown, .arrive .control, .arrive .check, .finish 3, .acquire 6, .look 6,
      .acquire 4, .look 4, .slot 6, .acquire 5, .look 5]
    (by decide +kernel)
  simp only [Bool.and_eq_true, decide_eq_true_eq] at hg
  exact ⟨g, hreach, hg.1, hg.2, (served_alone hreach).2.1⟩

end Nyanpasu.Service
