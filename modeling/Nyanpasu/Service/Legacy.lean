import Nyanpasu.Service.Bridge

/-!
# The legacy state stream

Besides its snapshots the bridge sends a two-valued state, and only when that state changes. It
is compared with what was reported last, not with what was observed last. The bridge is put here
together with a record of the statuses it has dealt with, and of the frame that each one caused.
-/

namespace Nyanpasu.Service

open Moves

/-- A status that the bridge has observed, and the legacy frame it has sent for it. -/
structure Handled where
  status : CoreStatus
  frame : Option IpcState
  deriving DecidableEq, Repr

/-- The event stream with the status that the bridge read first and those it has dealt with,
newest first. -/
structure Watched where
  stream : Stream
  initial : CoreStatus
  handled : List Handled

/-- One move, with its record. -/
def Watched.step (strip : String → String) (w : Watched) (move : StreamMove) : Option Watched :=
  (w.stream.step strip move).map fun stream =>
    match move, w.stream.bridge.phase with
    | .bridge _, .unstarted => { w with stream, initial := w.stream.status.value }
    | .bridge _, .legacy raw =>
        let frame := Stream.legacyEvent w.stream.bridge.last raw
        { w with stream, handled := ⟨raw, frame⟩ :: w.handled }
    | _, _ => { w with stream }

/-- The bridge was just spawned. -/
structure Watched.Spawned (w : Watched) : Prop where
  stream : w.stream.Spawned
  handled : w.handled = []

/-- The state that was reported last: at first, the projection of the initial one. -/
def lastReported (initial : CoreStatus) : List Handled → IpcState
  | [] => mapCoreState initial.state
  | handled :: earlier => handled.frame.getD (lastReported initial earlier)

/-- The frames of the legacy stream, newest first. -/
def legacyFrames (sent : List WsEvent) : List IpcState :=
  sent.filterMap fun event =>
    match event with
    | .coreStateChanged state => some state
    | _ => none

/-- A state that is about to be left. -/
def isPassing : CoreState → Bool
  | .stopping _ | .switching _ _ => true
  | _ => false

/-- A status is reported as the legacy stream promises. -/
structure Handled.Ok (last : IpcState) (handled : Handled) : Prop where
  /-- No frame repeats what was reported last. -/
  fresh : handled.frame ≠ some last
  /-- A state that is not passing is the reported one afterwards. -/
  settled : isPassing handled.status.state = false →
    handled.frame.getD last = mapCoreState handled.status.state
  /-- A passing state does not wake what was reported as stopped. -/
  passing : isPassing handled.status.state = true → ∀ reason, last = .stopped reason →
    handled.frame.getD last ≠ .running

/-- The bridge deals with a notification of the requested core. -/
def Stream.notified (s : Stream) : StreamMove → Bool
  | .commit _ => true
  | .bridge arm =>
      match s.bridge.phase with
      | .waiting => arm = .requestedCore
      | .echoWoken | .echoRead _ | .echoPaired _ _ => true
      | _ => false
  | _ => false

/-- The legacy stream tells the truth. -/
structure Watched.Truthful (strip : String → String) (w : Watched) : Prop where
  /-- Every status was reported as promised, -/
  reported : ∀ handled earlier, handled :: earlier <:+ w.handled →
    handled.Ok (lastReported w.initial earlier)
  /-- and nothing else sends a legacy frame. -/
  frames : legacyFrames w.stream.ring.sent = w.handled.filterMap Handled.frame
  /-- A notification leaves alone what was reported, and what is still to be observed. -/
  notified : ∀ move w', w.stream.notified move = true → w.step strip move = some w' →
    w'.handled = w.handled ∧ legacyFrames w'.stream.ring.sent = legacyFrames w.stream.ring.sent ∧
      w'.stream.bridge.last = w.stream.bridge.last ∧ w'.stream.status = w.stream.status ∧
      w'.stream.bridge.seenStatus = w.stream.bridge.seenStatus

section Laws

variable {strip : String → String} {w w' : Watched} {s s' : Stream} {arm : Arm}

/-- What the guards of the bridge let through is reported as promised. -/
theorem legacyEvent_ok (last : IpcState) (raw : CoreStatus) :
    Handled.Ok last ⟨raw, Stream.legacyEvent last raw⟩ := by
  have hguard : Stream.legacyEvent last raw =
      if (isPassing raw.state && (last ≠ .running)) || decide (last = mapCoreState raw.state) then
        none
      else some (mapCoreState raw.state) := by
    unfold Stream.legacyEvent
    cases raw.state <;> cases last <;> simp [isPassing]
  by_cases hsame : last = mapCoreState raw.state
  · have hnone : Stream.legacyEvent last raw = none := by
      rw [hguard, if_pos]
      simp [hsame]
    rw [hnone]
    exact ⟨by simp, fun _ => hsame, fun _ reason hlast => by simp [hlast]⟩
  · by_cases hpassing : isPassing raw.state = true ∧ last ≠ .running
    · have hnone : Stream.legacyEvent last raw = none := by simp [hguard, hpassing]
      rw [hnone]
      exact ⟨by simp, by simp [hpassing.1], fun _ reason hlast => by simp [hlast]⟩
    · have hsome : Stream.legacyEvent last raw = some (mapCoreState raw.state) := by
        rw [hguard, if_neg]
        simpa [hsame] using hpassing
      rw [hsome]
      refine ⟨fun heq => hsame (Option.some.inj heq).symm, fun _ => rfl, ?_⟩
      intro hpass reason hlast
      exact absurd ⟨hpass, by simp [hlast]⟩ hpassing

/-- What a run keeps. -/
structure Watched.Inv (w : Watched) : Prop where
  reported : ∀ handled earlier, handled :: earlier <:+ w.handled →
    handled.Ok (lastReported w.initial earlier)
  frames : legacyFrames w.stream.ring.sent = w.handled.filterMap Handled.frame
  unstarted : w.stream.bridge.phase = .unstarted → w.handled = []
  last : w.stream.bridge.phase ≠ .unstarted →
    w.stream.bridge.last = lastReported w.initial w.handled

/-- Outside of the legacy part of the bridge nothing is reported. -/
theorem Watched.Inv.same (h : w.Inv) {stream : Stream}
    (hframes : legacyFrames stream.ring.sent = legacyFrames w.stream.ring.sent)
    (hphase : stream.bridge.phase = .unstarted ↔ w.stream.bridge.phase = .unstarted)
    (hlast : stream.bridge.last = w.stream.bridge.last) : Watched.Inv { w with stream } where
  reported := h.reported
  frames := hframes.trans h.frames
  unstarted := fun hun => h.unstarted (hphase.mp hun)
  last := fun hun => hlast.trans (h.last fun heq => hun (hphase.mpr heq))

theorem Stream.atSocket_frame {index : ℕ} {f : Socket → Option Socket}
    (h : s.atSocket index f = some s') :
    s'.bridge = s.bridge ∧ s'.ring = s.ring ∧ s'.status = s.status := by
  simp only [Stream.atSocket, Option.bind_eq_bind, Option.bind_eq_some_iff] at h
  obtain ⟨socket, -, socket', -, heq⟩ := h
  obtain rfl := Option.some.inj heq
  exact ⟨rfl, rfl, rfl⟩

/-- The bridge deals with one more status. -/
theorem Watched.Inv.handle (h : w.Inv) {raw : CoreStatus} {stream : Stream}
    (hphase : w.stream.bridge.phase = .legacy raw)
    (hstep : w.stream.bridgeStep strip arm = some stream) :
    Watched.Inv { w with
      stream, handled := ⟨raw, Stream.legacyEvent w.stream.bridge.last raw⟩ :: w.handled } := by
  have hlast := h.last (by simp [hphase])
  have hok : ∀ handled earlier, handled :: earlier <:+
      ⟨raw, Stream.legacyEvent w.stream.bridge.last raw⟩ :: w.handled →
      handled.Ok (lastReported w.initial earlier) := by
    intro handled earlier hsuffix
    rcases List.suffix_cons_iff.mp hsuffix with heq | hsuffix
    · obtain ⟨rfl, rfl⟩ := List.cons.inj heq
      rw [hlast]
      exact legacyEvent_ok _ raw
    · exact h.reported handled earlier hsuffix
  simp only [Stream.bridgeStep, hphase] at hstep
  cases hevent : Stream.legacyEvent w.stream.bridge.last raw with
  | none =>
    simp only [hevent, Option.some.injEq] at hstep hok
    subst hstep
    exact ⟨hok, h.frames, by rintro ⟨⟩, fun _ => hlast⟩
  | some next =>
    simp only [hevent, Option.some.injEq] at hstep hok
    subst hstep
    refine ⟨hok, ?_, by rintro ⟨⟩, fun _ => by simp [lastReported]⟩
    simp only [Broadcast.send, legacyFrames, List.filterMap_cons]
    exact congrArg (next :: ·) h.frames

theorem Watched.Inv.step (h : w.Inv) {move : StreamMove} (hstep : w.step strip move = some w') :
    w'.Inv := by
  obtain ⟨stream, hstream, rfl⟩ := Option.map_eq_some_iff.mp hstep
  cases move with
  | publish status =>
    obtain rfl := Option.some.inj hstream
    exact h.same rfl Iff.rfl rfl
  | commit committed =>
    obtain rfl := Option.some.inj hstream
    exact h.same rfl Iff.rfl rfl
  | connect =>
    obtain rfl := Option.some.inj hstream
    exact h.same rfl Iff.rfl rfl
  | socket index =>
    obtain ⟨hbridge, hring, -⟩ := Stream.atSocket_frame hstream
    exact h.same (by rw [hring]) (by rw [hbridge]) (by rw [hbridge])
  | log index line =>
    obtain ⟨hbridge, hring, -⟩ := Stream.atSocket_frame hstream
    exact h.same (by rw [hring]) (by rw [hbridge]) (by rw [hbridge])
  | disconnect index =>
    obtain ⟨hbridge, hring, -⟩ := Stream.atSocket_frame hstream
    exact h.same (by rw [hring]) (by rw [hbridge]) (by rw [hbridge])
  | bridge arm =>
    simp only [Stream.step] at hstream
    cases hphase : w.stream.bridge.phase with
    | unstarted =>
      simp only [Stream.bridgeStep, hphase, Option.some.injEq] at hstream
      subst hstream
      have hnone := h.unstarted hphase
      refine ⟨?_, h.frames, by rintro ⟨⟩, fun _ => ?_⟩
      · simp [hnone]
      · simp [hnone, lastReported]
    | legacy raw => exact h.handle hphase hstream
    | waiting =>
      simp only [Stream.bridgeStep, hphase] at hstream
      cases arm with
      | states =>
        obtain ⟨-, heq⟩ := Option.ite_none_right_eq_some.mp hstream
        obtain rfl := Option.some.inj heq
        exact h.same rfl (by simp [hphase]) rfl
      | requestedCore =>
        obtain ⟨-, heq⟩ := Option.ite_none_right_eq_some.mp hstream
        obtain rfl := Option.some.inj heq
        exact h.same rfl (by simp [hphase]) rfl
    | _ =>
      simp only [Stream.bridgeStep, hphase, Option.some.injEq] at hstream
      subst hstream
      exact h.same rfl (by simp [hphase, Stream.enter]) rfl

/-- A notification is a stutter of the legacy stream. -/
theorem Watched.step_notified {move : StreamMove} (hnotified : w.stream.notified move = true)
    (hstep : w.step strip move = some w') :
    w'.handled = w.handled ∧ legacyFrames w'.stream.ring.sent = legacyFrames w.stream.ring.sent ∧
      w'.stream.bridge.last = w.stream.bridge.last ∧ w'.stream.status = w.stream.status ∧
      w'.stream.bridge.seenStatus = w.stream.bridge.seenStatus := by
  obtain ⟨stream, hstream, rfl⟩ := Option.map_eq_some_iff.mp hstep
  cases move with
  | commit committed =>
    obtain rfl := Option.some.inj hstream
    exact ⟨rfl, rfl, rfl, rfl, rfl⟩
  | bridge arm =>
    simp only [Stream.step] at hstream
    cases hphase : w.stream.bridge.phase with
    | waiting =>
      simp only [Stream.notified, hphase, decide_eq_true_eq] at hnotified
      subst hnotified
      simp only [Stream.bridgeStep, hphase] at hstream
      obtain ⟨-, heq⟩ := Option.ite_none_right_eq_some.mp hstream
      obtain rfl := Option.some.inj heq
      exact ⟨rfl, rfl, rfl, rfl, rfl⟩
    | echoWoken | echoRead raw | echoPaired raw requested =>
      simp only [Stream.bridgeStep, hphase, Option.some.injEq] at hstream
      subst hstream
      exact ⟨rfl, rfl, rfl, rfl, rfl⟩
    | _ => simp [Stream.notified, hphase] at hnotified
  | _ => cases hnotified

/-- In every run the legacy stream tells the truth. -/
theorem legacy_truthful
    (h : Reach (Watched.step strip) (fun _ _ => True) Watched.Spawned w) : w.Truthful strip := by
  have hinv : w.Inv := by
    refine h.invariant (fun w hw => ?_) fun w move w' hw _ hstep => hw.step hstep
    refine ⟨?_, ?_, fun _ => hw.handled, fun hun => absurd hw.stream.phase hun⟩
    · simp [hw.handled]
    · simp [hw.handled, hw.stream.ring, legacyFrames]
  exact ⟨hinv.reported, hinv.frames, fun _ _ => Watched.step_notified⟩

/-- The bridge of a new service. -/
def newWatched : Watched where
  stream := ⟨⟨.initial 0, 0⟩, ⟨none, 0⟩, ⟨.unstarted, .running, 0, 0⟩, ⟨[]⟩, []⟩
  initial := .initial 0
  handled := []

theorem spawned_newWatched : newWatched.Spawned := ⟨⟨rfl, rfl, rfl, rfl, rfl⟩, rfl⟩

/-- The moves by which the bridge observes a state. -/
def observe (state : CoreState) : List StreamMove :=
  .publish { CoreStatus.initial 5 with state } :: List.replicate 5 (.bridge .states)

/-- A core comes up, the requested core moves, the core crashes, and a stop follows. -/
theorem legacy_truthful_crashed : ∃ w : Watched,
    legacyFrames w.stream.ring.sent =
        [.stopped (some "stopped by user"), .stopped (some "boom"), .running] ∧
      w.Truthful id := by
  obtain ⟨w, hreach, hw⟩ := exists_reach (Watched.step id) (fun _ _ => True)
    (p := fun w => decide (legacyFrames w.stream.ring.sent =
      [.stopped (some "stopped by user"), .stopped (some "boom"), .running])) spawned_newWatched
    (.bridge .states :: observe (.running 1 7) ++
      .commit (some (.clash .mihomo)) :: List.replicate 4 (.bridge .requestedCore) ++
      observe (.stopped (some (.error "boom"))) ++ observe (.stopping 1) ++
      observe (.stopped (some .user)))
    (by decide +kernel)
  exact ⟨w, of_decide_eq_true hw, legacy_truthful hreach⟩

end Laws

end Nyanpasu.Service
