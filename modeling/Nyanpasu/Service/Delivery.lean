import Nyanpasu.Service.Bridge

/-!
# What a socket has been told

The bridge is quiet when it has seen both channels and owes no snapshot. Then the newest
snapshot in the ring is the current one, and a socket with none before it has the current
one already. Only the first read of the bridge can break this: it marks a status as seen that
a socket may have missed.
-/

namespace Nyanpasu.Service

open Moves

variable {strip : String → String} {s s' : Stream} {socket socket' : Socket}

/-- The snapshot in an event. -/
def WsEvent.status? : WsEvent → Option CoreInfos
  | .coreStatusChanged infos => some infos
  | _ => none

/-- The newest snapshot in a list of events. -/
def lastStatus (events : List WsEvent) : Option CoreInfos := events.findSome? WsEvent.status?

@[simp] theorem lastStatus_nil : lastStatus [] = none := rfl

@[simp] theorem lastStatus_snapshot (infos : CoreInfos) (events : List WsEvent) :
    lastStatus (.coreStatusChanged infos :: events) = some infos := rfl

/-- An event without a snapshot changes nothing. -/
theorem lastStatus_cons {event : WsEvent} {events : List WsEvent} (h : event.status? = none) :
    lastStatus (event :: events) = lastStatus events := by
  simp [lastStatus, h]

/-- The newest snapshot is in the newer part, if there is one. -/
theorem lastStatus_append (newer older : List WsEvent) :
    lastStatus (newer ++ older) = (lastStatus newer).or (lastStatus older) := by
  simp [lastStatus, List.findSome?_append]

/-- Whether a bridge in the phase has sent the snapshot of all it has seen. -/
def BridgePhase.announced : BridgePhase → Bool
  | .unstarted | .waiting | .legacy _ => true
  | _ => false

namespace Stream

/-- The snapshot of the committed values. -/
def current (strip : String → String) (s : Stream) : CoreInfos :=
  projectCoreInfos strip s.status.value s.echo.value

/-- The bridge has seen both channels. -/
structure Caught (s : Stream) : Prop where
  status : s.bridge.seenStatus = s.status.version
  echo : s.bridge.seenEcho = s.echo.version

/-- The bridge has seen both channels and owes no snapshot. -/
structure Quiet (s : Stream) : Prop extends Caught s where
  announced : s.bridge.phase.announced = true

/-- What the bridge has read is current, unless a channel has moved since. -/
def Reads (s : Stream) : BridgePhase → Prop
  | .statusRead raw | .echoRead raw => s.bridge.seenStatus = s.status.version →
      raw = s.status.value
  | .statusPaired raw requested | .echoPaired raw requested => Caught s →
      raw = s.status.value ∧ requested = s.echo.value
  | .unstarted => s.ring.sent = []
  | _ => True

/-- A socket shows the current values, unless it is about to read them. -/
def Shows (strip : String → String) (s : Stream) (socket : Socket) : Prop :=
  match socket.phase with
  | .statusRead raw => raw = s.status.value
  | .sending event => lastStatus (event :: socket.delivered) = some (s.current strip)
  | .idle => lastStatus socket.delivered = some (s.current strip)
  | .subscribed | .lagged | .closed => True

/-- The invariant of one socket. -/
structure SocketOk (strip : String → String) (s : Stream) (socket : Socket) : Prop where
  cursor : socket.cursor ≤ s.ring.tail
  shows : Quiet s → lastStatus (s.ring.pending socket.cursor) = none → s.Shows strip socket

/-- The invariant of the stream. -/
structure Inv (strip : String → String) (s : Stream) : Prop where
  seenStatus : s.bridge.seenStatus ≤ s.status.version
  seenEcho : s.bridge.seenEcho ≤ s.echo.version
  reads : s.Reads s.bridge.phase
  newest : Quiet s → ∀ infos, lastStatus s.ring.sent = some infos → infos = s.current strip
  sockets : ∀ socket ∈ s.sockets, SocketOk strip s socket

/-- The first read of the bridge swallows nothing: no status is unseen, or no socket has read
the status yet. -/
def Unswallowed (s : Stream) : StreamMove → Prop
  | .bridge _ => s.bridge.phase = .unstarted → s.bridge.seenStatus = s.status.version ∨
      ∀ socket ∈ s.sockets, socket.phase = .subscribed ∨ socket.phase = .closed
  | _ => True

theorem Spawned.inv (h : s.Spawned) : Inv strip s where
  seenStatus := h.seenStatus.le
  seenEcho := h.seenEcho.le
  reads := by rw [h.phase]; exact h.ring
  newest := fun _ infos hinfos => by simp [h.ring, lastStatus] at hinfos
  sockets := fun socket hsocket => by simp [h.sockets] at hsocket

/-- A publication leaves the bridge with something to see. -/
theorem Inv.published (h : Inv strip s) (status : CoreStatus) :
    Inv strip { s with status := s.status.send status } := by
  have hunseen : s.bridge.seenStatus ≠ (s.status.send status).version :=
    (Nat.lt_succ_of_le h.seenStatus).ne
  refine ⟨Nat.le_succ_of_le h.seenStatus, h.seenEcho, ?_,
    fun hquiet => absurd hquiet.status hunseen,
    fun socket hsocket => ⟨(h.sockets socket hsocket).cursor,
      fun hquiet => absurd hquiet.status hunseen⟩⟩
  have hreads := h.reads
  cases hphase : s.bridge.phase <;> rw [hphase] at hreads
  case statusRead | echoRead => exact fun hseen => absurd hseen hunseen
  case statusPaired | echoPaired => exact fun hcaught => absurd hcaught.status hunseen
  all_goals exact hreads

/-- So does a commit. -/
theorem Inv.committed (h : Inv strip s) (echo : Option CoreType) :
    Inv strip { s with echo := s.echo.send echo } := by
  have hunseen : s.bridge.seenEcho ≠ (s.echo.send echo).version :=
    (Nat.lt_succ_of_le h.seenEcho).ne
  refine ⟨h.seenStatus, Nat.le_succ_of_le h.seenEcho, ?_, fun hquiet => absurd hquiet.echo hunseen,
    fun socket hsocket => ⟨(h.sockets socket hsocket).cursor,
      fun hquiet => absurd hquiet.echo hunseen⟩⟩
  have hreads := h.reads
  cases hphase : s.bridge.phase <;> rw [hphase] at hreads
  case statusPaired | echoPaired => exact fun hcaught => absurd hcaught.echo hunseen
  all_goals exact hreads

/-- A bridge that owes a snapshot is not quiet. -/
theorem Inv.owing {bridge : Bridge} (h : Inv strip s)
    (hphase : bridge.phase.announced = false) (hstatus : bridge.seenStatus ≤ s.status.version)
    (hecho : bridge.seenEcho ≤ s.echo.version)
    (hreads : ({ s with bridge } : Stream).Reads bridge.phase) :
    Inv strip { s with bridge } := by
  have hnot : ¬ Quiet { s with bridge } := fun hquiet =>
    absurd (hquiet.announced.symm.trans hphase) nofun
  exact ⟨hstatus, hecho, hreads, fun hquiet => absurd hquiet hnot,
    fun socket hsocket => ⟨(h.sockets socket hsocket).cursor, fun hquiet => absurd hquiet hnot⟩⟩

/-- The snapshot that the bridge has paired is sent: it is the newest one, and every socket
has it before it. -/
theorem Inv.sent {bridge : Bridge} {raw : CoreStatus} {requested : Option CoreType}
    (h : Inv strip s) (hstatus : bridge.seenStatus = s.bridge.seenStatus)
    (hecho : bridge.seenEcho = s.bridge.seenEcho) (hphase : bridge.phase.announced = true)
    (hunstarted : bridge.phase ≠ .unstarted)
    (hpaired : Caught s → raw = s.status.value ∧ requested = s.echo.value) :
    Inv strip { s with
      bridge, ring := s.ring.send (.coreStatusChanged
        (projectCoreInfos strip raw requested)) } := by
  refine ⟨hstatus ▸ h.seenStatus, hecho ▸ h.seenEcho, ?_, fun hquiet infos hinfos => ?_,
    fun socket hsocket => ⟨Nat.le_succ_of_le (h.sockets socket hsocket).cursor, fun _ hnone => ?_⟩⟩
  · cases hbridge : bridge.phase with
    | unstarted => exact absurd hbridge hunstarted
    | waiting => trivial
    | legacy raw => trivial
    | _ => simp [hbridge, BridgePhase.announced] at hphase
  · obtain ⟨rfl, rfl⟩ := hpaired ⟨hstatus ▸ hquiet.status, hecho ▸ hquiet.echo⟩
    exact (Option.some.inj hinfos).symm
  · rw [Broadcast.pending_send (h.sockets socket hsocket).cursor] at hnone
    cases hnone

/-- A bridge that sends at most a legacy frame leaves the snapshots as they are. -/
theorem Inv.unannounced {bridge : Bridge} {ring : Broadcast WsEvent} (h : Inv strip s)
    (hring : ring = s.ring ∨ ∃ state, ring = s.ring.send (.coreStateChanged state))
    (hstatus : bridge.seenStatus ≤ s.status.version) (hecho : bridge.seenEcho ≤ s.echo.version)
    (hreads : ({ s with bridge, ring } : Stream).Reads bridge.phase)
    (hquiet : Quiet { s with bridge, ring } → Quiet s) : Inv strip { s with bridge, ring } := by
  have hsent : lastStatus ring.sent = lastStatus s.ring.sent := by
    obtain rfl | ⟨state, rfl⟩ := hring <;> rfl
  have hpending : ∀ socket ∈ s.sockets, socket.cursor ≤ ring.tail ∧
      lastStatus (ring.pending socket.cursor) = lastStatus (s.ring.pending socket.cursor) := by
    intro socket hsocket
    have hcursor := (h.sockets socket hsocket).cursor
    obtain rfl | ⟨state, rfl⟩ := hring
    · exact ⟨hcursor, rfl⟩
    · exact ⟨Nat.le_succ_of_le hcursor, by rw [Broadcast.pending_send hcursor]; rfl⟩
  refine ⟨hstatus, hecho, hreads, fun hq infos hinfos => ?_, fun socket hsocket => ?_⟩
  · exact h.newest (hquiet hq) infos (hsent ▸ hinfos)
  · obtain ⟨hcursor, hlast⟩ := hpending socket hsocket
    exact ⟨hcursor, fun hq hnone => (h.sockets socket hsocket).shows (hquiet hq) (hlast ▸ hnone)⟩

/-- The first read of a bridge that swallows nothing. -/
theorem Inv.started {arm : Arm} (h : Inv strip s) (hadmits : s.Unswallowed (.bridge arm))
    (hphase : s.bridge.phase = .unstarted) :
    Inv strip { s with bridge := { s.bridge with
      phase := .waiting
      last := mapCoreState s.status.value.state
      seenStatus := s.status.version } } := by
  have hempty : s.ring.sent = [] := by
    have := h.reads
    rwa [hphase] at this
  rcases hadmits hphase with hseen | hfresh
  · refine h.unannounced (Or.inl rfl) le_rfl h.seenEcho trivial ?_
    exact fun hquiet => ⟨⟨hseen, hquiet.echo⟩, by rw [hphase]; rfl⟩
  · refine ⟨le_rfl, h.seenEcho, trivial, fun _ infos hinfos => ?_,
      fun socket hsocket => ⟨(h.sockets socket hsocket).cursor, fun _ _ => ?_⟩⟩
    · simp [hempty] at hinfos
    · rcases hfresh socket hsocket with hsubscribed | hclosed
      · simp [Shows, hsubscribed]
      · simp [Shows, hclosed]

/-- A step of the bridge keeps the invariant. -/
theorem Inv.bridged {arm : Arm} (h : Inv strip s) (hadmits : s.Unswallowed (.bridge arm))
    (hstep : s.bridgeStep strip arm = some s') : Inv strip s' := by
  have hreads := h.reads
  unfold bridgeStep at hstep
  cases hphase : s.bridge.phase <;> simp only [hphase] at hstep <;> rw [hphase] at hreads
  case unstarted =>
    obtain rfl := Option.some.inj hstep
    exact h.started hadmits hphase
  case waiting =>
    cases arm <;> dsimp only at hstep <;> split at hstep <;> cases hstep
    · exact h.owing rfl le_rfl h.seenEcho trivial
    · exact h.owing rfl h.seenStatus le_rfl trivial
  case statusWoken =>
    obtain rfl := Option.some.inj hstep
    exact h.owing rfl le_rfl h.seenEcho fun _ => rfl
  case statusRead raw =>
    obtain rfl := Option.some.inj hstep
    exact h.owing rfl h.seenStatus le_rfl fun hcaught => ⟨hreads hcaught.status, rfl⟩
  case statusPaired raw requested =>
    obtain rfl := Option.some.inj hstep
    exact h.sent rfl rfl rfl nofun hreads
  case legacy raw =>
    have hquiet : Caught s → Quiet s := fun hcaught => ⟨hcaught, by rw [hphase]; rfl⟩
    split at hstep <;> obtain rfl := Option.some.inj hstep
    · exact h.unannounced (Or.inl rfl) h.seenStatus h.seenEcho trivial
        fun hq => hquiet ⟨hq.status, hq.echo⟩
    · exact h.unannounced (Or.inr ⟨_, rfl⟩) h.seenStatus h.seenEcho trivial
        fun hq => hquiet ⟨hq.status, hq.echo⟩
  case echoWoken =>
    obtain rfl := Option.some.inj hstep
    exact h.owing rfl h.seenStatus h.seenEcho fun _ => rfl
  case echoRead raw =>
    obtain rfl := Option.some.inj hstep
    exact h.owing rfl h.seenStatus le_rfl fun hcaught => ⟨hreads hcaught.status, rfl⟩
  case echoPaired raw requested =>
    obtain rfl := Option.some.inj hstep
    exact h.sent rfl rfl rfl nofun hreads

/-- The bridge does not look at the sockets. -/
theorem Inv.withSockets {sockets : List Socket} (h : Inv strip s)
    (hsockets : ∀ socket ∈ sockets, SocketOk strip s socket) : Inv strip { s with sockets } := by
  have hquiet : Quiet { s with sockets } → Quiet s := fun hq => ⟨⟨hq.status, hq.echo⟩, hq.announced⟩
  refine ⟨h.seenStatus, h.seenEcho, ?_, fun hq => h.newest (hquiet hq), fun socket hsocket => ?_⟩
  · have hreads := h.reads
    change Reads { s with sockets } s.bridge.phase
    cases hphase : s.bridge.phase <;> rw [hphase] at hreads
    case statusPaired | echoPaired => exact fun hcaught => hreads ⟨hcaught.status, hcaught.echo⟩
    all_goals exact hreads
  · have hok := hsockets socket hsocket
    exact ⟨hok.cursor, fun hq hnone => hok.shows (hquiet hq) hnone⟩

/-- A change of one socket keeps the invariant if the socket keeps its own. -/
theorem Inv.atSocket {index : ℕ} {f : Socket → Option Socket} (h : Inv strip s)
    (hstep : s.atSocket index f = some s')
    (hf : ∀ socket socket', SocketOk strip s socket → f socket = some socket' →
      SocketOk strip s socket') : Inv strip s' := by
  unfold Stream.atSocket at hstep
  simp only [Option.bind_eq_bind, Option.bind_eq_some_iff] at hstep
  obtain ⟨socket, hsocket, socket', hsocket', hs'⟩ := hstep
  obtain rfl := Option.some.inj hs'
  refine h.withSockets fun other hother => ?_
  rcases List.mem_or_eq_of_mem_set hother with hmem | rfl
  · exact h.sockets other hmem
  · exact hf socket _ (h.sockets socket (List.mem_of_getElem? hsocket)) hsocket'

/-- A step of a sender keeps the invariant of its socket. -/
theorem Inv.sender (h : Inv strip s) (hok : SocketOk strip s socket)
    (hstep : s.socketStep strip socket = some socket') : SocketOk strip s socket' := by
  have hshows := hok.shows
  unfold Shows at hshows
  unfold socketStep at hstep
  cases hphase : socket.phase <;> simp only [hphase] at hstep hshows
  case subscribed =>
    obtain rfl := Option.some.inj hstep
    exact ⟨hok.cursor, fun _ _ => rfl⟩
  case statusRead raw =>
    obtain rfl := Option.some.inj hstep
    refine ⟨hok.cursor, fun hquiet hnone => ?_⟩
    simp [Shows, hshows hquiet hnone, current]
  case sending event =>
    obtain rfl := Option.some.inj hstep
    exact ⟨hok.cursor, hshows⟩
  case idle =>
    cases hrecv : s.ring.recv eventChannelCapacity socket.cursor <;> simp only [hrecv] at hstep
    case empty => cases hstep
    case lagged skipped =>
      obtain rfl := Option.some.inj hstep
      exact ⟨hok.cursor, fun _ _ => trivial⟩
    case value event =>
      obtain rfl := Option.some.inj hstep
      obtain ⟨hcursor, hpending⟩ := Broadcast.pending_of_recv hrecv
      refine ⟨hcursor, fun hquiet hnone => ?_⟩
      have hlast : lastStatus (s.ring.pending socket.cursor) = event.status? := by
        rw [hpending, lastStatus_append, hnone]
        cases event <;> rfl
      cases hevent : event.status? with
      | none =>
        refine (lastStatus_cons hevent).trans (hshows hquiet ?_)
        rw [hlast, hevent]
      | some infos =>
        -- The snapshot is the newest one of the ring, since none is pending behind it.
        have hnewest : lastStatus s.ring.sent = some infos := by
          rw [← List.take_append_drop (s.ring.tail - socket.cursor) s.ring.sent, lastStatus_append]
          change (lastStatus (s.ring.pending socket.cursor)).or _ = _
          rw [hlast, hevent]
          rfl
        rw [h.newest hquiet infos hnewest] at hevent
        cases event with
        | coreStatusChanged infos => exact hevent
        | _ => cases hevent
  case lagged =>
    obtain rfl := Option.some.inj hstep
    exact ⟨le_rfl, fun _ _ => trivial⟩
  case closed => cases hstep

/-- Every admitted move keeps the invariant. -/
theorem Inv.step {move : StreamMove} (h : Inv strip s) (hadmits : s.Unswallowed move)
    (hstep : s.step strip move = some s') : Inv strip s' := by
  cases move with
  | publish status =>
    obtain rfl := Option.some.inj hstep
    exact h.published status
  | commit committed =>
    obtain rfl := Option.some.inj hstep
    exact h.committed _
  | bridge arm => exact h.bridged hadmits hstep
  | connect =>
    obtain rfl := Option.some.inj hstep
    refine h.withSockets fun socket hsocket => ?_
    rcases List.mem_append.mp hsocket with hold | hnew
    · exact h.sockets socket hold
    · obtain rfl := List.mem_singleton.mp hnew
      exact ⟨le_rfl, fun _ _ => trivial⟩
  | socket index => exact h.atSocket hstep fun _ _ hok hsender => h.sender hok hsender
  | log index line =>
    refine h.atSocket hstep fun socket socket' hok hlog => ?_
    cases hphase : socket.phase <;> simp only [hphase] at hlog <;> cases hlog
    refine ⟨hok.cursor, fun hquiet hnone => ?_⟩
    have hshows := hok.shows hquiet hnone
    simp only [Shows, hphase] at hshows
    exact hshows
  | disconnect index =>
    refine h.atSocket hstep fun socket socket' hok hclose => ?_
    obtain rfl := Option.some.inj hclose
    exact ⟨hok.cursor, fun _ _ => trivial⟩

end Stream

section Convergence

/-- A socket that has drained its ring has been told the committed values, once the bridge
has nothing left to see. -/
def Converged (strip : String → String) (s : Stream) : Prop :=
  s.bridge.phase = .waiting → s.status.changed s.bridge.seenStatus = false →
    s.echo.changed s.bridge.seenEcho = false → ∀ socket ∈ s.sockets, socket.phase = .idle →
      socket.cursor = s.ring.tail →
      lastStatus socket.delivered = some (projectCoreInfos strip s.status.value s.echo.value)

/-- Every socket converges in every run in which the first read of the bridge swallows
nothing. -/
theorem sockets_converge (h : Reach (Stream.step strip) Stream.Unswallowed Stream.Spawned s) :
    Converged strip s := by
  have hinv : Stream.Inv strip s :=
    h.invariant (fun _ hspawned => hspawned.inv) fun _ _ _ hinv => hinv.step
  intro hphase hstatus hecho socket hsocket hidle hdrained
  have hquiet : Stream.Quiet s :=
    ⟨⟨by simpa [Watch.changed] using hstatus, by simpa [Watch.changed] using hecho⟩,
      by rw [hphase]; rfl⟩
  have hshows := (hinv.sockets socket hsocket).shows hquiet
    (by rw [hdrained, Broadcast.pending_tail]; rfl)
  simp only [Stream.Shows, hidle] at hshows
  exact hshows

instance (s : Stream) (move : StreamMove) : Decidable (s.Unswallowed move) := by
  cases move <;> dsimp only [Stream.Unswallowed] <;> infer_instance

instance (strip : String → String) (s : Stream) : Decidable (Converged strip s) :=
  decidable_of_iff
    (¬(s.bridge.phase = .waiting ∧ s.status.changed s.bridge.seenStatus = false ∧
        s.echo.changed s.bridge.seenEcho = false) ∨
      ∀ socket ∈ s.sockets, ¬(socket.phase = .idle ∧ socket.cursor = s.ring.tail) ∨
        lastStatus socket.delivered = some (projectCoreInfos strip s.status.value s.echo.value))
    (by simp only [Converged, ← imp_iff_not_or, and_imp])

/-- The stream of a new service. -/
def newStream : Stream where
  status := ⟨.initial 0, 0⟩
  echo := ⟨none, 0⟩
  bridge := ⟨.unstarted, .running, 0, 0⟩
  ring := ⟨[]⟩
  sockets := []

theorem spawned_newStream : newStream.Spawned := ⟨rfl, rfl, rfl, rfl, rfl⟩

/-- The status of a core that came up. -/
def runningStatus : CoreStatus := { CoreStatus.initial 5 with state := .running 1 7 }

/-- A socket is connected while the bridge starts, and both channels move. -/
theorem sockets_converge_moved : ∃ s,
    Reach (Stream.step id) Stream.Unswallowed Stream.Spawned s ∧ Converged id s ∧
      s.sockets.map (fun socket => lastStatus socket.delivered) =
        [some (projectCoreInfos id runningStatus (some (.clash .mihomo)))] := by
  obtain ⟨s, hreach, hs⟩ := exists_reach (Stream.step id) Stream.Unswallowed
    (p := fun s => s.sockets.map (fun socket => lastStatus socket.delivered) =
      [some (projectCoreInfos id runningStatus (some (.clash .mihomo)))]) spawned_newStream
    [.connect, .bridge .states, .publish runningStatus, .socket 0, .bridge .states,
      .commit (some (.clash .mihomo)), .bridge .states, .bridge .states, .bridge .states,
      .bridge .states, .socket 0, .socket 0, .socket 0, .socket 0, .socket 0, .socket 0]
    (by decide +kernel)
  exact ⟨s, hreach, sockets_converge hreach, of_decide_eq_true hs⟩

/-- A socket has its snapshot when a status is published, and the bridge starts after that:
the status is never sent. -/
theorem swallowed_status : ∃ s,
    Reach (Stream.step id) (fun _ _ => True) Stream.Spawned s ∧ ¬ Converged id s := by
  obtain ⟨s, hreach, hs⟩ := exists_reach (Stream.step id) (fun _ _ => True)
    (p := fun s => ¬ Converged id s) spawned_newStream
    [.connect, .socket 0, .socket 0, .socket 0, .publish runningStatus, .bridge .states]
    (by decide +kernel)
  exact ⟨s, hreach, of_decide_eq_true hs⟩

end Convergence

end Nyanpasu.Service
