import Nyanpasu.Service.Delivery

/-!
# Two rings

Core log lines reach a socket through a ring of their own: the manager's channel, the bridge
that forwards it, and the ring of the hub, of which every socket has a receiver beside the one
for statuses. A socket that falls behind there loses lines and nothing else. So the statuses
of a socket are those of a run without any line, and the lines are those of the manager, in
their order.
-/

namespace Nyanpasu.Service

open Moves

/-- `LOG_EVENT_CHANNEL_CAPACITY`. -/
def logEventChannelCapacity : ℕ := 1024

/-- `LOG_CHANNEL_CAPACITY`. -/
def logChannelCapacity : ℕ := 256

/-- The receiver of log lines of a socket: where it started, where it is, and how many lines it
has lost. -/
structure LogReader where
  began : ℕ
  cursor : ℕ
  missed : ℕ
  deriving DecidableEq

/-- `EventHub` with what is upstream of it: the log channel of the manager, and how much of it
the bridge has taken. -/
structure Hub where
  stream : Stream
  source : Broadcast String
  taken : ℕ
  lines : Broadcast String
  readers : ℕ → LogReader

/-- What can happen next. -/
inductive HubMove where
  /-- A move that has nothing to do with the log ring. -/
  | stream (move : StreamMove)
  /-- The manager has a line. -/
  | emit (line : String)
  /-- The log bridge makes a step. -/
  | forward
  /-- The sender of a socket reads the log ring. -/
  | read (index : ℕ)

/-- The moves on the stream that read no log line. -/
def StreamMove.silent : StreamMove → Prop
  | .log _ _ => False
  | _ => True

namespace Hub

/-- `has_log_subscribers`. -/
def hasLogSubscribers (h : Hub) : Bool := h.stream.sockets.any fun socket => socket.phase ≠ .closed

/-- The log bridge of `spawn_bridges`. -/
def forward (h : Hub) : Option Hub :=
  match h.source.recv logChannelCapacity h.taken with
  | .empty => none
  | .lagged skipped => some { h with taken := h.taken + skipped }
  | .value line =>
    if h.hasLogSubscribers then
      some { h with taken := h.taken + 1, lines := h.lines.send line }
    else some { h with taken := h.taken + 1 }

/-- The log arm of the sender of a socket. Falling behind costs the backlog: `resubscribe` jumps
to the tail. -/
def read (h : Hub) (index : ℕ) : Option Hub :=
  let reader := h.readers index
  match h.lines.recv logEventChannelCapacity reader.cursor with
  | .empty => none
  | .lagged _ => do
    let socket ← h.stream.sockets[index]?
    if socket.phase = .idle then
      some { h with readers := Function.update h.readers index { reader with
        cursor := h.lines.tail, missed := reader.missed + (h.lines.tail - reader.cursor) } }
    else none
  | .value line => do
    let stream ← h.stream.atSocket index fun socket =>
      match socket.phase with
      | .idle => some { socket with phase := .sending (.coreLog line) }
      | _ => none
    some { h with
      stream, readers := Function.update h.readers index
        { reader with cursor := reader.cursor + 1 } }

/-- One move. A socket that connects subscribes to both rings. -/
def step (strip : String → String) (h : Hub) : HubMove → Option Hub
  | .stream .connect => (h.stream.step strip .connect).map fun stream =>
      { h with
        stream
        readers := Function.update h.readers h.stream.sockets.length
          ⟨h.lines.tail, h.lines.tail, 0⟩ }
  | .stream move => (h.stream.step strip move).map fun stream => { h with stream }
  | .emit line => some { h with source := h.source.send line }
  | .forward => h.forward
  | .read index => h.read index

end Hub

/-- The moment of `spawn_bridges`. -/
structure Hub.Spawned (h : Hub) : Prop where
  stream : h.stream.Spawned
  taken : h.taken = h.source.tail
  lines : h.lines.sent = []

/-- The moves of the hub. -/
def Hub.Admits (_ : Hub) : HubMove → Prop
  | .stream move => move.silent
  | _ => True

/-- The hubs that any interleaving leads to. -/
abbrev Hub.Run (strip : String → String) : Hub → Prop :=
  Reach (Hub.step strip) Hub.Admits Hub.Spawned

/-! ## Without the lines -/

/-- The line in an event. -/
def WsEvent.line? : WsEvent → Option String
  | .coreLog line => some line
  | _ => none

/-- A socket as it would be without log lines. -/
def Socket.erased (socket : Socket) : Socket where
  phase := match socket.phase with
    | .sending (.coreLog _) => .idle
    | phase => phase
  cursor := socket.cursor
  delivered := socket.delivered.filter fun event => event.line?.isNone

/-- The stream as it would be without log lines. -/
def Stream.erased (s : Stream) : Stream := { s with sockets := s.sockets.map Socket.erased }


variable {strip : String → String} {s s' : Stream} {socket socket' : Socket} {event : WsEvent}

/-- No event of the status ring is a line, nor is one on its way in the bridge. -/
def Stream.Silent (s : Stream) : Prop := ∀ event ∈ s.ring.sent, event.line? = none

theorem Stream.Silent.send (h : s.Silent) (hevent : event.line? = none) :
    ∀ sent ∈ (s.ring.send event).sent, sent.line? = none := by
  intro sent hsent
  rcases List.mem_cons.mp hsent with rfl | hsent
  · exact hevent
  · exact h sent hsent

/-- The bridge leaves the status ring as it is, or sends a status to it. -/
theorem Stream.ring_of_bridgeStep {arm : Arm} (h : s.bridgeStep strip arm = some s') :
    s'.ring = s.ring ∨ ∃ event, event.line? = none ∧ s'.ring = s.ring.send event := by
  cases hphase : s.bridge.phase with
  | unstarted | statusWoken | statusRead raw | echoWoken | echoRead raw =>
    simp only [Stream.bridgeStep, hphase, Option.some.injEq] at h
    rw [← h]
    exact Or.inl rfl
  | waiting =>
    simp only [Stream.bridgeStep, hphase] at h
    cases arm with
    | states | requestedCore =>
      simp only at h
      split at h
      · rw [← Option.some.inj h]
        exact Or.inl rfl
      · cases h
  | statusPaired raw requested | echoPaired raw requested =>
    simp only [Stream.bridgeStep, hphase, Option.some.injEq] at h
    rw [← h]
    exact Or.inr ⟨_, rfl, rfl⟩
  | legacy raw =>
    simp only [Stream.bridgeStep, hphase] at h
    split at h
    · rw [← Option.some.inj h]
      exact Or.inl rfl
    · rw [← Option.some.inj h]
      exact Or.inr ⟨_, rfl, rfl⟩

theorem Stream.atSocket_eq {index : ℕ} {f : Socket → Option Socket}
    (h : s.atSocket index f = some s') : ∃ socket socket', s.sockets[index]? = some socket ∧
      f socket = some socket' ∧ s' = { s with sockets := s.sockets.set index socket' } := by
  simp only [Stream.atSocket, Option.bind_eq_bind, Option.bind_eq_some_iff, Option.pure_def,
    Option.some.injEq] at h
  obtain ⟨socket, hsocket, socket', hf, rfl⟩ := h
  exact ⟨socket, socket', hsocket, hf, rfl⟩

theorem Stream.Silent.step {move : StreamMove} (h : s.Silent)
    (hstep : s.step strip move = some s') : s'.Silent := by
  have hring : s'.ring = s.ring ∨ ∃ event, event.line? = none ∧ s'.ring = s.ring.send event := by
    cases move with
    | bridge arm => exact Stream.ring_of_bridgeStep hstep
    | publish status | commit committed | connect =>
      rw [← Option.some.inj hstep]
      exact Or.inl rfl
    | socket index | log index line | disconnect index =>
      obtain ⟨socket, socket', -, -, rfl⟩ := Stream.atSocket_eq hstep
      exact Or.inl rfl
  intro event hevent
  rcases hring with hring | ⟨sent, hsent, hring⟩
  · rw [hring] at hevent
    exact h event hevent
  · rw [hring] at hevent
    exact h.send hsent event hevent

/-- The bridge does not look at the sockets. -/
theorem Stream.bridgeStep_sockets (strip : String → String) (s : Stream) (sockets : List Socket)
    (arm : Arm) : ({ s with sockets } : Stream).bridgeStep strip arm =
      (s.bridgeStep strip arm).map fun s' => { s' with sockets } := by
  cases hphase : s.bridge.phase with
  | unstarted | statusWoken | statusRead raw | echoWoken | echoRead raw | statusPaired raw requested
  | echoPaired raw requested =>
    simp only [Stream.bridgeStep, hphase, Option.map_some, Stream.enter]
  | waiting =>
    simp only [Stream.bridgeStep, hphase]
    cases arm with
    | states | requestedCore =>
      simp only
      split <;> rfl
  | legacy raw =>
    simp only [Stream.bridgeStep, hphase]
    split <;> rfl

theorem Stream.sockets_of_bridgeStep {arm : Arm} (h : s.bridgeStep strip arm = some s') :
    s'.sockets = s.sockets := by
  have hsame := Stream.bridgeStep_sockets strip s s.sockets arm
  rw [h, Option.map_some] at hsame
  have hkept := congrArg Stream.sockets (Option.some.inj hsame)
  exact hkept

/-- The sender of a socket that reads no line makes the same step without the lines. -/
theorem Stream.socketStep_erased (h : s.Silent) (hstep : s.socketStep strip socket = some socket') :
    socket'.erased = socket.erased ∨
      s.erased.socketStep strip socket.erased = some socket'.erased := by
  obtain ⟨phase, cursor, delivered⟩ := socket
  cases phase with
  | subscribed =>
    obtain rfl := Option.some.inj hstep
    exact Or.inr rfl
  | statusRead raw =>
    obtain rfl := Option.some.inj hstep
    exact Or.inr rfl
  | sending event =>
    obtain rfl := Option.some.inj hstep
    cases event with
    | coreLog line => exact Or.inl rfl
    | coreStatusChanged infos => exact Or.inr rfl
    | coreStateChanged state => exact Or.inr rfl
  | idle =>
    simp only [Stream.socketStep] at hstep
    cases hrecv : s.ring.recv eventChannelCapacity cursor with
    | empty =>
      simp only [hrecv] at hstep
      cases hstep
    | lagged skipped =>
      simp only [hrecv, Option.some.injEq] at hstep
      rw [← hstep]
      refine Or.inr ?_
      simp [Stream.socketStep, Stream.erased, Socket.erased, hrecv]
    | value event =>
      simp only [hrecv, Option.some.injEq] at hstep
      rw [← hstep]
      have hsent := Broadcast.mem_of_recv hrecv
      refine Or.inr ?_
      have hline := h event hsent
      cases event with
      | coreLog line => cases hline
      | coreStatusChanged infos => simp [Stream.socketStep, Stream.erased, Socket.erased, hrecv]
      | coreStateChanged state => simp [Stream.socketStep, Stream.erased, Socket.erased, hrecv]
  | lagged =>
    obtain rfl := Option.some.inj hstep
    exact Or.inr rfl
  | closed => cases hstep

/-- A socket that changes in nothing but lines leaves the stream without lines as it is. -/
theorem Stream.erased_set {index : ℕ} (hsocket : s.sockets[index]? = some socket)
    (herased : socket'.erased = socket.erased) :
    ({ s with sockets := s.sockets.set index socket' } : Stream).erased = s.erased := by
  have hget : (s.sockets.map Socket.erased)[index]? = some socket.erased := by
    rw [List.getElem?_map, hsocket, Option.map_some]
  obtain ⟨hlt, hget⟩ := List.getElem?_eq_some_iff.mp hget
  simp only [Stream.erased, List.map_set, herased]
  rw [← hget, List.set_getElem_self]

/-- A socket that moves without the lines as it does with them. -/
theorem Stream.atSocket_erased {index : ℕ} {f : Socket → Option Socket}
    (hsocket : s.sockets[index]? = some socket) (hf : f socket.erased = some socket'.erased) :
    s.erased.atSocket index f =
      some ({ s with sockets := s.sockets.set index socket' } : Stream).erased := by
  have hget : s.erased.sockets[index]? = some socket.erased := by
    rw [Stream.erased, List.getElem?_map, hsocket, Option.map_some]
  rw [Stream.atSocket, hget, Option.bind_eq_bind, Option.bind_some, hf, Option.bind_some,
    Stream.erased, Stream.erased, List.map_set]
  rfl

/-- A move that reads no line is made without the lines too, unless it does nothing there. -/
theorem Stream.step_erased {move : StreamMove} (h : s.Silent) (hsilent : move.silent)
    (hstep : s.step strip move = some s') :
    s'.erased = s.erased ∨ s.erased.step strip move = some s'.erased := by
  cases move with
  | publish status | commit committed =>
    obtain rfl := Option.some.inj hstep
    exact Or.inr rfl
  | connect =>
    obtain rfl := Option.some.inj hstep
    refine Or.inr ?_
    simp [Stream.step, Stream.erased, Socket.erased]
  | bridge arm =>
    refine Or.inr ?_
    have hmap := Stream.bridgeStep_sockets strip s (s.sockets.map Socket.erased) arm
    have hself : s.bridgeStep strip arm = some s' := hstep
    rw [hself, Option.map_some] at hmap
    have hsockets := Stream.sockets_of_bridgeStep hself
    rw [Stream.step, Stream.erased, hmap, Stream.erased, hsockets]
  | socket index =>
    obtain ⟨socket, socket', hsocket, hnext, rfl⟩ := Stream.atSocket_eq hstep
    rcases Stream.socketStep_erased h hnext with hsame | hmade
    · exact Or.inl (Stream.erased_set hsocket hsame)
    · exact Or.inr (Stream.atSocket_erased hsocket hmade)
  | disconnect index =>
    obtain ⟨socket, socket', hsocket, hnext, rfl⟩ := Stream.atSocket_eq hstep
    obtain rfl := Option.some.inj hnext
    exact Or.inr (Stream.atSocket_erased hsocket rfl)
  | log index line => exact absurd hsilent id

/-- What the log arm of a socket does: it loses the backlog, or takes the next line. -/
theorem Hub.read_eq {h h' : Hub} {index : ℕ} (hread : h.read index = some h') :
    ∃ socket, h.stream.sockets[index]? = some socket ∧ socket.phase = .idle ∧
      ((∃ skipped, h.lines.recv logEventChannelCapacity (h.readers index).cursor = .lagged skipped ∧
          h' = { h with readers := Function.update h.readers index { h.readers index with
            cursor := h.lines.tail
            missed := (h.readers index).missed + (h.lines.tail - (h.readers index).cursor) } }) ∨
        ∃ line, h.lines.recv logEventChannelCapacity (h.readers index).cursor = .value line ∧
          h' = { h with
            stream := { h.stream with
              sockets := h.stream.sockets.set index
                { socket with phase := .sending (.coreLog line) } }
            readers := Function.update h.readers index { h.readers index with
              cursor := (h.readers index).cursor + 1 } }) := by
  rw [Hub.read] at hread
  cases hrecv : h.lines.recv logEventChannelCapacity (h.readers index).cursor with
  | empty =>
    simp only [hrecv] at hread
    cases hread
  | lagged skipped =>
    simp only [hrecv, Option.bind_eq_bind, Option.bind_eq_some_iff] at hread
    obtain ⟨socket, hsocket, hread⟩ := hread
    split at hread
    next hidle =>
      obtain rfl := Option.some.inj hread
      exact ⟨socket, hsocket, hidle, Or.inl ⟨skipped, rfl, rfl⟩⟩
    next => cases hread
  | value line =>
    simp only [hrecv, Option.bind_eq_bind, Option.bind_eq_some_iff] at hread
    obtain ⟨stream, hstream, hread⟩ := hread
    obtain rfl := Option.some.inj hread
    obtain ⟨socket, socket', hsocket, hnext, rfl⟩ := Stream.atSocket_eq hstream
    cases hphase : socket.phase with
    | idle =>
      simp only [hphase, Option.some.injEq] at hnext
      rw [← hnext]
      exact ⟨socket, hsocket, hphase, Or.inr ⟨line, rfl, rfl⟩⟩
    | subscribed | statusRead raw | sending event | lagged | closed =>
      simp only [hphase] at hnext
      cases hnext

/-! ## The lines -/

/-- The line that is being sent. -/
def SocketPhase.line? : SocketPhase → Option String
  | .sending event => event.line?
  | _ => none

/-- The lines that a socket was sent, the oldest first, up to the one on its way. -/
def Socket.lines (socket : Socket) : List String :=
  (socket.delivered.filterMap WsEvent.line?).reverse ++ socket.phase.line?.toList

/-- A socket has the lines between where its receiver started and where it is, but for those it
missed. -/
structure Follows (lines : Broadcast String) (reader : LogReader) (socket : Socket) : Prop where
  began_le : reader.began ≤ reader.cursor
  cursor_le : reader.cursor ≤ lines.tail
  sublist : socket.lines.Sublist ((lines.taken reader.cursor).drop reader.began)
  count : socket.phase ≠ .closed →
    socket.lines.length + reader.missed = reader.cursor - reader.began

section Follows

variable {lines : Broadcast String} {reader : LogReader} {line : String}

/-- A socket that just connected. -/
theorem Follows.connect : Follows lines ⟨lines.tail, lines.tail, 0⟩
    ⟨.subscribed, s.ring.tail, []⟩ := by
  refine ⟨le_rfl, le_rfl, List.nil_sublist _, fun _ => ?_⟩
  rw [Nat.sub_self]
  rfl

theorem Follows.send (h : Follows lines reader socket) :
    Follows (lines.send line) reader socket := by
  refine ⟨h.began_le, Nat.le_succ_of_le h.cursor_le, ?_, h.count⟩
  rw [Broadcast.taken_send h.cursor_le]
  exact h.sublist

/-- A socket that moves on without reading a line, and is not opened again. -/
theorem Follows.same (h : Follows lines reader socket) (hlines : socket'.lines = socket.lines)
    (hphase : socket'.phase ≠ .closed → socket.phase ≠ .closed) : Follows lines reader socket' := by
  refine ⟨h.began_le, h.cursor_le, ?_, fun hopen => ?_⟩
  · rw [hlines]
    exact h.sublist
  · rw [hlines]
    exact h.count (hphase hopen)

/-- A socket that is closed may lose the line on its way. -/
theorem Follows.close (h : Follows lines reader socket) :
    Follows lines reader { socket with phase := .closed } := by
  refine ⟨h.began_le, h.cursor_le, List.Sublist.trans ?_ h.sublist, fun hopen => absurd rfl hopen⟩
  simp only [Socket.lines, SocketPhase.line?, Option.toList_none, List.append_nil]
  exact List.sublist_append_left ..

/-- The next line. -/
theorem Follows.read {capacity : ℕ} (h : Follows lines reader socket) (hidle : socket.phase = .idle)
    (hrecv : lines.recv capacity reader.cursor = .value line) :
    Follows lines { reader with cursor := reader.cursor + 1 }
      { socket with phase := .sending (.coreLog line) } := by
  obtain ⟨hlt, htaken⟩ := Broadcast.taken_of_recv hrecv
  have hlines : Socket.lines { socket with phase := .sending (.coreLog line) } =
      socket.lines ++ [line] := by
    simp [Socket.lines, SocketPhase.line?, WsEvent.line?, hidle]
  have hlength := Broadcast.length_taken h.cursor_le
  refine ⟨Nat.le_succ_of_le h.began_le, hlt, ?_, fun _ => ?_⟩
  · rw [hlines, htaken, List.drop_append_of_le_length (by rw [hlength]; exact h.began_le)]
    exact h.sublist.append (List.Sublist.refl _)
  · have hopen : socket.phase ≠ .closed := by
      rw [hidle]
      intro heq
      cases heq
    have hcount := h.count hopen
    have hle := h.began_le
    rw [hlines, List.length_append, List.length_singleton]
    simp only
    omega

/-- The backlog is lost. -/
theorem Follows.lag (h : Follows lines reader socket) (hidle : socket.phase = .idle) :
    Follows lines { reader with
      cursor := lines.tail
      missed := reader.missed + (lines.tail - reader.cursor) } socket := by
  have hbegan := h.began_le
  have hcursor := h.cursor_le
  refine ⟨hbegan.trans hcursor, le_rfl, h.sublist.trans (List.Sublist.drop ?_ _), fun _ => ?_⟩
  · rw [Broadcast.taken, Broadcast.taken]
    exact (List.take_prefix_take_left hcursor).sublist
  · have hopen : socket.phase ≠ .closed := by
      rw [hidle]
      intro heq
      cases heq
    have hcount := h.count hopen
    simp only
    omega

/-- The sender of a socket that reads no line keeps its lines. -/
theorem Stream.socketStep_lines (h : s.Silent) (hstep : s.socketStep strip socket = some socket') :
    socket'.lines = socket.lines ∧ socket.phase ≠ .closed := by
  obtain ⟨phase, cursor, delivered⟩ := socket
  cases phase with
  | subscribed | statusRead raw | lagged =>
    obtain rfl := Option.some.inj hstep
    exact ⟨rfl, fun heq => by cases heq⟩
  | sending event =>
    obtain rfl := Option.some.inj hstep
    refine ⟨?_, fun heq => by cases heq⟩
    cases event <;> simp [Socket.lines, SocketPhase.line?, WsEvent.line?, List.filterMap_cons]
  | idle =>
    refine ⟨?_, fun heq => by cases heq⟩
    simp only [Stream.socketStep] at hstep
    cases hrecv : s.ring.recv eventChannelCapacity cursor with
    | empty =>
      simp only [hrecv] at hstep
      cases hstep
    | lagged skipped =>
      simp only [hrecv, Option.some.injEq] at hstep
      rw [← hstep]
      rfl
    | value event =>
      simp only [hrecv, Option.some.injEq] at hstep
      rw [← hstep]
      have hline := h event (Broadcast.mem_of_recv hrecv)
      simp [Socket.lines, SocketPhase.line?, hline]
  | closed => cases hstep

end Follows

/-- The invariant of the hub. -/
structure Hub.Sound (h : Hub) : Prop where
  silent : h.stream.Silent
  taken_le : h.taken ≤ h.source.tail
  forwarded : h.lines.sent.reverse.Sublist (h.source.taken h.taken)
  follows : ∀ index socket, h.stream.sockets[index]? = some socket →
    Follows h.lines (h.readers index) socket

variable {h h' : Hub}

/-- One receiver moved. -/
theorem follows_update {lines : Broadcast String} {sockets : List Socket}
    {readers : ℕ → LogReader} {index : ℕ} {reader : LogReader}
    (hothers : ∀ i socket, i ≠ index → sockets[i]? = some socket → Follows lines (readers i) socket)
    (hthis : ∀ socket, sockets[index]? = some socket → Follows lines reader socket) :
    ∀ i socket, sockets[i]? = some socket →
      Follows lines (Function.update readers index reader i) socket := by
  intro i socket hget
  by_cases hi : i = index
  · subst hi
    rw [Function.update_self]
    exact hthis socket hget
  · rw [Function.update_of_ne hi]
    exact hothers i socket hi hget

/-- One receiver moved, and its socket with it. -/
theorem follows_set {lines : Broadcast String} {sockets : List Socket} {readers : ℕ → LogReader}
    (index : ℕ) (hothers : ∀ i socket, sockets[i]? = some socket → Follows lines (readers i) socket)
    {reader : LogReader} (hthis : Follows lines reader socket') :
    ∀ i socket, (sockets.set index socket')[i]? = some socket →
      Follows lines (Function.update readers index reader i) socket := by
  refine follows_update (fun i socket hi hget => ?_) fun socket hget => ?_
  · rw [List.getElem?_set_ne (Ne.symm hi)] at hget
    exact hothers i socket hget
  · rw [List.getElem?_set_self'] at hget
    obtain ⟨_, -, rfl⟩ := Option.map_eq_some_iff.mp hget
    exact hthis

/-- The sockets that a silent move leaves follow as before. -/
theorem Hub.Sound.follows_step {move : StreamMove} (hs : h.Sound) (hsilent : move.silent)
    (hconnect : move ≠ .connect) (hstep : h.stream.step strip move = some s') :
    ∀ index socket, s'.sockets[index]? = some socket →
      Follows h.lines (h.readers index) socket := by
  cases move with
  | publish status | commit committed =>
    obtain rfl := Option.some.inj hstep
    exact hs.follows
  | connect => exact absurd rfl hconnect
  | bridge arm =>
    rw [Stream.sockets_of_bridgeStep hstep]
    exact hs.follows
  | socket index =>
    obtain ⟨socket, socket', hsocket, hnext, rfl⟩ := Stream.atSocket_eq hstep
    obtain ⟨hlines, hopen⟩ := Stream.socketStep_lines hs.silent hnext
    have hset := follows_set index hs.follows
      ((hs.follows index socket hsocket).same hlines fun _ => hopen)
    rw [Function.update_eq_self] at hset
    exact hset
  | disconnect index =>
    obtain ⟨socket, socket', hsocket, hnext, rfl⟩ := Stream.atSocket_eq hstep
    obtain rfl := Option.some.inj hnext
    have hset := follows_set index hs.follows (hs.follows index socket hsocket).close
    rw [Function.update_eq_self] at hset
    exact hset
  | log index line => exact absurd hsilent id

/-- What the log bridge does in a step: it takes the next line, and sends it on if any socket is
open; or it has fallen behind by more than its ring holds, and loses what the ring has lost. -/
inductive Hub.Forwarded (h h' : Hub) : Prop
  | line (line : String) (hrecv : h.source.recv logChannelCapacity h.taken = .value line)
      (taken : h'.taken = h.taken + 1)
      (lines : h'.lines = if h.hasLogSubscribers then h.lines.send line else h.lines)
  | lagged (behind : logChannelCapacity < h.source.tail - h.taken)
      (taken : h'.taken = h.source.tail - logChannelCapacity) (lines : h'.lines = h.lines)

theorem Hub.forward_eq (hstep : h.forward = some h') : h'.stream = h.stream ∧
    h'.readers = h.readers ∧ h'.source = h.source ∧ h.Forwarded h' := by
  rw [Hub.forward] at hstep
  cases hrecv : h.source.recv logChannelCapacity h.taken with
  | empty =>
    simp only [hrecv] at hstep
    cases hstep
  | lagged skipped =>
    simp only [hrecv, Option.some.injEq] at hstep
    rw [← hstep]
    have hbehind := Broadcast.capacity_lt_of_lagged hrecv
    have hskipped := Broadcast.skipped_of_lagged hrecv
    refine ⟨rfl, rfl, rfl, .lagged hbehind ?_ rfl⟩
    simp only
    omega
  | value line =>
    simp only [hrecv] at hstep
    split at hstep
    next hsome =>
      rw [← Option.some.inj hstep]
      exact ⟨rfl, rfl, rfl, .line line hrecv rfl (by rw [if_pos hsome])⟩
    next hnone =>
      rw [← Option.some.inj hstep]
      exact ⟨rfl, rfl, rfl, .line line hrecv rfl (by rw [if_neg hnone])⟩

/-- The log bridge makes a step while it has not taken every line. -/
theorem Hub.exists_forward (hbehind : h.taken < h.source.tail) :
    ∃ h', h.forward = some h' := by
  rw [Hub.forward]
  cases hrecv : h.source.recv logChannelCapacity h.taken with
  | empty => exact absurd (Broadcast.tail_le_of_recv hrecv) (by omega)
  | lagged skipped => exact ⟨_, rfl⟩
  | value line =>
    simp only
    split <;> exact ⟨_, rfl⟩

theorem Hub.Sound.forward (hs : h.Sound) (hstep : h.forward = some h') : h'.Sound := by
  obtain ⟨hstream, hreaders, hsource, hforwarded⟩ := Hub.forward_eq hstep
  cases hforwarded with
  | lagged hbehind htaken hlines =>
    refine ⟨hstream ▸ hs.silent, ?_, ?_, ?_⟩
    · rw [htaken, hsource]
      exact Nat.sub_le _ _
    · rw [hlines, hsource, htaken]
      have hle : h.taken ≤ h.source.tail - logChannelCapacity := by omega
      exact hs.forwarded.trans (List.take_prefix_take_left hle).sublist
    · rw [hstream, hreaders, hlines]
      exact hs.follows
  | line line hrecv htaken hlines =>
    obtain ⟨hlt, hnext⟩ := Broadcast.taken_of_recv hrecv
    refine ⟨hstream ▸ hs.silent, ?_, ?_, ?_⟩
    · rw [htaken, hsource]
      exact hlt
    · rw [hsource, htaken, hnext, hlines]
      split
      · rw [Broadcast.send, List.reverse_cons]
        exact hs.forwarded.append (List.Sublist.refl _)
      · exact hs.forwarded.trans (List.sublist_append_left ..)
    · rw [hstream, hreaders, hlines]
      intro index socket hget
      have hfollows := hs.follows index socket hget
      split
      · exact hfollows.send
      · exact hfollows

/-- An open socket is a subscriber. -/
theorem Hub.hasLogSubscribers_of_open {index : ℕ} (hget : h.stream.sockets[index]? = some socket)
    (hopen : socket.phase ≠ .closed) : h.hasLogSubscribers = true :=
  List.any_eq_true.mpr ⟨socket, List.mem_of_getElem? hget, decide_eq_true hopen⟩

/-- A move on the stream keeps the rings of lines; a socket that connects starts at the tail. -/
theorem Hub.stream_eq {move : StreamMove} (hstep : h.step strip (.stream move) = some h') :
    h.stream.step strip move = some h'.stream ∧ h'.source = h.source ∧ h'.taken = h.taken ∧
      h'.lines = h.lines ∧ (move ≠ .connect → h'.readers = h.readers) := by
  cases move with
  | connect =>
    obtain rfl := Option.some.inj hstep
    exact ⟨rfl, rfl, rfl, rfl, fun hne => absurd rfl hne⟩
  | publish status | commit committed | bridge arm | socket index | log index line
  | disconnect index =>
    simp only [Hub.step, Option.map_eq_some_iff] at hstep
    obtain ⟨s', hmove, rfl⟩ := hstep
    exact ⟨hmove, rfl, rfl, rfl, fun _ => rfl⟩

theorem Hub.Sound.step {move : HubMove} (hs : h.Sound) (hadmits : h.Admits move)
    (hstep : h.step strip move = some h') : h'.Sound := by
  cases move with
  | stream move =>
    by_cases hconnect : move = .connect
    · subst hconnect
      obtain rfl := Option.some.inj hstep
      refine ⟨hs.silent, hs.taken_le, hs.forwarded,
        follows_update (fun i socket hi hget => ?_) fun socket hget => ?_⟩
      · have hget' : (h.stream.sockets ++ [⟨.subscribed, h.stream.ring.tail, []⟩])[i]? =
            some socket := hget
        have hle := (List.getElem?_eq_some_iff.mp hget').1
        rw [List.length_append, List.length_singleton] at hle
        rw [List.getElem?_append_left (by omega)] at hget'
        exact hs.follows i socket hget'
      · have hget' : (h.stream.sockets ++ [⟨.subscribed, h.stream.ring.tail, []⟩])[
            h.stream.sockets.length]? = some socket := hget
        rw [List.getElem?_concat_length, Option.some.injEq] at hget'
        rw [← hget']
        exact Follows.connect
    · obtain ⟨hmove, hsource, htaken, hlines, hreaders⟩ := Hub.stream_eq hstep
      refine ⟨hs.silent.step hmove, ?_, ?_, ?_⟩
      · rw [htaken, hsource]
        exact hs.taken_le
      · rw [hlines, hsource, htaken]
        exact hs.forwarded
      · rw [hlines, hreaders hconnect]
        exact hs.follows_step hadmits hconnect hmove
  | emit line =>
    obtain rfl := Option.some.inj hstep
    refine ⟨hs.silent, Nat.le_succ_of_le hs.taken_le, ?_, hs.follows⟩
    rw [Broadcast.taken_send hs.taken_le]
    exact hs.forwarded
  | forward => exact hs.forward hstep
  | read index =>
    obtain ⟨socket, hsocket, hidle, ⟨skipped, hrecv, rfl⟩ | ⟨line, hrecv, rfl⟩⟩ :=
      Hub.read_eq hstep
    · refine ⟨hs.silent, hs.taken_le, hs.forwarded,
        follows_update (fun i other _ hget => hs.follows i other hget) fun other hget => ?_⟩
      obtain rfl := Option.some.inj (hsocket.symm.trans hget)
      exact (hs.follows index socket hsocket).lag hidle
    · exact ⟨hs.silent, hs.taken_le, hs.forwarded,
        follows_set index hs.follows ((hs.follows index socket hsocket).read hidle hrecv)⟩

theorem Hub.Run.sound (hrun : Hub.Run strip h) : h.Sound := by
  refine Reach.invariant ?_ (fun h move h' hs hadmits hstep => hs.step hadmits hstep) hrun
  intro h hs
  refine ⟨?_, hs.taken.le, ?_, ?_⟩
  · rw [Stream.Silent, hs.stream.ring]
    intro event hevent
    cases hevent
  · rw [hs.lines]
    exact List.nil_sublist _
  · rw [hs.stream.sockets]
    intro index socket hget
    cases hget

/-- The lines of a socket that missed none are exactly those that came by. -/
theorem Follows.lines_eq {lines : Broadcast String} {reader : LogReader}
    (hfollows : Follows lines reader socket) (hopen : socket.phase ≠ .closed)
    (hmissed : reader.missed = 0) :
    socket.lines = (lines.taken reader.cursor).drop reader.began := by
  have hcount := hfollows.count hopen
  rw [hmissed, Nat.add_zero] at hcount
  refine hfollows.sublist.eq_of_length ?_
  rw [hcount, List.length_drop, Broadcast.length_taken hfollows.cursor_le]

/-- Only a socket that is more than a ring behind misses lines. -/
theorem Hub.missed_step {move : HubMove} {index : ℕ}
    (hget : h.stream.sockets[index]? = some socket) (hstep : h.step strip move = some h') :
    (h'.readers index).missed = (h.readers index).missed ∨
      logEventChannelCapacity < h.lines.tail - (h.readers index).cursor := by
  have hlt := (List.getElem?_eq_some_iff.mp hget).1
  cases move with
  | stream move =>
    refine Or.inl ?_
    by_cases hconnect : move = .connect
    · subst hconnect
      obtain rfl := Option.some.inj hstep
      have hne : index ≠ h.stream.sockets.length := Nat.ne_of_lt hlt
      exact congrArg LogReader.missed (Function.update_of_ne hne ..)
    · obtain ⟨-, -, -, -, hreaders⟩ := Hub.stream_eq hstep
      rw [hreaders hconnect]
  | emit line =>
    obtain rfl := Option.some.inj hstep
    exact Or.inl rfl
  | forward =>
    obtain ⟨-, hreaders, -⟩ := Hub.forward_eq hstep
    rw [hreaders]
    exact Or.inl rfl
  | read other =>
    obtain ⟨_, -, -, ⟨skipped, hrecv, rfl⟩ | ⟨line, hrecv, rfl⟩⟩ := Hub.read_eq hstep
    · by_cases hother : index = other
      · subst hother
        exact Or.inr (Broadcast.capacity_lt_of_lagged hrecv)
      · exact Or.inl (congrArg LogReader.missed (Function.update_of_ne hother ..))
    · refine Or.inl ?_
      by_cases hother : index = other
      · subst hother
        dsimp only
        rw [Function.update_self]
      · exact congrArg LogReader.missed (Function.update_of_ne hother ..)

instance (move : StreamMove) : Decidable move.silent := by
  apply @StreamMove.casesOn (fun move => Decidable move.silent) move <;> intros <;>
    dsimp only [StreamMove.silent] <;> infer_instance

instance (h : Hub) (move : HubMove) : Decidable (h.Admits move) := by
  cases move <;> dsimp only [Hub.Admits] <;> infer_instance

/-- The hub of a new service. -/
def newHub : Hub where
  stream := newStream
  source := ⟨[]⟩
  taken := 0
  lines := ⟨[]⟩
  readers := fun _ => ⟨0, 0, 0⟩

theorem spawned_newHub : newHub.Spawned := ⟨spawned_newStream, rfl, rfl⟩

/-- **Lines come in order.** In every run, a socket was sent lines of the manager in their order,
none twice; while it is open every line of the ring since it connected was sent to it or
missed, so that it has them all if it missed none; and it misses lines only when it is more than
the ring behind. The bridge goes on while it has lines to take: it sends each that it takes to the
ring while the socket is open, and it loses lines only when it is more than its own ring behind. -/
theorem lines_in_order (hrun : Hub.Run strip h) {index : ℕ}
    (hget : h.stream.sockets[index]? = some socket) :
    socket.lines.Sublist h.source.sent.reverse ∧
      (socket.phase ≠ .closed → socket.lines.length + (h.readers index).missed =
        (h.readers index).cursor - (h.readers index).began) ∧
      (socket.phase ≠ .closed → (h.readers index).missed = 0 → socket.lines =
        (h.lines.taken (h.readers index).cursor).drop (h.readers index).began) ∧
      (∀ move h', h.step strip move = some h' →
        (h'.readers index).missed = (h.readers index).missed ∨
          logEventChannelCapacity < h.lines.tail - (h.readers index).cursor) ∧
      (socket.phase ≠ .closed → h.taken < h.source.tail →
        ∃ h', h.step strip .forward = some h' ∧
          (logChannelCapacity < h.source.tail - h.taken ∧
              h'.taken = h.source.tail - logChannelCapacity ∧ h'.lines = h.lines ∨
            ∃ line, h'.taken = h.taken + 1 ∧
              h.source.taken (h.taken + 1) = h.source.taken h.taken ++ [line] ∧
              h'.lines = h.lines.send line)) := by
  have hsound := hrun.sound
  have hfollows := hsound.follows index socket hget
  refine ⟨?_, hfollows.count, hfollows.lines_eq,
    fun move h' hstep => Hub.missed_step hget hstep, fun hopen hbehind => ?_⟩
  · have hring : socket.lines.Sublist h.lines.sent.reverse :=
      hfollows.sublist.trans ((List.drop_sublist ..).trans (List.take_sublist ..))
    exact (hring.trans hsound.forwarded).trans (List.take_sublist ..)
  · obtain ⟨h', hstep⟩ := Hub.exists_forward hbehind
    obtain ⟨-, -, -, hforwarded⟩ := Hub.forward_eq hstep
    refine ⟨h', hstep, ?_⟩
    cases hforwarded with
    | lagged hlost htaken hlines => exact Or.inl ⟨hlost, htaken, hlines⟩
    | line line hrecv htaken hlines =>
      rw [Hub.hasLogSubscribers_of_open hget hopen, if_pos rfl] at hlines
      exact Or.inr ⟨line, htaken, (Broadcast.taken_of_recv hrecv).2, hlines⟩

/-- Of three lines the first is forwarded before anyone listens, and goes nowhere. -/
theorem lines_in_order_late : ∃ h socket, Hub.Run id h ∧ h.stream.sockets[0]? = some socket ∧
    socket.lines = ["two", "three"] ∧ ["two", "three"].Sublist h.source.sent.reverse := by
  obtain ⟨h, hreach, hh⟩ := exists_reach (Hub.step id) Hub.Admits
    (p := fun h => h.stream.sockets.map Socket.lines = [["two", "three"]]) spawned_newHub
    [.emit "one", .forward, .stream .connect, .stream (.socket 0), .emit "two", .emit "three",
      .forward, .stream (.socket 0), .stream (.socket 0), .read 0, .forward,
      .stream (.socket 0), .read 0]
    (by decide +kernel)
  have hlines := of_decide_eq_true hh
  obtain ⟨socket, hsockets, hsocket⟩ := List.map_eq_singleton_iff.mp hlines
  have hget : h.stream.sockets[0]? = some socket := by rw [hsockets]; rfl
  exact ⟨h, socket, hreach, hget, hsocket, hsocket ▸ (lines_in_order hreach hget).1⟩

/-- **Lines cost no status.** Without its log lines, any run of the hub is a run of the same
bridge and sockets in which nobody sent a line: the lines change neither what a socket is told of
the status nor whether it falls behind there. -/
theorem lines_cost_nothing (hrun : Hub.Run strip h) :
    Reach (Stream.step strip) (fun _ move => move.silent) Stream.Spawned h.stream.erased := by
  refine Reach.simulate (fun h : Hub => h.stream.erased) ?_ ?_ hrun
  · intro h hs
    refine ⟨hs.stream.phase, hs.stream.seenStatus, hs.stream.seenEcho, hs.stream.ring, ?_⟩
    rw [Stream.erased, hs.stream.sockets]
    rfl
  · intro h move h' hreach hadmits hstep
    have hsilent := (Hub.Run.sound hreach).silent
    cases move with
    | stream move =>
      obtain ⟨hmove, -⟩ := Hub.stream_eq hstep
      rcases Stream.step_erased hsilent hadmits hmove with hsame | hmade
      · exact Or.inl hsame
      · exact Or.inr ⟨move, hadmits, hmade⟩
    | emit line =>
      obtain rfl := Option.some.inj hstep
      exact Or.inl rfl
    | forward =>
      obtain ⟨hstream, -⟩ := Hub.forward_eq hstep
      rw [hstream]
      exact Or.inl rfl
    | read index =>
      obtain ⟨socket, hsocket, hidle, ⟨skipped, hrecv, rfl⟩ | ⟨line, hrecv, rfl⟩⟩ :=
        Hub.read_eq hstep
      · exact Or.inl rfl
      · refine Or.inl (Stream.erased_set hsocket ?_)
        simp [Socket.erased, hidle]

/-- A line comes before the snapshot of a second status. -/
theorem lines_cost_nothing_between : ∃ h, Hub.Run id h ∧
    h.stream.sockets.map Socket.lines = [["up"]] ∧
      Reach (Stream.step id) (fun _ move => move.silent) Stream.Spawned h.stream.erased := by
  obtain ⟨h, hreach, hh⟩ := exists_reach (Hub.step id) Hub.Admits
    (p := fun h => h.stream.sockets.map Socket.lines = [["up"]]) spawned_newHub
    [.stream .connect, .stream (.socket 0), .stream (.socket 0), .stream (.socket 0),
      .stream (.bridge .states), .emit "up", .stream (.publish runningStatus), .forward, .read 0,
      .stream (.bridge .states), .stream (.bridge .states), .stream (.bridge .states),
      .stream (.bridge .states), .stream (.socket 0), .stream (.socket 0)]
    (by decide +kernel)
  exact ⟨h, hreach, of_decide_eq_true hh, lines_cost_nothing hreach⟩

end Nyanpasu.Service
