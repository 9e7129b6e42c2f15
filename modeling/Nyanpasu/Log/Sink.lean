import Nyanpasu.Lib.Channel
import Nyanpasu.Lib.Moves
import Nyanpasu.Log.Archive

/-!
# The log sink

The task that drains the broadcast of log frames into the archive, as a machine beside the
senders: each receive, each record and each flush is a move of its own, so that frames may be
sent, the channel closed and the task cancelled between any two of them.
-/

namespace Nyanpasu.Log

open Moves

/-- `MAX_BATCH_RECORDS`. -/
def maxBatchRecords : ℕ := 256

/-- The number of frames that an entry stands for. -/
def Entry.frames : Entry → ℕ
  | .log _ => 1
  | .gap dropped => dropped

/-- Where the task stands in `run`: before the select, in `drain` for either arm, in `write` for
the last batch or an earlier one, or returned. -/
inductive Stage where
  | waiting
  | draining (cancelArm : Bool) (batch : List Entry)
  | writing (last : Bool) (at_ : ℤ) (todo : List Entry) (buffer : List UInt8)
  | done

/-- The entries received but not yet serialized. -/
def Stage.todo : Stage → List Entry
  | .draining _ batch => batch
  | .writing _ _ todo _ => todo
  | .waiting | .done => []

/-- The bytes not yet flushed. -/
def Stage.buffer : Stage → List UInt8
  | .writing _ _ _ buffer => buffer
  | .waiting | .draining .. | .done => []

/-- The task will not receive again. -/
def Stage.ending : Stage → Bool
  | .writing last .. => last
  | .done => true
  | .waiting | .draining .. => false

/-- The sink beside its channel. Ghosts: how many frames had been sent when the token was cancelled
and when a drain last ended, and everything that was received. -/
structure Sink where
  ring : Broadcast LogFrame
  closed : Bool
  cancelled : Option ℕ
  cursor : ℕ
  stage : Stage
  writer : Writer
  received : List Entry
  drained : ℕ

/-- What the senders, the owner of the token and the task do. -/
inductive SinkMove where
  | send (frame : LogFrame)
  | close
  | cancel
  | selectCancel
  | selectRecv (now : ℤ)
  | drain (now : ℤ)
  | write

/-- The moves of the task itself. -/
def SinkMove.isTask : SinkMove → Bool
  | .send _ | .close | .cancel => false
  | .selectCancel | .selectRecv _ | .drain _ | .write => true

namespace Sink

/-- What `recv` and `try_recv` find. -/
def next (capacity : ℕ) (sink : Sink) : Option Entry :=
  match sink.ring.recv capacity sink.cursor with
  | .value frame => some (.log frame)
  | .lagged dropped => some (.gap dropped)
  | .empty => none

/-- An entry is received. -/
def accept (sink : Sink) (entry : Entry) (stage : Stage) : Sink :=
  { sink with cursor := sink.cursor + entry.frames, received := sink.received ++ [entry], stage }

/-- A drain ends, and `write` reads the clock: whether the loop breaks after the batch. -/
def endDrain (sink : Sink) (cancelArm closed : Bool) (batch : List Entry) (now : ℤ) : Sink :=
  let last := if cancelArm then closed || batch.length < maxBatchRecords else closed
  { sink with drained := sink.ring.tail, stage := .writing last now batch [] }

/-- A move, if it is possible. -/
def step (capacity : ℕ) (sink : Sink) : SinkMove → Option Sink
  | .send frame => if sink.closed then none else some { sink with ring := sink.ring.send frame }
  | .close => some { sink with closed := true }
  | .cancel => some { sink with cancelled := some (sink.cancelled.getD sink.ring.tail) }
  | .selectCancel =>
    match sink.stage with
    | .waiting =>
      if sink.cancelled.isSome then some { sink with stage := .draining true [] } else none
    | _ => none
  | .selectRecv now =>
    match sink.stage with
    | .waiting =>
      match sink.next capacity with
      | some entry => some (sink.accept entry (.draining false [entry]))
      | none => if sink.closed then some (sink.endDrain false true [] now) else none
    | _ => none
  | .drain now =>
    match sink.stage with
    | .draining cancelArm batch =>
      if batch.length < maxBatchRecords then
        match sink.next capacity with
        | some entry => some (sink.accept entry (.draining cancelArm (batch ++ [entry])))
        | none => some (sink.endDrain cancelArm sink.closed batch now)
      else some (sink.endDrain cancelArm false batch now)
    | _ => none
  | .write =>
    match sink.stage with
    | .writing last at_ (entry :: todo) buffer =>
      let (writer, buffer) := sink.writer.writeEntry at_ buffer entry
      some { sink with writer, stage := .writing last at_ todo buffer }
    | .writing last _ [] buffer =>
      let writer := sink.writer.flushPending buffer
      some { sink with writer, stage := if last then .done else .waiting }
    | _ => none

/-- `spawn`: the writer is opened, and the receiver subscribed to a new channel. -/
def spawn (files : List (ℕ × List UInt8)) (options : SinkOptions) : Sink where
  ring := ⟨[]⟩
  closed := false
  cancelled := none
  cursor := 0
  stage := .waiting
  writer := Writer.open_ ⟨files, []⟩ options
  received := []
  drained := 0

end Sink

/-! ## What a move does -/

/-- The entries account for the frames in order: a record for each that no gap covers. -/
inductive Accounts : List LogFrame → List Entry → Prop
  | nil : Accounts [] []
  | log {frames entries} (frame : LogFrame) : Accounts frames entries →
      Accounts (frames ++ [frame]) (entries ++ [.log frame])
  | gap {frames entries} (missed : List LogFrame) : Accounts frames entries →
      Accounts (frames ++ missed) (entries ++ [.gap missed.length])

/-- The number of log records. -/
def logCount (entries : List Entry) : ℕ := entries.countP fun
  | .log _ => true
  | .gap _ => false

/-- The sum of the gap counts. -/
def gapSum (entries : List Entry) : ℕ := (entries.map fun
  | .log _ => 0
  | .gap dropped => dropped).sum

/-- Log records and gap counts add up to the frames. -/
theorem Accounts.count {frames : List LogFrame} {entries : List Entry}
    (h : Accounts frames entries) : logCount entries + gapSum entries = frames.length := by
  induction h with
  | nil => rfl
  | log frame _ ih =>
    simp only [logCount, gapSum, List.countP_append, List.map_append, List.sum_append,
      List.length_append] at ih ⊢
    simp
    omega
  | gap missed _ ih =>
    simp only [logCount, gapSum, List.countP_append, List.map_append, List.sum_append,
      List.length_append] at ih ⊢
    simp
    omega

namespace Sink

variable {capacity : ℕ} {sink sink' : Sink} {entry : Entry}

/-- What is received next is accounted for. -/
theorem next_spec (h : sink.next capacity = some entry)
    (haccounts : Accounts (sink.ring.taken sink.cursor) sink.received) :
    0 < entry.frames ∧ sink.cursor + entry.frames ≤ sink.ring.tail ∧
      Accounts (sink.ring.taken (sink.cursor + entry.frames)) (sink.received ++ [entry]) := by
  unfold next at h
  split at h
  next frame hrecv =>
    obtain rfl := Option.some.inj h
    obtain ⟨hlt, htaken⟩ := Broadcast.taken_of_recv hrecv
    refine ⟨Nat.one_pos, hlt, ?_⟩
    change Accounts (sink.ring.taken (sink.cursor + 1)) _
    rw [htaken]
    exact haccounts.log frame
  next dropped hrecv =>
    obtain rfl := Option.some.inj h
    obtain ⟨hpos, hle, missed, rfl, htaken⟩ := Broadcast.taken_of_lagged hrecv
    refine ⟨hpos, hle, ?_⟩
    change Accounts (sink.ring.taken (sink.cursor + missed.length)) _
    rw [htaken]
    exact haccounts.gap missed
  next => cases h

/-- When nothing is received, everything was taken. -/
theorem next_none (h : sink.next capacity = none) : sink.ring.tail ≤ sink.cursor := by
  unfold next at h
  split at h
  · cases h
  · cases h
  next hrecv => exact Broadcast.tail_le_of_recv hrecv

/-- What a move does. -/
inductive Moved (capacity : ℕ) (sink : Sink) : SinkMove → Sink → Prop
  | send (frame : LogFrame) : sink.closed = false →
      Moved capacity sink (.send frame) { sink with ring := sink.ring.send frame }
  | close : Moved capacity sink .close { sink with closed := true }
  | cancel : Moved capacity sink .cancel
      { sink with cancelled := some (sink.cancelled.getD sink.ring.tail) }
  | selectCancel : sink.stage = .waiting → sink.cancelled.isSome →
      Moved capacity sink .selectCancel { sink with stage := .draining true [] }
  | first (now : ℤ) (entry : Entry) : sink.stage = .waiting → sink.next capacity = some entry →
      Moved capacity sink (.selectRecv now) (sink.accept entry (.draining false [entry]))
  | closed (now : ℤ) : sink.stage = .waiting → sink.next capacity = none → sink.closed = true →
      Moved capacity sink (.selectRecv now) (sink.endDrain false true [] now)
  | more (now : ℤ) (entry : Entry) (cancelArm : Bool) (batch : List Entry) :
      sink.stage = .draining cancelArm batch → sink.next capacity = some entry →
      Moved capacity sink (.drain now)
        (sink.accept entry (.draining cancelArm (batch ++ [entry])))
  | empty (now : ℤ) (cancelArm : Bool) (batch : List Entry) :
      sink.stage = .draining cancelArm batch → batch.length < maxBatchRecords →
      sink.next capacity = none →
      Moved capacity sink (.drain now) (sink.endDrain cancelArm sink.closed batch now)
  | full (now : ℤ) (cancelArm : Bool) (batch : List Entry) :
      sink.stage = .draining cancelArm batch → maxBatchRecords ≤ batch.length →
      Moved capacity sink (.drain now) (sink.endDrain cancelArm false batch now)
  | record (last : Bool) (at_ : ℤ) (entry : Entry) (todo : List Entry) (buffer : List UInt8) :
      sink.stage = .writing last at_ (entry :: todo) buffer →
      Moved capacity sink .write { sink with
        writer := (sink.writer.writeEntry at_ buffer entry).1
        stage := .writing last at_ todo (sink.writer.writeEntry at_ buffer entry).2 }
  | flush (last : Bool) (at_ : ℤ) (buffer : List UInt8) :
      sink.stage = .writing last at_ [] buffer →
      Moved capacity sink .write { sink with
        writer := sink.writer.flushPending buffer
        stage := if last then .done else .waiting }

theorem moved_of_step {move : SinkMove} (h : sink.step capacity move = some sink') :
    Moved capacity sink move sink' := by
  cases move with
  | send frame =>
    simp only [step] at h
    split at h
    · cases h
    next hopen =>
      obtain rfl := Option.some.inj h
      exact .send frame (by simpa using hopen)
  | close =>
    obtain rfl := Option.some.inj h
    exact .close
  | cancel =>
    obtain rfl := Option.some.inj h
    exact .cancel
  | selectCancel =>
    simp only [step] at h
    split at h
    next hstage =>
      split at h
      next hcancelled =>
        obtain rfl := Option.some.inj h
        exact .selectCancel hstage hcancelled
      · cases h
    · cases h
  | selectRecv now =>
    simp only [step] at h
    split at h
    next hstage =>
      split at h
      next entry hnext =>
        obtain rfl := Option.some.inj h
        exact .first now entry hstage hnext
      next hnext =>
        split at h
        next hclosed =>
          obtain rfl := Option.some.inj h
          exact .closed now hstage hnext hclosed
        · cases h
    · cases h
  | drain now =>
    simp only [step] at h
    split at h
    next cancelArm batch hstage =>
      split at h
      next hroom =>
        split at h
        next entry hnext =>
          obtain rfl := Option.some.inj h
          exact .more now entry cancelArm batch hstage hnext
        next hnext =>
          obtain rfl := Option.some.inj h
          exact .empty now cancelArm batch hstage hroom hnext
      next hfull =>
        obtain rfl := Option.some.inj h
        exact .full now cancelArm batch hstage (by omega)
    · cases h
  | write =>
    simp only [step] at h
    split at h
    next last at_ entry todo buffer hstage =>
      obtain rfl := Option.some.inj h
      exact .record last at_ entry todo buffer hstage
    next last at_ buffer hstage =>
      obtain rfl := Option.some.inj h
      exact .flush last at_ buffer hstage
    · cases h

/-! ## The invariant -/

/-- The task has received for the last time: a drain found nothing more, because of which it ends
with everything that was sent before it was cancelled. -/
structure Ended (sink : Sink) : Prop where
  all : sink.cursor = sink.drained
  cause : sink.cancelled.isSome ∨ sink.closed = true ∧ sink.drained = sink.ring.tail
  reach : ∀ sent ∈ sink.cancelled, sent ≤ sink.drained

/-- What holds at every point of a run. -/
structure Sound (files : List (ℕ × List UInt8)) (options : SinkOptions) (sink : Sink) :
    Prop where
  cursor : sink.cursor ≤ sink.ring.tail
  accounts : Accounts (sink.ring.taken sink.cursor) sink.received
  holds : ∃ records, sink.received = records.map ArchiveRecord.entry ++ sink.stage.todo ∧
    Archives files (Dir.nextSeq ⟨files, []⟩) records sink.writer sink.stage.buffer
  options : sink.writer.options = options
  cancelled : ∀ sent ∈ sink.cancelled, sent ≤ sink.ring.tail
  arm : ∀ cancelArm batch, sink.stage = .draining cancelArm batch →
    if cancelArm then sink.cancelled.isSome else batch ≠ []
  ended : sink.stage.ending = true → sink.Ended

theorem flushPending_options (writer : Writer) (buffer : List UInt8) :
    (writer.flushPending buffer).options = writer.options := by
  unfold Writer.flushPending
  split <;> rfl

theorem writeEntry_options (writer : Writer) (at_ : ℤ) (buffer : List UInt8) (entry : Entry) :
    (writer.writeEntry at_ buffer entry).1.options = writer.options := by
  unfold Writer.writeEntry
  split
  · exact flushPending_options writer buffer
  · rfl

namespace Sound

variable {files : List (ℕ × List UInt8)} {options : SinkOptions}

theorem spawn (hunique : (files.map Prod.fst).Nodup) :
    Sound files options (Sink.spawn files options) where
  cursor := Nat.le_refl 0
  accounts := .nil
  holds := ⟨[], rfl, Archives.open_ hunique options⟩
  options := rfl
  cancelled := by simp [Sink.spawn]
  arm := by simp [Sink.spawn]
  ended := by simp [Sink.spawn, Stage.ending]

/-- A sender sends. -/
theorem send (h : Sound files options sink) (hopen : sink.closed = false) (frame : LogFrame) :
    Sound files options { sink with ring := sink.ring.send frame } := by
  have hcursor := h.cursor
  constructor
  case cursor => exact Nat.le_succ_of_le hcursor
  case accounts =>
    rw [Broadcast.taken_send hcursor]
    exact h.accounts
  case holds => exact h.holds
  case options => exact h.options
  case cancelled => exact fun sent hsent => Nat.le_succ_of_le (h.cancelled sent hsent)
  case arm => exact h.arm
  case ended =>
    intro hending
    obtain ⟨hall, hcause, hreach⟩ := h.ended hending
    refine ⟨hall, .inl ?_, hreach⟩
    rcases hcause with hcancelled | ⟨hclosed, -⟩
    · exact hcancelled
    · rw [hopen] at hclosed
      cases hclosed

/-- The last sender goes. -/
theorem close (h : Sound files options sink) :
    Sound files options { sink with closed := true } := by
  refine ⟨h.cursor, h.accounts, h.holds, h.options, h.cancelled, h.arm, ?_⟩
  intro hending
  obtain ⟨hall, hcause, hreach⟩ := h.ended hending
  exact ⟨hall, hcause.imp_right fun hclosed => ⟨rfl, hclosed.2⟩, hreach⟩

/-- The token is cancelled. -/
theorem cancel (h : Sound files options sink) :
    Sound files options { sink with cancelled := some (sink.cancelled.getD sink.ring.tail) } := by
  have hsome : ∀ sent ∈ some (sink.cancelled.getD sink.ring.tail),
      sent ∈ sink.cancelled ∨ sink.cancelled = none ∧ sent = sink.ring.tail := by
    intro sent hsent
    obtain rfl := Option.some.inj hsent
    cases sink.cancelled with
    | none => exact .inr ⟨rfl, rfl⟩
    | some sent => exact .inl rfl
  constructor
  case cursor => exact h.cursor
  case accounts => exact h.accounts
  case holds => exact h.holds
  case options => exact h.options
  case cancelled =>
    intro sent hsent
    rcases hsome sent hsent with hsent | ⟨-, rfl⟩
    · exact h.cancelled sent hsent
    · exact Nat.le_refl _
  case arm =>
    intro cancelArm batch hstage
    have harm := h.arm cancelArm batch hstage
    cases cancelArm with
    | true => rfl
    | false => exact harm
  case ended =>
    intro hending
    obtain ⟨hall, hcause, hreach⟩ := h.ended hending
    refine ⟨hall, .inl rfl, ?_⟩
    intro sent hsent
    rcases hsome sent hsent with hsent | ⟨hnone, rfl⟩
    · exact hreach sent hsent
    · rcases hcause with hcancelled | ⟨-, hdrained⟩
      · rw [hnone] at hcancelled
        cases hcancelled
      · exact Nat.le_of_eq hdrained.symm

/-- An entry is received into the batch. -/
theorem accept (h : Sound files options sink) (hnext : sink.next capacity = some entry)
    {cancelArm : Bool} {batch : List Entry} (hbuffer : sink.stage.buffer = [])
    (hbatch : sink.stage.todo = batch) (harm : cancelArm = true → sink.cancelled.isSome) :
    Sound files options (sink.accept entry (.draining cancelArm (batch ++ [entry]))) := by
  obtain ⟨-, hle, haccounts⟩ := next_spec hnext h.accounts
  obtain ⟨records, hreceived, hholds⟩ := h.holds
  constructor
  case cursor => exact hle
  case accounts => exact haccounts
  case holds =>
    refine ⟨records, ?_, ?_⟩
    · change sink.received ++ [entry] = _ ++ (batch ++ [entry])
      rw [hreceived, hbatch, List.append_assoc]
    · rw [hbuffer] at hholds
      exact hholds
  case options => exact h.options
  case cancelled => exact h.cancelled
  case arm =>
    intro arm all hstage
    obtain ⟨rfl, rfl⟩ := Stage.draining.inj hstage
    split
    next htrue => exact harm htrue
    next => simp
  case ended =>
    intro hending
    cases hending

/-- A drain ends. -/
theorem endDrain (h : Sound files options sink) {cancelArm closed : Bool} {batch : List Entry}
    (now : ℤ) (hbuffer : sink.stage.buffer = []) (hbatch : sink.stage.todo = batch)
    (harm : cancelArm = true → sink.cancelled.isSome) (hclosed : closed = true → sink.closed = true)
    (hnext : closed = true ∨ batch.length < maxBatchRecords → sink.ring.tail ≤ sink.cursor) :
    Sound files options (sink.endDrain cancelArm closed batch now) := by
  obtain ⟨records, hreceived, hholds⟩ := h.holds
  constructor
  case cursor => exact h.cursor
  case accounts => exact h.accounts
  case holds =>
    refine ⟨records, ?_, ?_⟩
    · rw [hbatch] at hreceived
      exact hreceived
    · rw [hbuffer] at hholds
      exact hholds
  case options => exact h.options
  case cancelled => exact h.cancelled
  case arm =>
    intro arm all hstage
    cases hstage
  case ended =>
    intro hending
    have hlast : (if cancelArm then closed || decide (batch.length < maxBatchRecords)
        else closed) = true := hending
    have hfound : sink.ring.tail ≤ sink.cursor := by
      refine hnext ?_
      cases cancelArm with
      | true => simpa using hlast
      | false => exact .inl hlast
    have hcursor := h.cursor
    refine ⟨Nat.le_antisymm hcursor hfound, ?_, h.cancelled⟩
    cases cancelArm with
    | true => exact .inl (harm rfl)
    | false => exact .inr ⟨hclosed hlast, rfl⟩

/-- A record is serialized. -/
theorem record (h : Sound files options sink) {last : Bool} {at_ : ℤ} {entry : Entry}
    {todo : List Entry} {buffer : List UInt8}
    (hstage : sink.stage = .writing last at_ (entry :: todo) buffer) :
    Sound files options { sink with
      writer := (sink.writer.writeEntry at_ buffer entry).1
      stage := .writing last at_ todo (sink.writer.writeEntry at_ buffer entry).2 } := by
  obtain ⟨records, hreceived, hholds⟩ := h.holds
  rw [hstage] at hreceived hholds
  constructor
  case cursor => exact h.cursor
  case accounts => exact h.accounts
  case holds =>
    refine ⟨records ++ [entry.record at_], ?_, hholds.writeEntry at_ entry⟩
    simpa [Stage.todo] using hreceived
  case options => exact (writeEntry_options _ _ _ _).trans h.options
  case cancelled => exact h.cancelled
  case arm =>
    intro arm all hdraining
    cases hdraining
  case ended =>
    intro hending
    obtain ⟨hall, hcause, hreach⟩ := h.ended (by rw [hstage]; exact hending)
    exact ⟨hall, hcause, hreach⟩

/-- The batch is flushed. -/
theorem flush (h : Sound files options sink) {last : Bool} {at_ : ℤ} {buffer : List UInt8}
    (hstage : sink.stage = .writing last at_ [] buffer) :
    Sound files options { sink with
      writer := sink.writer.flushPending buffer
      stage := if last then .done else .waiting } := by
  obtain ⟨records, hreceived, closed, current, hrecords, hshelved⟩ := h.holds
  rw [hstage] at hreceived hshelved
  have hidle : (if last then Stage.done else .waiting).todo = [] ∧
      (if last then Stage.done else .waiting).buffer = [] := by
    cases last <;> exact ⟨rfl, rfl⟩
  constructor
  case cursor => exact h.cursor
  case accounts => exact h.accounts
  case holds =>
    refine ⟨records, ?_, ?_⟩
    · rw [hidle.1]
      exact hreceived
    · rw [hidle.2]
      exact ⟨closed, current, hrecords, hshelved.flush⟩
  case options => exact (flushPending_options _ _).trans h.options
  case cancelled => exact h.cancelled
  case arm =>
    intro arm all hdraining
    cases last <;> cases hdraining
  case ended =>
    intro hending
    have hlast : last = true := by
      cases last with
      | true => rfl
      | false => cases hending
    obtain ⟨hall, hcause, hreach⟩ := h.ended (by rw [hstage]; exact hlast)
    exact ⟨hall, hcause, hreach⟩

/-- Every move keeps the invariant. -/
theorem step (h : Sound files options sink) {move : SinkMove}
    (hstep : sink.step capacity move = some sink') : Sound files options sink' := by
  cases moved_of_step hstep with
  | send frame hopen => exact h.send hopen frame
  | close => exact h.close
  | cancel => exact h.cancel
  | selectCancel hstage hcancelled =>
    obtain ⟨records, hreceived, hholds⟩ := h.holds
    rw [hstage] at hreceived hholds
    refine ⟨h.cursor, h.accounts, ⟨records, hreceived, hholds⟩, h.options, h.cancelled, ?_, ?_⟩
    · intro arm batch hdraining
      obtain ⟨rfl, rfl⟩ := Stage.draining.inj hdraining
      exact hcancelled
    · intro hending
      cases hending
  | first now entry hstage hnext =>
    have htodo : sink.stage.todo = [] := by rw [hstage]; rfl
    exact h.accept hnext (by rw [hstage]; rfl) htodo (by simp)
  | closed now hstage hnext hclosed =>
    exact h.endDrain now (by rw [hstage]; rfl) (by rw [hstage]; rfl) (by simp)
      (fun _ => hclosed) (fun _ => next_none hnext)
  | more now entry cancelArm batch hstage hnext =>
    have harm := h.arm cancelArm batch hstage
    refine h.accept hnext (by rw [hstage]; rfl) (by rw [hstage]; rfl) ?_
    rintro rfl
    exact harm
  | empty now cancelArm batch hstage hroom hnext =>
    have harm := h.arm cancelArm batch hstage
    refine h.endDrain now (by rw [hstage]; rfl) (by rw [hstage]; rfl) ?_ id
      (fun _ => next_none hnext)
    rintro rfl
    exact harm
  | full now cancelArm batch hstage hfull =>
    have harm := h.arm cancelArm batch hstage
    refine h.endDrain now (by rw [hstage]; rfl) (by rw [hstage]; rfl) ?_ (by simp) ?_
    · rintro rfl
      exact harm
    · rintro (hclosed | hroom)
      · cases hclosed
      · omega
  | record last at_ entry todo buffer hstage => exact h.record hstage
  | flush last at_ buffer hstage => exact h.flush hstage

end Sound

/-! ## Termination

Each move of the task costs less than the entry or the stage that it uses up. -/

/-- What the task has left to do before it is at rest. -/
def work (sink : Sink) : ℕ :=
  7 * (sink.ring.tail - sink.cursor) + match sink.stage with
    | .waiting => 4
    | .draining _ batch => 6 * batch.length + 2
    | .writing last _ todo _ => todo.length + if last then 1 else 6
    | .done => 0

/-- A move of the task leaves less to do. -/
theorem work_lt {files : List (ℕ × List UInt8)} {options : SinkOptions}
    (h : Sound files options sink) {move : SinkMove} (htask : move.isTask = true)
    (hstep : sink.step capacity move = some sink') : sink'.work < sink.work := by
  cases moved_of_step hstep with
  | send frame hopen => cases htask
  | close => cases htask
  | cancel => cases htask
  | selectCancel hstage hcancelled => simp [work, hstage]
  | first now entry hstage hnext =>
    obtain ⟨hpos, hle, -⟩ := next_spec hnext h.accounts
    simp only [work, accept, hstage, List.length_singleton]
    omega
  | closed now hstage hnext hclosed => simp [work, endDrain, hstage]
  | more now entry cancelArm batch hstage hnext =>
    obtain ⟨hpos, hle, -⟩ := next_spec hnext h.accounts
    simp only [work, accept, hstage, List.length_append, List.length_singleton]
    omega
  | empty now cancelArm batch hstage hroom hnext =>
    have harm := h.arm cancelArm batch hstage
    simp only [work, endDrain, hstage]
    cases cancelArm with
    | true =>
      simp only [hroom, decide_true, Bool.or_true, if_true]
      omega
    | false =>
      have hpos := List.length_pos_iff.mpr harm
      split_ifs <;> omega
  | full now cancelArm batch hstage hfull =>
    unfold maxBatchRecords at hfull
    simp only [work, endDrain, hstage]
    split_ifs <;> omega
  | record last at_ entry todo buffer hstage => simp [work, hstage]
  | flush last at_ buffer hstage =>
    simp only [work, hstage]
    cases last <;> simp

/-- Once cancelled, the task can move until it has returned. -/
theorem exists_task_move (capacity : ℕ) (hcancelled : sink.cancelled.isSome)
    (hstage : sink.stage ≠ .done) :
    ∃ move, move.isTask = true ∧ (sink.step capacity move).isSome := by
  cases hsink : sink.stage with
  | waiting => exact ⟨.selectCancel, rfl, by simp [step, hsink, hcancelled]⟩
  | draining cancelArm batch =>
    refine ⟨.drain 0, rfl, ?_⟩
    simp only [step, hsink]
    split
    · split <;> rfl
    · rfl
  | writing last at_ todo buffer =>
    refine ⟨.write, rfl, ?_⟩
    cases todo <;> simp [step, hsink]
  | done => exact absurd hsink hstage

end Sink

/-! ## Conservation -/

/-- What the archive of a sink holds at any point of a run. -/
structure Archived (first : ℕ) (options : SinkOptions) (capacity : ℕ) (sink : Sink) : Prop where
  /-- In increasing order the files hold one line for each entry received, but for those in hand;
  every file but the active one reached the limit with its last record only. -/
  lines : ∃ (volumes : List (List ArchiveRecord)) (inHand : List Entry),
    sink.writer.dir.written first = shelf first volumes ∧
    ((sink.writer.dir.written first).flatMap Prod.snd).splitOn '\n'.toUInt8 =
      volumes.flatten.map ArchiveRecord.json ++ [[]] ∧
    sink.received = volumes.flatten.map ArchiveRecord.entry ++ inHand ∧
    (sink.stage = .waiting ∨ sink.stage = .done → inHand = []) ∧
    ∀ volume ∈ volumes.dropLast, Full options.maxBytes volume
  /-- The entries are the frames sent, in order, with the missed ones counted. -/
  accounts : Accounts (sink.ring.taken sink.cursor) sink.received
  total : sink.stage = .done → logCount sink.received + gapSum sink.received = sink.drained
  /-- The newest files are kept, and the active one among them. -/
  count : sink.writer.dir.files.length ≤ options.maxFiles
  newest : ∀ old ∈ sink.writer.dir.pruned, ∀ file ∈ sink.writer.dir.files, old.1 < file.1
  active : sink.writer.seq ∈ sink.writer.dir.seqs
  protects : ∀ keep, sink.writer.seq ∈
    (pruneDir sink.writer.dir keep (some sink.writer.seq)).seqs
  /-- A cancelled sink ends with everything that had been sent. -/
  cancelled : sink.stage = .done → ∀ sent ∈ sink.cancelled, sent ≤ sink.drained
  moves : sink.cancelled.isSome → sink.stage ≠ .done →
    ∃ move, move.isTask = true ∧ (sink.step capacity move).isSome
  ends : ∀ move sink', move.isTask = true → sink.step capacity move = some sink' →
    sink'.work < sink.work

/-- At every point of every run the archive is complete, in order and within its limits. -/
theorem archive_conserved (capacity : ℕ) (options : SinkOptions)
    {files : List (ℕ × List UInt8)} (hunique : (files.map Prod.fst).Nodup) {sink : Sink}
    (h : Reach (Sink.step capacity) (fun _ _ => True) (· = Sink.spawn files options) sink) :
    Archived (Dir.nextSeq ⟨files, []⟩) options capacity sink := by
  have hsound : Sink.Sound files options sink := by
    refine h.invariant ?_ ?_
    · rintro sink rfl
      exact .spawn hunique
    · intro sink move sink' hsound _ hstep
      exact hsound.step hstep
  obtain ⟨records, hreceived, closed, current, hrecords, hshelved⟩ := hsound.holds
  obtain ⟨stored, held, hcurrent, hheld, -, hall⟩ := hshelved.content
  have hwritten := Dir.written_eq_shelf hshelved.older hall
  constructor
  case lines =>
    refine ⟨closed ++ [stored], held.map ArchiveRecord.entry ++ sink.stage.todo, hwritten,
      ?_, ?_, ?_, ?_⟩
    · rw [hwritten, shelf_flatMap, splitOn_encode]
    · rw [hreceived, ← hrecords, ← hcurrent]
      simp
    · intro hidle
      have hnothing : sink.stage.todo = [] ∧ sink.stage.buffer = [] := by
        rcases hidle with hidle | hidle <;> rw [hidle] <;> exact ⟨rfl, rfl⟩
      rw [hnothing.2] at hheld
      rw [hnothing.1, eq_nil_of_encode hheld]
      rfl
    · rw [List.dropLast_concat, ← hsound.options]
      exact hshelved.full
  case accounts => exact hsound.accounts
  case total =>
    intro hdone
    have hended := hsound.ended (by rw [hdone]; rfl)
    rw [hsound.accounts.count, Broadcast.length_taken hsound.cursor, hended.all]
  case count =>
    rw [← hsound.options]
    exact hshelved.count
  case newest => exact hshelved.ranked.newest
  case active => exact hshelved.active
  case protects => exact hshelved.protected_
  case cancelled =>
    intro hdone
    exact (hsound.ended (by rw [hdone]; rfl)).reach
  case moves => exact Sink.exists_task_move capacity
  case ends => exact fun move sink' htask hstep => Sink.work_lt hsound htask hstep

/-- A frame of one line. -/
def startupFrame : LogFrame where
  at_ := 1700000000000
  epoch := 7
  kind := .mihomo
  stream := .stdout
  level := .info
  timestamp := none
  target := none
  message := "startup frame".toList
  fields := []
  raw := "startup frame".toList
  truncated := false

/-- Limits under which every record has a file of its own. -/
def tightOptions : SinkOptions := ⟨1, 1, by decide, by decide⟩

/-- A sink that is cancelled after it has missed the first of two frames. -/
theorem archive_conserved_cancelled :
    ∃ sink, sink.stage = .done ∧ sink.received = [.gap 1, .log startupFrame] ∧
      Archived 1 tightOptions 1 sink := by
  have hrun : ∃ sink, Reach (Sink.step 1) (fun _ _ => True) (· = Sink.spawn [] tightOptions) sink ∧
      ((sink.stage matches .done) && sink.received == [.gap 1, .log startupFrame]) = true :=
    exists_reach _ _ rfl [.send startupFrame, .send startupFrame, .cancel, .selectCancel,
      .drain 0, .drain 0, .drain 0, .write, .write, .write] (by decide +kernel)
  obtain ⟨sink, hreach, hsink⟩ := hrun
  obtain ⟨hstage, hreceived⟩ := Bool.and_eq_true_iff.mp hsink
  have hunique : (([] : List (ℕ × List UInt8)).map Prod.fst).Nodup := List.nodup_nil
  refine ⟨sink, ?_, by simpa using hreceived, archive_conserved 1 tightOptions hunique hreach⟩
  revert hstage
  cases sink.stage <;> simp

end Nyanpasu.Log
