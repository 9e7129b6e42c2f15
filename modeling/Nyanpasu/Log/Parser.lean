import Nyanpasu.Log.Header

/-!
# The log parser

The parser turns lines of two console streams into frames. A record at the error level
is held, so that lines without a header can continue it; the next root of its stream
releases it, and the end of the process releases what is still held.
-/

namespace Nyanpasu.Log

/-- `ParsedFrames`: a released record and the line that ended it. -/
abbrev ParsedFrames := Option LogFrame × Option LogFrame

/-- The frames among the two. -/
def ParsedFrames.frames (out : ParsedFrames) : List LogFrame := out.1.toList ++ out.2.toList

/-- `LogParser`. -/
structure LogParser (chrono : Chrono) where
  kind : CoreKind
  epoch : ℕ
  premiumClock : PremiumClock chrono
  pending : LogStream → Option Pending
  newestPending : Option LogStream

/-- One line of a stream with the instant of its observation. -/
structure Push (chrono : Chrono) where
  stream : LogStream
  line : Text
  observedAt : chrono.Instant

/-- Whether a line opens an error block, `line.starts_with("Error:")`. -/
def errorRoot (line : Text) : Bool := "Error:".toList.isPrefixOf line

/-- Whether a line opens a warning, `line.starts_with("warning:")`. -/
def warningRoot (line : Text) : Bool := "warning:".toList.isPrefixOf line

/-- The level of a line without a header. -/
def plainLevel (line : Text) (stream : LogStream) : LogLevel :=
  match errorRoot line, warningRoot line, stream with
  | true, _, _ => .error
  | _, true, _ => .warning
  | _, _, .stdout => .info
  | _, _, .stderr => .warning

namespace LogParser

variable {chrono : Chrono}

/-- `LogParser::new`. -/
def new (kind : CoreKind) (epoch : ℕ) : LogParser chrono :=
  ⟨kind, epoch, none, fun _ => none, none⟩

/-- The frame that a line opens, before it is cut. -/
def frameOf (parser : LogParser chrono) (stream : LogStream) (line : Text)
    (observedAt : chrono.Instant) : Option ParsedLine → LogFrame
  | some parsed => {
      at_ := chrono.timestampMillis observedAt
      epoch := parser.epoch
      kind := parser.kind
      stream
      level := parsed.level
      timestamp := parsed.timestamp
      target := parsed.target
      message := parsed.message
      fields := parsed.fields
      raw := line
      truncated := false }
  | none => {
      at_ := chrono.timestampMillis observedAt
      epoch := parser.epoch
      kind := parser.kind
      stream
      level := plainLevel line stream
      timestamp := none
      target := none
      message := line
      fields := []
      raw := line
      truncated := false }

/-- Whether the record that a line opens is held. -/
def holds (stream : LogStream) (line : Text) : Option ParsedLine → Bool
  | some parsed => parsed.level.isError
  | none => errorRoot line && stream = .stderr

/-- `emit`: release what the stream held, and hold or pass on the new frame. -/
def emit (parser : LogParser chrono) (stream : LogStream) (frame : LogFrame) (hold : Bool) :
    LogParser chrono × ParsedFrames :=
  let flushed := (parser.pending stream).map Pending.frame
  if hold then
    ({ parser with
        newestPending := some stream
        pending := Function.update parser.pending stream (some ⟨frame, 0⟩) }, (flushed, none))
  else
    ({ parser with pending := Function.update parser.pending stream none }, (flushed, some frame))

/-- The line is the root of a record: its frame is cut and emitted or held. -/
def openRecord (parser : LogParser chrono) (push : Push chrono) (line : Text)
    (parsed : Option ParsedLine) : Checked (LogParser chrono × ParsedFrames) := do
  let frame ← boundFrame (parser.frameOf push.stream line push.observedAt parsed)
  pure (parser.emit push.stream frame (holds push.stream line parsed))

/-- The line continues the record that its stream holds. -/
def continueRecord (parser : LogParser chrono) (push : Push chrono) (line : Text)
    (pending : Pending) : Checked (LogParser chrono × ParsedFrames) := do
  let pending ← pending.append line
  pure ({ parser with pending := Function.update parser.pending push.stream (some pending) },
    (none, none))

/-- `push_at`. -/
def pushAt (parser : LogParser chrono) (push : Push chrono) :
    Checked (LogParser chrono × ParsedFrames) := do
  let line ← stripAnsi push.line
  let (parsed, clock) ← parseHeader chrono parser.kind parser.premiumClock line push.observedAt
  let parser := { parser with premiumClock := clock }
  match parsed with
  | some parsed => parser.openRecord push line (some parsed)
  | none =>
    -- clash-rs and meow also write plain text without a level to stderr
    match !errorRoot line && !warningRoot line, parser.pending push.stream with
    | true, some pending => parser.continueRecord push line pending
    | _, _ => parser.openRecord push line none

/-- `finish`. -/
def finish (parser : LogParser chrono) : LogParser chrono × ParsedFrames :=
  let stdout := (parser.pending .stdout).map Pending.frame
  let stderr := (parser.pending .stderr).map Pending.frame
  ({ parser with pending := fun _ => none, newestPending := none },
    match parser.newestPending with
    | some .stdout => (stderr, stdout)
    | _ => (stdout, stderr))

/-- A sequence of pushes, with what each of them returned. -/
def run (parser : LogParser chrono) :
    List (Push chrono) → Checked (LogParser chrono × List ParsedFrames)
  | [] => pure (parser, [])
  | push :: pushes => do
    let (parser, out) ← parser.pushAt push
    let (parser, outs) ← parser.run pushes
    pure (parser, out :: outs)

/-- A sequence of pushes and the end of the process. -/
def session (parser : LogParser chrono) (pushes : List (Push chrono)) :
    Checked (LogParser chrono × List ParsedFrames × ParsedFrames) := do
  let (parser, outs) ← parser.run pushes
  let (parser, last) := parser.finish
  pure (parser, outs, last)

end LogParser

/-- A clock at the offset zero that reads no printed dates. -/
def utcClock : Chrono where
  Instant := ℤ
  Date := ℤ
  Time := ℤ
  Offset := Unit
  timestampMillis := id
  parseFromRfc3339 := fun _ => none
  offset := fun _ => ()
  dateNaive := fun at_ => some (at_ / 86400000)
  time := fun at_ => at_ % 86400000 * 10 ^ 6
  fromYmdOpt := fun _ _ _ => none
  fromHmsNanoOpt := fun _ _ _ _ => none
  parseTime := fun _ => none
  signedDurationSince := fun a b => a - b
  succOpt := fun date => some (date + 1)
  predOpt := fun date => some (date - 1)
  fromLocalDatetime := fun _ date time => some (date * 86400000 + time / 10 ^ 6)

end Nyanpasu.Log
