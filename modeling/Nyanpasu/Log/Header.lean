import Nyanpasu.Log.Frame

/-!
# Record headers

Each kind of core prints its own layout: mihomo logfmt, clash premium's pretty print,
and two formats of tracing. A line whose header does not match has no parsed form.
Positions are byte offsets, as in the source, and every slice, index and arithmetic
operation that can panic is a step of its own.
-/

namespace Nyanpasu.Log

/-- The part of `chrono` that the parser calls. -/
structure Chrono where
  /-- `DateTime<FixedOffset>`. -/
  Instant : Type
  /-- `NaiveDate`. -/
  Date : Type
  /-- `NaiveTime`. -/
  Time : Type
  /-- `FixedOffset`. -/
  Offset : Type
  timestampMillis : Instant → ℤ
  parseFromRfc3339 : Text → Option Instant
  offset : Instant → Offset
  /-- The local date, which panics when it leaves the range of dates. -/
  dateNaive : Instant → Option Date
  time : Instant → Time
  fromYmdOpt : ℤ → ℕ → ℕ → Option Date
  fromHmsNanoOpt : ℕ → ℕ → ℕ → ℕ → Option Time
  /-- `NaiveTime::parse_from_str` with `%H:%M:%S`. -/
  parseTime : Text → Option Time
  /-- The difference of two times of a day in nanoseconds. -/
  signedDurationSince : Time → Time → ℤ
  succOpt : Date → Option Date
  predOpt : Date → Option Date
  /-- The single instant of a local date and time. -/
  fromLocalDatetime : Offset → Date → Time → Option Instant

/-- `ParsedLine`. -/
structure ParsedLine where
  timestamp : Option LogTimestamp
  level : LogLevel
  target : Option Text
  message : Text
  fields : List LogField

/-! ## Escape sequences -/

/-- The loop of `strip_ansi`: complete CSI sequences are dropped, and bare escapes. -/
def stripFrom (bytes : List UInt8) (index : ℕ) (output : List UInt8) : List UInt8 :=
  if h : index < bytes.length then
    if bytes[index] ≠ 0x1b then stripFrom bytes (index + 1) (output ++ [bytes[index]])
    else if bytes[index + 1]? ≠ some '['.toUInt8 then stripFrom bytes (index + 1) output
    else
      let final := Text.scanWhile bytes (fun byte => !(0x40 ≤ byte && byte ≤ 0x7e)) (index + 2)
      stripFrom bytes (min (final + 1) bytes.length) output
  else output
termination_by bytes.length - index
decreasing_by
  · omega
  · omega
  · have := Text.le_scanWhile bytes (fun byte => !(0x40 ≤ byte && byte ≤ 0x7e)) (index + 2)
    omega

/-- `strip_ansi`. -/
def stripAnsi (line : Text) : Checked Text :=
  if !line.bytes.contains 0x1b then pure line
  else (Text.fromUtf8 (stripFrom line.bytes 0 [])).elim (throw .expect) pure

/-! ## Pieces shared by the layouts -/

/-- `parse_level`. -/
def parseLevel (level : Text) : Option LogLevel :=
  match String.ofList level with
  | "trace" | "TRC" | "TRACE" => some .trace
  | "debug" | "DBG" | "DEBUG" => some .debug
  | "info" | "INF" | "INFO" => some .info
  | "warn" | "warning" | "WRN" | "WARN" => some .warning
  | "error" | "ERR" | "ERROR" => some .error
  | "fatal" | "panic" | "FTL" | "PNC" => some .fatal
  -- the placeholder of phuslu/log for a level it does not know
  | "???" => some .info
  | _ => none

/-- `take_token`: the next word and what follows it. -/
def takeToken (input : Text) : Attempt (Text × Text) := do
  let input := input.trimStart
  let stop ← Attempt.ofOption (input.find Text.isWhitespace)
  let token ← input.sliceTo stop
  let rest ← input.sliceFrom stop
  pure (token, rest.trimStart)

/-- `u8::is_ascii_digit`. -/
def isAsciiDigit (byte : UInt8) : Bool := '0'.toUInt8 ≤ byte && byte ≤ '9'.toUInt8

/-- `u8::is_ascii_whitespace`. -/
def isAsciiWhitespace (byte : UInt8) : Bool :=
  byte == 0x20 || byte == 0x09 || byte == 0x0a || byte == 0x0c || byte == 0x0d

section

variable (chrono : Chrono)

/-- `parse_rfc3339_ms`. -/
def parseRfc3339Ms (raw : Text) : Option ℤ :=
  (chrono.parseFromRfc3339 raw).map chrono.timestampMillis

/-- `local_unix_ms`. -/
def localUnixMs (date : chrono.Date) (time : chrono.Time) (offset : chrono.Offset) : Option ℤ :=
  (chrono.fromLocalDatetime offset date time).map chrono.timestampMillis

end

/-! ## mihomo -/

/-- The loop over a key of `scan_logfmt`, up to its equals sign. -/
def scanKey (bytes : List UInt8) (index : ℕ) : Option ℕ :=
  if h : index < bytes.length then
    if bytes[index] ≠ '='.toUInt8 then
      if isAsciiWhitespace bytes[index] then none else scanKey bytes (index + 1)
    else some index
  else some index
termination_by bytes.length - index

/-- What an escaped byte of a quoted value stands for. -/
def unescape (escaped : UInt8) : List UInt8 :=
  if escaped = '"'.toUInt8 || escaped = '\\'.toUInt8 then [escaped]
  else if escaped = 'n'.toUInt8 then ['\n'.toUInt8]
  else if escaped = 'r'.toUInt8 then ['\r'.toUInt8]
  else if escaped = 't'.toUInt8 then ['\t'.toUInt8]
  else ['\\'.toUInt8, escaped]

/-- The loop over a quoted value of `scan_logfmt`: the index behind it, the value and whether it
was closed. -/
def scanQuoted (bytes : List UInt8) (index : ℕ) (value : List UInt8) :
    Option (ℕ × List UInt8 × Bool) :=
  if h : index < bytes.length then
    if bytes[index] = '"'.toUInt8 then some (index + 1, value, true)
    else if bytes[index] = '\\'.toUInt8 then
      match bytes[index + 1]? with
      | none => none
      | some escaped => scanQuoted bytes (index + 2) (value ++ unescape escaped)
    else scanQuoted bytes (index + 1) (value ++ [bytes[index]])
  else some (index, value, false)
termination_by bytes.length - index

/-- The value of a field of `scan_logfmt`, with the index behind it. -/
def scanValue (line : Text) (bytes : List UInt8) (index : ℕ) : Option (ℕ × Text) :=
  if bytes[index]? = some '"'.toUInt8 then
    match scanQuoted bytes (index + 1) [] with
    | none => none
    | some (index, value, closed) =>
      if !closed || (bytes[index]?).any (fun byte => !isAsciiWhitespace byte) then none
      else (Text.fromUtf8 value).map fun value => (index, value)
  else
    let stop := Text.scanWhile bytes (fun byte => !isAsciiWhitespace byte) index
    (line.get? index stop).map fun value => (stop, value)

/-- Scanning a key moves forward. -/
theorem le_of_scanKey {bytes : List UInt8} {index stop : ℕ}
    (h : scanKey bytes index = some stop) : index ≤ stop := by
  fun_induction scanKey bytes index with
  | case1 => simp at h
  | case2 index _ _ _ ih =>
    have := ih h
    omega
  | case3 => exact Nat.le_of_eq (Option.some.inj h)
  | case4 => exact Nat.le_of_eq (Option.some.inj h)

/-- Scanning a quoted value moves forward. -/
theorem le_of_scanQuoted {bytes value value' : List UInt8} {index stop : ℕ} {closed : Bool}
    (h : scanQuoted bytes index value = some (stop, value', closed)) : index ≤ stop := by
  fun_induction scanQuoted bytes index value with
  | case1 =>
    obtain ⟨rfl, -⟩ := by simpa using h
    omega
  | case2 => simp at h
  | case3 index value _ _ _ escaped _ ih =>
    have := ih h
    omega
  | case4 index value _ _ _ ih =>
    have := ih h
    omega
  | case5 =>
    obtain ⟨rfl, -⟩ := by simpa using h
    omega

/-- Scanning a value moves forward. -/
theorem le_of_scanValue {line value : Text} {bytes : List UInt8} {index stop : ℕ}
    (h : scanValue line bytes index = some (stop, value)) : index ≤ stop := by
  rw [scanValue] at h
  split at h
  · split at h
    · simp at h
    next heq =>
      have := le_of_scanQuoted heq
      split at h
      · simp at h
      · obtain ⟨_, -, ⟨⟩⟩ := Option.map_eq_some_iff.mp h
        omega
  · obtain ⟨_, -, ⟨⟩⟩ := Option.map_eq_some_iff.mp h
    exact Text.le_scanWhile _ _ _

/-- The loop of `scan_logfmt`. -/
def scanFields (line : Text) (bytes : List UInt8) (index : ℕ) (fields : List (Text × Text)) :
    Option (List (Text × Text)) :=
  if index < bytes.length then
    let keyStart := Text.scanWhile bytes isAsciiWhitespace index
    if keyStart = bytes.length then some fields
    else
      match _hkey : scanKey bytes keyStart with
      | none => none
      | some keyEnd =>
        if keyEnd = keyStart ∨ keyEnd = bytes.length then none
        else
          match line.get? keyStart keyEnd with
          | none => none
          | some key =>
            match _hvalue : scanValue line bytes (keyEnd + 1) with
            | none => none
            | some (stop, value) => scanFields line bytes stop (fields ++ [(key, value)])
  else some fields
termination_by bytes.length - index
decreasing_by
  have h1 := Text.le_scanWhile bytes isAsciiWhitespace index
  have h2 := le_of_scanKey _hkey
  have h3 := le_of_scanValue _hvalue
  omega

/-- `scan_logfmt`. -/
def scanLogfmt (line : Text) : Option (List (Text × Text)) := scanFields line line.bytes 0 []

/-- What the loop of `parse_mihomo` has gathered. -/
structure Logfmt where
  rawTime : Option Text := none
  level : Option LogLevel := none
  message : Option Text := none
  fields : List LogField := []

/-- One round of the loop of `parse_mihomo`. -/
def Logfmt.add (gathered : Logfmt) : Text × Text → Logfmt
  | (key, value) =>
    match String.ofList key with
    | "time" => { gathered with rawTime := some value }
    | "level" => { gathered with level := parseLevel value }
    | "msg" => { gathered with message := some value }
    | _ => { gathered with fields := gathered.fields ++ [⟨key, value⟩] }

/-- `parse_mihomo`. -/
def parseMihomo (chrono : Chrono) (line : Text) : Option ParsedLine := do
  let pairs ← scanLogfmt line
  let gathered := pairs.foldl Logfmt.add {}
  let rawTime ← gathered.rawTime
  let level ← gathered.level
  let message ← gathered.message
  some {
    timestamp := some ⟨rawTime, parseRfc3339Ms chrono rawTime, false⟩
    level, target := none, message, fields := gathered.fields }

/-! ## meow -/

/-- `parse_meow`. -/
def parseMeow (chrono : Chrono) (line : Text) : Attempt ParsedLine := do
  let (rawTime, rest) ← takeToken line
  let (level, rest) ← takeToken rest
  let level ← Attempt.ofOption (parseLevel level)
  let (target, message) ← Attempt.ofOption (rest.splitOnce ": ".toList)
  if target.isEmpty then failure
  else pure {
    timestamp := some ⟨rawTime, parseRfc3339Ms chrono rawTime, false⟩
    level, target := some target, message, fields := [] }

/-! ## clash-rs -/

/-- The separators of a clash-rs timestamp, by position. -/
def timestampSeparators : List (ℕ × UInt8) :=
  [(2, '-'.toUInt8), (5, '-'.toUInt8), (8, ' '.toUInt8), (11, ':'.toUInt8), (14, ':'.toUInt8),
    (17, ':'.toUInt8)]

/-- The numbers of a clash-rs timestamp, by position. -/
def timestampNumbers : List (ℕ × ℕ) := [(0, 2), (3, 5), (6, 8), (9, 11), (12, 14), (15, 17)]

/-- Whether every number of a clash-rs timestamp has only digits. -/
def allNumbers (bytes : List UInt8) : List (ℕ × ℕ) → Checked Bool
  | [] => pure true
  | (start, stop) :: numbers => do
    let digits ← Checked.range bytes start stop
    if digits.all isAsciiDigit then allNumbers bytes numbers else pure false

/-- `clash_rs_timestamp_end`. -/
def clashRsTimestampEnd (line : Text) : Attempt ℕ := do
  let bytes := line.bytes
  if !timestampSeparators.all (fun (index, separator) => bytes[index]? == some separator) then
    failure
  else if !(← allNumbers bytes timestampNumbers) then failure
  else
    let rest ← Checked.range bytes 18 bytes.length
    let digits := (rest.takeWhile isAsciiDigit).length
    -- the trailing space separates the header from the level
    if 1 ≤ digits ∧ digits ≤ 9 ∧ bytes[18 + digits]? = some ' '.toUInt8 then pure (18 + digits)
    else failure

/-- A number of a clash-rs timestamp. -/
def timestampNumber (raw : Text) (start stop : ℕ) : Option ℕ :=
  (raw.get? start stop).bind Text.parseU32

/-- `clash_rs_unix_ms`. -/
def clashRsUnixMs (chrono : Chrono) (raw : Text) (offset : chrono.Offset) : Attempt ℤ := do
  let number := fun start stop => Attempt.ofOption (timestampNumber raw start stop)
  let subsecond ← Attempt.ofOption (raw.getFrom? 18)
  let value ← Attempt.ofOption subsecond.parseU32
  let exponent ← Checked.sub 9 (subsecond.len % 2 ^ 32)
  let scale ← Checked.u32 (10 ^ exponent)
  let nanos ← Checked.u32 (value * scale)
  let year ← Checked.i32 (2000 + (← number 0 2))
  let date ← Attempt.ofOption (chrono.fromYmdOpt year (← number 3 5) (← number 6 8))
  let time ← Attempt.ofOption
    (chrono.fromHmsNanoOpt (← number 9 11) (← number 12 14) (← number 15 17) nanos)
  Attempt.ofOption (localUnixMs chrono date time offset)

/-- One round of the loop of `clash_rs_source`, at a separator; nothing when it goes on. -/
def clashRsSourceAt (rest : Text) (separator : ℕ) : Checked (Option (Text × Text)) := do
  let head ← rest.sliceTo separator
  match head.rfind (· == ':') with
  | none => pure none
  | some colon =>
    let number ← head.sliceFrom (colon + 1)
    if number.isEmpty || !number.bytes.all isAsciiDigit then pure none
    else
      let path ← head.sliceTo colon
      let start := (path.rfind Text.isWhitespace).elim 0 (· + 1)
      if start = colon then pure none
      else
        let source ← head.sliceFrom start
        let message ← rest.sliceFrom (separator + 2)
        pure (some (source, message))

/-- The loop of `clash_rs_source` over the separators. -/
def clashRsSourceFrom (rest : Text) : List ℕ → Checked (Option (Text × Text))
  | [] => pure none
  | separator :: separators => do
    match ← clashRsSourceAt rest separator with
    | some found => pure (some found)
    | none => clashRsSourceFrom rest separators

/-- `clash_rs_source`: the first `file:line` anchor and the message behind it. -/
def clashRsSource (rest : Text) : Attempt (Text × Text) :=
  OptionT.mk (clashRsSourceFrom rest (rest.matchIndices ": ".toList))

/-- The head of `parse_clash_rs`: the timestamp, the level and what follows them. -/
def clashRsHead (line : Text) : Attempt (Text × LogLevel × Text) := do
  let timestampEnd ← clashRsTimestampEnd line
  let rawTime ← Attempt.ofOption (line.getTo? timestampEnd)
  let (level, rest) ← takeToken (← Attempt.ofOption (line.getFrom? timestampEnd))
  let level ← Attempt.ofOption (parseLevel level)
  pure (rawTime, level, rest)

/-- `parse_clash_rs`. -/
def parseClashRs (chrono : Chrono) (line : Text) (observedAt : chrono.Instant) :
    Attempt ParsedLine := do
  let (rawTime, level, rest) ← clashRsHead line
  let (target, message) ← clashRsSource rest
  -- the field takes the option that `clash_rs_unix_ms` returns
  let unixMs ← (clashRsUnixMs chrono rawTime (chrono.offset observedAt)).optional
  pure {
    timestamp := some ⟨rawTime, unixMs, true⟩
    level, target := some target, message, fields := [] }

/-! ## clash premium -/

/-- `premium_target`: the tag in front of a message. -/
def premiumTarget (body : Text) : Option Text × Text :=
  let tagged := match body with
    | '[' :: rest => Text.splitOnce rest "] ".toList
    | _ => none
  match tagged with
  | some (tag, message) =>
    if !tag.isEmpty && !tag.contains ' ' then (some tag, message) else (none, body)
  | none => (none, body)

section

variable (chrono : Chrono)

/-- The date and time of the last premium record. -/
abbrev PremiumClock := Option (chrono.Date × chrono.Time)

/-- Twelve hours in nanoseconds. -/
def halfDay : ℤ := 12 * 3600 * 10 ^ 9

/-- The date that `premium_unix_ms` gives a printed time. -/
def premiumDate (time : chrono.Time) (observedAt : chrono.Instant) :
    PremiumClock chrono → Attempt chrono.Date
  | some (date, previous) =>
    if chrono.signedDurationSince previous time > halfDay then
      Attempt.ofOption (chrono.succOpt date)
    else pure date
  | none => do
    let observed ← (chrono.dateNaive observedAt).elim (throw .range : Checked chrono.Date) pure
    if chrono.signedDurationSince time (chrono.time observedAt) > halfDay then
      Attempt.ofOption (chrono.predOpt observed)
    else pure observed

/-- `premium_unix_ms`, with the clock it leaves. -/
def premiumUnixMs (time : chrono.Time) (observedAt : chrono.Instant)
    (clock : PremiumClock chrono) : Checked (Option ℤ × PremiumClock chrono) := do
  match ← (premiumDate chrono time observedAt clock).run with
  | none => pure (none, clock)
  | some date => pure (localUnixMs chrono date time (chrono.offset observedAt), some (date, time))

/-- The head of `parse_premium`: the time with its text, the level and what follows them. -/
def premiumHead (line : Text) : Option (Text × chrono.Time × LogLevel × Text) := do
  let bytes := line.bytes
  if bytes[8]? ≠ some ' '.toUInt8 || bytes[12]? ≠ some ' '.toUInt8 then none
  else
    let rawTime ← line.getTo? 8
    let time ← chrono.parseTime rawTime
    let level ← parseLevel (← line.get? 9 12)
    let body ← line.getFrom? 13
    some (rawTime, time, level, body)

/-- `parse_premium`, with the clock it leaves. -/
def parsePremium (line : Text) (observedAt : chrono.Instant) (clock : PremiumClock chrono) :
    Checked (Option ParsedLine × PremiumClock chrono) :=
  match premiumHead chrono line with
  | none => pure (none, clock)
  | some (rawTime, time, level, body) => do
    let (target, message) := premiumTarget body
    let (unixMs, clock) ← premiumUnixMs chrono time observedAt clock
    pure (some {
      timestamp := some ⟨rawTime, unixMs, true⟩
      level, target, message, fields := [] }, clock)

/-- `parse_header`, with the clock it leaves. -/
def parseHeader (kind : CoreKind) (clock : PremiumClock chrono) (line : Text)
    (observedAt : chrono.Instant) : Checked (Option ParsedLine × PremiumClock chrono) :=
  match kind with
  | .mihomo => pure (parseMihomo chrono line, clock)
  | .meow => do pure (← (parseMeow chrono line).run, clock)
  | .clashRust => do pure (← (parseClashRs chrono line observedAt).run, clock)
  | .clashPremium => parsePremium chrono line observedAt clock

end

end Nyanpasu.Log
