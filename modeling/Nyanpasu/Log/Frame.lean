import Nyanpasu.Error
import Nyanpasu.Lib.Text

/-!
# Log frames

One normalized record of a core's console output, with the caps that every frame
leaving the parser respects: a root is cut once before it is emitted or held, and a
held record takes continuation lines as far as they fit.
-/

namespace Nyanpasu.Log

/-- `LogLevel`, in increasing severity. -/
inductive LogLevel where
  | trace
  | debug
  | info
  | warning
  | error
  | fatal
  deriving DecidableEq, Repr

/-- `parsed.level >= LogLevel::Error`. -/
def LogLevel.isError : LogLevel → Bool
  | .error | .fatal => true
  | .trace | .debug | .info | .warning => false

/-- `LogStream`: the console stream of a record. -/
inductive LogStream where
  | stdout
  | stderr
  deriving DecidableEq, Repr

/-- `LogTimestamp`. -/
structure LogTimestamp where
  raw : Text
  unixMs : Option ℤ
  inferred : Bool
  deriving DecidableEq

/-- `LogField`. -/
structure LogField where
  key : Text
  value : Text
  deriving DecidableEq

/-- `LogFrame`. -/
structure LogFrame where
  at_ : ℤ
  epoch : ℕ
  kind : CoreKind
  stream : LogStream
  level : LogLevel
  timestamp : Option LogTimestamp
  target : Option Text
  message : Text
  fields : List LogField
  raw : Text
  truncated : Bool
  deriving DecidableEq

/-- `MAX_CONTINUATION_LINES`. -/
def maxContinuationLines : ℕ := 16

/-- `MAX_LOG_TEXT_BYTES`. -/
def maxLogTextBytes : ℕ := 16 * 1024

/-- `MAX_LOG_TARGET_BYTES`. -/
def maxLogTargetBytes : ℕ := 2048

/-- `MAX_LOG_TIMESTAMP_RAW_BYTES`. -/
def maxLogTimestampRawBytes : ℕ := 256

/-- `MAX_LOG_FIELDS`. -/
def maxLogFields : ℕ := 64

/-- `MAX_LOG_FIELD_TEXT_BYTES`. -/
def maxLogFieldTextBytes : ℕ := 1024

/-- `char_boundary_at_or_below`: walk back to a position of the text. -/
def charBoundaryAtOrBelow (text : Text) : ℕ → Checked ℕ
  | 0 => if text.isCharBoundary 0 then pure 0 else throw .overflow
  | stop + 1 =>
    if text.isCharBoundary (stop + 1) then pure (stop + 1) else charBoundaryAtOrBelow text stop

/-- `truncate_text`: the text within its cap, and whether it was cut. -/
def truncateText (text : Text) (maxBytes : ℕ) : Checked (Text × Bool) :=
  if text.len ≤ maxBytes then pure (text, false)
  else do
    let stop ← charBoundaryAtOrBelow text maxBytes
    let text ← text.truncate stop
    pure (text, true)

/-- `append_bounded`: the text with a separator and as much of the line as fits, and whether
something was left behind. -/
def appendBounded (text line : Text) (maxBytes : ℕ) : Checked (Text × Bool) :=
  if maxBytes ≤ text.len then pure (text, true)
  else if line.isEmpty then pure (text ++ ['\n'], false)
  else do
    let budget ← Checked.sub (← Checked.sub maxBytes text.len) 1
    let stop ← charBoundaryAtOrBelow line (min budget line.len)
    if stop = 0 then pure (text, true)
    else
      let kept ← line.sliceTo stop
      pure (text ++ '\n' :: kept, stop < line.len)

/-- The texts of one field within their cap, and whether one was cut. -/
def boundField (field : LogField) : Checked (LogField × Bool) := do
  let (key, cutKey) ← truncateText field.key maxLogFieldTextBytes
  let (value, cutValue) ← truncateText field.value maxLogFieldTextBytes
  pure (⟨key, value⟩, cutKey || cutValue)

/-- The loop of `bound_frame` over the fields. -/
def boundFields : List LogField → Checked (List LogField × Bool)
  | [] => pure ([], false)
  | field :: fields => do
    let (field, cut) ← boundField field
    let (fields, cuts) ← boundFields fields
    pure (field :: fields, cut || cuts)

/-- The cut of the target of a frame. -/
def boundTarget : Option Text → Checked (Option Text × Bool)
  | none => pure (none, false)
  | some target => do
    let (target, cut) ← truncateText target maxLogTargetBytes
    pure (some target, cut)

/-- The cut of the timestamp of a frame. -/
def boundTimestamp : Option LogTimestamp → Checked (Option LogTimestamp × Bool)
  | none => pure (none, false)
  | some timestamp => do
    let (raw, cut) ← truncateText timestamp.raw maxLogTimestampRawBytes
    pure (some { timestamp with raw }, cut)

/-- `bound_frame`: every free text of the frame within its cap. -/
def boundFrame (frame : LogFrame) : Checked LogFrame := do
  let (message, cutMessage) ← truncateText frame.message maxLogTextBytes
  let (raw, cutRaw) ← truncateText frame.raw maxLogTextBytes
  let (target, cutTarget) ← boundTarget frame.target
  let (timestamp, cutTimestamp) ← boundTimestamp frame.timestamp
  let tooMany := maxLogFields < frame.fields.length
  let kept := if tooMany then frame.fields.take maxLogFields else frame.fields
  let (fields, cutFields) ← boundFields kept
  let cut := cutMessage || cutRaw || cutTarget || cutTimestamp || tooMany || cutFields
  pure { frame with message, raw, target, timestamp, fields, truncated := frame.truncated || cut }

/-- `Pending`: a record that waits for continuation lines. -/
structure Pending where
  frame : LogFrame
  continuations : ℕ
  deriving DecidableEq

/-- `Pending::append`. -/
def Pending.append (pending : Pending) (line : Text) : Checked Pending :=
  if pending.continuations = maxContinuationLines then
    pure { pending with frame := { pending.frame with truncated := true } }
  else do
    -- both texts take the line, although they run out of room at different points
    let (raw, cutRaw) ← appendBounded pending.frame.raw line maxLogTextBytes
    let (message, cutMessage) ← appendBounded pending.frame.message line maxLogTextBytes
    let frame := { pending.frame with raw, message }
    if cutRaw || cutMessage then
      pure ⟨{ frame with truncated := true }, maxContinuationLines⟩
    else pure ⟨frame, pending.continuations + 1⟩

/-! ## What the cuts compute

None of these functions panics: each equals the cut of a text to a number of bytes,
given on characters. -/

/-- Walking back from an offset reaches the end of the longest prefix that fits. -/
theorem charBoundaryAtOrBelow_eq (text : Text) (n : ℕ) :
    charBoundaryAtOrBelow text n = .ok (text.clip n).len := by
  induction n with
  | zero =>
    have hzero : (text.clip 0).len = 0 := Nat.le_zero.mp (Text.len_clip_le 0 text)
    have hb : text.isCharBoundary 0 = true := Text.isCharBoundary_iff.mpr ⟨[], text, rfl, rfl⟩
    simp [charBoundaryAtOrBelow, hb, hzero, pure, Except.pure]
  | succ n ih =>
    rw [charBoundaryAtOrBelow]
    split
    next hb =>
      obtain ⟨a, b, rfl, hlen⟩ := Text.isCharBoundary_iff.mp hb
      have hle := Text.len_clip_le (n + 1) (a ++ b)
      have hge := Text.len_le_clip (a := a) (b := b) (n := n + 1) (by omega)
      have heq : ((a ++ b).clip (n + 1)).len = n + 1 := by omega
      rw [heq]
      rfl
    next hb =>
      rw [ih]
      have hne : (text.clip (n + 1)).len ≠ n + 1 := by
        intro heq
        obtain ⟨rest, hrest⟩ := Text.clip_prefix (n + 1) text
        exact hb (Text.isCharBoundary_iff.mpr ⟨_, rest, hrest.symm, heq⟩)
      have hle := Text.len_clip_le (n + 1) text
      have hcut : text.clip (n + 1) = text.clip n :=
        Text.clip_of_len_le (by omega) (by omega)
      rw [hcut]

/-- A text over its cap is cut to the longest prefix that fits. -/
theorem truncateText_eq (text : Text) (n : ℕ) :
    truncateText text n = .ok (text.clip n, decide (n < text.len)) := by
  rw [truncateText]
  split
  next h =>
    have hlt : ¬n < text.len := by omega
    simp [Text.clip_eq_self h, hlt, pure, Except.pure]
  next h =>
    have hcut := Text.clip_prefix n text
    have hslice : text.truncate (text.clip n).len = .ok (text.clip n) := by
      rw [Text.truncate, if_pos (Text.len_le_of_prefix hcut), Text.sliceTo_of_prefix hcut]
    have hlt : n < text.len := by omega
    simp [charBoundaryAtOrBelow_eq, bind, Except.bind, hslice, hlt, pure, Except.pure]

/-- Whether something of a line fits behind a text and a separator. -/
def Fits (text line : Text) (n : ℕ) : Prop :=
  text.len < n ∧ ∀ c ∈ line.head?, text.len + 1 + c.utf8Size ≤ n

/-- What appending a line to a text leaves. -/
structure Appended (text line : Text) (n : ℕ) (text' : Text) (cut : Bool) : Prop where
  kept : text <+: text'
  whole : text' <+: text ++ '\n' :: line
  bounded : text.len ≤ n → text'.len ≤ n
  uncut : cut = false ↔ text' = text ++ '\n' :: line
  fits : text' ≠ text ↔ Fits text line n

/-- A line that is not empty is cut to the room behind the text and the separator. -/
theorem appendBounded_of_room {text line : Text} {n : ℕ} (hlt : text.len < n) (hne : line ≠ []) :
    appendBounded text line n =
      if line.clip (n - text.len - 1) = [] then .ok (text, true)
      else .ok (text ++ '\n' :: line.clip (n - text.len - 1),
        decide ((line.clip (n - text.len - 1)).len < line.len)) := by
  have hempty : line.isEmpty = false := by simpa using hne
  have hroom : ¬n ≤ text.len := by omega
  have hsub : Checked.sub n text.len = .ok (n - text.len) := if_pos (by omega)
  have hone : Checked.sub (n - text.len) 1 = .ok (n - text.len - 1) := if_pos (by omega)
  have hslice := Text.sliceTo_of_prefix (Text.clip_prefix (n - text.len - 1) line)
  simp only [appendBounded, if_neg hroom, hempty, Bool.false_eq_true, if_false, bind,
    Except.bind, hsub, hone, charBoundaryAtOrBelow_eq, Text.clip_min_len, hslice,
    Text.len_eq_zero_iff, pure, Except.pure]

/-- Appending never panics, and keeps a prefix of the text with the line. -/
theorem appendBounded_spec (text line : Text) (n : ℕ) :
    ∃ text' cut, appendBounded text line n = .ok (text', cut) ∧
      Appended text line n text' cut := by
  by_cases hfull : n ≤ text.len
  · have heq : appendBounded text line n = .ok (text, true) := if_pos hfull
    refine ⟨text, true, heq, List.prefix_rfl, List.prefix_append _ _, id, by simp, ?_⟩
    simp only [ne_eq, not_true_eq_false, false_iff, Fits, not_and]
    omega
  · have hlt : text.len < n := by omega
    cases line with
    | nil =>
      have heq : appendBounded text [] n = .ok (text ++ ['\n'], false) := by
        simp [appendBounded, hfull, pure, Except.pure]
      refine ⟨text ++ ['\n'], false, heq, List.prefix_append _ _, List.prefix_rfl, ?_, by simp, ?_⟩
      · have hsep : '\n'.utf8Size = 1 := rfl
        simp only [Text.len_append, Text.len_cons, Text.len_nil, hsep]
        omega
      · simp [Fits, hlt]
    | cons c line =>
      have hcut := Text.clip_prefix (n - text.len - 1) (c :: line)
      have hle := Text.len_clip_le (n - text.len - 1) (c :: line)
      rw [appendBounded_of_room hlt (List.cons_ne_nil c line)]
      generalize hkept : Text.clip (n - text.len - 1) (c :: line) = kept at hcut hle ⊢
      have hfits : kept ≠ [] ↔ Fits text (c :: line) n := by
        simp only [Fits, hlt, List.head?_cons, Option.mem_def, Option.some.injEq, true_and,
          forall_eq', ← hkept, Text.clip]
        split
        · simp only [ne_eq, reduceCtorEq, not_false_eq_true, true_iff]
          omega
        · simp only [ne_eq, not_true_eq_false, false_iff]
          omega
      split
      next hnil =>
        refine ⟨text, true, rfl, List.prefix_rfl, List.prefix_append _ _, id, by simp, ?_⟩
        rw [← hfits]
        simp [hnil]
      next hne =>
        obtain ⟨rest, hrest⟩ := hcut
        refine ⟨_, _, rfl, List.prefix_append _ _, ?_, ?_, ?_, ?_⟩
        · exact ⟨rest, by simp [← hrest]⟩
        · intro
          have hsep : '\n'.utf8Size = 1 := rfl
          simp only [Text.len_append, Text.len_cons, hsep]
          omega
        · have hsum : Text.len (c :: line) = Text.len kept + Text.len rest := by
            rw [← hrest, Text.len_append]
          rw [decide_eq_false_iff_not, hsum]
          have hwhole : text ++ '\n' :: kept = text ++ '\n' :: (c :: line) ↔ Text.len rest = 0 := by
            rw [Text.len_eq_zero_iff, ← hrest]
            simp
          rw [hwhole]
          omega
        · simp [← hfits, hne]

/-- What a continuation line leaves of a held record. -/
inductive Pending.Continued (pending : Pending) (line : Text) : Pending → Prop where
  | full (h : pending.continuations = maxContinuationLines) :
      Continued pending line { pending with frame := { pending.frame with truncated := true } }
  | cut (raw message : Text) (cutRaw cutMessage : Bool)
      (h : pending.continuations ≠ maxContinuationLines)
      (hraw : Appended pending.frame.raw line maxLogTextBytes raw cutRaw)
      (hmessage : Appended pending.frame.message line maxLogTextBytes message cutMessage)
      (hcut : (cutRaw || cutMessage) = true) :
      Continued pending line
        ⟨{ pending.frame with raw, message, truncated := true }, maxContinuationLines⟩
  | whole (raw message : Text)
      (h : pending.continuations ≠ maxContinuationLines)
      (hraw : Appended pending.frame.raw line maxLogTextBytes raw false)
      (hmessage : Appended pending.frame.message line maxLogTextBytes message false) :
      Continued pending line ⟨{ pending.frame with raw, message }, pending.continuations + 1⟩

/-- Continuing a record never panics. -/
theorem Pending.append_spec (pending : Pending) (line : Text) :
    ∃ pending', pending.append line = .ok pending' ∧ pending.Continued line pending' := by
  by_cases hfull : pending.continuations = maxContinuationLines
  · exact ⟨_, if_pos hfull, .full hfull⟩
  · obtain ⟨raw, cutRaw, hrawEq, hraw⟩ :=
      appendBounded_spec pending.frame.raw line maxLogTextBytes
    obtain ⟨message, cutMessage, hmessageEq, hmessage⟩ :=
      appendBounded_spec pending.frame.message line maxLogTextBytes
    simp only [Pending.append, if_neg hfull, hrawEq, hmessageEq, bind, Except.bind]
    by_cases hcut : (cutRaw || cutMessage) = true
    · exact ⟨_, if_pos hcut, .cut raw message cutRaw cutMessage hfull hraw hmessage hcut⟩
    · obtain ⟨rfl, rfl⟩ : cutRaw = false ∧ cutMessage = false := by simpa using hcut
      exact ⟨_, rfl, .whole raw message hfull hraw hmessage⟩

/-- Every free text of the frame is within its cap. -/
structure LogFrame.Bounded (frame : LogFrame) : Prop where
  message : frame.message.len ≤ maxLogTextBytes
  raw : frame.raw.len ≤ maxLogTextBytes
  target : ∀ target ∈ frame.target, target.len ≤ maxLogTargetBytes
  timestamp : ∀ timestamp ∈ frame.timestamp, timestamp.raw.len ≤ maxLogTimestampRawBytes
  fields : frame.fields.length ≤ maxLogFields
  field : ∀ field ∈ frame.fields,
    field.key.len ≤ maxLogFieldTextBytes ∧ field.value.len ≤ maxLogFieldTextBytes

/-- The texts of fields are cut to their caps. -/
theorem boundFields_spec (fields : List LogField) :
    ∃ fields' cut, boundFields fields = .ok (fields', cut) ∧
      fields'.length = fields.length ∧
      (∀ field ∈ fields', field.key.len ≤ maxLogFieldTextBytes ∧
        field.value.len ≤ maxLogFieldTextBytes) ∧
      (cut = false → fields' = fields) := by
  induction fields with
  | nil => exact ⟨[], false, rfl, rfl, by simp, fun _ => rfl⟩
  | cons field fields ih =>
    obtain ⟨fields', cuts, heq, hlen, hfits, huncut⟩ := ih
    have hfield : boundField field = .ok
        (⟨field.key.clip maxLogFieldTextBytes, field.value.clip maxLogFieldTextBytes⟩,
          decide (maxLogFieldTextBytes < field.key.len) ||
            decide (maxLogFieldTextBytes < field.value.len)) := by
      simp [boundField, truncateText_eq, bind, Except.bind, pure, Except.pure]
    refine ⟨_, _, by simp only [boundFields, hfield, heq, bind, Except.bind]; rfl, ?_, ?_, ?_⟩
    · simp [hlen]
    · intro f hf
      rcases List.mem_cons.mp hf with rfl | hf
      · exact ⟨Text.len_clip_le _ _, Text.len_clip_le _ _⟩
      · exact hfits f hf
    · intro hcut
      simp only [Bool.or_eq_false_iff, decide_eq_false_iff_not, Nat.not_lt] at hcut
      obtain ⟨⟨hkey, hvalue⟩, hcuts⟩ := hcut
      rw [Text.clip_eq_self hkey, Text.clip_eq_self hvalue, huncut hcuts]

/-- The target is cut to its cap. -/
theorem boundTarget_spec (target : Option Text) :
    ∃ target' cut, boundTarget target = .ok (target', cut) ∧
      (∀ text ∈ target', text.len ≤ maxLogTargetBytes) ∧ (cut = false → target' = target) := by
  cases target with
  | none => exact ⟨none, false, rfl, by simp, fun _ => rfl⟩
  | some target =>
    refine ⟨_, _, by simp only [boundTarget, truncateText_eq, bind, Except.bind]; rfl, ?_, ?_⟩
    · rintro _ ⟨⟩
      exact Text.len_clip_le _ _
    · intro hcut
      rw [decide_eq_false_iff_not, Nat.not_lt] at hcut
      rw [Text.clip_eq_self hcut]

/-- The timestamp is cut to its cap. -/
theorem boundTimestamp_spec (timestamp : Option LogTimestamp) :
    ∃ timestamp' cut, boundTimestamp timestamp = .ok (timestamp', cut) ∧
      (∀ printed ∈ timestamp', printed.raw.len ≤ maxLogTimestampRawBytes) ∧
      (cut = false → timestamp' = timestamp) := by
  cases timestamp with
  | none => exact ⟨none, false, rfl, by simp, fun _ => rfl⟩
  | some timestamp =>
    refine ⟨_, _, by simp only [boundTimestamp, truncateText_eq, bind, Except.bind]; rfl, ?_, ?_⟩
    · rintro _ ⟨⟩
      exact Text.len_clip_le _ _
    · intro hcut
      rw [decide_eq_false_iff_not, Nat.not_lt] at hcut
      rw [Text.clip_eq_self hcut]

/-- What bounding a frame leaves. -/
structure LogFrame.Cut (frame frame' : LogFrame) : Prop where
  bounded : frame'.Bounded
  at_ : frame'.at_ = frame.at_
  stream : frame'.stream = frame.stream
  message : frame'.message = frame.message.clip maxLogTextBytes
  raw : frame'.raw = frame.raw.clip maxLogTextBytes
  uncut : frame'.truncated = false → frame' = frame

/-- Bounding a frame never panics, and says when it cut something. -/
theorem boundFrame_spec (frame : LogFrame) :
    ∃ frame', boundFrame frame = .ok frame' ∧ frame.Cut frame' := by
  obtain ⟨target, cutTarget, htarget, htargetFits, htargetUncut⟩ := boundTarget_spec frame.target
  obtain ⟨timestamp, cutTimestamp, htimestamp, htimestampFits, htimestampUncut⟩ :=
    boundTimestamp_spec frame.timestamp
  obtain ⟨fields, cutFields, hfields, hlength, hfieldsFit, hfieldsUncut⟩ := boundFields_spec
    (if maxLogFields < frame.fields.length then frame.fields.take maxLogFields else frame.fields)
  refine ⟨_, by
    simp only [boundFrame, truncateText_eq, htarget, htimestamp, hfields, bind,
      Except.bind]
    rfl, ?_⟩
  constructor
  case bounded =>
    refine ⟨Text.len_clip_le _ _, Text.len_clip_le _ _, htargetFits, htimestampFits, ?_,
      hfieldsFit⟩
    rw [hlength]
    split
    · rw [List.length_take]
      omega
    · omega
  case at_ => rfl
  case stream => rfl
  case message => rfl
  case raw => rfl
  case uncut =>
    intro hcut
    simp only [Bool.or_eq_false_iff, decide_eq_false_iff_not, Nat.not_lt] at hcut
    obtain ⟨hold, ⟨⟨⟨⟨hmessage, hraw⟩, hcutTarget⟩, hcutTimestamp⟩, hcount⟩, hcutFields⟩ := hcut
    have hall : fields = frame.fields := by
      rw [hfieldsUncut hcutFields, if_neg (by omega)]
    obtain ⟨at_, epoch, kind, stream, level, timestamp₀, target₀, message, fields₀, raw,
      truncated⟩ := frame
    simp only [LogFrame.mk.injEq, true_and]
    exact ⟨htimestampUncut hcutTimestamp, htargetUncut hcutTarget,
      Text.clip_eq_self hmessage, hall, Text.clip_eq_self hraw, by simp_all⟩

end Nyanpasu.Log
