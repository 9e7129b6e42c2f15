import Nyanpasu.Log.Frame

/-!
# Archive records as text

The lines of the archive are compact JSON as `serde_json` writes it: a tag before the fields of
the frame, in their order, or a gap with the writer's instant. Strings escape every control
character, so that a record never contains a line break.
-/

namespace Nyanpasu.Log

/-- `Entry`: what the sink received. -/
inductive Entry where
  | log (frame : LogFrame)
  | gap (dropped : ℕ)
  deriving DecidableEq

/-- A serialized line: `LogRecord` or `GapRecord` with the writer's instant. -/
inductive ArchiveRecord where
  | log (frame : LogFrame)
  | gap (dropped : ℕ) (at_ : ℤ)

/-- The record that an entry becomes. -/
def Entry.record (at_ : ℤ) : Entry → ArchiveRecord
  | .log frame => .log frame
  | .gap dropped => .gap dropped at_

/-- The entry of a record. -/
def ArchiveRecord.entry : ArchiveRecord → Entry
  | .log frame => .log frame
  | .gap dropped _ => .gap dropped

@[simp] theorem Entry.entry_record (at_ : ℤ) (entry : Entry) :
    (entry.record at_).entry = entry := by
  cases entry <;> rfl

namespace Json

/-- A character of a string: control characters, quotes and backslashes are escaped. -/
def escape (c : Char) : Text :=
  match c with
  | '"' => ['\\', '"']
  | '\\' => ['\\', '\\']
  | '\x08' => ['\\', 'b']
  | '\x0c' => ['\\', 'f']
  | '\n' => ['\\', 'n']
  | '\r' => ['\\', 'r']
  | '\t' => ['\\', 't']
  | c =>
    if c.toNat < 0x20 then
      ['\\', 'u', '0', '0', Nat.digitChar (c.toNat / 16), Nat.digitChar (c.toNat % 16)]
    else [c]

/-- A string. -/
def string (text : Text) : Text := ['"'] ++ text.flatMap escape ++ ['"']

/-- A natural number. -/
def nat (n : ℕ) : Text := Nat.toDigits 10 n

/-- An integer. -/
def int : ℤ → Text
  | .ofNat n => nat n
  | .negSucc n => ['-'] ++ nat (n + 1)

/-- A boolean. -/
def bool (b : Bool) : Text := (if b then "true" else "false").toList

/-- An optional value. -/
def option {α : Type} (value : α → Text) : Option α → Text
  | none => "null".toList
  | some a => value a

/-- Values separated by commas. -/
def commas : List Text → Text
  | [] => []
  | [value] => value
  | value :: values => value ++ [','] ++ commas values

/-- A sequence. -/
def array (values : List Text) : Text := ['['] ++ commas values ++ [']']

/-- A structure. -/
def object (fields : List (String × Text)) : Text :=
  ['\x7b'] ++ commas (fields.map fun field => string field.1.toList ++ [':'] ++ field.2) ++ ['\x7d']

end Json

/-- `LogLevel` in lower case. -/
def LogLevel.name : LogLevel → String
  | .trace => "trace"
  | .debug => "debug"
  | .info => "info"
  | .warning => "warning"
  | .error => "error"
  | .fatal => "fatal"

/-- `LogStream` in lower case. -/
def LogStream.name : LogStream → String
  | .stdout => "stdout"
  | .stderr => "stderr"

/-- A `LogTimestamp`. -/
def LogTimestamp.json (timestamp : LogTimestamp) : Text :=
  Json.object [("raw", Json.string timestamp.raw),
    ("unix_ms", Json.option Json.int timestamp.unixMs),
    ("inferred", Json.bool timestamp.inferred)]

/-- A `LogField`. -/
def LogField.json (field : LogField) : Text :=
  Json.object [("key", Json.string field.key), ("value", Json.string field.value)]

/-- `LogRecord` with the frame in place, and `GapRecord`. -/
def ArchiveRecord.text : ArchiveRecord → Text
  | .log frame => Json.object [
      ("t", Json.string "log".toList),
      ("at", Json.int frame.at_),
      ("epoch", Json.nat frame.epoch),
      ("kind", Json.string frame.kind.asRef.toList),
      ("stream", Json.string frame.stream.name.toList),
      ("level", Json.string frame.level.name.toList),
      ("timestamp", Json.option LogTimestamp.json frame.timestamp),
      ("target", Json.option Json.string frame.target),
      ("message", Json.string frame.message),
      ("fields", Json.array (frame.fields.map LogField.json)),
      ("raw", Json.string frame.raw),
      ("truncated", Json.bool frame.truncated)]
  | .gap dropped at_ => Json.object [
      ("t", Json.string "gap".toList),
      ("at", Json.int at_),
      ("dropped", Json.nat dropped)]

/-- `serde_json::to_writer`. -/
def ArchiveRecord.json (record : ArchiveRecord) : List UInt8 := Text.bytes record.text

/-! ## A record is one line -/

namespace Json

/-- A text without a line break. -/
def Unbroken (text : Text) : Prop := '\n' ∉ text

instance (text : Text) : Decidable (Unbroken text) := inferInstanceAs (Decidable ('\n' ∉ text))

theorem Unbroken.append {a b : Text} (ha : Unbroken a) (hb : Unbroken b) : Unbroken (a ++ b) := by
  intro h
  rcases List.mem_append.mp h with h | h
  · exact ha h
  · exact hb h

theorem escape_unbroken (c : Char) : Unbroken (escape c) := by
  have hdigit : ∀ n < 16, Nat.digitChar n ≠ '\n' := by decide
  unfold escape Unbroken
  split
  all_goals try decide
  split
  next hlt =>
    have hhigh := hdigit (c.toNat / 16) (by omega)
    have hlow := hdigit (c.toNat % 16) (by omega)
    simp only [List.mem_cons, List.not_mem_nil, or_false, not_or]
    exact ⟨by decide, by decide, by decide, by decide, hhigh.symm, hlow.symm⟩
  next =>
    intro h
    have heq := (List.mem_singleton.mp h).symm
    contradiction

theorem string_unbroken (text : Text) : Unbroken (string text) := by
  refine ((by decide : Unbroken ['"']).append ?_).append (by decide)
  intro h
  obtain ⟨c, -, hc⟩ := List.mem_flatMap.mp h
  exact escape_unbroken c hc

theorem nat_unbroken (n : ℕ) : Unbroken (nat n) := by
  intro h
  have hdigit := Nat.isDigit_of_mem_toDigits (by decide) (by decide) h
  exact absurd hdigit (by decide)

theorem int_unbroken (i : ℤ) : Unbroken (int i) := by
  cases i with
  | ofNat n => exact nat_unbroken n
  | negSucc n => exact (by decide : Unbroken ['-']).append (nat_unbroken _)

theorem bool_unbroken (b : Bool) : Unbroken (bool b) := by
  cases b <;> decide

theorem option_unbroken {α : Type} {value : α → Text} (h : ∀ a, Unbroken (value a))
    (o : Option α) : Unbroken (option value o) := by
  cases o with
  | none => exact (by decide : Unbroken "null".toList)
  | some a => exact h a

theorem commas_unbroken {values : List Text} (h : ∀ value ∈ values, Unbroken value) :
    Unbroken (commas values) := by
  induction values with
  | nil => decide
  | cons value values ih =>
    have hvalue := h value List.mem_cons_self
    cases values with
    | nil => exact hvalue
    | cons next values =>
      have hrest := ih fun value hmem => h value (List.mem_cons_of_mem _ hmem)
      exact (hvalue.append (by decide)).append hrest

theorem array_unbroken {values : List Text} (h : ∀ value ∈ values, Unbroken value) :
    Unbroken (array values) :=
  ((by decide : Unbroken ['[']).append (commas_unbroken h)).append (by decide)

theorem object_unbroken {fields : List (String × Text)}
    (h : ∀ field ∈ fields, Unbroken field.2) : Unbroken (object fields) := by
  refine ((by decide : Unbroken ['\x7b']).append (commas_unbroken ?_)).append (by decide)
  intro value hvalue
  obtain ⟨field, hfield, rfl⟩ := List.mem_map.mp hvalue
  exact ((string_unbroken _).append (by decide)).append (h field hfield)

end Json

open Json in
theorem LogTimestamp.json_unbroken (timestamp : LogTimestamp) : Unbroken timestamp.json := by
  refine object_unbroken ?_
  simp only [List.forall_mem_cons]
  exact ⟨string_unbroken _, option_unbroken int_unbroken _, bool_unbroken _, by simp⟩

open Json in
theorem LogField.json_unbroken (field : LogField) : Unbroken field.json := by
  refine object_unbroken ?_
  simp only [List.forall_mem_cons]
  exact ⟨string_unbroken _, string_unbroken _, by simp⟩

open Json in
theorem ArchiveRecord.text_unbroken (record : ArchiveRecord) : Unbroken record.text := by
  cases record with
  | log frame =>
    have hfields : ∀ value ∈ frame.fields.map LogField.json, Unbroken value := by
      intro value hvalue
      obtain ⟨field, -, rfl⟩ := List.mem_map.mp hvalue
      exact field.json_unbroken
    refine object_unbroken ?_
    simp only [List.forall_mem_cons]
    exact ⟨string_unbroken _, int_unbroken _, nat_unbroken _, string_unbroken _,
      string_unbroken _, string_unbroken _, option_unbroken LogTimestamp.json_unbroken _,
      option_unbroken string_unbroken _, string_unbroken _, array_unbroken hfields,
      string_unbroken _, bool_unbroken _, by simp⟩
  | gap dropped at_ =>
    refine object_unbroken ?_
    simp only [List.forall_mem_cons]
    exact ⟨string_unbroken _, int_unbroken _, nat_unbroken _, by simp⟩

/-- No byte of a record is a line break. -/
theorem ArchiveRecord.newline_notMem_json (record : ArchiveRecord) :
    '\n'.toUInt8 ∉ record.json := by
  intro h
  obtain ⟨c, hc, hbyte⟩ := List.mem_flatMap.mp h
  have heq := Text.eq_of_mem_utf8EncodeChar (by decide) hbyte
  exact record.text_unbroken (heq ▸ hc)

end Nyanpasu.Log
