import Nyanpasu.Log.Header
import Mathlib.Data.List.Induction

/-!
# logfmt lines

`scan_logfmt` reads what a logfmt printer writes: keys, an equals sign, and values bare or quoted.
The scanner works on bytes; since every byte it stops at is an ASCII character, it never cuts a
character in two. Whatever line it accepts is covered by its fields, up to white space.
-/

namespace Nyanpasu.Log

/-- The ASCII white space characters. -/
def isSpace (c : Char) : Bool := c ∈ [' ', '\t', '\n', '\x0c', '\r']

/-- The character of a quoted value as it is printed. -/
def escapeChar (c : Char) : Text :=
  if c = '"' ∨ c = '\\' then ['\\', c]
  else if c = '\n' then ['\\', 'n']
  else if c = '\r' then ['\\', 'r']
  else if c = '\t' then ['\\', 't']
  else [c]

/-- A field that can be printed: bare values have no white space and do not begin with a quote. -/
structure Printed where
  key : Text
  value : Text
  quoted : Bool
  key_ne_nil : key ≠ []
  key_plain : ∀ c ∈ key, isSpace c = false ∧ c ≠ '='
  bare : quoted = false → (∀ c ∈ value, isSpace c = false) ∧ value.head? ≠ some '"'

/-- The value of a field as it is printed. -/
def Printed.valueText (field : Printed) : Text :=
  if field.quoted then '"' :: (field.value.flatMap escapeChar ++ ['"']) else field.value

/-- A field as it is printed. -/
def Printed.text (field : Printed) : Text := field.key ++ '=' :: field.valueText

/-- A printed line: white space in front, and behind every field; between two fields there is
some. -/
structure PrintedLine where
  lead : Text
  fields : List (Printed × Text)
  lead_blank : ∀ c ∈ lead, isSpace c
  blank : ∀ field ∈ fields, ∀ c ∈ field.2, isSpace c
  apart : ∀ field ∈ fields.dropLast, field.2 ≠ []

/-- The fields of a line as they are printed. -/
def printFields (fields : List (Printed × Text)) : Text :=
  fields.flatMap fun field => field.1.text ++ field.2

/-- The text of a line. -/
def PrintedLine.text (line : PrintedLine) : Text := line.lead ++ printFields line.fields

/-- The keys and values of a line. -/
def PrintedLine.pairs (line : PrintedLine) : List (Text × Text) :=
  line.fields.map fun field => (field.1.key, field.1.value)

/-! ## Bytes of characters -/

theorem byte_eq_iff {c d : Char} {b : UInt8} (hd : d.toNat < 128)
    (hb : b ∈ String.utf8EncodeChar c) : b = d.toUInt8 ↔ c = d := by
  constructor
  · rintro rfl
    exact Text.eq_of_mem_utf8EncodeChar hd hb
  · rintro rfl
    rw [Text.utf8EncodeChar_ascii hd] at hb
    exact List.mem_singleton.mp hb

/-- A byte is white space where its character is. -/
theorem isAsciiWhitespace_iff {c : Char} {b : UInt8} (hb : b ∈ String.utf8EncodeChar c) :
    isAsciiWhitespace b = isSpace c := by
  rw [Bool.eq_iff_iff]
  have hspace := byte_eq_iff (d := ' ') (by decide) hb
  have htab := byte_eq_iff (d := '\t') (by decide) hb
  have hline := byte_eq_iff (d := '\n') (by decide) hb
  have hform := byte_eq_iff (d := '\x0c') (by decide) hb
  have hreturn := byte_eq_iff (d := '\r') (by decide) hb
  simp only [isAsciiWhitespace, isSpace, Bool.or_eq_true, beq_iff_eq, decide_eq_true_eq,
    List.mem_cons, List.not_mem_nil, or_false, ← hspace, ← htab, ← hline, ← hform, ← hreturn,
    or_assoc]
  exact Iff.rfl

theorem bytes_blank {s : Text} (h : ∀ c ∈ s, isSpace c) : ∀ b ∈ s.bytes, isAsciiWhitespace b := by
  intro b hb
  obtain ⟨c, hc, hbc⟩ := List.mem_flatMap.mp hb
  rw [isAsciiWhitespace_iff hbc]
  exact h c hc

theorem bytes_not_blank {s : Text} (h : ∀ c ∈ s, isSpace c = false) :
    ∀ b ∈ s.bytes, isAsciiWhitespace b = false := by
  intro b hb
  obtain ⟨c, hc, hbc⟩ := List.mem_flatMap.mp hb
  rw [isAsciiWhitespace_iff hbc]
  exact h c hc

theorem bytes_ne {s : Text} {d : Char} (hd : d.toNat < 128) (h : ∀ c ∈ s, c ≠ d) :
    ∀ b ∈ s.bytes, b ≠ d.toUInt8 := by
  intro b hb heq
  obtain ⟨c, hc, hbc⟩ := List.mem_flatMap.mp hb
  exact h c hc ((byte_eq_iff hd hbc).mp heq)

/-! ## Scans of bytes -/

section Scans

variable {bytes run rest : List UInt8} {index stop : ℕ}

theorem of_drop_eq_cons {b : UInt8} (h : bytes.drop index = b :: rest) :
    ∃ hlt : index < bytes.length, bytes[index] = b ∧ bytes.drop (index + 1) = rest := by
  have hlt : index < bytes.length := by
    by_contra hge
    rw [List.drop_eq_nil_of_le (by omega)] at h
    cases h
  rw [List.drop_eq_getElem_cons hlt] at h
  exact ⟨hlt, List.cons.inj h⟩

theorem scanWhile_eq {p : UInt8 → Bool} (h : bytes.drop index = run ++ rest) (hrun : ∀ b ∈ run, p b)
    (hrest : ∀ b ∈ rest.head?, p b = false) :
    Text.scanWhile bytes p index = index + run.length := by
  induction run generalizing index with
  | nil =>
    rw [Text.scanWhile]
    split
    next hlt =>
      rw [List.nil_append, List.drop_eq_getElem_cons hlt] at h
      rw [if_neg (by rw [hrest bytes[index] (by rw [← h]; rfl)]; decide)]
      rfl
    · rfl
  | cons b run ih =>
    obtain ⟨hlt, hb, hnext⟩ := of_drop_eq_cons h
    rw [Text.scanWhile, dif_pos hlt, if_pos (hb ▸ hrun b List.mem_cons_self),
      ih hnext fun c hc => hrun c (List.mem_cons_of_mem _ hc), List.length_cons]
    omega

/-- What a scan has passed. -/
theorem drop_scanWhile (bytes : List UInt8) (p : UInt8 → Bool) (index : ℕ) :
    ∃ run, bytes.drop index = run ++ bytes.drop (Text.scanWhile bytes p index) ∧
      (∀ b ∈ run, p b) ∧ Text.scanWhile bytes p index = index + run.length := by
  fun_induction Text.scanWhile bytes p index with
  | case1 index hlt hp ih =>
    obtain ⟨run, hrun, hall, hlength⟩ := ih
    refine ⟨bytes[index] :: run, ?_, ?_, ?_⟩
    · rw [List.drop_eq_getElem_cons hlt, hrun, List.cons_append]
    · intro b hb
      rcases List.mem_cons.mp hb with rfl | hb
      · exact hp
      · exact hall b hb
    · rw [hlength, List.length_cons]
      omega
  | case2 index hlt hp => exact ⟨[], rfl, by simp, rfl⟩
  | case3 index hge => exact ⟨[], rfl, by simp, rfl⟩

theorem scanKey_eq (h : bytes.drop index = run ++ '='.toUInt8 :: rest)
    (hrun : ∀ b ∈ run, isAsciiWhitespace b = false ∧ b ≠ '='.toUInt8) :
    scanKey bytes index = some (index + run.length) := by
  induction run generalizing index with
  | nil =>
    obtain ⟨hlt, hb, -⟩ := of_drop_eq_cons h
    rw [scanKey, dif_pos hlt, if_neg (by simp [hb])]
    rfl
  | cons b run ih =>
    obtain ⟨hlt, hb, hnext⟩ := of_drop_eq_cons h
    have hplain := hrun b List.mem_cons_self
    rw [scanKey, dif_pos hlt, hb, if_pos hplain.2, if_neg (by simp [hplain.1]),
      ih hnext fun c hc => hrun c (List.mem_cons_of_mem _ hc), List.length_cons]
    congr 1
    omega

/-- A key that is found ends at an equals sign. -/
theorem drop_scanKey (h : scanKey bytes index = some stop) (hindex : index ≤ bytes.length)
    (hstop : stop ≠ bytes.length) : ∃ run,
      bytes.drop index = run ++ '='.toUInt8 :: bytes.drop (stop + 1) ∧ stop = index + run.length ∧
      ∀ b ∈ run, isAsciiWhitespace b = false ∧ b ≠ '='.toUInt8 := by
  fun_induction scanKey bytes index with
  | case1 => cases h
  | case2 index hlt hne hspace ih =>
    obtain ⟨run, hrun, hlength, hall⟩ := ih h hlt
    refine ⟨bytes[index] :: run, ?_, ?_, ?_⟩
    · rw [List.drop_eq_getElem_cons hlt, hrun, List.cons_append]
    · rw [hlength, List.length_cons]
      omega
    · intro b hb
      rcases List.mem_cons.mp hb with rfl | hb
      · exact ⟨Bool.eq_false_iff.mpr hspace, hne⟩
      · exact hall b hb
  | case3 index hlt hne =>
    obtain rfl := Option.some.inj h
    refine ⟨[], ?_, rfl, by simp⟩
    rw [List.drop_eq_getElem_cons hlt, not_not.mp hne, List.nil_append]
  | case4 index hge =>
    obtain rfl := Option.some.inj h
    omega

/-- The inside of quotes, and the bytes it stands for. -/
inductive Unescapes : List UInt8 → List UInt8 → Prop
  | nil : Unescapes [] []
  | byte {b : UInt8} {inner value : List UInt8} (hquote : b ≠ '"'.toUInt8)
      (hslash : b ≠ '\\'.toUInt8) : Unescapes inner value → Unescapes (b :: inner) (b :: value)
  | escape (b : UInt8) {inner value : List UInt8} : Unescapes inner value →
      Unescapes ('\\'.toUInt8 :: b :: inner) (unescape b ++ value)

theorem scanQuoted_eq {inner value : List UInt8} (hinner : Unescapes inner value)
    (gathered : List UInt8) (h : bytes.drop index = inner ++ '"'.toUInt8 :: rest) :
    scanQuoted bytes index gathered = some (index + inner.length + 1, gathered ++ value, true) := by
  induction hinner generalizing index gathered with
  | nil =>
    obtain ⟨hlt, hb, -⟩ := of_drop_eq_cons h
    rw [scanQuoted, dif_pos hlt, if_pos hb, List.append_nil]
    rfl
  | @byte b inner value hquote hslash hrest ih =>
    obtain ⟨hlt, hb, hnext⟩ := of_drop_eq_cons h
    rw [scanQuoted, dif_pos hlt, hb, if_neg hquote, if_neg hslash, ih _ hnext, List.length_cons,
      List.append_assoc, List.singleton_append]
    congr 2
    omega
  | @escape b inner value hrest ih =>
    obtain ⟨hlt, hb, hnext⟩ := of_drop_eq_cons h
    obtain ⟨hlt', hb', hnext'⟩ := of_drop_eq_cons hnext
    have hget : bytes[index + 1]? = some b := by rw [List.getElem?_eq_getElem hlt', hb']
    rw [scanQuoted, dif_pos hlt, hb, if_neg (by decide), if_pos rfl, hget]
    simp only
    rw [ih _ hnext', List.length_cons, List.length_cons, List.append_assoc]
    congr 2
    omega

/-- A quoted value that is closed. -/
theorem drop_scanQuoted {gathered value : List UInt8}
    (h : scanQuoted bytes index gathered = some (stop, value, true)) :
    ∃ inner decoded, bytes.drop index = inner ++ '"'.toUInt8 :: bytes.drop stop ∧
      stop = index + inner.length + 1 ∧ value = gathered ++ decoded ∧ Unescapes inner decoded := by
  fun_induction scanQuoted bytes index gathered with
  | case1 index gathered hlt hquote =>
    obtain ⟨rfl, rfl⟩ : index + 1 = stop ∧ gathered = value := by simpa using h
    refine ⟨[], [], ?_, rfl, by simp, .nil⟩
    rw [List.drop_eq_getElem_cons hlt, hquote, List.nil_append]
  | case2 => cases h
  | case3 index gathered hlt hquote hslash escaped hescaped ih =>
    obtain ⟨inner, decoded, hdrop, hstop, hvalue, hinner⟩ := ih h
    obtain ⟨hlt', hb⟩ := List.getElem?_eq_some_iff.mp hescaped
    refine ⟨'\\'.toUInt8 :: escaped :: inner, unescape escaped ++ decoded, ?_, ?_, ?_,
      .escape escaped hinner⟩
    · rw [List.drop_eq_getElem_cons hlt, List.drop_eq_getElem_cons hlt', hb, hslash, hdrop]
      rfl
    · rw [hstop, List.length_cons, List.length_cons]
      omega
    · rw [hvalue, List.append_assoc]
  | case4 index gathered hlt hquote hslash ih =>
    obtain ⟨inner, decoded, hdrop, hstop, hvalue, hinner⟩ := ih h
    refine ⟨bytes[index] :: inner, bytes[index] :: decoded, ?_, ?_, ?_,
      .byte hquote hslash hinner⟩
    · rw [List.drop_eq_getElem_cons hlt, hdrop, List.cons_append]
    · rw [hstop, List.length_cons]
      omega
    · rw [hvalue, List.append_assoc, List.singleton_append]
  | case5 => simp at h

end Scans

/-! ## Reading what is printed -/

section Printing

theorem Unescapes.append {inner inner' value value' : List UInt8} (h : Unescapes inner value)
    (h' : Unescapes inner' value') : Unescapes (inner ++ inner') (value ++ value') := by
  induction h with
  | nil => exact h'
  | byte hquote hslash _ ih => exact .byte hquote hslash ih
  | escape b _ ih =>
    rw [List.append_assoc]
    exact .escape b ih

theorem Unescapes.plain {run : List UInt8}
    (h : ∀ b ∈ run, b ≠ '"'.toUInt8 ∧ b ≠ '\\'.toUInt8) : Unescapes run run := by
  induction run with
  | nil => exact .nil
  | cons b run ih =>
    have hb := h b List.mem_cons_self
    exact .byte hb.1 hb.2 (ih fun c hc => h c (List.mem_cons_of_mem _ hc))

/-- An escaped character stands for itself. -/
theorem unescapes_escapeChar (c : Char) :
    Unescapes (escapeChar c).bytes (String.utf8EncodeChar c) := by
  have hescape : ∀ d : Char, d.toNat < 128 →
      Unescapes (Text.bytes ['\\', d]) (unescape d.toUInt8) := by
    intro d hd
    rw [Text.bytes_cons, Text.bytes_cons, Text.bytes_nil, Text.utf8EncodeChar_ascii hd,
      Text.utf8EncodeChar_ascii (by decide)]
    have := Unescapes.escape d.toUInt8 Unescapes.nil
    rwa [List.append_nil] at this
  unfold escapeChar
  split
  next h =>
    rcases h with rfl | rfl
    · exact hescape '"' (by decide)
    · exact hescape '\\' (by decide)
  next hplain =>
    rw [not_or] at hplain
    split
    next h =>
      subst h
      exact hescape 'n' (by decide)
    split
    next h =>
      subst h
      exact hescape 'r' (by decide)
    split
    next h =>
      subst h
      exact hescape 't' (by decide)
    rw [Text.bytes_cons, Text.bytes_nil, List.append_nil]
    refine .plain fun b hb => ⟨fun heq => hplain.1 ?_, fun heq => hplain.2 ?_⟩
    · exact (byte_eq_iff (by decide) hb).mp heq
    · exact (byte_eq_iff (by decide) hb).mp heq

theorem unescapes_value (value : Text) :
    Unescapes (Text.bytes (value.flatMap escapeChar)) value.bytes := by
  induction value with
  | nil => exact .nil
  | cons c value ih =>
    rw [List.flatMap_cons, Text.bytes_append, Text.bytes_cons]
    exact (unescapes_escapeChar c).append ih

/-- The end of a field: white space or the end of the line. -/
def Ends (rest : Text) : Prop := ∀ c ∈ rest.head?, isSpace c

theorem head_bytes {rest : Text} (h : Ends rest) :
    ∀ b ∈ rest.bytes.head?, isAsciiWhitespace b := by
  intro b hb
  cases rest with
  | nil => simp at hb
  | cons c rest =>
    have hne : String.utf8EncodeChar c ≠ [] := String.utf8EncodeChar_ne_nil
    rw [Text.bytes_cons, List.head?_append_of_ne_nil _ hne] at hb
    rw [isAsciiWhitespace_iff (List.mem_of_mem_head? hb)]
    exact h c rfl

theorem drop_bytes (pre rest : Text) : (pre ++ rest).bytes.drop pre.len = rest.bytes := by
  rw [Text.bytes_append, ← Text.length_bytes, List.drop_left]

theorem scanValue_bare {pre value rest : Text} (hvalue : ∀ c ∈ value, isSpace c = false)
    (hquote : value.head? ≠ some '"') (hends : Ends rest) :
    scanValue (pre ++ (value ++ rest)) (pre ++ (value ++ rest)).bytes pre.len =
      some (pre.len + value.len, value) := by
  have hdrop := drop_bytes pre (value ++ rest)
  have hfirst : (pre ++ (value ++ rest)).bytes[pre.len]? ≠ some '"'.toUInt8 := by
    rw [← List.head?_drop, hdrop]
    intro h
    cases value with
    | nil =>
      have := head_bytes hends _ h
      exact absurd this (by decide)
    | cons c value =>
      have hne : String.utf8EncodeChar c ≠ [] := String.utf8EncodeChar_ne_nil
      rw [List.cons_append, Text.bytes_cons, List.head?_append_of_ne_nil _ hne] at h
      exact hquote (congrArg some ((byte_eq_iff (by decide) (List.mem_of_mem_head? h)).mp rfl))
  have hscan : Text.scanWhile (pre ++ (value ++ rest)).bytes (fun b => !isAsciiWhitespace b)
      pre.len = pre.len + value.len := by
    rw [← Text.length_bytes value]
    refine scanWhile_eq (hdrop.trans (Text.bytes_append _ _)) (fun b hb => ?_) fun b hb => ?_
    · simp [bytes_not_blank hvalue b hb]
    · simp [head_bytes hends b hb]
  rw [scanValue, if_neg hfirst]
  simp only [hscan, Text.get?_append, Option.map_some]

theorem utf8_quote : String.utf8EncodeChar '"' = ['"'.toUInt8] :=
  Text.utf8EncodeChar_ascii (by decide)

theorem scanValue_quoted {pre value rest : Text} (hends : Ends rest) :
    scanValue (pre ++ ('"' :: (value.flatMap escapeChar ++ ['"']) ++ rest))
      (pre ++ ('"' :: (value.flatMap escapeChar ++ ['"']) ++ rest)).bytes pre.len =
      some (pre.len + Text.len ('"' :: (value.flatMap escapeChar ++ ['"'])), value) := by
  set line := pre ++ ('"' :: (value.flatMap escapeChar ++ ['"']) ++ rest) with hline
  have hdrop : line.bytes.drop pre.len = '"'.toUInt8 ::
      (Text.bytes (value.flatMap escapeChar) ++ '"'.toUInt8 :: rest.bytes) := by
    rw [hline, drop_bytes]
    simp [Text.bytes_append, utf8_quote]
  obtain ⟨hlt, hfirst, hnext⟩ := of_drop_eq_cons hdrop
  have hquoted := scanQuoted_eq (unescapes_value value) [] hnext
  rw [List.nil_append, Text.length_bytes] at hquoted
  have hstop : pre.len + Text.len ('"' :: (value.flatMap escapeChar ++ ['"'])) =
      pre.len + 1 + Text.len (value.flatMap escapeChar) + 1 := by
    have hsize : '"'.utf8Size = 1 := by decide
    rw [Text.len_cons, Text.len_append, Text.len_cons, Text.len_nil, hsize]
    omega
  have hrest : line.bytes[pre.len + 1 + Text.len (value.flatMap escapeChar) + 1]? =
      rest.bytes.head? := by
    rw [← List.head?_drop, ← hstop, ← Text.len_append, hline, ← List.append_assoc, drop_bytes]
  rw [scanValue, List.getElem?_eq_getElem hlt, hfirst, if_pos rfl, hquoted]
  simp only [hrest, Bool.not_true, Bool.false_or, Text.fromUtf8_bytes, Option.map_some, hstop]
  rw [if_neg]
  rw [Option.any_eq_true]
  rintro ⟨b, hb, hblank⟩
  rw [head_bytes hends b hb] at hblank
  cases hblank

theorem scanValue_printed (field : Printed) {pre rest : Text} (hends : Ends rest) :
    scanValue (pre ++ (field.valueText ++ rest)) (pre ++ (field.valueText ++ rest)).bytes pre.len =
      some (pre.len + field.valueText.len, field.value) := by
  rw [Printed.valueText]
  split
  · exact scanValue_quoted hends
  next hbare =>
    obtain ⟨hvalue, hquote⟩ := field.bare (Bool.eq_false_iff.mpr hbare)
    exact scanValue_bare hvalue hquote hends

end Printing

/-! ## The loop over fields -/

section Fields

variable {line : Text} {bytes : List UInt8} {index stop keyStart keyEnd : ℕ} {key value : Text}
  {gathered fields : List (Text × Text)}

/-- What a field that is read consists of. -/
structure FieldAt (line : Text) (bytes : List UInt8) (keyStart stop : ℕ) (key value : Text) :
    Prop where
  inside : keyStart < bytes.length
  found : ∃ keyEnd, scanKey bytes keyStart = some keyEnd ∧ keyEnd ≠ keyStart ∧
    keyEnd ≠ bytes.length ∧ line.get? keyStart keyEnd = some key ∧
    scanValue line bytes (keyEnd + 1) = some (stop, value)

theorem scanFields_done (h : Text.scanWhile bytes isAsciiWhitespace index = bytes.length) :
    scanFields line bytes index gathered = some gathered := by
  rw [scanFields]
  split
  · rw [if_pos h]
  · rfl

theorem scanFields_field (hindex : index < bytes.length)
    (hstart : Text.scanWhile bytes isAsciiWhitespace index = keyStart)
    (hfield : FieldAt line bytes keyStart stop key value) :
    scanFields line bytes index gathered =
      scanFields line bytes stop (gathered ++ [(key, value)]) := by
  obtain ⟨hinside, keyEnd, hkey, hne, hend, hget, hvalue⟩ := hfield
  subst hstart
  rw [scanFields, if_pos hindex, if_neg (by omega)]
  split
  next hnone => rw [hkey] at hnone; cases hnone
  next found hfound =>
    obtain rfl := Option.some.inj (hkey.symm.trans hfound)
    rw [if_neg (by simp [hne, hend]), hget]
    simp only
    split
    next hnone => rw [hvalue] at hnone; cases hnone
    next stop' value' hfound' =>
      obtain ⟨rfl, rfl⟩ := Prod.mk.inj (Option.some.inj (hvalue.symm.trans hfound'))
      rfl

/-- What the loop has done when it returns. -/
theorem scanFields_cases (h : scanFields line bytes index gathered = some fields) :
    (bytes.length ≤ Text.scanWhile bytes isAsciiWhitespace index ∧ fields = gathered) ∨
    ∃ stop key value, index < bytes.length ∧
      FieldAt line bytes (Text.scanWhile bytes isAsciiWhitespace index) stop key value ∧
      scanFields line bytes stop (gathered ++ [(key, value)]) = some fields := by
  rw [scanFields] at h
  split at h
  next hindex =>
    dsimp only at h
    split at h
    next hdone => exact .inl ⟨Nat.le_of_eq hdone.symm, (Option.some.inj h).symm⟩
    next hmore =>
      split at h
      · cases h
      next keyEnd hkey =>
        split at h
        · cases h
        next hends =>
          rw [not_or] at hends
          split at h
          · cases h
          next key hget =>
            split at h
            · cases h
            next stop value hvalue =>
              have hinside : Text.scanWhile bytes isAsciiWhitespace index < bytes.length := by
                obtain ⟨run, hrun, -, hlength⟩ := drop_scanWhile bytes isAsciiWhitespace index
                have hlengths := congrArg List.length hrun
                simp only [List.length_drop, List.length_append] at hlengths
                omega
              exact .inr ⟨stop, key, value, hindex,
                ⟨hinside, keyEnd, hkey, hends.1, hends.2, hget, hvalue⟩, h⟩
  next hindex =>
    have hle := Text.le_scanWhile bytes isAsciiWhitespace index
    exact .inl ⟨by omega, (Option.some.inj h).symm⟩

/-- Behind a printed field there is white space, or the line ends. -/
theorem ends_gap {gap : Text} {rest : List (Printed × Text)} (hblank : ∀ c ∈ gap, isSpace c)
    (happart : rest ≠ [] → gap ≠ []) : Ends (gap ++ printFields rest) := by
  intro c hc
  cases gap with
  | nil =>
    have hrest : rest = [] := by
      by_contra hne
      exact happart hne rfl
    rw [hrest] at hc
    cases hc
  | cons d gap =>
    obtain rfl := Option.some.inj hc
    exact hblank _ List.mem_cons_self

/-- A printed field is found behind the text in front of it. -/
theorem fieldAt_printed (field : Printed) (pre : Text) {rest : Text} (hends : Ends rest) :
    FieldAt (pre ++ (field.text ++ rest)) (pre ++ (field.text ++ rest)).bytes pre.len
      (pre ++ field.text).len field.key field.value := by
  set line := pre ++ (field.text ++ rest) with hline
  have hkeyLine : line = pre ++ (field.key ++ ('=' :: (field.valueText ++ rest))) := by
    simp [hline, Printed.text]
  have hvalueLine : line = (pre ++ (field.key ++ ['='])) ++ (field.valueText ++ rest) := by
    simp [hline, Printed.text]
  have hequals : String.utf8EncodeChar '=' = ['='.toUInt8] := Text.utf8EncodeChar_ascii (by decide)
  have hdrop : line.bytes.drop pre.len =
      field.key.bytes ++ '='.toUInt8 :: Text.bytes (field.valueText ++ rest) := by
    rw [hkeyLine, drop_bytes, Text.bytes_append, Text.bytes_cons, hequals, List.singleton_append]
  have hplain : ∀ b ∈ field.key.bytes, isAsciiWhitespace b = false ∧ b ≠ '='.toUInt8 :=
    fun b hb => ⟨bytes_not_blank (fun c hc => (field.key_plain c hc).1) b hb,
      bytes_ne (by decide) (fun c hc => (field.key_plain c hc).2) b hb⟩
  have hkey := scanKey_eq hdrop hplain
  rw [Text.length_bytes] at hkey
  have hpositive : 0 < field.key.len :=
    Nat.pos_of_ne_zero fun hzero => field.key_ne_nil (Text.len_eq_zero_iff.mp hzero)
  have hlength : line.bytes.length =
      pre.len + field.key.len + 1 + Text.len (field.valueText ++ rest) := by
    have hsize : '='.utf8Size = 1 := by decide
    rw [Text.length_bytes, hkeyLine, Text.len_append, Text.len_append, Text.len_cons, hsize]
    omega
  refine ⟨by omega, pre.len + field.key.len, hkey, by omega, by omega, ?_, ?_⟩
  · rw [hkeyLine, Text.get?_append]
  · have hstart : pre.len + field.key.len + 1 = (pre ++ (field.key ++ ['='])).len := by
      have hsize : '='.utf8Size = 1 := by decide
      rw [Text.len_append, Text.len_append, Text.len_cons, Text.len_nil, hsize]
      omega
    have hstop : (pre ++ field.text).len =
        (pre ++ (field.key ++ ['='])).len + field.valueText.len := by
      rw [← Text.len_append]
      simp [Printed.text]
    rw [hstart, hstop, hvalueLine]
    exact scanValue_printed field hends

/-- The loop reads the printed fields one after the other. -/
theorem scanFields_printed (fields : List (Printed × Text)) :
    ∀ (pre lead : Text) (gathered : List (Text × Text)), (∀ c ∈ lead, isSpace c) →
      (∀ field ∈ fields, ∀ c ∈ field.2, isSpace c) →
      (∀ field ∈ fields.dropLast, field.2 ≠ []) →
      scanFields (pre ++ (lead ++ printFields fields)) (pre ++ (lead ++ printFields fields)).bytes
        pre.len gathered =
        some (gathered ++ fields.map fun field => (field.1.key, field.1.value)) := by
  induction fields with
  | nil =>
    intro pre lead gathered hlead _ _
    rw [List.map_nil, List.append_nil]
    refine scanFields_done ?_
    have hdrop : (pre ++ (lead ++ printFields [])).bytes.drop pre.len = lead.bytes ++ [] := by
      rw [drop_bytes]
      simp [printFields]
    rw [scanWhile_eq hdrop (bytes_blank hlead) (by simp), Text.length_bytes, Text.length_bytes,
      Text.len_append]
    simp [printFields]
  | cons field fields ih =>
    intro pre lead gathered hlead hblank happart
    obtain ⟨field, gap⟩ := field
    rw [List.forall_mem_cons] at hblank
    have hends : Ends (gap ++ printFields fields) := by
      refine ends_gap hblank.1 fun hne => ?_
      rw [List.dropLast_cons_of_ne_nil hne, List.forall_mem_cons] at happart
      exact happart.1
    have hrest : ∀ field ∈ fields.dropLast, field.2 ≠ [] := by
      intro other hother
      refine happart other ?_
      cases fields with
      | nil => cases hother
      | cons next fields =>
        rw [List.dropLast_cons_of_ne_nil (by simp)]
        exact List.mem_cons_of_mem _ hother
    have hline : pre ++ (lead ++ printFields ((field, gap) :: fields)) =
        (pre ++ lead) ++ (field.text ++ (gap ++ printFields fields)) := by
      simp [printFields]
    have hfield := fieldAt_printed field (pre ++ lead) hends
    have hnext := ih (pre ++ lead ++ field.text) gap (gathered ++ [(field.key, field.value)])
      hblank.1 hblank.2 hrest
    rw [List.append_assoc (pre ++ lead)] at hnext
    have hstart : Text.scanWhile (pre ++ lead ++ (field.text ++ (gap ++ printFields fields))).bytes
        isAsciiWhitespace pre.len = (pre ++ lead).len := by
      have hdrop : (pre ++ lead ++ (field.text ++ (gap ++ printFields fields))).bytes.drop pre.len =
          lead.bytes ++ (field.text ++ (gap ++ printFields fields)).bytes := by
        rw [List.append_assoc, drop_bytes, Text.bytes_append]
      rw [Text.len_append, ← Text.length_bytes lead]
      refine scanWhile_eq hdrop (bytes_blank hlead) fun b hb => ?_
      obtain ⟨c, key, hkey⟩ := List.exists_cons_of_ne_nil field.key_ne_nil
      have hne : String.utf8EncodeChar c ≠ [] := String.utf8EncodeChar_ne_nil
      rw [Printed.text, hkey, List.cons_append, List.cons_append, Text.bytes_cons,
        List.head?_append_of_ne_nil _ hne] at hb
      rw [isAsciiWhitespace_iff (List.mem_of_mem_head? hb)]
      exact (field.key_plain c (by simp [hkey])).1
    have hle : pre.len ≤ (pre ++ lead).len := by rw [Text.len_append]; omega
    have hinside := hfield.inside
    rw [hline, scanFields_field (by omega) hstart hfield, hnext, List.map_cons, List.append_assoc,
      List.singleton_append]

/-- A printed line is read back. -/
theorem PrintedLine.scan (line : PrintedLine) : scanLogfmt line.text = some line.pairs :=
  scanFields_printed line.fields [] line.lead [] line.lead_blank line.blank line.apart

/-! ## What a line that is read consists of -/

/-- The bytes of a value: bare, or between quotes. -/
def Writes (raw value : List UInt8) : Prop :=
  (raw = value ∧ (∀ b ∈ raw, isAsciiWhitespace b = false) ∧ raw.head? ≠ some '"'.toUInt8) ∨
    ∃ inner, raw = '"'.toUInt8 :: (inner ++ ['"'.toUInt8]) ∧ Unescapes inner value

/-- The bytes from one index to another are a field. -/
def Spells (bytes : List UInt8) (field : Text × Text) (span : ℕ × ℕ) : Prop :=
  ∃ raw, bytes.drop span.1 = (field.1.bytes ++ '='.toUInt8 :: raw) ++ bytes.drop span.2 ∧
    span.2 = span.1 + (field.1.bytes ++ '='.toUInt8 :: raw).length ∧ field.1 ≠ [] ∧
    (∀ b ∈ field.1.bytes, isAsciiWhitespace b = false ∧ b ≠ '='.toUInt8) ∧
    Writes raw field.2.bytes

/-- A text that is cut out is a run of bytes of its length. -/
theorem bytes_eq_of_get? (h : line.get? index stop = some value) {run rest : List UInt8}
    (hdrop : line.bytes.drop index = run ++ rest) (hlength : stop = index + run.length) :
    value.bytes = run := by
  obtain ⟨a, c, rfl, rfl, hstop⟩ := Text.eq_of_get? h
  rw [drop_bytes, Text.bytes_append] at hdrop
  refine (List.append_inj hdrop ?_).1
  rw [Text.length_bytes]
  omega

theorem writes_of_scanValue (h : scanValue line line.bytes index = some (stop, value)) :
    ∃ raw, line.bytes.drop index = raw ++ line.bytes.drop stop ∧ stop = index + raw.length ∧
      Writes raw value.bytes := by
  rw [scanValue] at h
  split at h
  next hquote =>
    split at h
    · cases h
    next stop' bytes closed hscan =>
      split at h
      · cases h
      next hends =>
        obtain ⟨value', hvalue, heq⟩ := Option.map_eq_some_iff.mp h
        obtain ⟨rfl, rfl⟩ := Prod.mk.inj heq
        obtain rfl : closed = true := by
          cases closed with
          | true => rfl
          | false => simp at hends
        obtain ⟨inner, decoded, hdrop, hstop, hbytes, hinner⟩ := drop_scanQuoted hscan
        obtain ⟨hlt, hfirst⟩ := List.getElem?_eq_some_iff.mp hquote
        rw [List.nil_append] at hbytes
        refine ⟨'"'.toUInt8 :: (inner ++ ['"'.toUInt8]), ?_, ?_, .inr ⟨inner, rfl, ?_⟩⟩
        · rw [List.drop_eq_getElem_cons hlt, hfirst, hdrop]
          simp
        · rw [hstop]
          simp only [List.length_cons, List.length_append, List.length_nil]
          omega
        · rwa [Text.bytes_of_fromUtf8 hvalue, hbytes]
  next hbare =>
    obtain ⟨value', hvalue, heq⟩ := Option.map_eq_some_iff.mp h
    obtain ⟨rfl, rfl⟩ := Prod.mk.inj heq
    obtain ⟨run, hdrop, hrun, hstop⟩ :=
      drop_scanWhile line.bytes (fun byte => !isAsciiWhitespace byte) index
    have hbytes := bytes_eq_of_get? hvalue hdrop hstop
    refine ⟨run, hdrop, hstop, .inl ⟨hbytes.symm, fun b hb => ?_, ?_⟩⟩
    · simpa using hrun b hb
    · rw [← List.head?_drop, hdrop] at hbare
      cases run with
      | nil => simp
      | cons b run => simpa using hbare

/-- A field that is read is spelled by its bytes. -/
theorem FieldAt.spells (h : FieldAt line line.bytes index stop key value) :
    Spells line.bytes (key, value) (index, stop) ∧ index < stop := by
  obtain ⟨hinside, keyEnd, hkey, hne, hend, hget, hvalue⟩ := h
  obtain ⟨run, hdrop, hstop, hplain⟩ := drop_scanKey hkey (by omega) hend
  obtain ⟨raw, hraw, hrawStop, hwrites⟩ := writes_of_scanValue hvalue
  have hbytes := bytes_eq_of_get? hget hdrop hstop
  refine ⟨⟨raw, ?_, ?_, ?_, ?_, hwrites⟩, by omega⟩
  · rw [hdrop, hraw, hbytes, List.append_assoc, List.cons_append]
  · rw [hbytes, List.length_append, List.length_cons]
    omega
  · rintro rfl
    rw [Text.bytes_nil] at hbytes
    rw [← hbytes, List.length_nil] at hstop
    omega
  · rw [hbytes]
    exact hplain

theorem blank_of_lt_scanWhile {bytes : List UInt8} {p : UInt8 → Bool} {i : ℕ}
    (hle : index ≤ i) (hlt : i < Text.scanWhile bytes p index) (hinside : i < bytes.length) :
    p bytes[i] = true := by
  obtain ⟨run, hdrop, hrun, hlength⟩ := drop_scanWhile bytes p index
  have hget : bytes[index + (i - index)]? = run[i - index]? := by
    rw [← List.getElem?_drop, hdrop, List.getElem?_append_left (by omega)]
  rw [Nat.add_sub_cancel' hle] at hget
  rw [List.getElem?_eq_getElem hinside, List.getElem?_eq_getElem (by omega),
    Option.some.injEq] at hget
  rw [hget]
  exact hrun _ (List.getElem_mem _)

/-- The fields that the loop reads stand one behind the other and leave out white space only. -/
theorem scanFields_spans (line : Text) (fields : List (Text × Text)) :
    ∀ (index : ℕ) (gathered : List (Text × Text)),
      scanFields line line.bytes index gathered = some fields →
      ∃ (read : List (Text × Text)) (spans : List (ℕ × ℕ)), fields = gathered ++ read ∧
        List.Forall₂ (Spells line.bytes) read spans ∧
        spans.Pairwise (fun before after => before.2 ≤ after.1) ∧
        (∀ span ∈ spans, index ≤ span.1) ∧
        ∀ (i : ℕ) (hi : i < line.bytes.length), index ≤ i →
          isAsciiWhitespace line.bytes[i] = false →
          ∃ span ∈ spans, span.1 ≤ i ∧ i < span.2 := by
  intro index
  induction hleft : line.bytes.length - index using Nat.strongRecOn generalizing index with
  | ind n ih =>
    intro gathered h
    rcases scanFields_cases h with ⟨hdone, rfl⟩ | ⟨stop, key, value, hindex, hfield, hrest⟩
    · refine ⟨[], [], by simp, .nil, .nil, by simp, fun i hi hle hspace => ?_⟩
      have : isAsciiWhitespace line.bytes[i] = true := blank_of_lt_scanWhile hle (by omega) hi
      rw [hspace] at this
      cases this
    · obtain ⟨hspells, hforward⟩ := hfield.spells
      have hstart := Text.le_scanWhile line.bytes isAsciiWhitespace index
      obtain ⟨read, spans, hfields, hread, hordered, hbehind, hcover⟩ :=
        ih (line.bytes.length - stop) (by omega) stop rfl _ hrest
      refine ⟨(key, value) :: read,
        (Text.scanWhile line.bytes isAsciiWhitespace index, stop) :: spans, ?_,
        .cons hspells hread, List.pairwise_cons.mpr ⟨hbehind, hordered⟩, ?_, ?_⟩
      · rw [hfields, List.append_assoc, List.singleton_append]
      · rw [List.forall_mem_cons]
        refine ⟨hstart, fun span hspan => ?_⟩
        have := hbehind span hspan
        omega
      · intro i hi hle hspace
        by_cases hgap : i < Text.scanWhile line.bytes isAsciiWhitespace index
        · have := blank_of_lt_scanWhile hle hgap hi
          rw [hspace] at this
          cases this
        by_cases hin : i < stop
        · exact ⟨_, List.mem_cons_self, by omega, hin⟩
        · obtain ⟨span, hspan, hcontains⟩ := hcover i hi (by omega) hspace
          exact ⟨span, List.mem_cons_of_mem _ hspan, hcontains⟩

/-- Of spans one behind the other, at most one contains an index. -/
theorem span_unique {spans : List (ℕ × ℕ)}
    (h : spans.Pairwise fun before after => before.2 ≤ after.1) {i j k : ℕ} {a b : ℕ × ℕ}
    (ha : spans[j]? = some a) (hb : spans[k]? = some b) (hia : a.1 ≤ i ∧ i < a.2)
    (hib : b.1 ≤ i ∧ i < b.2) : j = k := by
  obtain ⟨hj, rfl⟩ := List.getElem?_eq_some_iff.mp ha
  obtain ⟨hk, rfl⟩ := List.getElem?_eq_some_iff.mp hb
  rw [List.pairwise_iff_getElem] at h
  by_contra hne
  rcases Nat.lt_or_gt_of_ne hne with hlt | hlt
  · have := h j k hj hk hlt
    omega
  · have := h k j hk hj hlt
    omega

/-- Every byte of a line that is read, white space apart, belongs to exactly one of its fields. -/
theorem scanLogfmt_covers (h : scanLogfmt line = some fields) :
    ∃ spans : List (ℕ × ℕ), List.Forall₂ (Spells line.bytes) fields spans ∧
      ∀ (i : ℕ) (hi : i < line.bytes.length), isAsciiWhitespace line.bytes[i] = false →
        ∃! k : ℕ, ∃ span : ℕ × ℕ, spans[k]? = some span ∧ span.1 ≤ i ∧ i < span.2 := by
  obtain ⟨read, spans, rfl, hread, hordered, -, hcover⟩ := scanFields_spans line fields 0 [] h
  refine ⟨spans, hread, fun i hi hspace => ?_⟩
  obtain ⟨span, hspan, hcontains⟩ := hcover i hi (Nat.zero_le i) hspace
  obtain ⟨k, hk, heq⟩ := List.mem_iff_getElem.mp hspan
  refine ⟨k, ⟨span, List.getElem?_eq_some_iff.mpr ⟨hk, heq⟩, hcontains⟩, ?_⟩
  rintro j ⟨other, hother, hin⟩
  exact span_unique hordered hother (List.getElem?_eq_some_iff.mpr ⟨hk, heq⟩) hin hcontains

end Fields

/-! ## Lines of mihomo -/

section Mihomo

/-- The keys that `parse_mihomo` takes for itself. -/
def ownKeys : List Text := ["time".toList, "level".toList, "msg".toList]

/-- The pairs of a key. -/
def ofKey (key : String) (pairs : List (Text × Text)) : List (Text × Text) :=
  pairs.filter fun pair => pair.1 = key.toList

theorem Logfmt.add_time (gathered : Logfmt) (value : Text) :
    gathered.add ("time".toList, value) = { gathered with rawTime := some value } := rfl

theorem Logfmt.add_level (gathered : Logfmt) (value : Text) :
    gathered.add ("level".toList, value) = { gathered with level := parseLevel value } := rfl

theorem Logfmt.add_msg (gathered : Logfmt) (value : Text) :
    gathered.add ("msg".toList, value) = { gathered with message := some value } := rfl

theorem Logfmt.add_other (gathered : Logfmt) {key : Text} (h : key ∉ ownKeys) (value : Text) :
    gathered.add (key, value) = { gathered with fields := gathered.fields ++ [⟨key, value⟩] } := by
  have hkey : ∀ name : String, String.ofList key = name → key = name.toList := by
    rintro name rfl
    rw [String.toList_ofList]
  rw [ownKeys, List.mem_cons, List.mem_cons, List.mem_singleton, not_or, not_or] at h
  simp only [Logfmt.add]
  split
  next heq => exact absurd (hkey _ heq) h.1
  next heq => exact absurd (hkey _ heq) h.2.1
  next heq => exact absurd (hkey _ heq) h.2.2
  next => rfl

/-- What the loop has gathered: the last of each own key, and the other fields in order. -/
theorem Logfmt.foldl_add (pairs : List (Text × Text)) : pairs.foldl Logfmt.add {} = {
    rawTime := (ofKey "time" pairs).getLast?.map Prod.snd
    level := (ofKey "level" pairs).getLast?.bind fun pair => parseLevel pair.2
    message := (ofKey "msg" pairs).getLast?.map Prod.snd
    fields := (pairs.filter fun pair => pair.1 ∉ ownKeys).map fun pair => ⟨pair.1, pair.2⟩ } := by
  induction pairs using List.reverseRecOn with
  | nil => rfl
  | append_singleton pairs pair ih =>
    obtain ⟨key, value⟩ := pair
    rw [List.foldl_append, List.foldl_cons, List.foldl_nil, ih]
    have happend : ∀ name : String, ofKey name (pairs ++ [(key, value)]) =
        ofKey name pairs ++ if key = name.toList then [(key, value)] else [] := by
      intro name
      rw [ofKey, List.filter_append, List.filter_singleton, ofKey]
      simp
    have hothers : ((pairs ++ [(key, value)]).filter fun pair => pair.1 ∉ ownKeys) =
        (pairs.filter fun pair => pair.1 ∉ ownKeys) ++
          if key ∈ ownKeys then [] else [(key, value)] := by
      rw [List.filter_append, List.filter_singleton]
      simp
    rw [happend, happend, happend, hothers]
    by_cases hown : key ∈ ownKeys
    · rw [if_pos hown]
      rw [ownKeys, List.mem_cons, List.mem_cons, List.mem_singleton] at hown
      rcases hown with rfl | rfl | rfl
      · rw [Logfmt.add_time, if_pos rfl, if_neg (by decide), if_neg (by decide)]
        simp
      · rw [Logfmt.add_level, if_neg (by decide), if_pos rfl, if_neg (by decide)]
        simp
      · rw [Logfmt.add_msg, if_neg (by decide), if_neg (by decide), if_pos rfl]
        simp
    · rw [Logfmt.add_other _ hown, if_neg hown]
      rw [ownKeys, List.mem_cons, List.mem_cons, List.mem_singleton, not_or, not_or] at hown
      rw [if_neg hown.1, if_neg hown.2.1, if_neg hown.2.2]
      simp

/-- A line with one time, one level that is known and one message. -/
theorem PrintedLine.parse (chrono : Chrono) (line : PrintedLine) {time level message : Text}
    {known : LogLevel} (htime : ofKey "time" line.pairs = [("time".toList, time)])
    (hlevel : ofKey "level" line.pairs = [("level".toList, level)])
    (hknown : parseLevel level = some known)
    (hmessage : ofKey "msg" line.pairs = [("msg".toList, message)]) :
    parseMihomo chrono line.text = some {
      timestamp := some ⟨time, parseRfc3339Ms chrono time, false⟩
      level := known
      target := none
      message
      fields := (line.pairs.filter fun pair => pair.1 ∉ ownKeys).map fun pair =>
        ⟨pair.1, pair.2⟩ } := by
  simp only [parseMihomo, line.scan, Logfmt.foldl_add, htime, hlevel, hmessage,
    List.getLast?_singleton, Option.map_some, Option.bind_eq_bind, Option.bind_some, hknown]

end Mihomo

/-- **logfmt.** The scanner returns the fields of every printed line, so that a line of mihomo is
read with its message and its other fields; and whatever line it accepts consists of its fields and
white space. -/
theorem scanLogfmt_printed :
    (∀ line : PrintedLine, scanLogfmt line.text = some line.pairs) ∧
    (∀ (chrono : Chrono) (line : PrintedLine) (time level message : Text) (known : LogLevel),
      ofKey "time" line.pairs = [("time".toList, time)] →
      ofKey "level" line.pairs = [("level".toList, level)] → parseLevel level = some known →
      ofKey "msg" line.pairs = [("msg".toList, message)] →
      parseMihomo chrono line.text = some {
        timestamp := some ⟨time, parseRfc3339Ms chrono time, false⟩
        level := known
        target := none
        message
        fields := (line.pairs.filter fun pair => pair.1 ∉ ownKeys).map fun pair =>
          ⟨pair.1, pair.2⟩ }) ∧
    ∀ (line : Text) (fields : List (Text × Text)), scanLogfmt line = some fields →
      ∃ spans : List (ℕ × ℕ), List.Forall₂ (Spells line.bytes) fields spans ∧
        ∀ (i : ℕ) (hi : i < line.bytes.length), isAsciiWhitespace line.bytes[i] = false →
          ∃! k : ℕ, ∃ span : ℕ × ℕ, spans[k]? = some span ∧ span.1 ≤ i ∧ i < span.2 := by
  refine ⟨PrintedLine.scan, fun chrono line time level message known htime hlevel hknown hmessage =>
    line.parse chrono htime hlevel hknown hmessage, fun line fields h => scanLogfmt_covers h⟩

/-- A line with a message that needs quotes, and a field of its own. -/
def warningLine : PrintedLine where
  lead := []
  fields := [
    (⟨"time".toList, "00:16".toList, true, by simp, by simp [isSpace], by simp⟩, [' ']),
    (⟨"level".toList, "warning".toList, false, by simp, by simp [isSpace], by simp [isSpace]⟩,
      [' ']),
    (⟨"msg".toList, "dial \"a\" failed".toList, true, by simp, by simp [isSpace], by simp⟩,
      [' ']),
    (⟨"up".toList, "x".toList, false, by simp, by simp [isSpace], by simp [isSpace]⟩, [])]
  lead_blank := by simp
  blank := by simp [isSpace]
  apart := by simp

/-- The line is read back as a warning, with the other field beside the message. -/
theorem scanLogfmt_printed_warning : scanLogfmt warningLine.text = some warningLine.pairs ∧
    ∀ chrono, parseMihomo chrono warningLine.text = some {
      timestamp := some ⟨"00:16".toList, parseRfc3339Ms chrono "00:16".toList, false⟩
      level := .warning
      target := none
      message := "dial \"a\" failed".toList
      fields := [⟨"up".toList, "x".toList⟩] } := by
  refine ⟨scanLogfmt_printed.1 warningLine, fun chrono => ?_⟩
  exact scanLogfmt_printed.2.1 chrono warningLine _ "warning".toList _ .warning rfl rfl rfl rfl

end Nyanpasu.Log
