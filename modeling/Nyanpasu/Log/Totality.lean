import Nyanpasu.Log.Parser
import Mathlib.Data.List.Induction

/-!
# When the log parser panics

Stripping escapes drops whole characters, so what it leaves is a text again, and every
layout slices at positions of its line. One slice is an exception: clash-rs's source
starts one byte behind a whitespace character, whatever its width. A line whose source
is set off by a wider character panics there; nothing else of the parser does, as long
as the observed date is in range.
-/

namespace Nyanpasu.Log

/-! ## Escape sequences -/

/-- The final characters of a control sequence. -/
def isFinal (c : Char) : Bool := 0x40 ≤ c.toNat && c.toNat ≤ 0x7e

/-- A line without its escape sequences. -/
def visible (line : Text) : Text :=
  match line with
  | [] => []
  | c :: line =>
    if c ≠ '\x1b' then c :: visible line
    else
      match line with
      | '[' :: line => visible ((line.dropWhile fun c => !isFinal c).drop 1)
      | line => visible line
termination_by line.length
decreasing_by
  · simp
  · have h1 := (List.dropWhile_sublist (fun c => !isFinal c) (l := line)).length_le
    simp only [List.length_drop, List.length_cons]
    omega
  · simp

/-- A line without escapes is visible as a whole. -/
theorem visible_eq_self {line : Text} (h : '\x1b' ∉ line) : visible line = line := by
  induction line with
  | nil => rw [visible]
  | cons c line ih =>
    have hc : c ≠ '\x1b' := fun hc => h (hc ▸ List.mem_cons_self)
    rw [visible.eq_def]
    simp only [ne_eq, hc, not_false_eq_true, if_true, List.cons.injEq, true_and]
    exact ih fun hmem => h (List.mem_cons_of_mem c hmem)

/-- Bytes other than escapes are copied. -/
theorem stripFrom_copy (pre run post output : List UInt8) (h : ∀ b ∈ run, b ≠ 0x1b) :
    stripFrom (pre ++ run ++ post) pre.length output =
      stripFrom (pre ++ run ++ post) (pre.length + run.length) (output ++ run) := by
  induction run generalizing pre output with
  | nil => simp
  | cons b run ih =>
    have hb : b ≠ 0x1b := h b (by simp)
    rw [stripFrom]
    have hlt : pre.length < (pre ++ b :: run ++ post).length := by simp
    have hget : (pre ++ b :: run ++ post)[pre.length] = b := by simp
    rw [dif_pos hlt, hget, if_pos hb]
    have := ih (pre ++ [b]) (output ++ [b]) (fun d hd => h d (by simp [hd]))
    simp only [List.append_assoc, List.cons_append, List.nil_append, List.length_append,
      List.length_cons, List.length_nil, Nat.zero_add] at this ⊢
    rw [this]
    congr 1
    omega

/-- A final character is one byte wide. -/
theorem utf8Size_of_isFinal {c : Char} (h : isFinal c = true) : c.utf8Size = 1 := by
  simp only [isFinal, Bool.and_eq_true, decide_eq_true_eq] at h
  rw [← String.length_utf8EncodeChar, Text.utf8EncodeChar_ascii (by omega)]
  rfl

/-- Skipping to behind the final byte of a control sequence skips to behind its final
character. -/
theorem scan_final (a s : Text) :
    min (Text.scanWhile (a ++ s).bytes (fun byte => !(0x40 ≤ byte && byte ≤ 0x7e)) a.len + 1)
        (a ++ s).bytes.length =
      Text.len (a ++ s.takeWhile (fun c => !isFinal c) ++
        (s.dropWhile fun c => !isFinal c).take 1) := by
  have hascii : ∀ c : Char, c.toNat < 128 → c.toUInt8.toNat = c.toNat := by
    intro c hc
    have : c.toUInt8.toNat = c.toNat % 256 := UInt32.toNat_toUInt8 c.val
    omega
  have h40 : (0x40 : UInt8).toNat = 0x40 := rfl
  have h7e : (0x7e : UInt8).toNat = 0x7e := rfl
  have hscan := Text.scanWhile_bytes (p := fun byte => !(0x40 ≤ byte && byte ≤ 0x7e))
    (q := fun c => !isFinal c)
    (by
      intro c hc b hb
      simp only [isFinal, Bool.not_eq_true', Bool.and_eq_false_iff, decide_eq_false_iff_not,
        UInt8.le_iff_toNat_le] at hc ⊢
      by_cases hlt : c.toNat < 128
      · rw [Text.utf8EncodeChar_ascii hlt, List.mem_singleton] at hb
        rw [hb, hascii c hlt]
        omega
      · have := Text.le_of_mem_utf8EncodeChar (by omega) hb
        omega)
    (by
      intro c hc b hb
      simp only [isFinal, Bool.not_eq_false', Bool.and_eq_true, decide_eq_true_eq,
        UInt8.le_iff_toNat_le] at hc ⊢
      have hlt : c.toNat < 128 := by omega
      rw [Text.utf8EncodeChar_ascii hlt] at hb
      obtain rfl : c.toUInt8 = b := by simpa using hb
      rw [hascii c hlt]
      omega) a s
  rw [hscan, Text.length_bytes]
  have hsplit : s = s.takeWhile (fun c => !isFinal c) ++ s.dropWhile fun c => !isFinal c :=
    List.takeWhile_append_dropWhile.symm
  have hlen : Text.len s = Text.len (s.takeWhile fun c => !isFinal c) +
      Text.len (s.dropWhile fun c => !isFinal c) := by
    conv => lhs; rw [hsplit]
    exact Text.len_append _ _
  simp only [Text.len_append]
  cases hd : s.dropWhile fun c => !isFinal c with
  | nil =>
    rw [hd] at hlen
    simp only [List.take_nil, Text.len_nil] at hlen ⊢
    omega
  | cons d rest =>
    have hfinal : isFinal d = true := by
      have := List.head?_dropWhile_not (fun c => !isFinal c) s
      simpa [hd] using this
    have hsize := utf8Size_of_isFinal hfinal
    rw [hd, Text.len_cons] at hlen
    simp only [List.take_succ_cons, List.take_zero, Text.len_cons, Text.len_nil]
    omega

/-- An escape is one byte. -/
theorem utf8EncodeChar_escape : String.utf8EncodeChar '\x1b' = [0x1b] := rfl

/-- Stripping the bytes from a position on strips the characters. -/
theorem stripFrom_bytes (a s o : Text) :
    stripFrom (a ++ s).bytes a.len o.bytes = (o ++ visible s).bytes := by
  fun_induction visible s generalizing a o with
  | case1 =>
    rw [stripFrom]
    simp
  | case2 c s hc ih =>
    have hcopy : ∀ b ∈ String.utf8EncodeChar c, b ≠ 0x1b := by
      rintro b hb rfl
      exact hc (Text.eq_of_mem_utf8EncodeChar (d := '\x1b') (by decide) hb)
    have hbytes : (a ++ c :: s).bytes = a.bytes ++ String.utf8EncodeChar c ++ Text.bytes s := by
      simp
    have hih := ih (a ++ [c]) (o ++ [c])
    simp only [List.append_assoc, List.cons_append, List.nil_append, Text.len_append,
      Text.len_cons, Text.len_nil, Nat.add_zero, Text.bytes_append, Text.bytes_cons,
      Text.bytes_nil, List.append_nil] at hih
    rw [hbytes, ← Text.length_bytes, stripFrom_copy _ _ _ _ hcopy]
    simpa using hih
  | case3 c hc s ih =>
    obtain rfl : c = '\x1b' := not_not.mp hc
    have hbytes : (a ++ '\x1b' :: '[' :: s).bytes =
        a.bytes ++ 0x1b :: '['.toUInt8 :: Text.bytes s := by
      rw [Text.bytes_append, Text.bytes_cons, Text.bytes_cons]
      rfl
    have hskip := scan_final (a ++ ['\x1b', '[']) s
    have hlen : Text.len (a ++ ['\x1b', '[']) = a.len + 2 := by
      rw [Text.len_append]
      rfl
    have hassoc : a ++ ['\x1b', '['] ++ s = a ++ '\x1b' :: '[' :: s := by simp
    rw [hlen, hassoc] at hskip
    have hstep : stripFrom (a ++ '\x1b' :: '[' :: s).bytes a.len o.bytes =
        stripFrom (a ++ '\x1b' :: '[' :: s).bytes
          (min (Text.scanWhile (a ++ '\x1b' :: '[' :: s).bytes
            (fun byte => !(0x40 ≤ byte && byte ≤ 0x7e)) (a.len + 2) + 1)
            (a ++ '\x1b' :: '[' :: s).bytes.length) o.bytes := by
      rw [stripFrom, hbytes]
      simp [← Text.length_bytes]
    rw [hstep, hskip]
    have hih := ih (a ++ ['\x1b', '['] ++ s.takeWhile (fun c => !isFinal c) ++
        (s.dropWhile fun c => !isFinal c).take 1) o
    have hwhole : a ++ ['\x1b', '['] ++ s.takeWhile (fun c => !isFinal c) ++
        (s.dropWhile fun c => !isFinal c).take 1 ++ (s.dropWhile fun c => !isFinal c).drop 1 =
        a ++ '\x1b' :: '[' :: s := by
      rw [List.append_assoc, List.take_append_drop, List.append_assoc,
        List.takeWhile_append_dropWhile, hassoc]
    rwa [hwhole] at hih
  | case4 c hc s hne ih =>
    obtain rfl : c = '\x1b' := not_not.mp hc
    have hbytes : (a ++ '\x1b' :: s).bytes = a.bytes ++ 0x1b :: Text.bytes s := by
      rw [Text.bytes_append, Text.bytes_cons]
      rfl
    have hnext : (Text.bytes s)[0]? ≠ some '['.toUInt8 := by
      cases s with
      | nil => simp
      | cons d s =>
        intro h
        have hmem : '['.toUInt8 ∈ String.utf8EncodeChar d := by
          have hpos : 0 < (String.utf8EncodeChar d).length := by
            rw [String.length_utf8EncodeChar]
            exact d.utf8Size_pos
          rw [Text.bytes_cons, List.getElem?_append_left hpos] at h
          exact List.mem_of_getElem? h
        obtain rfl := Text.eq_of_mem_utf8EncodeChar (by decide) hmem
        exact hne s rfl
    have hstep : stripFrom (a ++ '\x1b' :: s).bytes a.len o.bytes =
        stripFrom (a ++ '\x1b' :: s).bytes (a.len + 1) o.bytes := by
      have hget : (a.bytes ++ 0x1b :: Text.bytes s)[a.bytes.length + 1]? = (Text.bytes s)[0]? := by
        rw [List.getElem?_append_right (by omega), Nat.add_sub_cancel_left]
        rfl
      rw [stripFrom, hbytes, ← Text.length_bytes, hget, if_pos hnext]
      simp
    have hih := ih (a ++ ['\x1b']) o
    have hlen : Text.len (a ++ ['\x1b']) = a.len + 1 := by
      rw [Text.len_append]
      rfl
    rw [hstep]
    simpa [hlen] using hih

/-- Stripping escapes never fails. -/
theorem stripAnsi_eq (line : Text) : stripAnsi line = .ok (visible line) := by
  rw [stripAnsi]
  split
  next h =>
    have hnot : '\x1b' ∉ line := by
      intro hmem
      have hbyte : (0x1b : UInt8) ∈ line.bytes :=
        List.mem_flatMap.mpr ⟨_, hmem, by
          rw [utf8EncodeChar_escape]
          exact List.mem_singleton_self _⟩
      simp [hbyte] at h
    rw [visible_eq_self hnot]
    rfl
  next h =>
    have := stripFrom_bytes [] line []
    simp only [List.nil_append, Text.len_nil, Text.bytes_nil] at this
    rw [this, Text.fromUtf8_bytes]
    rfl

/-! ## Layouts that never panic -/

section

open Attempt

/-- Taking a token slices at the whitespace it found. -/
theorem takeToken_safe (input : Text) : (takeToken input).Safe fun _ => True := by
  rw [takeToken]
  refine safe_bind (P := fun stop => ∃ a b, input.trimStart = a ++ b ∧ Text.len a = stop)
    (safe_ofOption fun stop hstop => Text.find_eq_some hstop) ?_
  rintro _ ⟨a, b, heq, rfl⟩
  rw [heq]
  refine safe_bind (safe_lift (Text.sliceTo_append a b)) fun token _ => ?_
  refine safe_bind (safe_lift (Text.sliceFrom_append a b)) fun rest _ => ?_
  exact safe_pure trivial

theorem parseMeow_safe (chrono : Chrono) (line : Text) :
    (parseMeow chrono line).Safe fun _ => True := by
  rw [parseMeow]
  refine safe_bind (takeToken_safe _) ?_
  rintro ⟨rawTime, rest⟩ -
  refine safe_bind (takeToken_safe _) ?_
  rintro ⟨level, rest⟩ -
  refine safe_bind (safe_ofOption fun _ _ => trivial) fun level _ => ?_
  refine safe_bind (safe_ofOption fun _ _ => trivial) ?_
  rintro ⟨target, message⟩ -
  dsimp only
  split
  · exact safe_failure
  · exact safe_pure trivial

/-- The ranges of the numbers are within a line that has its last separator. -/
theorem allNumbers_ok {bytes : List UInt8} (numbers : List (ℕ × ℕ))
    (h : ∀ n ∈ numbers, n.1 ≤ n.2 ∧ n.2 ≤ bytes.length) :
    ∃ digits, allNumbers bytes numbers = .ok digits := by
  induction numbers with
  | nil => exact ⟨true, rfl⟩
  | cons n numbers ih =>
    obtain ⟨start, stop⟩ := n
    have hrange : Checked.range bytes start stop = .ok ((bytes.drop start).take (stop - start)) :=
      if_pos (h _ List.mem_cons_self)
    obtain ⟨digits, hdigits⟩ := ih fun n hn => h n (List.mem_cons_of_mem _ hn)
    rw [allNumbers, hrange]
    by_cases hall : ((bytes.drop start).take (stop - start)).all isAsciiDigit = true
    · exact ⟨digits, by simp only [bind, Except.bind, if_pos hall, hdigits]⟩
    · exact ⟨false, by simp only [bind, Except.bind, if_neg hall]; rfl⟩

/-- A timestamp that is found ends one to nine digits behind its last separator. -/
theorem clashRsTimestampEnd_safe (line : Text) :
    (clashRsTimestampEnd line).Safe fun stop => 18 < stop ∧ stop ≤ 27 := by
  rw [clashRsTimestampEnd]
  dsimp only
  split
  · exact safe_failure
  next hsep =>
    have hlast : line.bytes[17]? = some ':'.toUInt8 := by
      simp only [Bool.not_eq_true', Bool.not_eq_false, List.all_eq_true, beq_iff_eq] at hsep
      exact hsep (17, ':'.toUInt8) (by simp [timestampSeparators])
    have hlen : 17 < line.bytes.length := (List.getElem?_eq_some_iff.mp hlast).1
    have hfits : ∀ n ∈ timestampNumbers, n.1 ≤ n.2 ∧ n.2 ≤ line.bytes.length := by
      intro n hn
      simp only [timestampNumbers, List.mem_cons, List.not_mem_nil, or_false] at hn
      rcases hn with rfl | rfl | rfl | rfl | rfl | rfl <;> simp only <;> omega
    obtain ⟨digits, hdigits⟩ := allNumbers_ok timestampNumbers hfits
    refine safe_bind (safe_lift hdigits) fun digits _ => ?_
    split
    · exact safe_failure
    · have hrange : Checked.range line.bytes 18 line.bytes.length =
          .ok ((line.bytes.drop 18).take (line.bytes.length - 18)) :=
            if_pos ⟨by omega, Nat.le_refl _⟩
      refine safe_bind (safe_lift hrange) fun rest _ => ?_
      split
      next h => exact safe_pure ⟨by omega, by omega⟩
      next => exact safe_failure

/-- The head of a clash-rs line never panics, and its subsecond has one to nine digits. -/
theorem clashRsHead_safe (line : Text) :
    (clashRsHead line).Safe fun head => 18 < head.1.len ∧ head.1.len ≤ 27 := by
  rw [clashRsHead]
  refine safe_bind (clashRsTimestampEnd_safe line) fun stop hstop => ?_
  refine safe_bind (P := fun rawTime => rawTime.len = stop)
    (safe_ofOption fun rawTime h => Text.len_of_getTo? h) fun rawTime hraw => ?_
  refine safe_bind (safe_ofOption fun _ _ => trivial) fun rest _ => ?_
  refine safe_bind (takeToken_safe _) ?_
  rintro ⟨level, rest⟩ -
  refine safe_bind (safe_ofOption fun _ _ => trivial) fun level _ => ?_
  exact safe_pure (by simpa [hraw] using hstop)

/-- Scaling a subsecond of one to nine digits to nanoseconds does not overflow. -/
theorem clashRsUnixMs_safe {chrono : Chrono} {raw : Text} (offset : chrono.Offset)
    (hraw : 18 < raw.len ∧ raw.len ≤ 27) :
    (clashRsUnixMs chrono raw offset).Safe fun _ => True := by
  rw [clashRsUnixMs]
  refine safe_bind (P := fun subsecond => 0 < subsecond.len ∧ subsecond.len ≤ 9)
    (safe_ofOption fun subsecond h => ?_) fun subsecond hsub => ?_
  · have := Text.len_of_getFrom? h
    constructor <;> omega
  refine safe_bind (P := fun value => value < 10 ^ subsecond.len)
    (safe_ofOption fun value h => Text.parseU32_lt h) fun value hvalue => ?_
  have hmod : subsecond.len % 2 ^ 32 = subsecond.len := Nat.mod_eq_of_lt (by omega)
  have hexponent : Checked.sub 9 (subsecond.len % 2 ^ 32) = .ok (9 - subsecond.len) := by
    rw [hmod]
    exact if_pos hsub.2
  refine safe_bind (safe_lift hexponent) ?_
  rintro _ rfl
  have hpow : 10 ^ (9 - subsecond.len) < 2 ^ 32 :=
    calc 10 ^ (9 - subsecond.len) ≤ 10 ^ 8 := Nat.pow_le_pow_right (by omega) (by omega)
      _ < 2 ^ 32 := by decide
  refine safe_bind (safe_lift (if_pos hpow : Checked.u32 _ = .ok _)) ?_
  rintro _ rfl
  have hnanos : value * 10 ^ (9 - subsecond.len) < 2 ^ 32 :=
    calc value * 10 ^ (9 - subsecond.len)
        ≤ 10 ^ subsecond.len * 10 ^ (9 - subsecond.len) := Nat.mul_le_mul_right _ (by omega)
      _ = 10 ^ 9 := by rw [← Nat.pow_add, Nat.add_sub_cancel' hsub.2]
      _ < 2 ^ 32 := by decide
  refine safe_bind (safe_lift (if_pos hnanos : Checked.u32 _ = .ok _)) ?_
  rintro _ rfl
  refine safe_bind (P := fun year => year < 100) (safe_ofOption fun year h => ?_)
    fun year hyear => ?_
  · obtain ⟨text, htext, hparse⟩ := Option.bind_eq_some_iff.mp h
    have := Text.parseU32_lt hparse
    rwa [Text.len_of_get? htext] at this
  have hrange : Checked.i32 (2000 + (year : ℤ)) = .ok (2000 + (year : ℤ)) :=
    if_pos ⟨by omega, by omega⟩
  refine safe_bind (safe_lift hrange) fun year _ => ?_
  refine safe_bind (safe_ofOption fun _ _ => trivial) fun month _ => ?_
  refine safe_bind (safe_ofOption fun _ _ => trivial) fun day _ => ?_
  refine safe_bind (safe_ofOption fun _ _ => trivial) fun date _ => ?_
  refine safe_bind (safe_ofOption fun _ _ => trivial) fun hour _ => ?_
  refine safe_bind (safe_ofOption fun _ _ => trivial) fun minute _ => ?_
  refine safe_bind (safe_ofOption fun _ _ => trivial) fun second _ => ?_
  refine safe_bind (safe_ofOption fun _ _ => trivial) fun time _ => ?_
  exact safe_ofOption fun _ _ => trivial

end

/-! ## The source of a clash-rs record -/

/-- Of a text that ends in a `file:line` anchor, the whitespace in front of the file, if there is
any. -/
def anchorGap (head : Text) : Option (Option Char) :=
  match head.splitLast (· == ':') with
  | none => none
  | some (path, _, number) =>
    if number.isEmpty || !number.bytes.all isAsciiDigit then none
    else
      match path.splitLast Text.isWhitespace with
      | none => if path.isEmpty then none else some none
      | some (_, gap, file) => if gap.utf8Size + file.len = 1 then none else some (some gap)

/-- The first anchor of a clash-rs record is set off by whitespace wider than a byte. -/
def straddles (rest : Text) : Bool :=
  match ((rest.matchIndices ": ".toList).filterMap rest.getTo?).findSome? anchorGap with
  | some (some gap) => 1 < gap.utf8Size
  | _ => false

/-- What a round of the search comes to, by the whitespace in front of the anchor. -/
inductive Round : Option (Option Char) → Checked (Option (Text × Text)) → Prop where
  | passed : Round none (.ok none)
  | bare (found : Text × Text) : Round (some none) (.ok (some found))
  | narrow (gap : Char) (found : Text × Text) (h : gap.utf8Size = 1) :
      Round (some (some gap)) (.ok (some found))
  | wide (gap : Char) (h : 1 < gap.utf8Size) : Round (some (some gap)) (.error .slice)

/-- A round of the search passes a text without an anchor, and panics at wide whitespace. -/
theorem clashRsSourceAt_round (head post : Text) :
    Round (anchorGap head) (clashRsSourceAt (head ++ (": ".toList ++ post)) head.len) := by
  have hmessage : Text.sliceFrom (head ++ (": ".toList ++ post)) (head.len + 2) = .ok post := by
    have := Text.sliceFrom_append (head ++ ": ".toList) post
    rw [Text.len_append, List.append_assoc] at this
    exact this
  rw [clashRsSourceAt, Text.sliceTo_append]
  simp only [bind, Except.bind, Text.rfind_eq, hmessage]
  rw [anchorGap]
  cases hcolon : head.splitLast (· == ':') with
  | none => exact .passed
  | some found =>
    obtain ⟨path, colon, number⟩ := found
    obtain ⟨rfl, hc⟩ := Text.splitLast_eq_some hcolon
    obtain rfl : colon = ':' := beq_iff_eq.mp hc
    have hnumber : Text.sliceFrom (path ++ ':' :: number) (path.len + 1) = .ok number := by
      have := Text.sliceFrom_append (path ++ [':']) number
      rw [Text.len_append, List.append_assoc] at this
      exact this
    simp only [Option.map_some, hnumber, Text.sliceTo_append]
    split
    next => exact .passed
    next =>
      cases hgap : path.splitLast Text.isWhitespace with
      | none =>
        simp only [Option.map_none, Option.elim_none]
        by_cases hpath : path = []
        · subst hpath
          exact .passed
        · have hlen : ¬0 = path.len := fun h => hpath (Text.len_eq_zero_iff.mp h.symm)
          have hempty : path.isEmpty = false := by simpa using hpath
          have hstart : Text.sliceFrom (path ++ ':' :: number) 0 = .ok (path ++ ':' :: number) :=
            Text.sliceFrom_append [] _
          simp only [hlen, hempty, hstart, if_false, Bool.false_eq_true]
          exact .bare _
      | some found =>
        obtain ⟨before, gap, file⟩ := found
        obtain ⟨rfl, -⟩ := Text.splitLast_eq_some hgap
        have hpos := gap.utf8Size_pos
        simp only [Option.map_some, Option.elim_some, Text.len_append, Text.len_cons]
        by_cases hend : gap.utf8Size + Text.len file = 1
        · simp only [hend, if_true]
          exact .passed
        · have hcolon : ¬before.len + 1 = before.len + (gap.utf8Size + Text.len file) := by omega
          simp only [hend, hcolon, if_false]
          by_cases hwide : 1 < gap.utf8Size
          · have hinside : Text.sliceFrom (before ++ gap :: file ++ ':' :: number)
                (before.len + 1) = .error .slice := by
              rw [List.append_assoc, List.cons_append, Text.sliceFrom, Text.getFrom?,
                Text.splitAt?_inside (by omega) hwide]
              rfl
            rw [hinside]
            exact .wide gap hwide
          · have hsize : gap.utf8Size = 1 := by omega
            have hslice : Text.sliceFrom (before ++ gap :: file ++ ':' :: number)
                (before.len + 1) = .ok (file ++ ':' :: number) := by
              have := Text.sliceFrom_append (before ++ [gap]) (file ++ ':' :: number)
              rw [Text.len_append, Text.len_cons, hsize] at this
              simpa using this
            rw [hslice]
            exact .narrow gap _ hsize

/-- The search panics exactly when the first anchor is set off by wide whitespace. -/
theorem clashRsSourceFrom_ok_iff {rest : Text} (separators : List ℕ)
    (h : ∀ i ∈ separators, ∃ head post, rest = head ++ (": ".toList ++ post) ∧ head.len = i) :
    (∃ found, clashRsSourceFrom rest separators = .ok found) ↔
      ∀ gap, (separators.filterMap rest.getTo?).findSome? anchorGap = some (some gap) →
        gap.utf8Size = 1 := by
  induction separators with
  | nil => simp [clashRsSourceFrom, pure, Except.pure]
  | cons separator separators ih =>
    have htail := ih fun i hi => h i (List.mem_cons_of_mem _ hi)
    obtain ⟨head, post, hrest, rfl⟩ := h separator List.mem_cons_self
    have hhead : rest.getTo? head.len = some head := by
      rw [hrest, Text.getTo?, Text.splitAt?_append]
      rfl
    have hround := clashRsSourceAt_round head post
    rw [← hrest] at hround
    rw [clashRsSourceFrom, List.filterMap_cons_some hhead, List.findSome?_cons]
    generalize anchorGap head = gap at hround ⊢
    generalize clashRsSourceAt rest head.len = result at hround ⊢
    cases hround with
    | passed => simpa [bind, Except.bind] using htail
    | bare found => simp [bind, Except.bind, pure, Except.pure]
    | narrow gap found hsize => simp [bind, Except.bind, pure, Except.pure, hsize]
    | wide gap hwide =>
      simp only [bind, Except.bind, reduceCtorEq, exists_false, false_iff, Option.some.injEq,
        forall_eq']
      omega

theorem clashRsSource_ok_iff (rest : Text) :
    (∃ found, (clashRsSource rest).run = .ok found) ↔ straddles rest = false := by
  refine (clashRsSourceFrom_ok_iff _ fun i hi => Text.matchIndices_spec hi).trans ?_
  rw [straddles]
  split
  next gap heq =>
    have := gap.utf8Size_pos
    simp only [heq, Option.some.injEq, forall_eq', decide_eq_false_iff_not]
    omega
  next hne => simpa using fun gap heq => absurd heq (hne gap)

/-! ## Pushes -/

section

variable {chrono : Chrono}

/-- A push does not make the parser panic: its clash-rs source is not set off by wide whitespace,
and the date that dates the first premium record is in range. -/
def Push.Tame (push : Push chrono) (kind : CoreKind) (clock : PremiumClock chrono) : Prop :=
  match kind with
  | .mihomo | .meow => True
  | .clashRust => ∀ rawTime level rest,
      (clashRsHead (visible push.line)).run = .ok (some (rawTime, level, rest)) →
        straddles rest = false
  | .clashPremium => clock = none → (premiumHead chrono (visible push.line)).isSome →
      (chrono.dateNaive push.observedAt).isSome

theorem parseClashRs_ok_iff (line : Text) (observedAt : chrono.Instant) :
    (∃ parsed, (parseClashRs chrono line observedAt).run = .ok parsed) ↔
      ∀ rawTime level rest, (clashRsHead line).run = .ok (some (rawTime, level, rest)) →
        straddles rest = false := by
  obtain ⟨head, hhead, hraw⟩ := clashRsHead_safe line
  rw [parseClashRs, hhead]
  cases head with
  | none => simp [Attempt.run_bind_none hhead]
  | some head =>
    obtain ⟨rawTime, level, rest⟩ := head
    rw [Attempt.run_bind_some hhead]
    trans straddles rest = false
    · rw [← clashRsSource_ok_iff]
      constructor
      · rintro ⟨parsed, hparsed⟩
        rw [OptionT.run_bind] at hparsed
        obtain ⟨source, hsource, -⟩ := Checked.bind_ok_iff.mp ⟨parsed, hparsed⟩
        exact ⟨source, hsource⟩
      · rintro ⟨source, hsource⟩
        have htail := Attempt.safe_bind (f := fun source => do
            let unixMs ← (clashRsUnixMs chrono rawTime (chrono.offset observedAt)).optional
            pure { timestamp := some ⟨rawTime, unixMs, true⟩, level, target := some source.1,
                   message := source.2, fields := [] : ParsedLine })
          (P := fun _ => True) (Q := fun _ => True) ⟨source, hsource, fun _ _ => trivial⟩
          fun source _ => Attempt.safe_bind
            (Attempt.safe_optional (clashRsUnixMs_safe _ (hraw _ rfl)))
            fun _ _ => Attempt.safe_pure trivial
        obtain ⟨parsed, hparsed, -⟩ := htail
        exact ⟨parsed, hparsed⟩
    · constructor
      · rintro h _ _ _ ⟨⟩
        exact h
      · intro h
        exact h rawTime level rest rfl

theorem premiumDate_ok_iff (time : chrono.Time) (observedAt : chrono.Instant)
    (clock : PremiumClock chrono) :
    (∃ date, (premiumDate chrono time observedAt clock).run = .ok date) ↔
      (clock = none → (chrono.dateNaive observedAt).isSome) := by
  cases clock with
  | some clock =>
    obtain ⟨date, previous⟩ := clock
    simp only [premiumDate, reduceCtorEq, false_implies, iff_true]
    split
    · exact ⟨_, rfl⟩
    · exact ⟨_, rfl⟩
  | none =>
    simp only [premiumDate, true_implies]
    cases chrono.dateNaive observedAt with
    | none =>
      simp only [Option.isSome_none, Bool.false_eq_true, iff_false, not_exists]
      exact fun _ h => nomatch h
    | some observed =>
      simp only [Option.isSome_some, iff_true]
      by_cases h : chrono.signedDurationSince time (chrono.time observedAt) > halfDay
      · exact ⟨chrono.predOpt observed, by simp only [Option.elim_some, h, if_true]; rfl⟩
      · exact ⟨some observed, by simp only [Option.elim_some, h, if_false]; rfl⟩

theorem parsePremium_ok_iff (line : Text) (observedAt : chrono.Instant)
    (clock : PremiumClock chrono) :
    (∃ parsed, parsePremium chrono line observedAt clock = .ok parsed) ↔
      (clock = none → (premiumHead chrono line).isSome →
        (chrono.dateNaive observedAt).isSome) := by
  rw [parsePremium]
  cases premiumHead chrono line with
  | none => simp [pure, Except.pure]
  | some head =>
    obtain ⟨rawTime, time, level, body⟩ := head
    simp only [Option.isSome_some, true_implies]
    rw [← premiumDate_ok_iff time observedAt clock, Checked.bind_ok_iff]
    have hunix : (∃ unix, premiumUnixMs chrono time observedAt clock = .ok unix) ↔
        ∃ date, (premiumDate chrono time observedAt clock).run = .ok date := by
      rw [premiumUnixMs, Checked.bind_ok_iff]
      constructor
      · rintro ⟨date, hdate, -⟩
        exact ⟨date, hdate⟩
      · rintro ⟨date, hdate⟩
        cases date with
        | none => exact ⟨none, hdate, _, rfl⟩
        | some date => exact ⟨some date, hdate, _, rfl⟩
    rw [← hunix]
    constructor
    · rintro ⟨unix, h, -⟩
      exact ⟨unix, h⟩
    · rintro ⟨unix, h⟩
      exact ⟨unix, h, _, rfl⟩

/-- Parsing a header panics exactly on a push that is not tame. -/
theorem parseHeader_ok_iff (kind : CoreKind) (clock : PremiumClock chrono) (push : Push chrono) :
    (∃ parsed, parseHeader chrono kind clock (visible push.line) push.observedAt = .ok parsed) ↔
      push.Tame kind clock := by
  cases kind with
  | mihomo => exact iff_of_true ⟨_, rfl⟩ trivial
  | meow =>
    obtain ⟨parsed, hparsed, -⟩ := parseMeow_safe chrono (visible push.line)
    refine iff_of_true ⟨(parsed, clock), ?_⟩ trivial
    simp [parseHeader, hparsed, bind, Except.bind, pure, Except.pure]
  | clashRust =>
    rw [Push.Tame, ← parseClashRs_ok_iff (visible push.line) push.observedAt, parseHeader,
      Checked.bind_ok_iff]
    constructor
    · rintro ⟨parsed, hparsed, -⟩
      exact ⟨parsed, hparsed⟩
    · rintro ⟨parsed, hparsed⟩
      exact ⟨parsed, hparsed, _, rfl⟩
  | clashPremium => exact parsePremium_ok_iff _ _ _

theorem LogParser.openRecord_ok (parser : LogParser chrono) (push : Push chrono) (line : Text)
    (parsed : Option ParsedLine) : ∃ result, parser.openRecord push line parsed = .ok result := by
  obtain ⟨frame, hframe, -⟩ :=
    boundFrame_spec (parser.frameOf push.stream line push.observedAt parsed)
  exact Checked.bind_ok_iff.mpr ⟨frame, hframe, _, rfl⟩

theorem LogParser.continueRecord_ok (parser : LogParser chrono) (push : Push chrono) (line : Text)
    (pending : Pending) : ∃ result, parser.continueRecord push line pending = .ok result := by
  obtain ⟨pending', hpending, -⟩ := pending.append_spec line
  exact Checked.bind_ok_iff.mpr ⟨pending', hpending, _, rfl⟩

/-- A push panics exactly when it is not tame. -/
theorem LogParser.pushAt_ok_iff (parser : LogParser chrono) (push : Push chrono) :
    (∃ result, parser.pushAt push = .ok result) ↔ push.Tame parser.kind parser.premiumClock := by
  rw [← parseHeader_ok_iff, LogParser.pushAt, stripAnsi_eq]
  constructor
  · rintro ⟨result, hresult⟩
    obtain ⟨line, ⟨⟩, hrest⟩ := Checked.bind_ok_iff.mp ⟨result, hresult⟩
    obtain ⟨parsed, hparsed, -⟩ := Checked.bind_ok_iff.mp hrest
    exact ⟨parsed, hparsed⟩
  · rintro ⟨⟨parsed, clock⟩, hparsed⟩
    refine Checked.bind_ok_iff.mpr ⟨visible push.line, rfl, ?_⟩
    refine Checked.bind_ok_iff.mpr ⟨(parsed, clock), hparsed, ?_⟩
    cases parsed with
    | some parsed => exact openRecord_ok _ push _ _
    | none =>
      dsimp only
      split
      · exact continueRecord_ok _ push _ _
      · exact openRecord_ok _ push _ _

/-- What a push that returns does: its line opens a record or continues the one held. -/
inductive LogParser.Pushed (parser : LogParser chrono) (push : Push chrono) :
    LogParser chrono × ParsedFrames → Prop where
  | opened (parsed : Option ParsedLine) (clock : PremiumClock chrono) (frame : LogFrame)
      (hparsed : parseHeader chrono parser.kind parser.premiumClock (visible push.line)
        push.observedAt = .ok (parsed, clock))
      (hframe : boundFrame (parser.frameOf push.stream (visible push.line) push.observedAt parsed) =
        .ok frame) :
      Pushed parser push ({ parser with premiumClock := clock }.emit push.stream frame
        (holds push.stream (visible push.line) parsed))
  | continued (clock : PremiumClock chrono) (pending pending' : Pending)
      (hpending : parser.pending push.stream = some pending)
      (hcontinued : pending.append (visible push.line) = .ok pending') :
      Pushed parser push ({ parser with
        premiumClock := clock
        pending := Function.update parser.pending push.stream (some pending') }, (none, none))

theorem LogParser.openRecord_pushed {parser : LogParser chrono} {push : Push chrono}
    {parsed : Option ParsedLine} {clock : PremiumClock chrono}
    {result : LogParser chrono × ParsedFrames}
    (hparsed : parseHeader chrono parser.kind parser.premiumClock (visible push.line)
      push.observedAt = .ok (parsed, clock))
    (h : { parser with premiumClock := clock }.openRecord push (visible push.line) parsed =
      .ok result) : parser.Pushed push result := by
  obtain ⟨frame, hframe, -⟩ := boundFrame_spec
    (parser.frameOf push.stream (visible push.line) push.observedAt parsed)
  have hsame : { parser with premiumClock := clock }.frameOf push.stream (visible push.line)
      push.observedAt parsed =
      parser.frameOf push.stream (visible push.line) push.observedAt parsed := by
    cases parsed <;> rfl
  rw [openRecord, hsame, hframe] at h
  obtain rfl := Except.ok.inj h
  exact .opened parsed clock frame hparsed hframe

/-- A push that returns opens a record or continues one. -/
theorem LogParser.pushAt_cases {parser : LogParser chrono} {push : Push chrono}
    {result : LogParser chrono × ParsedFrames} (h : parser.pushAt push = .ok result) :
    parser.Pushed push result := by
  obtain ⟨⟨parsed, clock⟩, hparsed⟩ :=
    (parseHeader_ok_iff _ _ push).mpr ((pushAt_ok_iff parser push).mp ⟨result, h⟩)
  rw [pushAt, stripAnsi_eq] at h
  simp only [bind, Except.bind, hparsed] at h
  cases parsed with
  | some parsed => exact openRecord_pushed hparsed h
  | none =>
    dsimp only at h
    split at h
    next pending _ hpending =>
      obtain ⟨pending', hpending', -⟩ := pending.append_spec (visible push.line)
      rw [continueRecord, hpending'] at h
      obtain rfl := Except.ok.inj h
      exact .continued clock pending pending' hpending hpending'
    next => exact openRecord_pushed hparsed h

/-- A push leaves the kind and the epoch. -/
theorem LogParser.Pushed.same {parser parser' : LogParser chrono} {push : Push chrono}
    {out : ParsedFrames} (h : parser.Pushed push (parser', out)) :
    parser'.kind = parser.kind ∧ parser'.epoch = parser.epoch := by
  generalize hresult : (parser', out) = result at h
  cases h with
  | opened parsed clock frame hparsed hframe =>
    rw [emit] at hresult
    split at hresult
    · obtain ⟨⟩ := hresult
      exact ⟨rfl, rfl⟩
    · obtain ⟨⟩ := hresult
      exact ⟨rfl, rfl⟩
  | continued clock pending pending' hpending hcontinued =>
    obtain ⟨⟩ := hresult
    exact ⟨rfl, rfl⟩

/-! ## Runs -/

/-- A run goes on where the pushes before it have left the parser. -/
theorem LogParser.run_append (parser : LogParser chrono) (pushes pushes' : List (Push chrono)) :
    parser.run (pushes ++ pushes') = (do
      let (parser, outs) ← parser.run pushes
      let (parser, outs') ← parser.run pushes'
      pure (parser, outs ++ outs')) := by
  induction pushes generalizing parser with
  | nil => simp [run]
  | cons first pushes ih =>
    simp only [List.cons_append, run, ih, bind_assoc, pure_bind, List.cons_append]

/-- A run of one more push that returns is a run and a push that return. -/
theorem LogParser.run_append_ok {parser parser' : LogParser chrono} {pushes : List (Push chrono)}
    {push : Push chrono} {outs' : List ParsedFrames}
    (h : parser.run (pushes ++ [push]) = .ok (parser', outs')) :
    ∃ between outs out, parser.run pushes = .ok (between, outs) ∧
      between.pushAt push = .ok (parser', out) ∧ outs' = outs ++ [out] := by
  rw [run_append] at h
  obtain ⟨⟨between, outs⟩, hrun, hrest⟩ := Checked.bind_eq_ok.mp h
  obtain ⟨⟨_, _⟩, hpushes, hout⟩ := Checked.bind_eq_ok.mp hrest
  obtain ⟨⟨_, out⟩, hpush, hnil⟩ := Checked.bind_eq_ok.mp hpushes
  obtain ⟨⟩ := hnil
  obtain ⟨⟩ := hout
  exact ⟨between, outs, out, hrun, hpush, rfl⟩

/-- A run leaves the kind and the epoch. -/
theorem LogParser.run_same {parser parser' : LogParser chrono} {pushes : List (Push chrono)}
    {outs : List ParsedFrames} (h : parser.run pushes = .ok (parser', outs)) :
    parser'.kind = parser.kind ∧ parser'.epoch = parser.epoch := by
  induction pushes using List.reverseRecOn generalizing parser' outs with
  | nil =>
    obtain ⟨⟩ := h
    exact ⟨rfl, rfl⟩
  | append_singleton pushes push ih =>
    obtain ⟨between, outs', out, hrun, hpush, -⟩ := run_append_ok h
    obtain ⟨hkind, hepoch⟩ := ih hrun
    obtain ⟨hkind', hepoch'⟩ := (pushAt_cases hpush).same
    exact ⟨hkind'.trans hkind, hepoch'.trans hepoch⟩

/-- Every push of a run is tame where the parser takes it. -/
def TameRun (kind : CoreKind) (epoch : ℕ) (pushes : List (Push chrono)) : Prop :=
  ∀ before push after parser outs, pushes = before ++ push :: after →
    (LogParser.new kind epoch).run before = .ok (parser, outs) → push.Tame kind parser.premiumClock

theorem TameRun.of_append {kind : CoreKind} {epoch : ℕ} {pushes : List (Push chrono)}
    {push : Push chrono} (h : TameRun kind epoch (pushes ++ [push])) :
    TameRun kind epoch pushes := by
  rintro before push' after parser outs rfl hrun
  exact h before push' (after ++ [push]) parser outs (by simp) hrun

/-- A run panics exactly when a push is not tame where the parser takes it. -/
theorem run_ok_iff (kind : CoreKind) (epoch : ℕ) (pushes : List (Push chrono)) :
    (∃ result, (LogParser.new kind epoch).run pushes = .ok result) ↔
      TameRun kind epoch pushes := by
  constructor
  · rintro ⟨⟨parser, outs⟩, hrun⟩ before push after between outs' rfl hbefore
    rw [LogParser.run_append, hbefore] at hrun
    obtain ⟨_, ⟨⟩, hrest⟩ := Checked.bind_eq_ok.mp hrun
    obtain ⟨_, hafter, -⟩ := Checked.bind_eq_ok.mp hrest
    obtain ⟨result, hpush, -⟩ := Checked.bind_eq_ok.mp hafter
    have := (LogParser.pushAt_ok_iff between push).mp ⟨result, hpush⟩
    rwa [(LogParser.run_same hbefore).1] at this
  · intro htame
    induction pushes using List.reverseRecOn with
    | nil => exact ⟨_, rfl⟩
    | append_singleton pushes push ih =>
      obtain ⟨⟨parser, outs⟩, hrun⟩ := ih htame.of_append
      have hkind : parser.kind = kind := (LogParser.run_same hrun).1
      have hpush := htame pushes push [] parser outs rfl hrun
      rw [← hkind, ← LogParser.pushAt_ok_iff] at hpush
      obtain ⟨⟨parser', out⟩, hpush⟩ := hpush
      refine ⟨(parser', outs ++ [out]), ?_⟩
      rw [LogParser.run_append, hrun]
      simp only [bind, Except.bind, LogParser.run, hpush]
      rfl

/-- The parser never panics, except on a clash-rs source set off by wide whitespace and on a first
premium record whose date is out of range. -/
theorem never_panics_iff (chrono : Chrono) (kind : CoreKind) (epoch : ℕ)
    (pushes : List (Push chrono)) :
    (∃ result, (LogParser.new kind epoch).session pushes = .ok result) ↔
      TameRun kind epoch pushes := by
  rw [← run_ok_iff, LogParser.session]
  constructor
  · rintro ⟨result, hresult⟩
    obtain ⟨run, hrun, -⟩ := Checked.bind_eq_ok.mp hresult
    exact ⟨run, hrun⟩
  · rintro ⟨run, hrun⟩
    exact Checked.bind_ok_iff.mpr ⟨run, hrun, _, rfl⟩

/-- A clash-rs line whose source stands behind a no-break space. -/
def wideLine : Text := "26-07-29 00:16:35:1 ERROR x\u00a0a.rs:1: m".toList

/-- A line of core output that panics. -/
theorem wide_source_panics :
    ¬∃ result, (LogParser.new .clashRust 1).session
      [(⟨.stderr, wideLine, (0 : ℤ)⟩ : Push utcClock)] = .ok result := by
  have h : (LogParser.new .clashRust 1).session
      [(⟨.stderr, wideLine, (0 : ℤ)⟩ : Push utcClock)] = .error .slice := by
    rfl
  rw [h]
  exact fun ⟨_, h⟩ => nomatch h

end

end Nyanpasu.Log
