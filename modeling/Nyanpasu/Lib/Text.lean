import Mathlib.Algebra.BigOperators.Group.List.Basic
import Mathlib.Algebra.GroupWithZero.Nat
import Mathlib.Data.List.Basic
import Mathlib.Tactic.Common

/-!
# Texts addressed by bytes

A text is a list of characters, but its positions are byte offsets into its UTF-8
encoding: an offset that falls inside a character is no position of the text, and
slicing there panics. This file defines slices, searches and cuts by byte offsets,
computations that may panic, and the encoding with its inverse.
-/

/-- Why a computation panics. -/
inductive Panic where
  | slice
  | index
  | overflow
  | expect
  | range
  deriving DecidableEq, Repr

/-- A computation that may panic. -/
abbrev Checked := Except Panic

/-- A computation that may panic or find nothing. -/
abbrev Attempt := OptionT Checked

namespace Attempt

variable {α β : Type}

/-- The attempt that an optional value is. -/
def ofOption (value : Option α) : Attempt α := OptionT.mk (pure value)

/-- Whether the attempt finds something, as a value. -/
def optional (x : Attempt α) : Attempt (Option α) := OptionT.lift x.run

/-- The attempt does not panic, and what it finds satisfies a condition. -/
def Safe (x : Attempt α) (Q : α → Prop) : Prop := ∃ found, x.run = .ok found ∧ ∀ a ∈ found, Q a

theorem Safe.mono {x : Attempt α} {P Q : α → Prop} (h : x.Safe P) (hPQ : ∀ a, P a → Q a) :
    x.Safe Q := by
  obtain ⟨found, heq, hfound⟩ := h
  exact ⟨found, heq, fun a ha => hPQ a (hfound a ha)⟩

theorem safe_pure {a : α} {Q : α → Prop} (h : Q a) : (pure a : Attempt α).Safe Q :=
  ⟨some a, rfl, by rintro _ ⟨⟩; exact h⟩

theorem safe_failure {Q : α → Prop} : (failure : Attempt α).Safe Q :=
  ⟨none, rfl, by simp⟩

theorem safe_ofOption {value : Option α} {Q : α → Prop} (h : ∀ a ∈ value, Q a) :
    (ofOption value).Safe Q :=
  ⟨value, rfl, h⟩

theorem safe_optional {x : Attempt α} {Q : α → Prop} (h : x.Safe Q) :
    x.optional.Safe fun found => ∀ a ∈ found, Q a := by
  obtain ⟨found, heq, hfound⟩ := h
  refine ⟨some found, ?_, by rintro _ ⟨⟩; exact hfound⟩
  rw [optional, OptionT.run_lift, heq]
  rfl

theorem safe_lift {x : Checked α} {a : α} (h : x = .ok a) :
    (monadLift x : Attempt α).Safe (· = a) := by
  subst h
  exact safe_pure rfl

/-- An attempt that finds nothing ends the ones that follow. -/
theorem run_bind_none {x : Attempt α} {f : α → Attempt β} (h : x.run = .ok none) :
    (x >>= f).run = .ok none := by
  rw [OptionT.run_bind, h]
  rfl

/-- An attempt that finds something hands it on. -/
theorem run_bind_some {x : Attempt α} {f : α → Attempt β} {a : α} (h : x.run = .ok (some a)) :
    (x >>= f).run = (f a).run := by
  rw [OptionT.run_bind, h]
  rfl

theorem safe_bind {x : Attempt α} {f : α → Attempt β} {P : α → Prop} {Q : β → Prop}
    (hx : x.Safe P) (hf : ∀ a, P a → (f a).Safe Q) : (x >>= f).Safe Q := by
  obtain ⟨found, heq, hfound⟩ := hx
  cases found with
  | none => exact ⟨none, run_bind_none heq, by simp⟩
  | some a =>
    obtain ⟨found', heq', hfound'⟩ := hf a (hfound a rfl)
    exact ⟨found', (run_bind_some heq).trans heq', hfound'⟩

end Attempt

namespace Checked

/-- A sequence of computations returns when each of them does. -/
theorem bind_eq_ok {α β : Type} {x : Checked α} {f : α → Checked β} {b : β} :
    x >>= f = .ok b ↔ ∃ a, x = .ok a ∧ f a = .ok b := by
  cases x with
  | error panic => simp [bind, Except.bind]
  | ok a => simp [bind, Except.bind]

/-- A sequence of computations does not panic when none of them does. -/
theorem bind_ok_iff {α β : Type} {x : Checked α} {f : α → Checked β} :
    (∃ b, x >>= f = .ok b) ↔ ∃ a, x = .ok a ∧ ∃ b, f a = .ok b := by
  simp only [bind_eq_ok]
  exact ⟨fun ⟨b, a, hx, hf⟩ => ⟨a, hx, b, hf⟩, fun ⟨a, hx, b, hf⟩ => ⟨b, a, hx, hf⟩⟩

/-- Subtraction of machine integers. -/
def sub (a b : ℕ) : Checked ℕ := if b ≤ a then pure (a - b) else throw .overflow

/-- A result of unsigned arithmetic in 32 bits. -/
def u32 (a : ℕ) : Checked ℕ := if a < 2 ^ 32 then pure a else throw .overflow

/-- A result of signed arithmetic in 32 bits. -/
def i32 (a : ℤ) : Checked ℤ := if -2 ^ 31 ≤ a ∧ a < 2 ^ 31 then pure a else throw .overflow

/-- The element of a list at an index. -/
def index {α : Type} (l : List α) (i : ℕ) : Checked α := (l[i]?).elim (throw .index) pure

/-- The elements of a list from one index up to another. -/
def range {α : Type} (l : List α) (start stop : ℕ) : Checked (List α) :=
  if start ≤ stop ∧ stop ≤ l.length then pure ((l.drop start).take (stop - start))
  else throw .index

end Checked

/-- A text, as its characters. -/
abbrev Text := List Char

namespace Text

/-! ## Positions -/

/-- The length in bytes. -/
def len (s : Text) : ℕ := (s.map Char.utf8Size).sum

/-- Split at a byte offset that does not fall inside a character. -/
def splitAt? : Text → ℕ → Option (Text × Text)
  | s, 0 => some ([], s)
  | [], _ + 1 => none
  | c :: s, n + 1 =>
    if c.utf8Size ≤ n + 1 then
      (splitAt? s (n + 1 - c.utf8Size)).map fun (a, b) => (c :: a, b)
    else none

/-- `is_char_boundary`. -/
def isCharBoundary (s : Text) (n : ℕ) : Bool := (s.splitAt? n).isSome

/-- `get(..n)`. -/
def getTo? (s : Text) (n : ℕ) : Option Text := (s.splitAt? n).map Prod.fst

/-- `get(n..)`. -/
def getFrom? (s : Text) (n : ℕ) : Option Text := (s.splitAt? n).map Prod.snd

/-- `get(start..stop)`. -/
def get? (s : Text) (start stop : ℕ) : Option Text :=
  if start ≤ stop then (s.getFrom? start).bind (getTo? · (stop - start)) else none

/-- The slice `[..n]`. -/
def sliceTo (s : Text) (n : ℕ) : Checked Text := (s.getTo? n).elim (throw .slice) pure

/-- The slice `[n..]`. -/
def sliceFrom (s : Text) (n : ℕ) : Checked Text := (s.getFrom? n).elim (throw .slice) pure

/-- `truncate`: a text that is short enough already is left alone. -/
def truncate (s : Text) (n : ℕ) : Checked Text := if n ≤ s.len then s.sliceTo n else pure s

/-- The longest prefix of at most a number of bytes. -/
def clip : ℕ → Text → Text
  | _, [] => []
  | n, c :: s => if c.utf8Size ≤ n then c :: clip (n - c.utf8Size) s else []

/-! ## Searches -/

/-- `char::is_whitespace`: the characters with the `White_Space` property. -/
def isWhitespace (c : Char) : Bool :=
  let v := c.toNat
  (9 ≤ v && v ≤ 13) || v == 0x20 || v == 0x85 || v == 0xa0 || v == 0x1680 ||
    (0x2000 ≤ v && v ≤ 0x200a) || v == 0x2028 || v == 0x2029 || v == 0x202f || v == 0x205f ||
    v == 0x3000

/-- `find`: the offset of the first character that satisfies a predicate. -/
def find (p : Char → Bool) : Text → Option ℕ
  | [] => none
  | c :: s => if p c then some 0 else (find p s).map (c.utf8Size + ·)

/-- `rfind`: the offset of the last character that satisfies a predicate. -/
def rfind (p : Char → Bool) : Text → Option ℕ
  | [] => none
  | c :: s =>
    match rfind p s with
    | some i => some (c.utf8Size + i)
    | none => if p c then some 0 else none

/-- The last character that satisfies a predicate, with what stands before and after it. -/
def splitLast (p : Char → Bool) : Text → Option (Text × Char × Text)
  | [] => none
  | c :: s =>
    match splitLast p s with
    | some (a, d, b) => some (c :: a, d, b)
    | none => if p c then some ([], c, s) else none

/-- The offsets of the occurrences of a pattern, the next one sought after `skip` characters. -/
def matchIndicesFrom (pattern : Text) : (skip offset : ℕ) → Text → List ℕ
  | _, _, [] => []
  | skip + 1, offset, c :: s => matchIndicesFrom pattern skip (offset + c.utf8Size) s
  | 0, offset, c :: s =>
    if pattern.isPrefixOf (c :: s) then
      offset :: matchIndicesFrom pattern (pattern.length - 1) (offset + c.utf8Size) s
    else matchIndicesFrom pattern 0 (offset + c.utf8Size) s

/-- `match_indices`: the offsets of the occurrences of a pattern that do not overlap. -/
def matchIndices (s pattern : Text) : List ℕ := matchIndicesFrom pattern 0 0 s

/-- `split_once`: what stands before and after the first occurrence of a pattern. -/
def splitOnce : Text → Text → Option (Text × Text)
  | [], pattern => if pattern.isEmpty then some ([], []) else none
  | c :: s, pattern =>
    if pattern.isPrefixOf (c :: s) then some ([], (c :: s).drop pattern.length)
    else (splitOnce s pattern).map fun (a, b) => (c :: a, b)

/-- `trim_start`. -/
def trimStart (s : Text) : Text := s.dropWhile isWhitespace

/-- A number without its plus sign. -/
def unsigned : Text → Text
  | '+' :: rest => rest
  | s => s

/-- The value of decimal digits. -/
def decimal (digits : Text) : ℕ := digits.foldl (fun v c => v * 10 + (c.toNat - '0'.toNat)) 0

/-- `parse::<u32>`: an optional plus sign and digits. -/
def parseU32 (s : Text) : Option ℕ :=
  if s.unsigned ≠ [] ∧ s.unsigned.all Char.isDigit ∧ s.unsigned.decimal < 2 ^ 32 then
    some s.unsigned.decimal
  else none

/-! ## Bytes -/

/-- The UTF-8 encoding. -/
def bytes (s : Text) : List UInt8 := s.flatMap String.utf8EncodeChar

/-- `String::from_utf8`. -/
def fromUtf8 (b : List UInt8) : Option Text := (b.toByteArray.utf8Decode?).map Array.toList

/-- `while index < bytes.len() && p(bytes[index]) { index += 1 }`. -/
def scanWhile (b : List UInt8) (p : UInt8 → Bool) (index : ℕ) : ℕ :=
  if h : index < b.length then
    if p b[index] then scanWhile b p (index + 1) else index
  else index
termination_by b.length - index

/-! ## Laws of positions -/

@[simp] theorem len_nil : len [] = 0 := rfl

@[simp] theorem len_cons (c : Char) (s : Text) : len (c :: s) = c.utf8Size + len s := by
  simp [len]

@[simp] theorem len_append (a b : Text) : len (a ++ b) = len a + len b := by
  simp [len]

theorem len_replicate (n : ℕ) (c : Char) : len (List.replicate n c) = n * c.utf8Size := by
  rw [len, List.map_replicate, List.sum_replicate_nat]

/-- Only the empty text has no bytes. -/
theorem len_eq_zero_iff {s : Text} : len s = 0 ↔ s = [] := by
  cases s with
  | nil => simp
  | cons c s =>
    have := c.utf8Size_pos
    simp only [len_cons, reduceCtorEq, iff_false]
    omega

@[simp] theorem length_bytes (s : Text) : (bytes s).length = len s := by
  simp [bytes, len, List.length_flatMap]

/-- Splitting at an offset finds the prefix of that many bytes. -/
theorem splitAt?_eq_some_iff {s a b : Text} {n : ℕ} :
    s.splitAt? n = some (a, b) ↔ s = a ++ b ∧ len a = n := by
  induction s generalizing n a with
  | nil =>
    cases n with
    | zero =>
      simp only [splitAt?, Option.some.injEq, Prod.mk.injEq, len_eq_zero_iff]
      constructor
      · rintro ⟨rfl, rfl⟩
        simp
      · rintro ⟨h, rfl⟩
        exact ⟨rfl, h⟩
    | succ n =>
      simp only [splitAt?, reduceCtorEq, false_iff, not_and]
      intro h
      have ha : a = [] := (List.append_eq_nil_iff.mp h.symm).1
      simp [ha]
  | cons c s ih =>
    cases n with
    | zero =>
      simp only [splitAt?, Option.some.injEq, Prod.mk.injEq, len_eq_zero_iff]
      constructor
      · rintro ⟨rfl, rfl⟩
        simp
      · rintro ⟨h, rfl⟩
        exact ⟨rfl, h⟩
    | succ n =>
      cases a with
      | nil =>
        simp only [splitAt?, len_nil]
        split
        · simp
        · simp
      | cons d a =>
        simp only [splitAt?, List.cons_append, List.cons.injEq, len_cons]
        split
        next hle =>
          simp only [Option.map_eq_some_iff, Prod.mk.injEq, List.cons.injEq, Prod.exists]
          constructor
          · rintro ⟨a', b', h, ⟨rfl, rfl⟩, rfl⟩
            obtain ⟨rfl, hlen⟩ := ih.mp h
            exact ⟨⟨rfl, rfl⟩, by omega⟩
          · rintro ⟨⟨rfl, rfl⟩, hlen⟩
            exact ⟨a, b, ih.mpr ⟨rfl, by omega⟩, ⟨rfl, rfl⟩, rfl⟩
        next hlt =>
          simp only [reduceCtorEq, false_iff, not_and]
          rintro ⟨rfl, -⟩
          omega

/-- The end of a prefix is a position. -/
theorem splitAt?_append (a b : Text) : (a ++ b).splitAt? (len a) = some (a, b) :=
  splitAt?_eq_some_iff.mpr ⟨rfl, rfl⟩

/-- A position is the end of a prefix. -/
theorem isCharBoundary_iff {s : Text} {n : ℕ} :
    s.isCharBoundary n = true ↔ ∃ a b, s = a ++ b ∧ len a = n := by
  simp only [isCharBoundary, Option.isSome_iff_exists, Prod.exists, splitAt?_eq_some_iff]

theorem sliceTo_append (a b : Text) : (a ++ b).sliceTo (len a) = .ok a := by
  simp [sliceTo, getTo?, splitAt?_append, pure, Except.pure]

/-- A prefix is the slice up to its end. -/
theorem sliceTo_of_prefix {a s : Text} (h : a <+: s) : s.sliceTo (len a) = .ok a := by
  obtain ⟨b, rfl⟩ := h
  exact sliceTo_append a b

theorem sliceFrom_append (a b : Text) : (a ++ b).sliceFrom (len a) = .ok b := by
  simp [sliceFrom, getFrom?, splitAt?_append, pure, Except.pure]

/-! ## Laws of cuts -/

theorem clip_prefix (n : ℕ) (s : Text) : clip n s <+: s := by
  induction s generalizing n with
  | nil => simp [clip]
  | cons c s ih =>
    simp only [clip]
    split
    · exact (List.prefix_cons_inj c).mpr (ih _)
    · exact List.nil_prefix

theorem len_clip_le (n : ℕ) (s : Text) : len (clip n s) ≤ n := by
  induction s generalizing n with
  | nil => simp [clip]
  | cons c s ih =>
    simp only [clip]
    split
    next h =>
      have := ih (n - c.utf8Size)
      rw [len_cons]
      omega
    next h => simp

theorem len_le_of_prefix {a s : Text} (h : a <+: s) : len a ≤ len s := by
  obtain ⟨b, rfl⟩ := h
  simp

/-- A text that fits is not cut. -/
theorem clip_eq_self {n : ℕ} {s : Text} (h : len s ≤ n) : clip n s = s := by
  induction s generalizing n with
  | nil => rfl
  | cons c s ih =>
    rw [len_cons] at h
    simp only [clip]
    rw [if_pos (by omega), ih (by omega)]

/-- A prefix of at most a number of bytes is within the cut. -/
theorem len_le_clip {n : ℕ} {a b : Text} (h : len a ≤ n) : len a ≤ len (clip n (a ++ b)) := by
  induction a generalizing n with
  | nil => simp
  | cons c a ih =>
    rw [len_cons] at h
    simp only [List.cons_append, clip]
    rw [if_pos (by omega), len_cons, len_cons]
    have := ih (n := n - c.utf8Size) (by omega)
    omega

/-- What fits is kept. -/
theorem prefix_clip {n : ℕ} {a s : Text} (h : a <+: s) (hfits : len a ≤ n) : a <+: clip n s := by
  induction a generalizing n s with
  | nil => exact List.nil_prefix
  | cons c a ih =>
    obtain ⟨b, rfl⟩ := h
    rw [len_cons] at hfits
    rw [List.cons_append, clip, if_pos (by omega), List.cons_prefix_cons]
    exact ⟨rfl, ih (List.prefix_append a b) (by omega)⟩

/-- A smaller cut that the larger one already respects is the same cut. -/
theorem clip_of_len_le {m n : ℕ} {s : Text} (hmn : m ≤ n) (h : len (clip n s) ≤ m) :
    clip n s = clip m s := by
  induction s generalizing m n with
  | nil => rfl
  | cons c s ih =>
    simp only [clip] at h ⊢
    split at h
    next hfit =>
      rw [len_cons] at h
      rw [if_pos hfit, if_pos (by omega), ih (m := m - c.utf8Size) (by omega) (by omega)]
    next hfit => rw [if_neg hfit, if_neg (by omega)]

/-- Nothing is cut beyond the end. -/
theorem clip_min_len (n : ℕ) (s : Text) : clip (min n (len s)) s = clip n s := by
  rcases Nat.le_total n (len s) with h | h
  · rw [Nat.min_eq_left h]
  · rw [Nat.min_eq_right h, clip_eq_self (Nat.le_refl _), clip_eq_self h]

/-- The cut ends where the next character would not fit. -/
theorem clip_next {n : ℕ} {s rest : Text} {c : Char} (h : s = clip n s ++ c :: rest) :
    n < len (clip n s) + c.utf8Size := by
  induction s generalizing n with
  | nil => simp [clip] at h
  | cons d s ih =>
    simp only [clip] at h ⊢
    split at h
    next hfit =>
      rw [if_pos hfit, len_cons]
      have := ih (n := n - d.utf8Size) (by simpa using h)
      omega
    next hfit =>
      obtain ⟨rfl, -⟩ : d = c ∧ s = rest := by simpa using h
      rw [if_neg hfit]
      simp only [len_nil]
      omega

/-- A cut falls in front of the first character that does not fit. -/
theorem clip_append_cons {n : ℕ} {a b : Text} {c : Char} (hfits : len a ≤ n)
    (hnext : n < len a + c.utf8Size) : clip n (a ++ c :: b) = a := by
  induction a generalizing n with
  | nil =>
    rw [len_nil, Nat.zero_add] at hnext
    rw [List.nil_append, clip, if_neg (by omega)]
  | cons d a ih =>
    rw [len_cons] at hfits hnext
    rw [List.cons_append, clip, if_pos (by omega), ih (by omega) (by omega)]

/-- The characters that a cut leaves behind. -/
theorem exists_clip_rest {n : ℕ} {s : Text} (h : n < len s) :
    ∃ c rest, s = clip n s ++ c :: rest := by
  obtain ⟨rest, hrest⟩ := clip_prefix n s
  cases rest with
  | nil =>
    have hle := len_clip_le n s
    rw [List.append_nil] at hrest
    rw [hrest] at hle
    omega
  | cons c rest => exact ⟨c, rest, hrest.symm⟩

theorem len_of_getTo? {s a : Text} {n : ℕ} (h : s.getTo? n = some a) : len a = n := by
  obtain ⟨⟨_, _⟩, hsplit, rfl⟩ := Option.map_eq_some_iff.mp h
  exact (splitAt?_eq_some_iff.mp hsplit).2

theorem len_of_getFrom? {s b : Text} {n : ℕ} (h : s.getFrom? n = some b) : len b + n = len s := by
  obtain ⟨⟨a, _⟩, hsplit, rfl⟩ := Option.map_eq_some_iff.mp h
  obtain ⟨rfl, hlen⟩ := splitAt?_eq_some_iff.mp hsplit
  simp only [len_append]
  omega

theorem len_of_get? {s a : Text} {start stop : ℕ} (h : s.get? start stop = some a) :
    len a = stop - start := by
  rw [get?] at h
  split at h
  · obtain ⟨_, -, hto⟩ := Option.bind_eq_some_iff.mp h
    exact len_of_getTo? hto
  · simp at h

/-- The text between two positions. -/
theorem get?_append (a b c : Text) : (a ++ (b ++ c)).get? (len a) (len a + len b) = some b := by
  rw [get?, if_pos (Nat.le_add_right _ _), getFrom?, splitAt?_append, Option.map_some,
    Option.bind_some, Nat.add_sub_cancel_left, getTo?, splitAt?_append, Option.map_some]

/-- Where the text between two positions is. -/
theorem eq_of_get? {s b : Text} {start stop : ℕ} (h : s.get? start stop = some b) :
    ∃ a c, s = a ++ (b ++ c) ∧ len a = start ∧ stop = start + len b := by
  rw [get?, Option.ite_none_right_eq_some] at h
  obtain ⟨hle, h⟩ := h
  obtain ⟨rest, hrest, h⟩ := Option.bind_eq_some_iff.mp h
  obtain ⟨⟨a, rest'⟩, hsplit, rfl⟩ := Option.map_eq_some_iff.mp hrest
  obtain ⟨⟨b', c⟩, hsplit', hb⟩ := Option.map_eq_some_iff.mp h
  obtain rfl : b' = b := hb
  obtain ⟨rfl, rfl⟩ := splitAt?_eq_some_iff.mp hsplit
  obtain ⟨rfl, hlen⟩ := splitAt?_eq_some_iff.mp hsplit'
  exact ⟨a, c, rfl, rfl, by omega⟩

/-- No position falls inside a character. -/
theorem splitAt?_inside {a b : Text} {c : Char} {k : ℕ} (hpos : 0 < k) (hlt : k < c.utf8Size) :
    (a ++ c :: b).splitAt? (len a + k) = none := by
  cases h : (a ++ c :: b).splitAt? (len a + k) with
  | none => rfl
  | some found =>
    obtain ⟨a', b'⟩ := found
    obtain ⟨heq, hlen⟩ := splitAt?_eq_some_iff.mp h
    exfalso
    rcases List.append_eq_append_iff.mp heq with ⟨d, rfl, hd⟩ | ⟨d, rfl, hd⟩
    · cases d with
      | nil =>
        simp only [len_append, len_nil] at hlen
        omega
      | cons e d =>
        obtain ⟨rfl, -⟩ : c = e ∧ b = d ++ b' := by simpa using hd
        simp only [len_append, len_cons] at hlen
        omega
    · simp only [len_append] at hlen
      omega

/-! ## Laws of searches -/

/-- Nothing is found when no character satisfies the predicate. -/
theorem find_eq_none {p : Char → Bool} {s : Text} (h : ∀ c ∈ s, p c = false) : s.find p = none := by
  induction s with
  | nil => rfl
  | cons c s ih =>
    have hc := h c List.mem_cons_self
    rw [find, hc, ih fun d hd => h d (List.mem_cons_of_mem c hd)]
    rfl

/-- What is found is a position of the text. -/
theorem find_eq_some {p : Char → Bool} {s : Text} {i : ℕ} (h : s.find p = some i) :
    ∃ a b, s = a ++ b ∧ len a = i := by
  induction s generalizing i with
  | nil => simp [find] at h
  | cons c s ih =>
    rw [find] at h
    split at h
    · obtain rfl := Option.some.inj h
      exact ⟨[], c :: s, rfl, rfl⟩
    · obtain ⟨j, hj, rfl⟩ := Option.map_eq_some_iff.mp h
      obtain ⟨a, b, rfl, hlen⟩ := ih hj
      exact ⟨c :: a, b, rfl, by simp [hlen]⟩

theorem rfind_eq (p : Char → Bool) (s : Text) :
    s.rfind p = (s.splitLast p).map fun (a, _, _) => len a := by
  induction s with
  | nil => rfl
  | cons c s ih =>
    rw [rfind, splitLast, ih]
    cases splitLast p s with
    | some found => simp
    | none => by_cases hc : p c <;> simp [hc]

theorem splitLast_eq_some {p : Char → Bool} {s a b : Text} {c : Char}
    (h : s.splitLast p = some (a, c, b)) : s = a ++ c :: b ∧ p c = true := by
  induction s generalizing a with
  | nil => simp [splitLast] at h
  | cons d s ih =>
    rw [splitLast] at h
    split at h
    next a' _ _ heq =>
      simp only [Option.some.injEq, Prod.mk.injEq] at h
      obtain ⟨rfl, rfl, rfl⟩ := h
      obtain ⟨rfl, hc⟩ := ih heq
      exact ⟨rfl, hc⟩
    next =>
      split at h
      next hd =>
        simp only [Option.some.injEq, Prod.mk.injEq] at h
        obtain ⟨rfl, rfl, rfl⟩ := h
        exact ⟨rfl, hd⟩
      next => simp at h

/-- A match is followed by the pattern. -/
theorem matchIndices_spec {pattern s : Text} {i : ℕ} (h : i ∈ s.matchIndices pattern) :
    ∃ a b, s = a ++ (pattern ++ b) ∧ len a = i := by
  suffices hfrom : ∀ (s : Text) (skip offset : ℕ), i ∈ matchIndicesFrom pattern skip offset s →
      ∃ a b, s = a ++ (pattern ++ b) ∧ offset + len a = i by
    obtain ⟨a, b, hs, hlen⟩ := hfrom s 0 0 h
    exact ⟨a, b, hs, by omega⟩
  intro s skip offset hmem
  induction s generalizing skip offset with
  | nil => simp [matchIndicesFrom] at hmem
  | cons c s ih =>
    have hstep : ∀ skip', i ∈ matchIndicesFrom pattern skip' (offset + c.utf8Size) s →
        ∃ a b, c :: s = a ++ (pattern ++ b) ∧ offset + len a = i := by
      intro skip' hmem'
      obtain ⟨a, b, rfl, hlen⟩ := ih skip' _ hmem'
      exact ⟨c :: a, b, rfl, by rw [len_cons]; omega⟩
    cases skip with
    | succ skip => exact hstep skip hmem
    | zero =>
      rw [matchIndicesFrom] at hmem
      split at hmem
      next hpre =>
        rcases List.mem_cons.mp hmem with rfl | hmem
        · obtain ⟨b, hb⟩ := List.isPrefixOf_iff_prefix.mp hpre
          exact ⟨[], b, hb.symm, rfl⟩
        · exact hstep _ hmem
      next => exact hstep 0 hmem

/-- Decimal digits stand for a number with at most as many digits. -/
theorem decimal_lt {digits : Text} (h : digits.all Char.isDigit) :
    decimal digits < 10 ^ len digits := by
  suffices hfold : ∀ start, digits.foldl (fun v c => v * 10 + (c.toNat - '0'.toNat)) start <
      (start + 1) * 10 ^ len digits by simpa [decimal] using hfold 0
  induction digits with
  | nil => simp
  | cons c digits ih =>
    intro start
    simp only [List.all_cons, Bool.and_eq_true] at h
    have hdigit : c.toNat - '0'.toNat ≤ 9 := by
      have := h.1
      simp only [Char.isDigit, Bool.and_eq_true, decide_eq_true_eq, UInt32.le_iff_toNat_le] at this
      have hnine : ('9'.val.toNat) = 57 := rfl
      have hzero : '0'.toNat = 48 := rfl
      have hc : c.toNat = c.val.toNat := rfl
      omega
    have hsize := c.utf8Size_pos
    calc List.foldl _ start (c :: digits)
        < (start * 10 + (c.toNat - '0'.toNat) + 1) * 10 ^ len digits := ih h.2 _
      _ ≤ ((start + 1) * 10) * 10 ^ len digits := Nat.mul_le_mul_right _ (by omega)
      _ = (start + 1) * 10 ^ (1 + len digits) := by rw [Nat.pow_add, Nat.mul_assoc, pow_one]
      _ ≤ (start + 1) * 10 ^ len (c :: digits) := by
        rw [len_cons]
        exact Nat.mul_le_mul_left _ (Nat.pow_le_pow_right (by omega) (by omega))

/-- A parsed number has no more digits than its text has bytes. -/
theorem parseU32_lt {s : Text} {v : ℕ} (h : s.parseU32 = some v) : v < 10 ^ len s := by
  obtain ⟨⟨-, hall, -⟩, ⟨⟩⟩ := Option.ite_none_right_eq_some.mp h
  refine Nat.lt_of_lt_of_le (decimal_lt hall) (Nat.pow_le_pow_right (by omega) ?_)
  unfold unsigned
  split
  · rw [len_cons]
    omega
  · exact Nat.le_refl _

/-! ## Laws of bytes -/

@[simp] theorem bytes_nil : bytes [] = [] := rfl

@[simp] theorem bytes_cons (c : Char) (s : Text) :
    bytes (c :: s) = String.utf8EncodeChar c ++ bytes s := by
  simp [bytes]

@[simp] theorem bytes_append (a b : Text) : bytes (a ++ b) = bytes a ++ bytes b := by
  simp [bytes]

/-- Decoding inverts the encoding. -/
@[simp] theorem fromUtf8_bytes (s : Text) : fromUtf8 (bytes s) = some s := by
  have h : (bytes s).toByteArray.utf8Decode? = some s.toArray := List.utf8Decode?_utf8Encode
  rw [fromUtf8, h]
  rfl

/-- What is decoded encodes to the same bytes. -/
theorem bytes_of_fromUtf8 {b : List UInt8} {s : Text} (h : fromUtf8 b = some s) : bytes s = b := by
  obtain ⟨chars, hchars, rfl⟩ := Option.map_eq_some_iff.mp h
  have hsome : b.toByteArray.utf8Decode?.isSome := by rw [hchars]; rfl
  have hencode : chars.toList.utf8Encode = b.toByteArray := by
    have := ByteArray.utf8Encode_get_utf8Decode? (h := hsome)
    simpa only [hchars, Option.get_some] using this
  have hbytes : (bytes chars.toList).toByteArray = b.toByteArray := hencode
  have hlists := congrArg (fun array : ByteArray => array.data.toList) hbytes
  simpa using hlists

/-- An ASCII character is its own byte. -/
theorem utf8EncodeChar_ascii {c : Char} (h : c.toNat < 128) :
    String.utf8EncodeChar c = [c.toUInt8] := by
  have hle : c.val.toNat ≤ 0x7f := Nat.lt_succ_iff.mp h
  rw [String.utf8EncodeChar]
  exact if_pos hle

/-- The bytes of any other character are not ASCII. -/
theorem le_of_mem_utf8EncodeChar {c : Char} (h : 128 ≤ c.toNat) {b : UInt8}
    (hb : b ∈ String.utf8EncodeChar c) : 128 ≤ b.toNat := by
  have hv : c.toNat = c.val.toNat := rfl
  rw [String.utf8EncodeChar] at hb
  rw [if_neg (by omega)] at hb
  split at hb
  · simp only [List.mem_cons, List.not_mem_nil, or_false] at hb
    rcases hb with rfl | rfl <;> rw [UInt8.toNat_ofNat'] <;> omega
  · split at hb
    · simp only [List.mem_cons, List.not_mem_nil, or_false] at hb
      rcases hb with rfl | rfl | rfl <;> rw [UInt8.toNat_ofNat'] <;> omega
    · simp only [List.mem_cons, List.not_mem_nil, or_false] at hb
      rcases hb with rfl | rfl | rfl | rfl <;> rw [UInt8.toNat_ofNat'] <;> omega

/-- The byte of an ASCII character occurs only where the character does. -/
theorem eq_of_mem_utf8EncodeChar {c d : Char} (hd : d.toNat < 128)
    (h : d.toUInt8 ∈ String.utf8EncodeChar c) : c = d := by
  have hbyte : d.toUInt8.toNat = d.toNat := by
    have : d.toUInt8.toNat = d.toNat % 256 := UInt32.toNat_toUInt8 d.val
    omega
  by_cases hc : c.toNat < 128
  · rw [utf8EncodeChar_ascii hc, List.mem_singleton] at h
    have hc' : c.toUInt8.toNat = c.toNat := by
      have : c.toUInt8.toNat = c.toNat % 256 := UInt32.toNat_toUInt8 c.val
      omega
    exact Char.toNat_inj.mp (by rw [← hc', ← h, hbyte])
  · have := le_of_mem_utf8EncodeChar (by omega) h
    omega

/-! ## Laws of scans -/

/-- A scan moves forward. -/
theorem le_scanWhile (b : List UInt8) (p : UInt8 → Bool) (index : ℕ) :
    index ≤ scanWhile b p index := by
  fun_induction scanWhile b p index with
  | case1 index h hp ih => omega
  | case2 => exact Nat.le_refl _
  | case3 => exact Nat.le_refl _

/-- A scan passes the elements that satisfy its predicate. -/
theorem scanWhile_append (p : UInt8 → Bool) (pre run post : List UInt8) (h : ∀ b ∈ run, p b) :
    scanWhile (pre ++ run ++ post) p pre.length =
      scanWhile (pre ++ run ++ post) p (pre.length + run.length) := by
  induction run generalizing pre with
  | nil => simp
  | cons b run ih =>
    have hb : p b = true := h b (by simp)
    rw [scanWhile]
    have hlt : pre.length < (pre ++ b :: run ++ post).length := by simp
    have hget : (pre ++ b :: run ++ post)[pre.length] = b := by simp
    rw [dif_pos hlt, hget, if_pos hb]
    have := ih (pre ++ [b]) (fun d hd => h d (by simp [hd]))
    simp only [List.append_assoc, List.cons_append, List.nil_append, List.length_append,
      List.length_cons, List.length_nil, Nat.zero_add] at this ⊢
    rw [this]
    congr 1
    omega

/-- A scan stops at the first element that does not. -/
theorem scanWhile_stop (p : UInt8 → Bool) (pre post : List UInt8)
    (h : ∀ b ∈ post.head?, p b = false) :
    scanWhile (pre ++ post) p pre.length = pre.length := by
  rw [scanWhile]
  cases post with
  | nil => simp
  | cons b post =>
    have hb : p b = false := h b rfl
    simp [hb]

/-- A scan of bytes is a search of characters, when every character passes or stops as a
whole. -/
theorem scanWhile_bytes {p : UInt8 → Bool} {q : Char → Bool}
    (hpass : ∀ c, q c = true → ∀ b ∈ String.utf8EncodeChar c, p b = true)
    (hstop : ∀ c, q c = false → ∀ b ∈ (String.utf8EncodeChar c).head?, p b = false) (a s : Text) :
    scanWhile (bytes (a ++ s)) p (len a) = len (a ++ s.takeWhile q) := by
  have hsplit : bytes (a ++ s) =
      bytes a ++ bytes (s.takeWhile q) ++ bytes (s.dropWhile q) := by
    rw [List.append_assoc, ← bytes_append, List.takeWhile_append_dropWhile, bytes_append]
  have hrun : ∀ b ∈ bytes (s.takeWhile q), p b = true := by
    intro b hb
    obtain ⟨c, hc, hbc⟩ := List.mem_flatMap.mp hb
    exact hpass c (List.all_eq_true.mp List.all_takeWhile c hc) b hbc
  have hpost : ∀ b ∈ (bytes (s.dropWhile q)).head?, p b = false := by
    intro b hb
    cases hd : s.dropWhile q with
    | nil => simp [hd] at hb
    | cons c rest =>
      have hq : q c = false := by
        have := List.head?_dropWhile_not q s
        simpa [hd] using this
      have hne : String.utf8EncodeChar c ≠ [] := String.utf8EncodeChar_ne_nil
      rw [hd, bytes_cons, List.head?_append_of_ne_nil _ hne] at hb
      exact hstop c hq b hb
  rw [hsplit, ← length_bytes a, scanWhile_append p _ _ _ hrun, ← List.length_append,
    scanWhile_stop p _ _ hpost, List.length_append, length_bytes, length_bytes, len_append]

end Text
