import Nyanpasu.Lib.Text
import Mathlib.Data.List.Induction

/-!
# Numerals in names

Decimal numerals as they are printed, with zeros in front up to a width or without, and as they
are read back. Two numerals of one length with the same value are the same, so a numeral is the
printed form of its value exactly when it has the length of that form.
-/

/-- `OsString`: the name of a directory entry, which need not be text. -/
inductive OsName where
  | text (name : Text)
  | bytes (name : List UInt8)
  deriving DecidableEq

/-- `to_str`. -/
def OsName.toStr : OsName → Option Text
  | .text name => some name
  | .bytes _ => none

theorem OsName.toStr_eq_some_iff {name : OsName} {text : Text} :
    name.toStr = some text ↔ name = .text text := by
  cases name with
  | text name => simp [toStr]
  | bytes name => simp [toStr]

theorem Nat.le_foldr_max {numbers : List ℕ} {n : ℕ} (h : n ∈ numbers) :
    n ≤ numbers.foldr max 0 := by
  induction numbers with
  | nil => simp at h
  | cons first numbers ih =>
    rw [List.foldr_cons]
    rcases List.mem_cons.mp h with rfl | h
    · omega
    · have := ih h
      omega

/-- The greatest number is one of them, unless there is none. -/
theorem Nat.foldr_max_mem {numbers : List ℕ} (h : numbers.foldr max 0 ≠ 0) :
    numbers.foldr max 0 ∈ numbers := by
  induction numbers with
  | nil => exact absurd rfl h
  | cons first numbers ih =>
    rw [List.foldr_cons] at h ⊢
    rcases Nat.le_total (numbers.foldr max 0) first with hle | hle
    · rw [Nat.max_eq_left hle]
      exact List.mem_cons_self
    · rw [Nat.max_eq_right hle] at h ⊢
      exact List.mem_cons_of_mem _ (ih h)

namespace Text

/-- `strip_prefix`. -/
def stripPrefix (s pattern : Text) : Option Text :=
  if pattern.isPrefixOf s then some (s.drop pattern.length) else none

/-- `strip_suffix`. -/
def stripSuffix (s pattern : Text) : Option Text :=
  if pattern.isSuffixOf s then some (s.take (s.length - pattern.length)) else none

/-- `parse::<u64>`: an optional plus sign and digits. -/
def parseU64 (s : Text) : Option ℕ :=
  if s.unsigned ≠ [] ∧ s.unsigned.all Char.isDigit ∧ s.unsigned.decimal < 2 ^ 64 then
    some s.unsigned.decimal
  else none

/-- `{n:0width}`. -/
def padded (width n : ℕ) : Text :=
  List.replicate (width - (Nat.toDigits 10 n).length) '0' ++ Nat.toDigits 10 n

theorem stripPrefix_eq_some_iff {s pattern rest : Text} :
    s.stripPrefix pattern = some rest ↔ s = pattern ++ rest := by
  rw [stripPrefix, Option.ite_none_right_eq_some, List.isPrefixOf_iff_prefix]
  constructor
  · rintro ⟨⟨tail, rfl⟩, hrest⟩
    rw [List.drop_left] at hrest
    rw [Option.some.inj hrest]
  · rintro rfl
    exact ⟨⟨rest, rfl⟩, by rw [List.drop_left]⟩

theorem stripSuffix_eq_some_iff {s pattern rest : Text} :
    s.stripSuffix pattern = some rest ↔ s = rest ++ pattern := by
  rw [stripSuffix, Option.ite_none_right_eq_some, List.isSuffixOf_iff_suffix]
  constructor
  · rintro ⟨⟨front, rfl⟩, hrest⟩
    rw [List.length_append, Nat.add_sub_cancel, List.take_left] at hrest
    rw [Option.some.inj hrest]
  · rintro rfl
    refine ⟨⟨rest, rfl⟩, ?_⟩
    rw [List.length_append, Nat.add_sub_cancel, List.take_left]

/-- The parts of a text that is split. -/
theorem eq_of_splitOnce {s pattern a b : Text} (h : s.splitOnce pattern = some (a, b)) :
    s = a ++ (pattern ++ b) := by
  induction s generalizing a with
  | nil =>
    rw [splitOnce] at h
    obtain ⟨hempty, heq⟩ := Option.ite_none_right_eq_some.mp h
    cases heq
    rw [List.isEmpty_iff.mp hempty]
    rfl
  | cons c s ih =>
    rw [splitOnce] at h
    split at h
    next hstart =>
      obtain ⟨tail, htail⟩ := List.isPrefixOf_iff_prefix.mp hstart
      cases h
      rw [← htail, List.drop_left]
      rfl
    next =>
      obtain ⟨⟨front, back⟩, hsplit, heq⟩ := Option.map_eq_some_iff.mp h
      cases heq
      rw [ih hsplit]
      rfl

/-- A text is split at the first place where the pattern can begin. -/
theorem splitOnce_append {a pattern b : Text} {c : Char} (h : c ∉ a) :
    (a ++ (c :: pattern ++ b)).splitOnce (c :: pattern) = some (a, b) := by
  induction a with
  | nil =>
    rw [List.nil_append, List.cons_append, splitOnce, if_pos]
    · rw [← List.cons_append, List.drop_left]
    · rw [List.isPrefixOf_iff_prefix, ← List.cons_append]
      exact List.prefix_append _ _
  | cons d a ih =>
    rw [List.mem_cons, not_or] at h
    have hnot : ¬(c :: pattern).isPrefixOf (d :: (a ++ (c :: pattern ++ b))) := by
      rw [List.isPrefixOf_iff_prefix, List.cons_prefix_cons]
      exact fun hboth => h.1 hboth.1
    rw [List.cons_append, splitOnce, if_neg hnot, ih h.2]
    rfl

theorem decimal_eq_ofDigitChars (digits : Text) :
    digits.decimal = Nat.ofDigitChars 10 digits 0 := by
  rw [decimal, Nat.ofDigitChars_eq_foldl]
  congr 1
  funext v c
  rw [Nat.mul_comm]

theorem decimal_append_singleton (digits : Text) (c : Char) :
    decimal (digits ++ [c]) = 10 * decimal digits + (c.toNat - '0'.toNat) := by
  rw [decimal, List.foldl_append, List.foldl_cons, List.foldl_nil, Nat.mul_comm]
  rfl

theorem isDigit_iff {c : Char} : c.isDigit ↔ 48 ≤ c.toNat ∧ c.toNat ≤ 57 := by
  have hc : c.val.toNat = c.toNat := rfl
  have hzero : ('0'.val.toNat) = 48 := rfl
  have hnine : ('9'.val.toNat) = 57 := rfl
  simp only [Char.isDigit, Bool.and_eq_true, decide_eq_true_eq, UInt32.le_iff_toNat_le, hc]
  exact Iff.rfl

/-- Numerals of one length are told apart by their value. -/
theorem eq_of_decimal_eq {digits digits' : Text} (h : digits.all Char.isDigit)
    (h' : digits'.all Char.isDigit) (hlength : digits.length = digits'.length)
    (hvalue : digits.decimal = digits'.decimal) : digits = digits' := by
  induction digits using List.reverseRecOn generalizing digits' with
  | nil => exact (List.length_eq_zero_iff.mp hlength.symm).symm
  | append_singleton digits c ih =>
    rcases List.eq_nil_or_concat digits' with rfl | ⟨others, c', rfl⟩
    · simp at hlength
    · simp only [List.concat_eq_append, List.all_append, List.all_cons, List.all_nil, Bool.and_true,
        Bool.and_eq_true, isDigit_iff] at h h' hlength hvalue ⊢
      rw [decimal_append_singleton, decimal_append_singleton] at hvalue
      have hzero : '0'.toNat = 48 := rfl
      have hlast : c = c' := Char.toNat_inj.mp (by omega)
      have hfront : digits = others := ih h.1 h'.1 (by simpa using hlength) (by omega)
      rw [hfront, hlast]

@[simp] theorem decimal_toDigits (n : ℕ) : decimal (Nat.toDigits 10 n) = n := by
  rw [decimal_eq_ofDigitChars, Nat.ofDigitChars_ten_toDigits]

theorem all_isDigit_toDigits (n : ℕ) : (Nat.toDigits 10 n).all Char.isDigit :=
  List.all_eq_true.mpr fun _ hc => Nat.isDigit_of_mem_toDigits (by decide) (by decide) hc

theorem toDigits_injective {m n : ℕ} (h : Nat.toDigits 10 m = Nat.toDigits 10 n) : m = n := by
  rw [← decimal_toDigits m, h, decimal_toDigits]

@[simp] theorem decimal_padded (width n : ℕ) : decimal (padded width n) = n := by
  rw [decimal_eq_ofDigitChars, padded, Nat.ofDigitChars_append, Nat.ofDigitChars_replicate_zero,
    Nat.mul_zero, Nat.ofDigitChars_ten_toDigits]

theorem all_isDigit_padded (width n : ℕ) : (padded width n).all Char.isDigit := by
  rw [padded, List.all_append, all_isDigit_toDigits, Bool.and_true, List.all_replicate]
  split
  · rfl
  · rfl

theorem padded_ne_nil (width n : ℕ) : padded width n ≠ [] := by
  simp [padded]

/-- Digits are read without looking for a sign. -/
theorem unsigned_of_isDigit {s : Text} (h : s.all Char.isDigit) : s.unsigned = s := by
  unfold unsigned
  split
  · simp at h
  · rfl

/-- Reading digits. -/
theorem parseU64_of_isDigit {digits : Text} (hne : digits ≠ []) (h : digits.all Char.isDigit) :
    digits.parseU64 = if digits.decimal < 2 ^ 64 then some digits.decimal else none := by
  simp [parseU64, unsigned_of_isDigit h, hne, h]

/-- Nothing is read from a text with another character than digits behind its sign. -/
theorem parseU64_eq_none {s : Text} {c : Char} (hc : c ∈ s) (hdigit : c.isDigit = false)
    (hsign : c ≠ '+') : s.parseU64 = none := by
  rw [parseU64, if_neg]
  rintro ⟨-, hall, -⟩
  have hmem : c ∈ s.unsigned := by
    unfold unsigned
    split
    · rcases List.mem_cons.mp hc with rfl | hc
      · exact absurd rfl hsign
      · exact hc
    · exact hc
  have := List.all_eq_true.mp hall c hmem
  simp [hdigit] at this

theorem parseU64_toDigits {n : ℕ} (h : n < 2 ^ 64) : parseU64 (Nat.toDigits 10 n) = some n := by
  rw [parseU64_of_isDigit Nat.toDigits_ne_nil (all_isDigit_toDigits n), decimal_toDigits, if_pos h]

theorem parseU64_lt {s : Text} {n : ℕ} (h : s.parseU64 = some n) : n < 2 ^ 64 := by
  obtain ⟨⟨-, -, hlt⟩, ⟨⟩⟩ := Option.ite_none_right_eq_some.mp h
  exact hlt

/-- A numeral that is as wide as the width asks, with no zero in front beyond it. -/
def Padded (width : ℕ) (digits : Text) : Prop :=
  digits.length = width ∨ width < digits.length ∧ digits.head? ≠ some '0'

/-- A numeral with another front digit than zero has the order of magnitude of its length. -/
theorem pow_le_decimal {c : Char} {digits : Text} (h : (c :: digits).all Char.isDigit)
    (hc : c ≠ '0') : 10 ^ digits.length ≤ decimal (c :: digits) := by
  have hdigit : c.isDigit := by
    rw [List.all_cons, Bool.and_eq_true] at h
    exact h.1
  have hzero : '0'.toNat = 48 := rfl
  have hpos : 1 ≤ c.toNat - '0'.toNat := by
    have hne : c.toNat ≠ '0'.toNat := fun heq => hc (Char.toNat_inj.mp heq)
    have := isDigit_iff.mp hdigit
    omega
  rw [decimal_eq_ofDigitChars, Nat.ofDigitChars_cons, Nat.ofDigitChars_eq_ofDigitChars_zero]
  calc 10 ^ digits.length ≤ 10 ^ digits.length * (10 * 0 + (c.toNat - '0'.toNat)) :=
        Nat.le_mul_of_pos_right _ (by omega)
    _ ≤ _ := Nat.le_add_right _ _

theorem decimal_lt_pow {digits : Text} (h : digits.all Char.isDigit) :
    decimal digits < 10 ^ digits.length := by
  induction digits using List.reverseRecOn with
  | nil => simp [decimal]
  | append_singleton digits c ih =>
    simp only [List.all_append, List.all_cons, List.all_nil, Bool.and_true, Bool.and_eq_true,
      isDigit_iff] at h
    have hzero : '0'.toNat = 48 := rfl
    have := ih h.1
    rw [decimal_append_singleton, List.length_append, List.length_singleton, Nat.pow_succ]
    omega

theorem length_padded (width n : ℕ) :
    (padded width n).length = max width (Nat.toDigits 10 n).length := by
  rw [padded, List.length_append, List.length_replicate]
  omega

/-- **Padded numerals.** A numeral is the printed form of its value exactly when it is padded. -/
theorem padded_decimal_iff {width : ℕ} {digits : Text} (hwidth : 0 < width)
    (h : digits.all Char.isDigit) : padded width digits.decimal = digits ↔ Padded width digits := by
  constructor
  · intro heq
    rw [← heq, Padded, length_padded]
    by_cases hle : (Nat.toDigits 10 digits.decimal).length ≤ width
    · exact .inl (Nat.max_eq_left hle)
    · refine .inr ⟨by omega, ?_⟩
      rw [padded, Nat.sub_eq_zero_of_le (by omega), List.replicate_zero, List.nil_append]
      intro hhead
      obtain ⟨rest, hrest⟩ := List.head?_eq_some_iff.mp hhead
      have hall := all_isDigit_toDigits digits.decimal
      have hvalue := decimal_toDigits digits.decimal
      -- without the zero the same value has fewer digits than are printed
      rw [hrest, decimal_eq_ofDigitChars, Nat.ofDigitChars_cons,
        show 10 * 0 + ('0'.toNat - '0'.toNat) = 0 from rfl, ← decimal_eq_ofDigitChars] at hvalue
      rw [hrest, List.all_cons, Bool.and_eq_true] at hall
      have hlt := decimal_lt_pow hall.2
      have hlength := congrArg List.length hrest
      rw [List.length_cons] at hlength
      have hshort := (Nat.length_toDigits_le_iff (by decide) (by omega)).mpr (hvalue ▸ hlt)
      omega
  · intro hpadded
    refine eq_of_decimal_eq (all_isDigit_padded _ _) h ?_ (decimal_padded _ _)
    rw [length_padded]
    have hlt := decimal_lt_pow h
    rcases hpadded with hlength | ⟨hlong, hhead⟩
    · rw [hlength] at hlt ⊢
      exact Nat.max_eq_left ((Nat.length_toDigits_le_iff (by decide) hwidth).mpr hlt)
    · have hle := (Nat.length_toDigits_le_iff (by decide) (by omega)).mpr hlt
      obtain ⟨c, rest, rfl⟩ := List.exists_cons_of_length_pos (by omega : 0 < digits.length)
      have hge := pow_le_decimal h fun heq => hhead (by rw [heq]; rfl)
      have hmore : ¬(Nat.toDigits 10 (decimal (c :: rest))).length ≤ rest.length := by
        rw [Nat.length_toDigits_le_iff (by decide) (by rw [List.length_cons] at hlong; omega)]
        omega
      rw [List.length_cons] at hle hlong ⊢
      omega

theorem padded_one (n : ℕ) : padded 1 n = Nat.toDigits 10 n := by
  have hpos : 0 < (Nat.toDigits 10 n).length := Nat.length_toDigits_pos
  rw [padded, Nat.sub_eq_zero_of_le hpos, List.replicate_zero, List.nil_append]

/-- A number that is read was printed exactly when it has digits only and no zero in front. -/
theorem eq_toDigits_iff {s : Text} {n : ℕ} (h : s.parseU64 = some n) :
    s = Nat.toDigits 10 n ↔ s.all Char.isDigit ∧ Padded 1 s := by
  constructor
  · rintro rfl
    have hall := all_isDigit_toDigits n
    refine ⟨hall, (padded_decimal_iff (by decide) hall).mp ?_⟩
    rw [decimal_toDigits, padded_one]
  · rintro ⟨hall, hpadded⟩
    obtain ⟨⟨-, -, -⟩, heq⟩ := Option.ite_none_right_eq_some.mp h
    rw [unsigned_of_isDigit hall] at heq
    rw [← Option.some.inj heq, ← padded_one]
    exact ((padded_decimal_iff (by decide) hall).mpr hpadded).symm

end Text
