import Mathlib.Data.Nat.Notation
import Mathlib.Tactic.Common

/-!
# Counters that wrap

A counter that starts at an origin gives out the successor of its last number, modulo a bound.
No number comes twice before as many as the bound were given out, and until then the order in
which two numbers came can be read off them. It is the order of the numbers as long as the counter
has not wrapped to zero.
-/

namespace Counter

variable {bound origin n k x y : ℕ}

/-- The number that is given out after `n` others. -/
def value (bound origin n : ℕ) : ℕ := (origin + n + 1) % bound

/-- The first numbers that are given out, newest first. -/
def issued (bound origin : ℕ) : ℕ → List ℕ
  | 0 => []
  | n + 1 => value bound origin n :: issued bound origin n

/-- How many numbers were given out before one of them. -/
def order (bound origin x : ℕ) : ℕ := (x + (bound - (origin + 1) % bound)) % bound

/-- The next number is the successor of the last one, modulo the bound. -/
theorem value_eq_succ (hx : x = (origin + n) % bound) : value bound origin n = (x + 1) % bound := by
  rw [hx, Nat.mod_add_mod]
  rfl

/-- The order is read off the numbers as long as none came twice. -/
theorem order_value (h : n < bound) : order bound origin (value bound origin n) = n := by
  have hstart : (origin + 1) % bound < bound := Nat.mod_lt _ (by omega)
  have hvalue : value bound origin n = ((origin + 1) % bound + n) % bound := by
    rw [Nat.mod_add_mod]
    unfold value
    congr 1
    omega
  rw [order, hvalue]
  generalize (origin + 1) % bound = start at hstart
  -- either the counter has wrapped since its first number or it has not
  by_cases hroom : start + n < bound
  · rw [Nat.mod_eq_of_lt hroom]
    have hsum : start + n + (bound - start) = n + bound := by omega
    rw [hsum, Nat.add_mod_right, Nat.mod_eq_of_lt h]
  · have hwrapped : (start + n) % bound = start + n - bound := by
      rw [Nat.mod_eq_sub_mod (by omega), Nat.mod_eq_of_lt (by omega)]
    rw [hwrapped]
    have hsum : start + n - bound + (bound - start) = n := by omega
    rw [hsum, Nat.mod_eq_of_lt h]

@[simp] theorem length_issued : (issued bound origin k).length = k := by
  induction k with
  | zero => rfl
  | succ k ih => simp [issued, ih]

theorem mem_issued : x ∈ issued bound origin k ↔ ∃ n < k, x = value bound origin n := by
  induction k with
  | zero => simp [issued]
  | succ k ih =>
    simp only [issued, List.mem_cons, ih]
    constructor
    · rintro (rfl | ⟨n, hn, rfl⟩)
      · exact ⟨k, by omega, rfl⟩
      · exact ⟨n, by omega, rfl⟩
    · rintro ⟨n, hn, rfl⟩
      by_cases heq : n = k
      · exact Or.inl (by rw [heq])
      · exact Or.inr ⟨n, by omega, rfl⟩

/-- The numbers that were given out come before the next one. -/
theorem order_lt (h : x ∈ issued bound origin k) (hk : k ≤ bound) : order bound origin x < k := by
  obtain ⟨n, hn, rfl⟩ := mem_issued.mp h
  rwa [order_value (by omega)]

/-- Until the counter wraps its numbers follow the origin. -/
theorem value_eq (h : origin + n + 1 < bound) : value bound origin n = origin + n + 1 :=
  Nat.mod_eq_of_lt h

/-- Until the counter wraps the later of two numbers is the greater one. -/
theorem lt_of_order_lt (hroom : origin + k < bound) (hx : x ∈ issued bound origin k)
    (hy : y ∈ issued bound origin k) (h : order bound origin x < order bound origin y) :
    x < y := by
  obtain ⟨m, hm, rfl⟩ := mem_issued.mp hx
  obtain ⟨n, hn, rfl⟩ := mem_issued.mp hy
  rw [order_value (by omega), order_value (by omega)] at h
  rw [value_eq (by omega), value_eq (by omega)]
  omega

/-- Until the counter wraps its numbers are greater than the origin. -/
theorem origin_lt (hroom : origin + k < bound) (hx : x ∈ issued bound origin k) : origin < x := by
  obtain ⟨n, hn, rfl⟩ := mem_issued.mp hx
  rw [value_eq (by omega)]
  omega

/-- Until the counter wraps every number is greater than those before it. -/
theorem pairwise_issued (hroom : origin + k < bound) :
    (issued bound origin k).Pairwise (· > ·) := by
  induction k with
  | zero => exact List.Pairwise.nil
  | succ k ih =>
    refine List.pairwise_cons.mpr ⟨fun x hx => ?_, ih (by omega)⟩
    obtain ⟨n, hn, rfl⟩ := mem_issued.mp hx
    rw [value_eq (by omega), value_eq (by omega)]
    omega

/-- The counter wraps to zero. -/
theorem zero_mem (horigin : origin < bound) (hfull : bound ≤ origin + k) :
    0 ∈ issued bound origin k := by
  refine mem_issued.mpr ⟨bound - origin - 1, by omega, ?_⟩
  have hsum : origin + (bound - origin - 1) + 1 = bound := by omega
  rw [value, hsum, Nat.mod_self]

/-- Zero is not greater than the numbers before it. -/
theorem not_pairwise_issued (hfirst : origin + 1 < bound) (hfull : bound ≤ origin + k) :
    ¬ (issued bound origin k).Pairwise (· > ·) := by
  induction k with
  | zero => omega
  | succ k ih =>
    intro hpairwise
    obtain ⟨habove, hrest⟩ := List.pairwise_cons.mp hpairwise
    by_cases hlast : bound ≤ origin + k
    · exact ih hlast hrest
    · have hsum : origin + k + 1 = bound := by omega
      have hmem : value bound origin 0 ∈ issued bound origin k :=
        mem_issued.mpr ⟨0, by omega, rfl⟩
      have hlt := habove _ hmem
      rw [value, hsum, Nat.mod_self] at hlt
      omega

end Counter
