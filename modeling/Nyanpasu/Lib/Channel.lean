import Mathlib.Data.Nat.Notation
import Mathlib.Tactic.Common

/-!
# Channels that lose values

A watch channel keeps its latest value and counts its publications; a receiver remembers the
version that it has seen. A broadcast ring keeps its newest values; a receiver remembers how
many it has taken, and is told when it has fallen behind.
-/

/-- A watch channel. -/
structure Watch (α : Type) where
  value : α
  version : ℕ

namespace Watch

variable {α : Type}

/-- Publish a value. -/
def send (w : Watch α) (value : α) : Watch α := ⟨value, w.version + 1⟩

/-- Whether a receiver has not seen the latest value. -/
def changed (w : Watch α) (seen : ℕ) : Bool := seen ≠ w.version

end Watch

/-- A broadcast ring: everything that was sent, newest first. -/
structure Broadcast (α : Type) where
  sent : List α

/-- What a receiver of a ring gets. -/
inductive Received (α : Type) where
  | empty
  | lagged (skipped : ℕ)
  | value (value : α)

namespace Broadcast

variable {α : Type} {r : Broadcast α} {cursor : ℕ} {a : α}

/-- The number of values sent so far, where a new receiver starts. -/
def tail (r : Broadcast α) : ℕ := r.sent.length

/-- Send a value. -/
def send (r : Broadcast α) (a : α) : Broadcast α := ⟨a :: r.sent⟩

/-- The values that a receiver has not taken, newest first. -/
def pending (r : Broadcast α) (cursor : ℕ) : List α := r.sent.take (r.tail - cursor)

/-- What a receiver gets from a ring of a capacity. -/
def recv (capacity : ℕ) (r : Broadcast α) (cursor : ℕ) : Received α :=
  if capacity < r.tail - cursor then .lagged (r.tail - cursor - capacity)
  else match (r.pending cursor).getLast? with
    | some a => .value a
    | none => .empty

@[simp] theorem tail_send : (r.send a).tail = r.tail + 1 := rfl

@[simp] theorem pending_tail : r.pending r.tail = [] := by simp [pending]

theorem pending_send (h : cursor ≤ r.tail) : (r.send a).pending cursor = a :: r.pending cursor := by
  have hcount : (r.send a).tail - cursor = r.tail - cursor + 1 := by
    rw [tail_send]
    omega
  unfold pending
  rw [hcount]
  rfl

/-- A value that is received is the oldest pending one. -/
theorem pending_of_recv {capacity : ℕ} (h : r.recv capacity cursor = .value a) :
    cursor < r.tail ∧ r.pending cursor = r.pending (cursor + 1) ++ [a] := by
  unfold recv at h
  split at h
  · cases h
  split at h
  · rename_i b hlast
    obtain rfl := Received.value.inj h
    obtain ⟨front, hfront⟩ := List.getLast?_eq_some_iff.mp hlast
    have hlength : r.tail - cursor = front.length + 1 := by
      have := congrArg List.length hfront
      simpa [pending, tail] using this
    have hcursor : cursor < r.tail := by omega
    refine ⟨hcursor, ?_⟩
    rw [hfront]
    congr 1
    have htake : r.pending (cursor + 1) = (r.pending cursor).take front.length := by
      unfold pending
      rw [List.take_take]
      congr 1
      omega
    rw [htake, hfront, List.take_left']
    rfl
  · cases h

/-- A value that is received was sent. -/
theorem mem_of_recv {capacity : ℕ} (h : r.recv capacity cursor = .value a) : a ∈ r.sent := by
  obtain ⟨-, hpending⟩ := pending_of_recv h
  have hmem : a ∈ r.pending cursor := by
    rw [hpending]
    exact List.mem_append_right _ (List.mem_singleton_self a)
  exact List.mem_of_mem_take hmem

/-- Only a receiver that is more than the ring behind is told so. -/
theorem capacity_lt_of_lagged {capacity skipped : ℕ}
    (h : r.recv capacity cursor = .lagged skipped) :
    capacity < r.tail - cursor := by
  unfold recv at h
  split at h
  · assumption
  · split at h <;> cases h

/-- What a receiver that has fallen behind skips is what the ring no longer holds. -/
theorem skipped_of_lagged {capacity skipped : ℕ} (h : r.recv capacity cursor = .lagged skipped) :
    skipped = r.tail - cursor - capacity := by
  unfold recv at h
  split at h
  · exact (Received.lagged.inj h).symm
  · split at h <;> cases h

/-- A receiver that finds nothing has taken everything. -/
theorem tail_le_of_recv {capacity : ℕ} (h : r.recv capacity cursor = .empty) : r.tail ≤ cursor := by
  unfold recv at h
  split at h
  · cases h
  split at h
  · cases h
  · rename_i hlast
    have hlength := congrArg List.length (List.getLast?_eq_none_iff.mp hlast)
    simp only [pending, tail, List.length_take, List.length_nil] at hlength
    unfold tail
    omega

/-- The oldest values sent, which a receiver has taken or missed. -/
def taken (r : Broadcast α) (cursor : ℕ) : List α := r.sent.reverse.take cursor

theorem length_taken (h : cursor ≤ r.tail) : (r.taken cursor).length = cursor := by
  unfold tail at h
  simp [taken, h]

/-- What was taken does not change when more is sent. -/
theorem taken_send (h : cursor ≤ r.tail) : (r.send a).taken cursor = r.taken cursor := by
  have hlength : cursor ≤ r.sent.reverse.length := by
    simpa [tail] using h
  simp [taken, send, List.take_append_of_le_length hlength]

/-- A value that is received comes next. -/
theorem taken_of_recv {capacity : ℕ} (h : r.recv capacity cursor = .value a) :
    cursor < r.tail ∧ r.taken (cursor + 1) = r.taken cursor ++ [a] := by
  obtain ⟨hcursor, hpending⟩ := pending_of_recv h
  refine ⟨hcursor, ?_⟩
  have hsent : ∀ c, r.taken c = r.sent.reverse.take c := fun _ => rfl
  have hdrop : ∀ c, c ≤ r.tail → (r.pending c).reverse = r.sent.reverse.drop c := by
    intro c hc
    unfold tail at hc
    rw [pending, tail, List.drop_reverse]
  have hnext := hdrop cursor (by omega)
  rw [hpending, List.reverse_append, List.reverse_singleton, List.singleton_append] at hnext
  have hget : r.sent.reverse[cursor]? = some a := by
    have := congrArg List.head? hnext
    rwa [List.head?_cons, List.head?_drop, eq_comm] at this
  rw [hsent, hsent, List.take_add_one, hget, Option.toList_some]

/-- A receiver that has fallen behind misses the values that come next. -/
theorem taken_of_lagged {capacity skipped : ℕ} (h : r.recv capacity cursor = .lagged skipped) :
    0 < skipped ∧ cursor + skipped ≤ r.tail ∧
      ∃ missed, missed.length = skipped ∧
        r.taken (cursor + skipped) = r.taken cursor ++ missed := by
  have hbehind := capacity_lt_of_lagged h
  have hskipped := skipped_of_lagged h
  have htail : r.tail = r.sent.reverse.length := by simp [tail]
  refine ⟨by omega, by omega, (r.sent.reverse.drop cursor).take skipped, ?_, ?_⟩
  · rw [List.length_take, List.length_drop]
    omega
  · rw [taken, taken, List.take_add]

end Broadcast
