import Mathlib.Algebra.Order.BigOperators.Group.List
import Mathlib.Algebra.Order.Ring.Nat
import Mathlib.Data.Nat.Notation
import Mathlib.Tactic.Common

/-!
# Permits

A pool of tasks shares a number of permits, of which every task holds some, as its place says.
The permits are conserved when every move of a task takes from the free ones what it adds to its
own. Then no more tasks hold one than there are permits, and with a single permit no two tasks
do.
-/

namespace Permits

variable {τ : Type}

/-- The permits that are held. -/
def held (weight : τ → ℕ) (tasks : List τ) : ℕ := (tasks.map weight).sum

/-- The free permits and those that are held are all there are. -/
def Conserved (weight : τ → ℕ) (total free : ℕ) (tasks : List τ) : Prop :=
  free + held weight tasks = total

variable {weight : τ → ℕ} {tasks : List τ} {task task' : τ} {index total free free' : ℕ}

theorem held_append : held weight (tasks ++ [task]) = held weight tasks + weight task := by
  simp [held]

/-- When a task holds one permit or none, the permits held are the tasks that hold one. -/
theorem held_toNat (holds : τ → Bool) (tasks : List τ) :
    held (fun task => (holds task).toNat) tasks = tasks.countP holds := by
  induction tasks with
  | nil => rfl
  | cons first rest ih =>
    simp only [held, List.map_cons, List.sum_cons, List.countP_cons] at ih ⊢
    rw [ih]
    cases holds first <;> simp [Nat.add_comm]

/-- What a task that moved held before and holds now. -/
theorem held_set (h : tasks[index]? = some task) :
    held weight (tasks.set index task') + weight task = held weight tasks + weight task' := by
  induction tasks generalizing index with
  | nil => simp at h
  | cons first rest ih =>
    cases index with
    | zero =>
      obtain rfl : first = task := by simpa using h
      simp only [held, List.set_cons_zero, List.map_cons, List.sum_cons]
      omega
    | succ index =>
      have hget : rest[index]? = some task := by simpa using h
      have hrest := ih hget
      simp only [held, List.set_cons_succ, List.map_cons, List.sum_cons] at hrest ⊢
      omega

/-- A task holds no more than all of them. -/
theorem weight_le_held (h : tasks[index]? = some task) : weight task ≤ held weight tasks :=
  List.le_sum_of_mem (List.mem_map_of_mem (List.mem_of_getElem? h))

/-- Two tasks hold no more than all of them. -/
theorem weight_add_le_held {index' : ℕ} (h : tasks[index]? = some task)
    (h' : tasks[index']? = some task') (hne : index ≠ index') :
    weight task + weight task' ≤ held weight tasks := by
  induction tasks generalizing index index' with
  | nil => simp at h
  | cons first rest ih =>
    cases index with
    | zero =>
      cases index' with
      | zero => exact absurd rfl hne
      | succ index' =>
        obtain rfl : first = task := by simpa using h
        have hget : rest[index']? = some task' := by simpa using h'
        have hle : weight task' ≤ held weight rest := weight_le_held hget
        simp only [held, List.map_cons, List.sum_cons] at hle ⊢
        omega
    | succ index =>
      cases index' with
      | zero =>
        obtain rfl : first = task' := by simpa using h'
        have hget : rest[index]? = some task := by simpa using h
        have hle : weight task ≤ held weight rest := weight_le_held hget
        simp only [held, List.map_cons, List.sum_cons] at hle ⊢
        omega
      | succ index' =>
        have hget : rest[index]? = some task := by simpa using h
        have hget' : rest[index']? = some task' := by simpa using h'
        have hle := ih hget hget' (by omega)
        simp only [held, List.map_cons, List.sum_cons] at hle ⊢
        omega

namespace Conserved

/-- A task that comes in holds nothing. -/
theorem arrive (h : Conserved weight total free tasks) (htask : weight task = 0) :
    Conserved weight total free (tasks ++ [task]) := by
  rw [Conserved, held_append, htask]
  exact h

/-- A task moves, and what it takes is no longer free. -/
theorem move (h : Conserved weight total free tasks) (htask : tasks[index]? = some task)
    (hfree : free' + weight task' = free + weight task) :
    Conserved weight total free' (tasks.set index task') := by
  have hset : held weight (tasks.set index task') + weight task =
      held weight tasks + weight task' :=
    held_set htask
  unfold Conserved at h ⊢
  omega

/-- No two tasks hold the only permit. -/
theorem exclusive {index' : ℕ} (h : Conserved weight 1 free tasks)
    (htask : tasks[index]? = some task) (htask' : tasks[index']? = some task')
    (hpos : 0 < weight task) (hpos' : 0 < weight task') : index = index' := by
  by_contra hne
  have hle : weight task + weight task' ≤ held weight tasks := weight_add_le_held htask htask' hne
  unfold Conserved at h
  omega

/-- A permit that is held is not free. -/
theorem free_lt (h : Conserved weight total free tasks) (htask : tasks[index]? = some task)
    (hpos : 0 < weight task) : free < total := by
  have hle : weight task ≤ held weight tasks := weight_le_held htask
  unfold Conserved at h
  omega

end Conserved

end Permits
