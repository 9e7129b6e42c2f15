import Mathlib.Data.List.Basic
import Mathlib.Logic.Function.Basic
import Mathlib.Order.Lattice

/-!
# Timelines

A store whose places change one at a time, with the record of the changes made to it. A moment
is the number of changes made so far. When no stamp returns to a place, reading one stamp
twice shows that nothing was done to the place in between.
-/

/-- What a store held at first, and the changes made to it since, the oldest first. -/
structure Timeline (κ β : Type*) where
  initial : κ → Option β
  changes : List (κ × Option β)

namespace Timeline

variable {κ β γ : Type*}

/-- The present moment. -/
def now (l : Timeline κ β) : ℕ := l.changes.length

/-- The changes made between two moments. -/
def between (l : Timeline κ β) (first last : ℕ) : List (κ × Option β) :=
  (l.changes.take last).drop first

/-- Put something else, or nothing, in a place. -/
def change (l : Timeline κ β) (k : κ) (v : Option β) : Timeline κ β :=
  { l with changes := l.changes ++ [(k, v)] }

@[simp] theorem now_change (l : Timeline κ β) (k : κ) (v : Option β) :
    (l.change k v).now = l.now + 1 := by
  simp [now, change]

section Between

variable {l : Timeline κ β} {k : κ} {v : Option β} {first last : ℕ}

theorem between_change_of_le (h : last ≤ l.now) :
    (l.change k v).between first last = l.between first last := by
  rw [between, change, List.take_append_of_le_length h, between]

theorem between_change_succ (h : first ≤ l.now) :
    (l.change k v).between first (l.now + 1) = l.between first l.now ++ [(k, v)] := by
  have hall : (l.changes ++ [(k, v)]).take (l.now + 1) = l.changes ++ [(k, v)] := by
    rw [List.take_of_length_le]
    simp [now]
  rw [between, between, change, hall, List.drop_append_of_le_length h, now, List.take_length]

end Between

section Content

variable [DecidableEq κ]

/-- What the store held at a moment. -/
def content (l : Timeline κ β) (moment : ℕ) : κ → Option β :=
  (l.changes.take moment).foldl (fun store e => Function.update store e.1 e.2) l.initial

variable {l : Timeline κ β} {k : κ} {v : Option β} {first last moment : ℕ}

/-- A change leaves the past as it was. -/
theorem content_change_of_le (h : moment ≤ l.now) :
    (l.change k v).content moment = l.content moment := by
  rw [content, change, List.take_append_of_le_length h, content]

theorem content_change_succ :
    (l.change k v).content (l.now + 1) = Function.update (l.content l.now) k v := by
  have hall : (l.changes ++ [(k, v)]).take (l.now + 1) = l.changes ++ [(k, v)] := by
    rw [List.take_of_length_le]
    simp [now]
  rw [content, content, change, hall, List.foldl_append, List.foldl_cons, List.foldl_nil, now,
    List.take_length]

/-- A place that nobody changes keeps what it holds. -/
theorem content_eq_of_untouched (hle : first ≤ last)
    (h : ∀ e ∈ l.between first last, e.1 ≠ k) : l.content last k = l.content first k := by
  have hsplit : l.changes.take last = l.changes.take first ++ l.between first last := by
    have htake : (l.changes.take last).take first = l.changes.take first := by
      rw [List.take_take, min_eq_left hle]
    rw [between, ← htake, List.take_append_drop]
  rw [content, content, hsplit, List.foldl_append]
  generalize (l.changes.take first).foldl _ l.initial = store
  generalize l.between first last = changes at h
  induction changes generalizing store with
  | nil => rfl
  | cons e rest ih =>
    have hne := h e List.mem_cons_self
    have hrest := ih (Function.update store e.1 e.2) fun e he => h e (List.mem_cons_of_mem _ he)
    rw [List.foldl_cons, hrest, Function.update_of_ne hne.symm]

/-- A later state of a timeline, with the same past. -/
structure Extends (l' l : Timeline κ β) : Prop where
  now_le : l.now ≤ l'.now
  content_eq : ∀ moment ≤ l.now, l'.content moment = l.content moment

theorem Extends.refl (l : Timeline κ β) : Extends l l := ⟨le_rfl, fun _ _ => rfl⟩

theorem extends_change : Extends (l.change k v) l := by
  constructor
  · rw [now_change]
    omega
  · intro moment hle
    exact content_change_of_le hle

/-- What may come to a place: nothing there ever had its stamp. -/
def Fresh (stamp : β → γ) (l : Timeline κ β) (k : κ) (y : β) : Prop :=
  ∀ moment ≤ l.now, ∀ x ∈ l.content moment k, stamp x ≠ stamp y

/-- A place that shows one stamp at two moments was not changed in between. -/
def Stamped (stamp : β → γ) (l : Timeline κ β) : Prop :=
  ∀ ⦃k first last x y⦄, first ≤ last → last ≤ l.now → l.content first k = some x →
    l.content last k = some y → stamp x = stamp y → ∀ e ∈ l.between first last, e.1 ≠ k

variable {stamp : β → γ} {x y : β}

theorem Stamped.of_unchanged (h : l.changes = []) : Stamped stamp l := by
  intro k first last x y _ _ _ _ _ e he
  rw [between, h, List.take_nil, List.drop_nil] at he
  cases he

/-- Fresh stamps keep a store stamped. -/
theorem Stamped.change (h : Stamped stamp l) (hfresh : ∀ y ∈ v, l.Fresh stamp k y) :
    Stamped stamp (l.change k v) := by
  intro k' first last x y hle hnow hx hy hstamp e he
  rw [now_change] at hnow
  by_cases hlast : last ≤ l.now
  · rw [between_change_of_le hlast] at he
    rw [content_change_of_le (hle.trans hlast)] at hx
    rw [content_change_of_le hlast] at hy
    exact h hle hlast hx hy hstamp e he
  obtain rfl : last = l.now + 1 := by omega
  by_cases hfirst : first ≤ l.now
  · rw [content_change_of_le hfirst] at hx
    rw [content_change_succ] at hy
    have hk : k ≠ k' := by
      rintro rfl
      rw [Function.update_self] at hy
      exact hfresh y hy first hfirst x hx hstamp
    rw [Function.update_of_ne hk.symm] at hy
    rw [between_change_succ hfirst, List.mem_append, List.mem_singleton] at he
    rcases he with he | rfl
    · exact h hfirst le_rfl hx hy hstamp e he
    · exact hk
  · have hnone : (l.change k v).between first (l.now + 1) = [] := by
      rw [between, List.drop_eq_nil_of_le]
      rw [List.length_take]
      omega
    rw [hnone] at he
    cases he

/-- Between two readings of one stamp the place held the same. -/
theorem Stamped.content_eq (h : Stamped stamp l) (hfirst : first ≤ moment)
    (hlast : moment ≤ last) (hnow : last ≤ l.now) (hx : l.content first k = some x)
    (hy : l.content last k = some y) (hstamp : stamp x = stamp y) :
    l.content moment k = some x := by
  have huntouched := h (hfirst.trans hlast) hnow hx hy hstamp
  rw [← hx]
  refine content_eq_of_untouched hfirst fun e he => huntouched e ?_
  rw [between] at he ⊢
  rw [← min_eq_left hlast, ← List.take_take, List.drop_take] at he
  exact List.mem_of_mem_take he

/-- A stamp tells what was in a place. -/
theorem Stamped.eq (h : Stamped stamp l) (hfirst : first ≤ l.now) (hlast : last ≤ l.now)
    (hx : l.content first k = some x) (hy : l.content last k = some y)
    (hstamp : stamp x = stamp y) : x = y := by
  rcases le_total first last with hle | hle
  · have := h.content_eq hle le_rfl hlast hx hy hstamp
    rw [hy] at this
    exact (Option.some.inj this).symm
  · have := h.content_eq hle le_rfl hfirst hy hx hstamp.symm
    rw [hx] at this
    exact Option.some.inj this

end Content

end Timeline
