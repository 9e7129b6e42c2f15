import Mathlib.Data.List.Basic
import Mathlib.Data.List.Nodup
import Mathlib.Order.Lattice

/-!
# Finite maps as association lists

An insertion-ordered map with unique keys, as index maps and directory listings
present it: replacing a key keeps its position and a new key goes to the end.
Lookups are `List.lookup`; this file adds the two updates, their lookup laws, and
the fact that lists with strictly increasing keys are determined by their lookups.
-/

namespace Assoc

variable {α β γ : Type*} [DecidableEq α]

/-- Replace the value of a key in place, or append the entry when the key is new. -/
def insert (m : List (α × β)) (k : α) (v : β) : List (α × β) :=
  match m with
  | [] => [(k, v)]
  | e :: m => if e.1 = k then (k, v) :: m else e :: insert m k v

/-- Drop every entry with the given key. -/
def erase (m : List (α × β)) (k : α) : List (α × β) := m.filter fun e => e.1 ≠ k

/-- Lookup compares the key with the head entry first. -/
theorem lookup_cons_if (e : α × β) (m : List (α × β)) (k : α) :
    (e :: m).lookup k = if k = e.1 then some e.2 else m.lookup k := by
  obtain ⟨a, v⟩ := e
  by_cases h : k = a
  · simp [h]
  · have hb : (k == a) = false := beq_eq_false_iff_ne.mpr h
    simp only [List.lookup_cons, hb, if_neg h]

@[simp] theorem lookup_insert (m : List (α × β)) (k k' : α) (v : β) :
    (insert m k v).lookup k' = if k' = k then some v else m.lookup k' := by
  induction m with
  | nil => simp [insert, lookup_cons_if]
  | cons e m ih =>
    by_cases he : e.1 = k
    · by_cases h : k' = k <;> simp [insert, lookup_cons_if, he, h]
    · by_cases h : k' = e.1
      · have hk : k' ≠ k := fun hk => he (h.symm.trans hk)
        simp [insert, lookup_cons_if, he, h]
      · simp [insert, lookup_cons_if, he, h, ih]

@[simp] theorem lookup_erase (m : List (α × β)) (k k' : α) :
    (erase m k).lookup k' = if k' = k then none else m.lookup k' := by
  induction m with
  | nil => simp [erase]
  | cons e m ih =>
    rw [erase] at ih
    by_cases he : e.1 = k
    · by_cases h : k' = k
      · simpa [erase, he, h] using ih
      · simpa [erase, lookup_cons_if, he, h] using ih
    · by_cases h : k' = e.1
      · have hk : k' ≠ k := fun hk => he (h.symm.trans hk)
        simp [erase, lookup_cons_if, he, h]
      · simpa [erase, lookup_cons_if, he, h] using ih

/-- A successful lookup finds an entry of the list. -/
theorem mem_of_lookup {m : List (α × β)} {k : α} {v : β} (h : m.lookup k = some v) :
    (k, v) ∈ m := by
  obtain ⟨l₁, l₂, rfl, _⟩ := List.lookup_eq_some_iff.mp h
  simp

/-- A key has a value exactly when it occurs in the list. -/
theorem lookup_ne_none_iff {m : List (α × β)} {k : α} :
    m.lookup k ≠ none ↔ k ∈ m.map Prod.fst := by
  induction m with
  | nil => simp
  | cons e m ih =>
    rw [lookup_cons_if, List.map_cons, List.mem_cons, ← ih]
    by_cases h : k = e.1 <;> simp [h]

/-- With unique keys every entry is found by its key. -/
theorem lookup_of_mem {m : List (α × β)} {k : α} {v : β} (hm : (m.map Prod.fst).Nodup)
    (h : (k, v) ∈ m) : m.lookup k = some v := by
  induction m with
  | nil => simp at h
  | cons e m ih =>
    rw [List.map_cons, List.nodup_cons] at hm
    rw [lookup_cons_if]
    rcases List.mem_cons.mp h with rfl | hmem
    · simp
    · have hne : k ≠ e.1 := by
        intro hk
        exact hm.1 (hk ▸ List.mem_map_of_mem (f := Prod.fst) hmem)
      rw [if_neg hne, ih hm.2 hmem]

/-- Mapping the values commutes with lookup. -/
theorem lookup_map (m : List (α × β)) (f : β → γ) (k : α) :
    (m.map fun e => (e.1, f e.2)).lookup k = (m.lookup k).map f := by
  induction m with
  | nil => rfl
  | cons e m ih =>
    rw [List.map_cons, lookup_cons_if, lookup_cons_if, ih]
    by_cases h : k = e.1 <;> simp [h]

/-- A filter on keys keeps the lookups of the keys it accepts and no others. -/
theorem lookup_filter_key (m : List (α × β)) (p : α → Bool) (k : α) :
    (m.filter fun e => p e.1).lookup k = if p k then m.lookup k else none := by
  induction m with
  | nil => simp
  | cons e m ih =>
    rw [List.filter_cons, lookup_cons_if]
    by_cases hk : k = e.1
    · by_cases hp : p e.1 <;> simp [hk, hp, lookup_cons_if]
      simpa [hk, hp] using ih
    · by_cases hp : p e.1 <;> simp [hk, hp, lookup_cons_if, ih]

/-- Permuting a list with unique keys does not change its lookups. -/
theorem lookup_perm {m n : List (α × β)} (hp : m.Perm n) (hm : (m.map Prod.fst).Nodup) (k : α) :
    m.lookup k = n.lookup k := by
  have hn : (n.map Prod.fst).Nodup := (hp.map Prod.fst).nodup_iff.mp hm
  cases h : m.lookup k with
  | some v => exact (lookup_of_mem hn (hp.subset (mem_of_lookup h))).symm
  | none =>
    cases h' : n.lookup k with
    | none => rfl
    | some v =>
      have := lookup_of_mem hm (hp.symm.subset (mem_of_lookup h'))
      simp [h] at this

/-- Insertion adds a key only when it is new. -/
theorem keys_insert (m : List (α × β)) (k : α) (v : β) :
    (insert m k v).map Prod.fst =
      if k ∈ m.map Prod.fst then m.map Prod.fst else m.map Prod.fst ++ [k] := by
  induction m with
  | nil => simp [insert]
  | cons e m ih =>
    by_cases he : e.1 = k
    · simp [insert, he]
    · rw [insert, if_neg he, List.map_cons, ih]
      by_cases hk : k ∈ m.map Prod.fst <;> simp_all [eq_comm]

/-- Every entry after an insertion is the new one or an old one. -/
theorem mem_insert {m : List (α × β)} {k : α} {v : β} {e : α × β} (h : e ∈ insert m k v) :
    e = (k, v) ∨ e ∈ m := by
  induction m with
  | nil => simpa [insert] using h
  | cons f m ih =>
    rw [insert] at h
    split at h
    · rcases List.mem_cons.mp h with h | h
      · exact Or.inl h
      · exact Or.inr (List.mem_cons_of_mem f h)
    · rcases List.mem_cons.mp h with h | h
      · exact Or.inr (h ▸ List.mem_cons_self)
      · exact (ih h).imp_right (List.mem_cons_of_mem f)

/-- Insert entries one after the other. -/
def insertAll (m : List (α × β)) (entries : List (α × β)) : List (α × β) :=
  entries.foldl (fun m e => insert m e.1 e.2) m

theorem mem_insertAll {m entries : List (α × β)} {e : α × β} (h : e ∈ insertAll m entries) :
    e ∈ entries ∨ e ∈ m := by
  induction entries generalizing m with
  | nil => exact Or.inr h
  | cons f entries ih =>
    rcases ih h with h | h
    · exact Or.inl (List.mem_cons_of_mem f h)
    · rcases mem_insert h with rfl | h
      · exact Or.inl List.mem_cons_self
      · exact Or.inr h

/-- Entries inserted with unique keys are found. -/
theorem lookup_insertAll (entries m : List (α × β)) (h : (entries.map Prod.fst).Nodup) (k : α) :
    (insertAll m entries).lookup k = (entries.lookup k).or (m.lookup k) := by
  induction entries generalizing m with
  | nil => rfl
  | cons e entries ih =>
    rw [List.map_cons, List.nodup_cons] at h
    have hstep : (insertAll m (e :: entries)).lookup k =
        (entries.lookup k).or ((insert m e.1 e.2).lookup k) := ih _ h.2
    rw [hstep, lookup_insert, lookup_cons_if]
    by_cases hk : k = e.1
    · have hnone : entries.lookup k = none := by
        by_contra hsome
        exact h.1 (hk ▸ lookup_ne_none_iff.mp hsome)
      simp [hk, hk ▸ hnone]
    · simp [hk]

section Sorted

variable {κ : Type*} [LinearOrder κ]

/-- Strictly increasing keys are unique. -/
theorem nodup_of_sorted {m : List (κ × β)} (h : (m.map Prod.fst).Pairwise (· < ·)) :
    (m.map Prod.fst).Nodup := h.imp fun hab => ne_of_lt hab

/-- Inserting entries in increasing order keeps the keys strictly increasing. -/
theorem sorted_insertAll (entries m : List (κ × β)) (hm : (m.map Prod.fst).Pairwise (· < ·))
    (hsorted : entries.Pairwise fun a b => a.1 ≤ b.1)
    (hle : ∀ k ∈ m.map Prod.fst, ∀ e ∈ entries, k ≤ e.1) :
    ((insertAll m entries).map Prod.fst).Pairwise (· < ·) := by
  induction entries generalizing m with
  | nil => simpa [insertAll] using hm
  | cons e entries ih =>
    rw [List.pairwise_cons] at hsorted
    refine ih _ ?_ hsorted.2 ?_
    · rw [keys_insert]
      split
      · exact hm
      · rename_i hnot
        rw [List.pairwise_append]
        refine ⟨hm, by simp, fun k hk l hl => ?_⟩
        obtain rfl : l = e.1 := by simpa using hl
        exact lt_of_le_of_ne (hle k hk e (by simp)) fun heq => hnot (heq ▸ hk)
    · intro k hk f hf
      rw [keys_insert] at hk
      split at hk
      · exact hle k hk f (by simp [hf])
      · rcases List.mem_append.mp hk with hk | hk
        · exact hle k hk f (by simp [hf])
        · obtain rfl : k = e.1 := by simpa using hk
          exact hsorted.1 f hf

/-- A key not above a strict lower bound of all keys is not found. -/
theorem lookup_eq_none_of_lt {m : List (κ × β)} {k d : κ}
    (hm : ∀ x ∈ m.map Prod.fst, k < x) (hd : d ≤ k) : m.lookup d = none := by
  by_contra hsome
  exact absurd (hm d (lookup_ne_none_iff.mp hsome)) (not_lt_of_ge hd)

/-- Lists with strictly increasing keys and equal lookups are equal. -/
theorem eq_of_lookup_eq {m n : List (κ × β)}
    (hm : (m.map Prod.fst).Pairwise (· < ·)) (hn : (n.map Prod.fst).Pairwise (· < ·))
    (h : ∀ k, m.lookup k = n.lookup k) : m = n := by
  induction m generalizing n with
  | nil =>
    cases n with
    | nil => rfl
    | cons f n => have := h f.1; simp [lookup_cons_if] at this
  | cons e m ih =>
    cases n with
    | nil => have := h e.1; simp [lookup_cons_if] at this
    | cons f n =>
      rw [List.map_cons, List.pairwise_cons] at hm hn
      -- A smaller head key would be found on one side only.
      have hkey : e.1 = f.1 := by
        rcases lt_trichotomy e.1 f.1 with hlt | heq | hgt
        · have := h e.1
          rw [lookup_cons_if, lookup_cons_if, if_pos rfl, if_neg (ne_of_lt hlt),
            lookup_eq_none_of_lt hn.1 (le_of_lt hlt)] at this
          cases this
        · exact heq
        · have := h f.1
          rw [lookup_cons_if, lookup_cons_if, if_pos rfl, if_neg (ne_of_lt hgt),
            lookup_eq_none_of_lt hm.1 (le_of_lt hgt)] at this
          cases this
      have hval : e.2 = f.2 := by
        have := h e.1
        rw [lookup_cons_if, lookup_cons_if, if_pos rfl, if_pos hkey] at this
        exact Option.some.inj this
      have htail : m = n := by
        refine ih hm.2 hn.2 fun k => ?_
        by_cases hk : k = e.1
        · rw [hk, lookup_eq_none_of_lt hm.1 le_rfl, lookup_eq_none_of_lt hn.1 (le_of_eq hkey)]
        · have := h k
          rwa [lookup_cons_if, lookup_cons_if, if_neg hk, if_neg (hkey ▸ hk)] at this
      rw [htail, Prod.ext hkey hval]

end Sorted

end Assoc
