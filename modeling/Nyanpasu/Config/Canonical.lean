import Nyanpasu.Config.Value
import Mathlib.Data.List.Sort

/-!
# Canonicalization

`canonicalize` sorts the entries of every mapping by key and inserts them into a fresh
mapping. Whatever it is given, the result is in canonical form, and a canonical value is
left as it is.
-/

namespace Nyanpasu.Config

/-- Sort entries by key and insert them one by one. -/
def ofEntries (entries : List (String × Value)) : Mapping :=
  Assoc.insertAll [] (entries.insertionSort fun a b => a.1 ≤ b.1)

mutual

/-- `canonicalize` on string-keyed, untagged values. -/
def Value.canonicalize : Value → Value
  | .sequence items => .sequence (canonicalizeItems items)
  | .mapping entries => .mapping (ofEntries (canonicalizeEntries entries))
  | .null => .null
  | .bool value => .bool value
  | .number value => .number value
  | .string value => .string value

/-- `canonicalize` on every item of a sequence. -/
def canonicalizeItems : List Value → List Value
  | [] => []
  | v :: vs => v.canonicalize :: canonicalizeItems vs

/-- `canonicalize` on every value of a mapping. -/
def canonicalizeEntries : List (String × Value) → List (String × Value)
  | [] => []
  | (key, v) :: es => (key, v.canonicalize) :: canonicalizeEntries es

end

/-- Entries with unique keys keep their lookups. -/
theorem ofEntries_get {entries : List (String × Value)} (h : (entries.map Prod.fst).Nodup)
    (key : String) : (ofEntries entries).get key = entries.lookup key := by
  have hperm := List.perm_insertionSort (fun a b : String × Value => a.1 ≤ b.1) entries
  have hnodup := (hperm.map Prod.fst).nodup_iff.mpr h
  rw [Mapping.get, ofEntries, Assoc.lookup_insertAll _ _ hnodup, Assoc.lookup_perm hperm hnodup]
  simp

theorem canonicalEntries_iff {entries : List (String × Value)} :
    CanonicalEntries entries ↔ ∀ e ∈ entries, e.2.Canonical := by
  induction entries with
  | nil => simp [CanonicalEntries]
  | cons e entries ih => simp [CanonicalEntries, ih]

/-- Inserting canonical values in key order makes a canonical mapping. -/
theorem ofEntries_canonical {entries : List (String × Value)} (h : CanonicalEntries entries) :
    (Value.mapping (ofEntries entries)).Canonical := by
  simp only [Value.Canonical]
  constructor
  · refine Assoc.sorted_insertAll _ _ (by simp) ?_ (by simp)
    exact List.pairwise_insertionSort (fun a b : String × Value => a.1 ≤ b.1) entries
  · rw [canonicalEntries_iff] at h ⊢
    intro e he
    rcases Assoc.mem_insertAll he with he | he
    · exact h e ((List.perm_insertionSort _ entries).subset he)
    · simp at he

mutual

/-- **Canonical results.** The result is in canonical form. -/
theorem Value.canonicalize_canonical : ∀ v : Value, v.canonicalize.Canonical
  | .sequence items => by
      simpa [Value.canonicalize, Value.Canonical] using canonicalizeItems_canonical items
  | .mapping entries => by
      rw [Value.canonicalize]
      exact ofEntries_canonical (canonicalizeEntries_canonical entries)
  | .null | .bool _ | .number _ | .string _ => by simp [Value.canonicalize, Value.Canonical]

theorem canonicalizeItems_canonical : ∀ items : List Value,
    CanonicalItems (canonicalizeItems items)
  | [] => by simp [canonicalizeItems, CanonicalItems]
  | v :: vs => by
      rw [canonicalizeItems, CanonicalItems]
      exact ⟨v.canonicalize_canonical, canonicalizeItems_canonical vs⟩

theorem canonicalizeEntries_canonical : ∀ entries : List (String × Value),
    CanonicalEntries (canonicalizeEntries entries)
  | [] => by simp [canonicalizeEntries, CanonicalEntries]
  | (key, v) :: es => by
      rw [canonicalizeEntries, CanonicalEntries]
      exact ⟨v.canonicalize_canonical, canonicalizeEntries_canonical es⟩

end

mutual

/-- **Canonical values stay.** -/
theorem Value.canonicalize_eq_self : ∀ v : Value, v.Canonical → v.canonicalize = v
  | .sequence items, h => by
      simp only [Value.Canonical] at h
      rw [Value.canonicalize, canonicalizeItems_eq_self items h]
  | .mapping entries, h => by
      have hentries : canonicalizeEntries entries = entries := by
        simp only [Value.Canonical] at h
        exact canonicalizeEntries_eq_self entries h.2
      have hcanonical := (Value.mapping entries).canonicalize_canonical
      rw [Value.canonicalize, hentries] at hcanonical ⊢
      have hnodup : (entries.map Prod.fst).Nodup := by
        simp only [Value.Canonical] at h
        exact Assoc.nodup_of_sorted h.1
      rw [Mapping.ext_of_canonical hcanonical h fun key => ofEntries_get hnodup key]
  | .null, _ | .bool _, _ | .number _, _ | .string _, _ => by simp [Value.canonicalize]

theorem canonicalizeItems_eq_self : ∀ items : List Value, CanonicalItems items →
    canonicalizeItems items = items
  | [], _ => rfl
  | v :: vs, h => by
      rw [CanonicalItems] at h
      rw [canonicalizeItems, v.canonicalize_eq_self h.1, canonicalizeItems_eq_self vs h.2]

theorem canonicalizeEntries_eq_self : ∀ entries : List (String × Value),
    CanonicalEntries entries → canonicalizeEntries entries = entries
  | [], _ => rfl
  | (key, v) :: es, h => by
      rw [CanonicalEntries] at h
      rw [canonicalizeEntries, v.canonicalize_eq_self h.1, canonicalizeEntries_eq_self es h.2]

end

/-- The canonical document of a mapping. -/
def Document.canonicalize (m : Mapping) : Document where
  entries := ofEntries (canonicalizeEntries m)
  canonical := ofEntries_canonical (canonicalizeEntries_canonical m)

theorem keys_canonicalizeEntries (entries : List (String × Value)) :
    (canonicalizeEntries entries).map Prod.fst = entries.map Prod.fst := by
  induction entries with
  | nil => rfl
  | cons e entries ih => simp [canonicalizeEntries, ih]

/-- Canonicalization adds no key. -/
theorem Document.canonicalize_get_eq_none {m : Mapping} {key : String} (h : m.get key = none) :
    (Document.canonicalize m).entries.get key = none := by
  by_contra hsome
  obtain ⟨e, he, rfl⟩ := List.mem_map.mp (Assoc.lookup_ne_none_iff.mp hsome)
  rcases Assoc.mem_insertAll he with he | he
  · have hmem := (List.perm_insertionSort _ _).subset he
    have hkey : e.1 ∈ m.map Prod.fst := by
      rw [← keys_canonicalizeEntries]
      exact List.mem_map_of_mem hmem
    exact Assoc.lookup_ne_none_iff.mpr hkey h
  · simp at he

end Nyanpasu.Config
