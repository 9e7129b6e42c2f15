import Nyanpasu.Config.Prepare
import Mathlib.Data.List.Perm.Basic

/-!
# YAML values and their canonical form

What the YAML parser returns has keys of any kind and tagged values. `canonicalize` accepts the
values without either, and sorts the entries of every mapping by key: two accepted values have
the same canonical form exactly when one can be turned into the other by reordering entries, at
whatever depth. The hash of a source document is taken of that form.
-/

namespace Nyanpasu.Config

/-- A number with all that its text shows: the equality of `serde_yaml_ng::Number` ignores the
sign of a float that is zero or not a number. -/
inductive RawNumber where
  | int (value : ℤ)
  | float (value : YamlFloat) (negative : Bool)
  deriving DecidableEq, Repr

/-- `serde_yaml_ng::Value`. -/
inductive RawValue where
  | null
  | bool (value : Bool)
  | number (value : RawNumber)
  | string (value : String)
  | sequence (items : List RawValue)
  | mapping (entries : List (RawValue × RawValue))
  | tagged (tag : String) (value : RawValue)

/-- The entry of a string key. -/
def stringEntry (entry : String × RawValue) : RawValue × RawValue := (.string entry.1, entry.2)

/-- Sort entries by key and insert them one by one. -/
def sortedEntries (entries : List (String × RawValue)) : List (RawValue × RawValue) :=
  (Assoc.insertAll [] (entries.insertionSort fun a b => a.1 ≤ b.1)).map stringEntry

mutual

/-- `canonicalize`. -/
def RawValue.canonicalize : RawValue → Except Error RawValue
  | .mapping entries => do
      let entries ← canonicalizePairs entries
      return .mapping (sortedEntries entries)
  | .sequence items => do
      let items ← canonicalizeList items
      return .sequence items
  | .tagged _ _ =>
      .error (.invalidConfig "tagged YAML values are not supported in runtime configs")
  | .null => .ok .null
  | .bool value => .ok (.bool value)
  | .number value => .ok (.number value)
  | .string value => .ok (.string value)

/-- The loop of `canonicalize` over the entries of a mapping. -/
def canonicalizePairs : List (RawValue × RawValue) → Except Error (List (String × RawValue))
  | [] => .ok []
  | (.string key, value) :: entries => do
      let value ← value.canonicalize
      let entries ← canonicalizePairs entries
      return (key, value) :: entries
  | (_, _) :: _ => .error (.invalidConfig "all YAML mapping keys must be strings")

/-- `canonicalize` on every item of a sequence. -/
def canonicalizeList : List RawValue → Except Error (List RawValue)
  | [] => .ok []
  | value :: values => do
      let value ← value.canonicalize
      let values ← canonicalizeList values
      return value :: values

end

mutual

/-- The keys of every mapping are distinct, as `serde_yaml_ng::Mapping` keeps them. -/
def RawValue.Distinct : RawValue → Prop
  | .mapping entries => (entries.map Prod.fst).Nodup ∧ DistinctPairs entries
  | .sequence items => DistinctList items
  | .tagged _ value => value.Distinct
  | .null | .bool _ | .number _ | .string _ => True

/-- The values of a mapping have distinct keys. -/
def DistinctPairs : List (RawValue × RawValue) → Prop
  | [] => True
  | (_, value) :: entries => value.Distinct ∧ DistinctPairs entries

/-- The items of a sequence have distinct keys. -/
def DistinctList : List RawValue → Prop
  | [] => True
  | value :: values => value.Distinct ∧ DistinctList values

end

/-- A value that the parser can return. -/
structure Yaml where
  value : RawValue
  distinct : value.Distinct

/-- A part of a value, at any depth. -/
inductive RawValue.Within (part : RawValue) : RawValue → Prop
  | self : Within part part
  | item {items : List RawValue} {value : RawValue} (hmem : value ∈ items) :
      Within part value → Within part (.sequence items)
  | entry {entries : List (RawValue × RawValue)} {key value : RawValue}
      (hmem : (key, value) ∈ entries) : Within part value → Within part (.mapping entries)

/-- Every key of every mapping is a string, and nothing is tagged. -/
structure RawValue.Accepted (value : RawValue) : Prop where
  keys : ∀ entries, RawValue.Within (.mapping entries) value → ∀ key ∈ entries.map Prod.fst,
    ∃ name, key = .string name
  untagged : ∀ tag content, ¬RawValue.Within (.tagged tag content) value

/-- The keys of every mapping increase strictly. -/
def RawValue.Increasing (value : RawValue) : Prop :=
  ∀ entries, RawValue.Within (.mapping entries) value →
    ∃ names : List String, entries.map Prod.fst = names.map .string ∧ names.Pairwise (· < ·)

/-- The entries of mappings may be in another order, at any depth. -/
inductive RawValue.Shuffled : RawValue → RawValue → Prop
  | refl (value : RawValue) : Shuffled value value
  | trans {u v w : RawValue} : Shuffled u v → Shuffled v w → Shuffled u w
  | perm {entries entries' : List (RawValue × RawValue)} :
      entries.Perm entries' → Shuffled (.mapping entries) (.mapping entries')
  | entry {before after : List (RawValue × RawValue)} {key v w : RawValue} : Shuffled v w →
      Shuffled (.mapping (before ++ (key, v) :: after)) (.mapping (before ++ (key, w) :: after))
  | item {before after : List RawValue} {v w : RawValue} : Shuffled v w →
      Shuffled (.sequence (before ++ v :: after)) (.sequence (before ++ w :: after))

section Loops

variable {entries entries' : List (RawValue × RawValue)} {pairs pairs' : List (String × RawValue)}
  {items values : List RawValue}

/-- An entry and its canonical form. -/
def PairCanonical (entry : RawValue × RawValue) (pair : String × RawValue) : Prop :=
  entry.1 = .string pair.1 ∧ entry.2.canonicalize = .ok pair.2

theorem canonicalizePairs_ok_iff :
    canonicalizePairs entries = .ok pairs ↔ List.Forall₂ PairCanonical entries pairs := by
  induction entries generalizing pairs with
  | nil =>
    rw [canonicalizePairs, List.forall₂_nil_left_iff]
    exact ⟨fun h => (Except.ok.inj h).symm, fun h => h ▸ rfl⟩
  | cons entry entries ih =>
    obtain ⟨key, value⟩ := entry
    rw [List.forall₂_cons_left_iff]
    cases key with
    | string key =>
      rw [canonicalizePairs]
      constructor
      · intro h
        cases hvalue : value.canonicalize with
        | error error => simp [hvalue, bind, Except.bind] at h
        | ok canonical =>
          cases hrest : canonicalizePairs entries with
          | error error => simp [hvalue, hrest, bind, Except.bind] at h
          | ok rest =>
            simp only [hvalue, hrest, bind, Except.bind, pure, Except.pure] at h
            exact ⟨(key, canonical), rest, ⟨rfl, hvalue⟩, ih.mp hrest, (Except.ok.inj h).symm⟩
      · rintro ⟨⟨name, canonical⟩, rest, ⟨hname, hvalue⟩, hrest, rfl⟩
        obtain rfl := RawValue.string.inj hname
        simp only [hvalue, ih.mpr hrest, bind, Except.bind, pure, Except.pure]
    | _ =>
      constructor
      · rintro ⟨⟩
      · rintro ⟨pair, rest, ⟨⟨⟩, -⟩, -⟩

theorem canonicalizeList_ok_iff : canonicalizeList items = .ok values ↔
    List.Forall₂ (fun item value => item.canonicalize = .ok value) items values := by
  induction items generalizing values with
  | nil =>
    rw [canonicalizeList, List.forall₂_nil_left_iff]
    exact ⟨fun h => (Except.ok.inj h).symm, fun h => h ▸ rfl⟩
  | cons item items ih =>
    rw [List.forall₂_cons_left_iff, canonicalizeList]
    constructor
    · intro h
      cases hvalue : item.canonicalize with
      | error error => simp [hvalue, bind, Except.bind] at h
      | ok canonical =>
        cases hrest : canonicalizeList items with
        | error error => simp [hvalue, hrest, bind, Except.bind] at h
        | ok rest =>
          simp only [hvalue, hrest, bind, Except.bind, pure, Except.pure] at h
          exact ⟨canonical, rest, rfl, ih.mp hrest, (Except.ok.inj h).symm⟩
    · rintro ⟨canonical, rest, hvalue, hrest, rfl⟩
      simp only [hvalue, ih.mpr hrest, bind, Except.bind, pure, Except.pure]

theorem canonicalize_mapping_iff {u : RawValue} : (RawValue.mapping entries).canonicalize = .ok u ↔
    ∃ pairs, List.Forall₂ PairCanonical entries pairs ∧ u = .mapping (sortedEntries pairs) := by
  rw [RawValue.canonicalize]
  cases h : canonicalizePairs entries with
  | error error =>
    simp only [bind, Except.bind]
    refine ⟨by rintro ⟨⟩, ?_⟩
    rintro ⟨pairs, hpairs, -⟩
    rw [canonicalizePairs_ok_iff.mpr hpairs] at h
    cases h
  | ok pairs =>
    simp only [bind, Except.bind, pure, Except.pure, ← canonicalizePairs_ok_iff, h]
    refine ⟨fun heq => ⟨pairs, rfl, (Except.ok.inj heq).symm⟩, ?_⟩
    rintro ⟨pairs', heq, rfl⟩
    rw [Except.ok.inj heq]

theorem canonicalize_sequence_iff {u : RawValue} : (RawValue.sequence items).canonicalize = .ok u ↔
    ∃ values, List.Forall₂ (fun item value => item.canonicalize = .ok value) items values ∧
      u = .sequence values := by
  rw [RawValue.canonicalize]
  cases h : canonicalizeList items with
  | error error =>
    simp only [bind, Except.bind]
    refine ⟨by rintro ⟨⟩, ?_⟩
    rintro ⟨values, hvalues, -⟩
    rw [canonicalizeList_ok_iff.mpr hvalues] at h
    cases h
  | ok values =>
    simp only [bind, Except.bind, pure, Except.pure, ← canonicalizeList_ok_iff, h]
    refine ⟨fun heq => ⟨values, rfl, (Except.ok.inj heq).symm⟩, ?_⟩
    rintro ⟨values', heq, rfl⟩
    rw [Except.ok.inj heq]

end Loops

section Sorting

variable {entries entries' : List (RawValue × RawValue)} {pairs pairs' : List (String × RawValue)}

theorem keys_of_pairs (h : List.Forall₂ PairCanonical entries pairs) :
    entries.map Prod.fst = (pairs.map Prod.fst).map .string := by
  induction h with
  | nil => rfl
  | cons hpair _ ih => simp [hpair.1, ih]

theorem nodup_of_pairs (h : List.Forall₂ PairCanonical entries pairs)
    (hnodup : (entries.map Prod.fst).Nodup) : (pairs.map Prod.fst).Nodup := by
  rw [keys_of_pairs h] at hnodup
  exact hnodup.of_map _

/-- With distinct keys the insertions only append. -/
theorem insertAll_sorted (h : (pairs.map Prod.fst).Nodup) :
    Assoc.insertAll [] (pairs.insertionSort fun a b => a.1 ≤ b.1) =
      pairs.insertionSort fun a b => a.1 ≤ b.1 := by
  have hperm := List.perm_insertionSort (fun a b : String × RawValue => a.1 ≤ b.1) pairs
  have hnodup := (hperm.map Prod.fst).nodup_iff.mpr h
  have hle := List.pairwise_insertionSort (fun a b : String × RawValue => a.1 ≤ b.1) pairs
  refine Assoc.eq_of_lookup_eq ?_ ?_ fun key => ?_
  · exact Assoc.sorted_insertAll _ _ (by simp) hle (by simp)
  · rw [List.pairwise_map]
    rw [List.Nodup, List.pairwise_map] at hnodup
    exact (hle.and hnodup).imp fun hboth => lt_of_le_of_ne hboth.1 hboth.2
  · rw [Assoc.lookup_insertAll _ _ hnodup]
    simp

theorem sortedEntries_perm (h : (pairs.map Prod.fst).Nodup) :
    (pairs.map stringEntry).Perm (sortedEntries pairs) := by
  rw [sortedEntries, insertAll_sorted h]
  exact ((List.perm_insertionSort _ pairs).map stringEntry).symm

/-- The order of the entries does not matter. -/
theorem sortedEntries_eq_of_perm (h : pairs.Perm pairs') (hnodup : (pairs.map Prod.fst).Nodup) :
    sortedEntries pairs = sortedEntries pairs' := by
  have hnodup' := (h.map Prod.fst).nodup_iff.mp hnodup
  have hperm := List.perm_insertionSort (fun a b : String × RawValue => a.1 ≤ b.1) pairs
  have hperm' := List.perm_insertionSort (fun a b : String × RawValue => a.1 ≤ b.1) pairs'
  unfold sortedEntries
  congr 1
  refine Assoc.eq_of_lookup_eq ?_ ?_ fun key => ?_
  · exact Assoc.sorted_insertAll _ _ (by simp) (List.pairwise_insertionSort _ pairs) (by simp)
  · exact Assoc.sorted_insertAll _ _ (by simp) (List.pairwise_insertionSort _ pairs') (by simp)
  · rw [insertAll_sorted hnodup, insertAll_sorted hnodup',
      Assoc.lookup_perm hperm ((hperm.map Prod.fst).nodup_iff.mpr hnodup),
      Assoc.lookup_perm hperm' ((hperm'.map Prod.fst).nodup_iff.mpr hnodup'),
      Assoc.lookup_perm h hnodup]

/-- The keys of a sorted mapping increase strictly. -/
theorem sortedEntries_increasing (pairs : List (String × RawValue)) :
    ∃ names : List String, (sortedEntries pairs).map Prod.fst = names.map .string ∧
      names.Pairwise (· < ·) := by
  refine ⟨(Assoc.insertAll [] (pairs.insertionSort fun a b => a.1 ≤ b.1)).map Prod.fst, ?_, ?_⟩
  · rw [sortedEntries, List.map_map, List.map_map]
    rfl
  · exact Assoc.sorted_insertAll _ _ (by simp) (List.pairwise_insertionSort _ pairs) (by simp)

/-- The values of a sorted mapping are the canonical values. -/
theorem mem_sortedEntries {key value : RawValue} (h : (key, value) ∈ sortedEntries pairs) :
    ∃ name, key = .string name ∧ (name, value) ∈ pairs := by
  obtain ⟨⟨name, value'⟩, hmem, heq⟩ := List.mem_map.mp h
  obtain ⟨rfl, rfl⟩ := Prod.mk.inj heq
  rcases Assoc.mem_insertAll hmem with hmem | hmem
  · exact ⟨name, rfl, (List.perm_insertionSort _ pairs).subset hmem⟩
  · cases hmem

end Sorting

section Shuffling

variable {entries entries' : List (RawValue × RawValue)} {pairs : List (String × RawValue)}
  {items values : List RawValue} {u v w : RawValue}

theorem RawValue.Shuffled.symm (h : v.Shuffled w) : w.Shuffled v := by
  induction h with
  | refl value => exact .refl value
  | trans _ _ ih₁ ih₂ => exact ih₂.trans ih₁
  | perm hperm => exact .perm hperm.symm
  | entry _ ih => exact .entry ih
  | item _ ih => exact .item ih

/-- Reordering inside the values of a mapping, one after the other. -/
theorem RawValue.Shuffled.of_pairs (h : List.Forall₂ (fun (entry : RawValue × RawValue)
      (pair : String × RawValue) => entry.1 = .string pair.1 ∧ entry.2.Shuffled pair.2)
      entries pairs) (before : List (RawValue × RawValue)) :
    (RawValue.mapping (before ++ entries)).Shuffled
      (.mapping (before ++ pairs.map stringEntry)) := by
  induction h generalizing before with
  | nil => exact .refl _
  | @cons entry pair _ _ hpair _ ih =>
    obtain ⟨key, value⟩ := entry
    obtain ⟨rfl, hvalue⟩ := hpair
    have hrest := ih (before ++ [stringEntry pair])
    simp only [List.append_assoc, List.singleton_append] at hrest
    exact (Shuffled.entry hvalue).trans hrest

/-- Reordering inside the items of a sequence, one after the other. -/
theorem RawValue.Shuffled.of_items (h : List.Forall₂ RawValue.Shuffled items values)
    (before : List RawValue) :
    (RawValue.sequence (before ++ items)).Shuffled (.sequence (before ++ values)) := by
  induction h generalizing before with
  | nil => exact .refl _
  | @cons item value _ _ hvalue _ ih =>
    have hrest := ih (before ++ [value])
    simp only [List.append_assoc, List.singleton_append] at hrest
    exact (Shuffled.item hvalue).trans hrest

theorem distinctPairs_iff : DistinctPairs entries ↔ ∀ entry ∈ entries, entry.2.Distinct := by
  induction entries with
  | nil => simp [DistinctPairs]
  | cons entry entries ih => simp [DistinctPairs, ih]

theorem distinctList_iff : DistinctList items ↔ ∀ item ∈ items, item.Distinct := by
  induction items with
  | nil => simp [DistinctList]
  | cons item items ih => simp [DistinctList, ih]

mutual

/-- The canonical form is a reordering. -/
theorem RawValue.shuffled_canonicalize : ∀ (v : RawValue) {u : RawValue}, v.Distinct →
    v.canonicalize = .ok u → v.Shuffled u
  | .mapping entries, u, hdistinct, h => by
      rw [RawValue.Distinct] at hdistinct
      obtain ⟨pairs, hpairs, rfl⟩ := canonicalize_mapping_iff.mp h
      have hvalues := RawValue.Shuffled.of_pairs (pairs_shuffled entries hdistinct.2 hpairs) []
      exact hvalues.trans (.perm (sortedEntries_perm (nodup_of_pairs hpairs hdistinct.1)))
  | .sequence items, u, hdistinct, h => by
      rw [RawValue.Distinct] at hdistinct
      obtain ⟨values, hvalues, rfl⟩ := canonicalize_sequence_iff.mp h
      exact RawValue.Shuffled.of_items (list_shuffled items hdistinct hvalues) []
  | .tagged tag value, u, _, h => by cases h
  | .null, u, _, h | .bool _, u, _, h | .number _, u, _, h | .string _, u, _, h => by
      cases h
      exact .refl _

theorem pairs_shuffled : ∀ (entries : List (RawValue × RawValue))
    {pairs : List (String × RawValue)}, DistinctPairs entries →
    List.Forall₂ PairCanonical entries pairs → List.Forall₂ (fun (entry : RawValue × RawValue)
      (pair : String × RawValue) => entry.1 = .string pair.1 ∧ entry.2.Shuffled pair.2)
      entries pairs
  | [], _, _, h => by cases h; exact .nil
  | (key, value) :: entries, _, hdistinct, h => by
      rw [DistinctPairs] at hdistinct
      cases h with
      | cons hpair hrest =>
        exact .cons ⟨hpair.1, value.shuffled_canonicalize hdistinct.1 hpair.2⟩
          (pairs_shuffled entries hdistinct.2 hrest)

theorem list_shuffled : ∀ (items : List RawValue) {values : List RawValue}, DistinctList items →
    List.Forall₂ (fun item value => item.canonicalize = .ok value) items values →
      List.Forall₂ RawValue.Shuffled items values
  | [], _, _, h => by cases h; exact .nil
  | item :: items, _, hdistinct, h => by
      rw [DistinctList] at hdistinct
      cases h with
      | cons hitem hrest =>
        exact .cons (item.shuffled_canonicalize hdistinct.1 hitem)
          (list_shuffled items hdistinct.2 hrest)

end

/-- Another value with the same canonical form can stand in its place in a mapping. -/
theorem forall₂_replace_entry {before after : List (RawValue × RawValue)} {key : RawValue}
    (hvalue : ∀ u, v.canonicalize = .ok u → w.canonicalize = .ok u)
    (h : List.Forall₂ PairCanonical (before ++ (key, v) :: after) pairs) :
    List.Forall₂ PairCanonical (before ++ (key, w) :: after) pairs := by
  induction before generalizing pairs with
  | nil =>
    cases h with
    | cons hpair hrest => exact .cons ⟨hpair.1, hvalue _ hpair.2⟩ hrest
  | cons entry before ih =>
    cases h with
    | cons hpair hrest => exact .cons hpair (ih hrest)

theorem forall₂_replace_item {before after : List RawValue}
    (hvalue : ∀ u, v.canonicalize = .ok u → w.canonicalize = .ok u)
    (h : List.Forall₂ (fun item value => item.canonicalize = .ok value) (before ++ v :: after)
      values) :
    List.Forall₂ (fun item value => item.canonicalize = .ok value) (before ++ w :: after)
      values := by
  induction before generalizing values with
  | nil =>
    cases h with
    | cons hitem hrest => exact .cons (hvalue _ hitem) hrest
  | cons item before ih =>
    cases h with
    | cons hitem hrest => exact .cons hitem (ih hrest)

/-- A reordering has distinct keys as well, and the same canonical form. -/
theorem RawValue.Shuffled.canonicalize (h : v.Shuffled w) (hdistinct : v.Distinct) :
    w.Distinct ∧ ∀ u, v.canonicalize = .ok u → w.canonicalize = .ok u := by
  induction h with
  | refl value => exact ⟨hdistinct, fun _ => id⟩
  | trans _ _ ih₁ ih₂ =>
    obtain ⟨hmiddle, hfirst⟩ := ih₁ hdistinct
    obtain ⟨hlast, hsecond⟩ := ih₂ hmiddle
    exact ⟨hlast, fun u hu => hsecond u (hfirst u hu)⟩
  | perm hperm =>
    rw [RawValue.Distinct, distinctPairs_iff] at hdistinct
    rw [RawValue.Distinct, distinctPairs_iff]
    refine ⟨⟨(hperm.map Prod.fst).nodup_iff.mp hdistinct.1, fun entry hentry =>
      hdistinct.2 entry (hperm.mem_iff.mpr hentry)⟩, fun u hu => ?_⟩
    obtain ⟨pairs, hpairs, rfl⟩ := canonicalize_mapping_iff.mp hu
    obtain ⟨pairs', hpairs', hsame⟩ := List.perm_comp_forall₂ hperm.symm hpairs
    refine canonicalize_mapping_iff.mpr ⟨pairs', hpairs', ?_⟩
    rw [sortedEntries_eq_of_perm hsame.symm (nodup_of_pairs hpairs hdistinct.1)]
  | entry _ ih =>
    rw [RawValue.Distinct, distinctPairs_iff] at hdistinct
    rw [RawValue.Distinct, distinctPairs_iff]
    obtain ⟨hvalue, hcanonical⟩ := ih (hdistinct.2 _ (List.mem_append_right _ List.mem_cons_self))
    refine ⟨⟨by simpa using hdistinct.1, fun entry hentry => ?_⟩, fun u hu => ?_⟩
    · rcases List.mem_append.mp hentry with hentry | hentry
      · exact hdistinct.2 entry (List.mem_append_left _ hentry)
      · rcases List.mem_cons.mp hentry with rfl | hentry
        · exact hvalue
        · exact hdistinct.2 entry (List.mem_append_right _ (List.mem_cons_of_mem _ hentry))
    · obtain ⟨pairs, hpairs, rfl⟩ := canonicalize_mapping_iff.mp hu
      exact canonicalize_mapping_iff.mpr ⟨pairs, forall₂_replace_entry hcanonical hpairs, rfl⟩
  | item _ ih =>
    rw [RawValue.Distinct, distinctList_iff] at hdistinct
    rw [RawValue.Distinct, distinctList_iff]
    obtain ⟨hvalue, hcanonical⟩ := ih (hdistinct _ (List.mem_append_right _ List.mem_cons_self))
    refine ⟨fun item hitem => ?_, fun u hu => ?_⟩
    · rcases List.mem_append.mp hitem with hitem | hitem
      · exact hdistinct item (List.mem_append_left _ hitem)
      · rcases List.mem_cons.mp hitem with rfl | hitem
        · exact hvalue
        · exact hdistinct item (List.mem_append_right _ (List.mem_cons_of_mem _ hitem))
    · obtain ⟨values, hvalues, rfl⟩ := canonicalize_sequence_iff.mp hu
      exact canonicalize_sequence_iff.mpr ⟨values, forall₂_replace_item hcanonical hvalues, rfl⟩

mutual

/-- The keys of the canonical form increase at every depth. -/
theorem RawValue.increasing_canonicalize : ∀ (v : RawValue) {u : RawValue},
    v.canonicalize = .ok u → u.Increasing
  | .mapping entries, u, h => by
      obtain ⟨pairs, hpairs, rfl⟩ := canonicalize_mapping_iff.mp h
      intro inner hwithin
      cases hwithin with
      | self => exact sortedEntries_increasing pairs
      | entry hmem hrest =>
        obtain ⟨name, -, hpair⟩ := mem_sortedEntries hmem
        exact pairs_increasing entries hpairs _ hpair inner hrest
  | .sequence items, u, h => by
      obtain ⟨values, hvalues, rfl⟩ := canonicalize_sequence_iff.mp h
      intro inner hwithin
      cases hwithin with
      | item hmem hrest => exact list_increasing items hvalues _ hmem inner hrest
  | .tagged tag value, u, h => by cases h
  | .null, u, h | .bool _, u, h | .number _, u, h | .string _, u, h => by
      cases h
      rintro inner ⟨⟩

theorem pairs_increasing : ∀ (entries : List (RawValue × RawValue))
    {pairs : List (String × RawValue)}, List.Forall₂ PairCanonical entries pairs →
      ∀ pair ∈ pairs, pair.2.Increasing
  | [], _, h => by cases h; simp
  | (key, value) :: entries, _, h => by
      cases h with
      | cons hpair hrest =>
        intro pair hmem
        rcases List.mem_cons.mp hmem with rfl | hmem
        · exact value.increasing_canonicalize hpair.2
        · exact pairs_increasing entries hrest pair hmem

theorem list_increasing : ∀ (items : List RawValue) {values : List RawValue},
    List.Forall₂ (fun item value => item.canonicalize = .ok value) items values →
      ∀ value ∈ values, value.Increasing
  | [], _, h => by cases h; simp
  | item :: items, _, h => by
      cases h with
      | cons hitem hrest =>
        intro value hmem
        rcases List.mem_cons.mp hmem with rfl | hmem
        · exact item.increasing_canonicalize hitem
        · exact list_increasing items hrest value hmem

end

end Shuffling

section Acceptance

variable {entries : List (RawValue × RawValue)} {items : List RawValue}

theorem RawValue.accepted_mapping_iff : (RawValue.mapping entries).Accepted ↔
    ∀ entry ∈ entries, (∃ name, entry.1 = .string name) ∧ entry.2.Accepted := by
  constructor
  · intro h entry hentry
    refine ⟨h.keys entries .self _ (List.mem_map_of_mem hentry), fun inner hinner => ?_, ?_⟩
    · exact h.keys inner (.entry hentry hinner)
    · intro tag content hwithin
      exact h.untagged tag content (.entry hentry hwithin)
  · intro h
    refine ⟨fun inner hinner key hkey => ?_, fun tag content hwithin => ?_⟩
    · cases hinner with
      | self =>
        obtain ⟨entry, hentry, rfl⟩ := List.mem_map.mp hkey
        exact (h entry hentry).1
      | entry hmem hrest => exact (h _ hmem).2.keys inner hrest key hkey
    · cases hwithin with
      | entry hmem hrest => exact (h _ hmem).2.untagged tag content hrest

theorem RawValue.accepted_sequence_iff : (RawValue.sequence items).Accepted ↔
    ∀ item ∈ items, item.Accepted := by
  constructor
  · intro h item hitem
    refine ⟨fun inner hinner => h.keys inner (.item hitem hinner), fun tag content hwithin => ?_⟩
    exact h.untagged tag content (.item hitem hwithin)
  · intro h
    refine ⟨fun inner hinner => ?_, fun tag content hwithin => ?_⟩
    · cases hinner with
      | item hmem hrest => exact (h _ hmem).keys inner hrest
    · cases hwithin with
      | item hmem hrest => exact (h _ hmem).untagged tag content hrest

mutual

/-- Exactly the values with string keys and without tags are accepted. -/
theorem RawValue.canonicalize_isOk : ∀ v : RawValue,
    (∃ u, v.canonicalize = .ok u) ↔ v.Accepted
  | .mapping entries => by
      rw [RawValue.accepted_mapping_iff, ← pairs_isOk entries]
      constructor
      · rintro ⟨u, hu⟩
        obtain ⟨pairs, hpairs, -⟩ := canonicalize_mapping_iff.mp hu
        exact ⟨pairs, hpairs⟩
      · rintro ⟨pairs, hpairs⟩
        exact ⟨_, canonicalize_mapping_iff.mpr ⟨pairs, hpairs, rfl⟩⟩
  | .sequence items => by
      rw [RawValue.accepted_sequence_iff, ← list_isOk items]
      constructor
      · rintro ⟨u, hu⟩
        obtain ⟨values, hvalues, -⟩ := canonicalize_sequence_iff.mp hu
        exact ⟨values, hvalues⟩
      · rintro ⟨values, hvalues⟩
        exact ⟨_, canonicalize_sequence_iff.mpr ⟨values, hvalues, rfl⟩⟩
  | .tagged tag value => by
      constructor
      · rintro ⟨u, ⟨⟩⟩
      · intro h
        exact absurd .self (h.untagged tag value)
  | .null | .bool _ | .number _ | .string _ => by
      refine ⟨fun _ => ⟨?_, ?_⟩, fun _ => ⟨_, rfl⟩⟩
      · rintro inner ⟨⟩
      · rintro tag content ⟨⟩

theorem pairs_isOk : ∀ entries : List (RawValue × RawValue),
    (∃ pairs, List.Forall₂ PairCanonical entries pairs) ↔
      ∀ entry ∈ entries, (∃ name, entry.1 = .string name) ∧ entry.2.Accepted
  | [] => by
      refine ⟨fun _ => ?_, fun _ => ⟨[], .nil⟩⟩
      rintro entry ⟨⟩
  | (key, value) :: entries => by
      rw [List.forall_mem_cons, ← pairs_isOk entries, ← value.canonicalize_isOk]
      constructor
      · rintro ⟨pairs, hpairs⟩
        cases hpairs with
        | cons hpair hrest => exact ⟨⟨⟨_, hpair.1⟩, ⟨_, hpair.2⟩⟩, ⟨_, hrest⟩⟩
      · rintro ⟨⟨⟨name, hname⟩, ⟨u, hu⟩⟩, ⟨pairs, hpairs⟩⟩
        exact ⟨(name, u) :: pairs, .cons ⟨hname, hu⟩ hpairs⟩

theorem list_isOk : ∀ items : List RawValue,
    (∃ values, List.Forall₂ (fun item value => item.canonicalize = .ok value) items values) ↔
      ∀ item ∈ items, item.Accepted
  | [] => by
      refine ⟨fun _ => ?_, fun _ => ⟨[], .nil⟩⟩
      rintro item ⟨⟩
  | item :: items => by
      rw [List.forall_mem_cons, ← list_isOk items, ← item.canonicalize_isOk]
      constructor
      · rintro ⟨values, hvalues⟩
        cases hvalues with
        | cons hitem hrest => exact ⟨⟨_, hitem⟩, ⟨_, hrest⟩⟩
      · rintro ⟨⟨u, hu⟩, ⟨values, hvalues⟩⟩
        exact ⟨u :: values, .cons hu hvalues⟩

end

end Acceptance

/-- The number up to the equality of numbers. -/
def RawNumber.toNumber : RawNumber → Number
  | .int value => .int value
  | .float value _ => .float value

mutual

/-- An accepted value as the rest of the manager reads it. -/
def RawValue.toValue : RawValue → Value
  | .mapping entries => .mapping (toEntries entries)
  | .sequence items => .sequence (toItems items)
  | .number value => .number value.toNumber
  | .string value => .string value
  | .bool value => .bool value
  | .null | .tagged _ _ => .null

/-- The entries of a mapping. -/
def toEntries : List (RawValue × RawValue) → Mapping
  | [] => []
  | (.string key, value) :: entries => (key, value.toValue) :: toEntries entries
  | (_, _) :: entries => toEntries entries

/-- The items of a sequence. -/
def toItems : List RawValue → List Value
  | [] => []
  | value :: values => value.toValue :: toItems values

end

section Snapshots

variable {entries : List (RawValue × RawValue)} {v w u : RawValue}

theorem toEntries_keys {names : List String} (h : entries.map Prod.fst = names.map .string) :
    (toEntries entries).map Prod.fst = names := by
  induction entries generalizing names with
  | nil =>
    rw [List.map_nil, eq_comm, List.map_eq_nil_iff] at h
    rw [h, toEntries, List.map_nil]
  | cons entry entries ih =>
    obtain ⟨key, value⟩ := entry
    cases names with
    | nil => cases h
    | cons name names =>
      obtain ⟨rfl, hrest⟩ := List.cons.inj h
      rw [toEntries, List.map_cons, ih hrest]

mutual

/-- A value with increasing keys is read as a canonical one. -/
theorem RawValue.Increasing.toValue_canonical : ∀ v : RawValue, v.Increasing →
    v.toValue.Canonical
  | .mapping entries, h => by
      obtain ⟨names, hnames, hsorted⟩ := h entries .self
      rw [RawValue.toValue, Value.Canonical, toEntries_keys hnames]
      refine ⟨hsorted, toEntries_canonical entries fun entry hentry inner hinner => ?_⟩
      exact h inner (.entry hentry hinner)
  | .sequence items, h => by
      rw [RawValue.toValue, Value.Canonical]
      exact toItems_canonical items fun item hitem inner hinner => h inner (.item hitem hinner)
  | .null, _ | .bool _, _ | .number _, _ | .string _, _ | .tagged _ _, _ => by
      simp [RawValue.toValue, Value.Canonical]

theorem toEntries_canonical : ∀ entries : List (RawValue × RawValue),
    (∀ entry ∈ entries, entry.2.Increasing) → CanonicalEntries (toEntries entries)
  | [], _ => by simp [toEntries, CanonicalEntries]
  | (key, value) :: entries, h => by
      rw [List.forall_mem_cons] at h
      have hrest := toEntries_canonical entries h.2
      cases key with
      | string key =>
        rw [toEntries, CanonicalEntries]
        exact ⟨RawValue.Increasing.toValue_canonical value h.1, hrest⟩
      | _ => simpa only [toEntries] using hrest

theorem toItems_canonical : ∀ items : List RawValue,
    (∀ item ∈ items, item.Increasing) → CanonicalItems (toItems items)
  | [], _ => by simp [toItems, CanonicalItems]
  | item :: items, h => by
      rw [List.forall_mem_cons] at h
      rw [toItems, CanonicalItems]
      exact ⟨RawValue.Increasing.toValue_canonical item h.1, toItems_canonical items h.2⟩

end

/-- Reading and writing YAML, as functions of the ordered value. -/
structure YamlText where
  /-- `serde_yaml_ng::from_slice`. -/
  parse : List UInt8 → Except Error Yaml
  /-- `serde_yaml_ng::to_string` of a mapping, as bytes. -/
  serialize : List (RawValue × RawValue) → Except Error (List UInt8)

/-- `ConfigSnapshot::from_bytes`. -/
def ConfigSnapshot.fromBytes (text : YamlText) (sourcePath : Path) (raw : List UInt8) :
    Except Error ConfigSnapshot := do
  let value ← text.parse raw
  match ← value.value.canonicalize with
  | .mapping document =>
      let canonical ← text.serialize document
      return {
        sourcePath
        document := Document.canonicalize (toEntries document)
        sourceHash := semanticHash canonical }
  | _ => .error (.invalidConfig "top-level YAML document must be a mapping")

/-- What a source that was read consists of. -/
theorem ConfigSnapshot.fromBytes_ok {text : YamlText} {sourcePath : Path} {raw : List UInt8}
    {snapshot : ConfigSnapshot} (h : fromBytes text sourcePath raw = .ok snapshot) :
    ∃ value document canonical, text.parse raw = .ok value ∧
      value.value.canonicalize = .ok (.mapping document) ∧
      text.serialize document = .ok canonical ∧ snapshot.sourcePath = sourcePath ∧
      snapshot.document.entries = toEntries document ∧
      snapshot.sourceHash = semanticHash canonical := by
  simp only [fromBytes, bind, Except.bind, pure, Except.pure] at h
  split at h
  · cases h
  rename_i value hvalue
  split at h
  · cases h
  rename_i form hform
  split at h
  · rename_i document
    split at h
    · cases h
    rename_i canonical hcanonical
    cases h
    refine ⟨value, document, canonical, hvalue, hform, hcanonical, rfl, ?_, rfl⟩
    -- the document is in canonical form already
    have hsorted := RawValue.Increasing.toValue_canonical _
      (value.value.increasing_canonicalize hform)
    have hsame := Value.canonicalize_eq_self _ hsorted
    rw [RawValue.toValue, Value.canonicalize] at hsame
    exact Value.mapping.inj hsame
  · cases h

/-- The source path does not take part in the preparation. -/
theorem ConfigSnapshot.prepare_congr {snapshot snapshot' : ConfigSnapshot}
    (hdocument : snapshot.document = snapshot'.document)
    (hhash : snapshot.sourceHash = snapshot'.sourceHash) (site : Site)
    (endpoint : ℕ → Except Error String) (epoch : ℕ) (runtime : List RuntimeFeature)
    (zero : Bool) : snapshot.prepare site endpoint epoch runtime zero =
      snapshot'.prepare site endpoint epoch runtime zero := by
  rw [prepare, prepare, hdocument, hhash]

theorem Yaml.eq_iff_shuffled {v w : Yaml} {u u' : RawValue} (hv : v.value.canonicalize = .ok u)
    (hw : w.value.canonicalize = .ok u') : u = u' ↔ v.value.Shuffled w.value := by
  have hvu := v.value.shuffled_canonicalize v.distinct hv
  have hwu := w.value.shuffled_canonicalize w.distinct hw
  constructor
  · rintro rfl
    exact hvu.trans hwu.symm
  · intro h
    have hsame := (h.canonicalize v.distinct).2 u hv
    rw [hw] at hsame
    exact (Except.ok.inj hsame).symm

theorem Yaml.canonicalize_idempotent {v : Yaml} (h : v.value.canonicalize = .ok u) :
    u.canonicalize = .ok u :=
  ((v.value.shuffled_canonicalize v.distinct h).canonicalize v.distinct).2 u h

/-- Sources that differ in the order of entries only are read as the same document. -/
theorem ConfigSnapshot.fromBytes_shuffled {text : YamlText} {path path' : Path}
    {raw raw' : List UInt8} {v w : Yaml} {snapshot : ConfigSnapshot}
    (hv : text.parse raw = .ok v) (hw : text.parse raw' = .ok w)
    (hshuffled : v.value.Shuffled w.value) (h : fromBytes text path raw = .ok snapshot) :
    fromBytes text path' raw' = .ok { snapshot with sourcePath := path' } := by
  obtain ⟨value, document, canonical, hvalue, hform, hcanonical, -, -, -⟩ := fromBytes_ok h
  obtain rfl := Except.ok.inj (hv.symm.trans hvalue)
  have hsame := (hshuffled.canonicalize v.distinct).2 _ hform
  simp only [fromBytes, hv, hform, hcanonical, bind, Except.bind, pure, Except.pure] at h
  cases h
  simp only [fromBytes, hw, hsame, hcanonical, bind, Except.bind, pure, Except.pure]

/-- **Canonical documents.** The accepted values are those without other keys than strings and
without tags; the canonical form is the reordering with increasing keys at every depth, it is kept
by another pass, and it is shared exactly by the values that differ in the order of entries. Two
source texts of such values have the same hash and are prepared alike. -/
theorem Yaml.canonical_documents (v : Yaml) :
    ((∃ u, v.value.canonicalize = .ok u) ↔ v.value.Accepted) ∧
      (∀ u, v.value.canonicalize = .ok u →
        v.value.Shuffled u ∧ u.Increasing ∧ u.canonicalize = .ok u) ∧
      (∀ (w : Yaml) (u u' : RawValue), v.value.canonicalize = .ok u →
        w.value.canonicalize = .ok u' → (u = u' ↔ v.value.Shuffled w.value)) ∧
      ∀ (text : YamlText) (path path' : Path) (raw raw' : List UInt8) (w : Yaml)
        (snapshot : ConfigSnapshot), text.parse raw = .ok v → text.parse raw' = .ok w →
        v.value.Shuffled w.value → ConfigSnapshot.fromBytes text path raw = .ok snapshot →
        ∃ snapshot', ConfigSnapshot.fromBytes text path' raw' = .ok snapshot' ∧
          snapshot'.sourceHash = snapshot.sourceHash ∧
          ∀ (site : Site) (endpoint : ℕ → Except Error String) (epoch : ℕ)
            (runtime : List RuntimeFeature) (zero : Bool),
            snapshot'.prepare site endpoint epoch runtime zero =
              snapshot.prepare site endpoint epoch runtime zero := by
  refine ⟨v.value.canonicalize_isOk, fun u hu => ?_, fun w u u' => Yaml.eq_iff_shuffled, ?_⟩
  · exact ⟨v.value.shuffled_canonicalize v.distinct hu, v.value.increasing_canonicalize hu,
      Yaml.canonicalize_idempotent hu⟩
  · intro text path path' raw raw' w snapshot hv hw hshuffled h
    refine ⟨_, ConfigSnapshot.fromBytes_shuffled hv hw hshuffled h, rfl, ?_⟩
    exact ConfigSnapshot.prepare_congr rfl rfl

end Snapshots

end Nyanpasu.Config
