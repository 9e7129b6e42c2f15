import Nyanpasu.Config.Value
import Mathlib.Data.List.Sort
import Mathlib.Data.List.Dedup

/-!
# Document diffing

`diff` walks two documents together and reports the paths at which they differ.
It descends only where both sides are mappings, or where a mapping is added or
removed as a whole, and it reports a path itself when the two values there cannot
be walked further. The results below say that the report is complete, that no
reported path lies below another, and what each entry carries.
-/

namespace Nyanpasu.Config

/-- One reported change: where, and the desired value there (`none` is a deletion). -/
structure DiffEntry where
  path : List String
  new : Option Value
  deriving DecidableEq, Repr

/-- The `BTreeSet` of the keys of two mappings, in increasing order. -/
def keySet (a b : List String) : List String := (a ++ b).dedup.insertionSort (· ≤ ·)

/-- The value under a key of an optional value, when that is a mapping. -/
def child (value : Option Value) (key : String) : Option Value :=
  (value.bind Value.asMapping).bind (·.get key)

/-- The keys of an optional value, when that is a mapping. -/
def childKeys (value : Option Value) : List String :=
  ((value.bind Value.asMapping).map Mapping.keys).getD []

/-- The guard of `diff_value`: one side is a mapping, and no side is a value that is
neither absent nor a mapping, except that a scalar never gives way to a mapping. -/
def descends (current desired : Option Value) : Bool :=
  let currentMapping := current.bind Value.asMapping
  let desiredMapping := desired.bind Value.asMapping
  (currentMapping.isSome || desiredMapping.isSome) &&
    (current.isNone ||
      currentMapping.isSome && (desired.isNone || desiredMapping.isSome))

/-- The measure of an optional value. -/
def optionSize (value : Option Value) : ℕ := (value.map Value.size).getD 0

theorem optionSize_child_le (value : Option Value) (key : String) :
    optionSize (child value key) ≤ optionSize value := by
  cases value with
  | none => simp [child, optionSize]
  | some v =>
    cases v with
    | mapping m =>
      cases h : Mapping.get m key with
      | none => simp [child, optionSize, Value.asMapping, h]
      | some w =>
        have := Mapping.size_get_lt h
        simp only [child, optionSize, Value.asMapping, Option.bind_some, h, Option.map_some,
          Option.getD_some]
        omega
    | _ => simp [child, optionSize, Value.asMapping]

theorem optionSize_child_lt {value : Option Value} (hvalue : value ≠ none) (key : String) :
    optionSize (child value key) < optionSize value := by
  cases value with
  | none => exact absurd rfl hvalue
  | some v =>
    have hpos := v.size_pos
    cases v with
    | mapping m =>
      cases h : Mapping.get m key with
      | none => simpa [child, optionSize, Value.asMapping, h] using hpos
      | some w => simpa [child, optionSize, Value.asMapping, h] using Mapping.size_get_lt h
    | _ => simpa [child, optionSize, Value.asMapping] using hpos

/-- Two unequal optional values cannot both be absent, so a step to a key shrinks them. -/
theorem optionSize_child_add_lt {current desired : Option Value} (hne : current ≠ desired)
    (key : String) :
    optionSize (child current key) + optionSize (child desired key) <
      optionSize current + optionSize desired := by
  have hc := optionSize_child_le current key
  have hd := optionSize_child_le desired key
  by_cases hnone : current = none
  · have := optionSize_child_lt (fun h => hne (hnone.trans h.symm) : desired ≠ none) key
    omega
  · have := optionSize_child_lt hnone key
    omega

/-- `diff_value`: the changes between two optional values at a path, in key order. -/
def diffValue (current desired : Option Value) (path : List String) : List DiffEntry :=
  if current = desired then []
  else if descends current desired ∧ keySet (childKeys current) (childKeys desired) ≠ [] then
    (keySet (childKeys current) (childKeys desired)).flatMap fun key =>
      diffValue (child current key) (child desired key) (path ++ [key])
  else [⟨path, desired⟩]
termination_by optionSize current + optionSize desired
decreasing_by
  rename_i hne _
  exact optionSize_child_add_lt hne key

/-- `diff`: the changes between two documents. -/
def diff (current desired : Mapping) : List DiffEntry :=
  diffValue (some (.mapping current)) (some (.mapping desired)) []

theorem mem_keySet {a b : List String} {key : String} : key ∈ keySet a b ↔ key ∈ a ∨ key ∈ b := by
  simp [keySet, List.mem_insertionSort]

theorem nodup_keySet (a b : List String) : (keySet a b).Nodup :=
  ((List.perm_insertionSort (· ≤ ·) (a ++ b).dedup).nodup_iff).mpr (List.nodup_dedup _)

theorem mem_childKeys {value : Option Value} {key : String} :
    key ∈ childKeys value ↔ child value key ≠ none := by
  unfold childKeys child
  cases value.bind Value.asMapping with
  | none => simp
  | some m => simpa using Mapping.get_ne_none_iff.symm

/-- Prefix a reported change with the path of the value it was found in. -/
def DiffEntry.under (path : List String) (entry : DiffEntry) : DiffEntry :=
  ⟨path ++ entry.path, entry.new⟩

/-- The path argument of `diff_value` only prefixes what is reported. -/
theorem diffValue_eq_map (current desired : Option Value) (path : List String) :
    diffValue current desired path =
      (diffValue current desired []).map (DiffEntry.under path) := by
  by_cases hne : current = desired
  · simp [diffValue, hne]
  · by_cases hdesc : descends current desired ∧
        keySet (childKeys current) (childKeys desired) ≠ []
    · rw [diffValue, diffValue, if_neg hne, if_pos hdesc, if_neg hne, if_pos hdesc,
        List.map_flatMap]
      refine List.flatMap_congr fun key _ => ?_
      rw [diffValue_eq_map _ _ (path ++ [key]), diffValue_eq_map _ _ ([] ++ [key]), List.map_map]
      simp [DiffEntry.under, Function.comp_def]
    · rw [diffValue, diffValue, if_neg hne, if_neg hdesc, if_neg hne, if_neg hdesc]
      simp [DiffEntry.under]
termination_by optionSize current + optionSize desired
decreasing_by all_goals exact optionSize_child_add_lt hne key

/-- Induction along the walk of `diff_value`: equal values, values walked key by key,
and values reported as a whole. -/
theorem walk_induction {motive : Option Value → Option Value → Prop}
    (equal : ∀ value, motive value value)
    (walked : ∀ current desired, current ≠ desired → descends current desired = true →
      keySet (childKeys current) (childKeys desired) ≠ [] →
      (∀ key, motive (child current key) (child desired key)) → motive current desired)
    (reported : ∀ current desired, current ≠ desired →
      diffValue current desired [] = [⟨[], desired⟩] → motive current desired)
    (current desired : Option Value) : motive current desired := by
  by_cases hne : current = desired
  · exact hne ▸ equal current
  · by_cases hdesc : descends current desired ∧
        keySet (childKeys current) (childKeys desired) ≠ []
    · exact walked current desired hne hdesc.1 hdesc.2 fun key =>
        walk_induction equal walked reported (child current key) (child desired key)
    · exact reported current desired hne (by rw [diffValue, if_neg hne, if_neg hdesc])
termination_by optionSize current + optionSize desired
decreasing_by exact optionSize_child_add_lt hne key

/-- The report of a walked value is the report of its keys, each under its key. -/
theorem diffValue_walked {current desired : Option Value} (hne : current ≠ desired)
    (hdesc : descends current desired = true)
    (hkeys : keySet (childKeys current) (childKeys desired) ≠ []) :
    diffValue current desired [] =
      (keySet (childKeys current) (childKeys desired)).flatMap fun key =>
        (diffValue (child current key) (child desired key) []).map (DiffEntry.under [key]) := by
  rw [diffValue, if_neg hne, if_pos ⟨hdesc, hkeys⟩]
  refine List.flatMap_congr fun key _ => ?_
  rw [diffValue_eq_map, List.nil_append]

/-- A value that is walked is absent or a mapping. -/
theorem mapping_of_descends {current desired : Option Value}
    (h : descends current desired = true) :
    (current = none ∨ ∃ m, current = some (.mapping m)) ∧
      (desired = none ∨ ∃ m, desired = some (.mapping m)) := by
  cases current with
  | none =>
    refine ⟨Or.inl rfl, ?_⟩
    cases desired with
    | none => exact Or.inl rfl
    | some d =>
      right
      cases d <;> simp_all [descends, Value.asMapping]
  | some c =>
    cases c with
    | mapping m =>
      refine ⟨Or.inr ⟨m, rfl⟩, ?_⟩
      cases desired with
      | none => exact Or.inl rfl
      | some d =>
        right
        cases d <;> simp_all [descends, Value.asMapping]
    | _ => simp [descends, Value.asMapping] at h

/-- The value of an optional value at a path. -/
def optionAt (value : Option Value) (path : List String) : Option Value :=
  value.bind (valueAt · path)

@[simp] theorem optionAt_nil (value : Option Value) : optionAt value [] = value := by
  cases value <;> rfl

@[simp] theorem optionAt_cons (value : Option Value) (key : String) (path : List String) :
    optionAt value (key :: path) = optionAt (child value key) path := by
  cases value with
  | none => rfl
  | some v => rfl

theorem valueAt_pair (m : Mapping) (root key : String) :
    valueAt (.mapping m) [root, key] = child (m.get root) key := by
  cases h : m.get root with
  | none => simp [h, child]
  | some v => simp [h, child]

theorem child_eq_none_of_not_mem {current desired : Option Value} {key : String}
    (h : key ∉ keySet (childKeys current) (childKeys desired)) :
    child current key = none ∧ child desired key = none := by
  rw [mem_keySet, not_or, mem_childKeys, mem_childKeys, not_not, not_not] at h
  exact h

/-- Every value inside an optional value is canonical. -/
def OptionCanonical (value : Option Value) : Prop := ∀ v, value = some v → v.Canonical

theorem OptionCanonical.child {value : Option Value} (h : OptionCanonical value) (key : String) :
    OptionCanonical (child value key) := by
  intro v hv
  cases value with
  | none => simp [Config.child] at hv
  | some w =>
    cases w with
    | mapping m => exact (h _ rfl).get (by simpa [Config.child, Value.asMapping] using hv)
    | _ => simp [Config.child, Value.asMapping] at hv

/-- **Completeness.** Nothing is reported only for equal values. -/
theorem diffValue_eq_nil {current desired : Option Value} (hc : OptionCanonical current)
    (hd : OptionCanonical desired) (h : diffValue current desired [] = []) :
    current = desired := by
  induction current, desired using walk_induction with
  | equal value => rfl
  | reported current desired hne hrep => simp [hrep] at h
  | walked current desired hne hdesc hkeys ih =>
    rw [diffValue_walked hne hdesc hkeys, List.flatMap_eq_nil_iff] at h
    have hchild : ∀ key, Config.child current key = Config.child desired key := by
      intro key
      by_cases hmem : key ∈ keySet (childKeys current) (childKeys desired)
      · exact ih key (hc.child key) (hd.child key) (by simpa using h key hmem)
      · obtain ⟨hcn, hdn⟩ := child_eq_none_of_not_mem hmem
        rw [hcn, hdn]
    -- Some key has a value on one side, hence on both, so both sides are mappings.
    obtain ⟨key, hkey⟩ := List.exists_mem_of_ne_nil _ hkeys
    have hsome : Config.child desired key ≠ none := by
      rcases mem_keySet.mp hkey with hmem | hmem
      · exact hchild key ▸ mem_childKeys.mp hmem
      · exact mem_childKeys.mp hmem
    obtain ⟨hcur, hdes⟩ := mapping_of_descends hdesc
    rcases hcur with rfl | ⟨m, rfl⟩
    · exact absurd (hchild key).symm hsome
    · rcases hdes with rfl | ⟨n, rfl⟩
      · exact absurd rfl hsome
      · rw [Mapping.ext_of_canonical (hc _ rfl) (hd _ rfl) hchild]

/-- Two paths, neither of which lies at or below the other. -/
def Incomparable (p q : List String) : Prop := ¬ p <+: q ∧ ¬ q <+: p

theorem incomparable_cons {key : String} {p q : List String} (h : Incomparable p q) :
    Incomparable (key :: p) (key :: q) := by
  simpa [Incomparable, List.cons_prefix_cons] using h

theorem incomparable_of_key_ne {k l : String} (h : k ≠ l) (p q : List String) :
    Incomparable (k :: p) (l :: q) := by
  simp [Incomparable, List.cons_prefix_cons, h, h.symm]

/-- **No overlap.** No reported path is another one or lies below it. -/
theorem diffValue_pairwise (current desired : Option Value) :
    (diffValue current desired []).Pairwise fun e f => Incomparable e.path f.path := by
  induction current, desired using walk_induction with
  | equal value => simp [diffValue]
  | reported current desired hne hrep => simp [hrep]
  | walked current desired hne hdesc hkeys ih =>
    rw [diffValue_walked hne hdesc hkeys, List.pairwise_flatMap]
    constructor
    · intro key _
      rw [List.pairwise_map]
      exact (ih key).imp fun h => incomparable_cons h
    · refine (nodup_keySet _ _).imp fun {k l} hkl e he f hf => ?_
      obtain ⟨e', _, rfl⟩ := List.mem_map.mp he
      obtain ⟨f', _, rfl⟩ := List.mem_map.mp hf
      exact incomparable_of_key_ne hkl _ _

/-- **Agreement elsewhere.** The two values agree at every path that is incomparable
with all reported ones. -/
theorem diffValue_agree {current desired : Option Value} (hc : OptionCanonical current)
    (hd : OptionCanonical desired) {path : List String}
    (h : ∀ e ∈ diffValue current desired [], Incomparable e.path path) :
    optionAt current path = optionAt desired path := by
  induction current, desired using walk_induction generalizing path with
  | equal value => rfl
  | reported current desired hne hrep =>
    have := h ⟨[], desired⟩ (by simp [hrep])
    exact absurd (List.nil_prefix) this.1
  | walked current desired hne hdesc hkeys ih =>
    cases path with
    | nil =>
      -- A walked value has some report below it, which the empty path is a prefix of.
      cases hrep : diffValue current desired [] with
      | cons e _ => exact absurd List.nil_prefix (h e (by simp [hrep])).2
      | nil => exact absurd (diffValue_eq_nil hc hd hrep) hne
    | cons key path =>
      rw [optionAt_cons, optionAt_cons]
      by_cases hmem : key ∈ keySet (childKeys current) (childKeys desired)
      · refine ih key (hc.child key) (hd.child key) fun e he => ?_
        have := h (e.under [key]) (by
          rw [diffValue_walked hne hdesc hkeys]
          exact List.mem_flatMap.mpr ⟨key, hmem, List.mem_map_of_mem he⟩)
        simpa [Incomparable, DiffEntry.under, List.cons_prefix_cons] using this
      · obtain ⟨hcn, hdn⟩ := child_eq_none_of_not_mem hmem
        rw [hcn, hdn]

/-- What a reported change says about the two values. -/
structure Reported (current desired : Option Value) (entry : DiffEntry) : Prop where
  /-- The entry carries the desired value at its path. -/
  new_eq : entry.new = optionAt desired entry.path
  /-- The two values really differ there. -/
  differs : optionAt current entry.path ≠ optionAt desired entry.path
  /-- They cannot be walked any further. -/
  stuck : ¬ (descends (optionAt current entry.path) (optionAt desired entry.path) = true ∧
    keySet (childKeys (optionAt current entry.path))
      (childKeys (optionAt desired entry.path)) ≠ [])
  /-- Everything above the path was walked. -/
  walked : ∀ p key q, entry.path = p ++ key :: q →
    descends (optionAt current p) (optionAt desired p) = true

/-- **Soundness of each entry.** -/
theorem diffValue_reported {current desired : Option Value} {entry : DiffEntry}
    (h : entry ∈ diffValue current desired []) : Reported current desired entry := by
  induction current, desired using walk_induction generalizing entry with
  | equal value => simp [diffValue] at h
  | reported current desired hne hrep =>
    rw [hrep, List.mem_singleton] at h
    subst h
    refine ⟨by simp, by simpa using hne, ?_, by simp⟩
    rintro ⟨hdesc, hkeys⟩
    rw [optionAt_nil, optionAt_nil] at hdesc hkeys
    rw [diffValue_walked hne hdesc hkeys] at hrep
    have hmem : (⟨[], desired⟩ : DiffEntry) ∈
        (keySet (childKeys current) (childKeys desired)).flatMap fun key =>
          (diffValue (child current key) (child desired key) []).map (DiffEntry.under [key]) := by
      simp [hrep]
    obtain ⟨key, _, hmem⟩ := List.mem_flatMap.mp hmem
    obtain ⟨e, _, heq⟩ := List.mem_map.mp hmem
    simp [DiffEntry.under] at heq
  | walked current desired hne hdesc hkeys ih =>
    rw [diffValue_walked hne hdesc hkeys] at h
    obtain ⟨key, _, h⟩ := List.mem_flatMap.mp h
    obtain ⟨e, he, rfl⟩ := List.mem_map.mp h
    obtain ⟨hnew, hdiff, hstuck, hwalked⟩ := ih key he
    refine ⟨by simpa [DiffEntry.under] using hnew, by simpa [DiffEntry.under] using hdiff,
      by simpa [DiffEntry.under] using hstuck, ?_⟩
    intro p k q hpath
    cases p with
    | nil => simpa using hdesc
    | cons a p =>
      simp only [DiffEntry.under, List.cons_append, List.nil_append, List.cons.injEq] at hpath
      obtain ⟨rfl, hpath⟩ := hpath
      simpa using hwalked p k q hpath

/-- Looking through a concatenated path is looking through its two parts. -/
theorem optionAt_append (value : Option Value) (p q : List String) :
    optionAt value (p ++ q) = optionAt (optionAt value p) q := by
  cases value with
  | none => rfl
  | some v => exact valueAt_append v p q

/-- A value found below a path makes that path a mapping with the next key. -/
theorem mapping_of_optionAt {value : Option Value} {p q : List String} {key : String}
    (h : optionAt value (p ++ key :: q) ≠ none) :
    ∃ m, optionAt value p = some (.mapping m) ∧ key ∈ childKeys (optionAt value p) := by
  rw [optionAt_append, optionAt_cons] at h
  have hchild : child (optionAt value p) key ≠ none := by
    intro hnone
    exact h (by rw [hnone]; rfl)
  cases hv : optionAt value p with
  | none => simp [hv, child] at hchild
  | some v =>
    cases v with
    | mapping m => exact ⟨m, rfl, mem_childKeys.mpr (hv ▸ hchild)⟩
    | _ => simp [hv, child, Value.asMapping] at hchild

/-- Two mappings are always walked. -/
theorem descends_mappings (m n : Mapping) :
    descends (some (.mapping m)) (some (.mapping n)) = true := by
  simp [descends, Value.asMapping]

/-- A key removed from a mapping that both sides have is reported as a deletion. -/
theorem diffValue_deletion {current desired : Option Value} (hc : OptionCanonical current)
    (hd : OptionCanonical desired) {path : List String} {key : String} {n : Mapping}
    (hcurrent : optionAt current (path ++ [key]) ≠ none)
    (hdesired : optionAt desired path = some (.mapping n)) (hkey : Mapping.get n key = none) :
    ∃ e ∈ diffValue current desired [], e.new = none := by
  have hgone : optionAt desired (path ++ [key]) = none := by
    rw [optionAt_append, hdesired]
    simp [child, Value.asMapping, hkey]
  have hexists : ∃ e ∈ diffValue current desired [], ¬ Incomparable e.path (path ++ [key]) := by
    by_contra hnone
    have hagree : optionAt current (path ++ [key]) = optionAt desired (path ++ [key]) :=
      diffValue_agree hc hd fun e he => not_not.mp fun hcomp => hnone ⟨e, he, hcomp⟩
    exact hcurrent (hagree.trans hgone)
  obtain ⟨e, he, hcomp⟩ := hexists
  refine ⟨e, he, ?_⟩
  have hrep := diffValue_reported he
  have hbelow : path ++ [key] <+: e.path → e.new = none := by
    rintro ⟨r, hr⟩
    rw [hrep.new_eq, ← hr, optionAt_append, hgone]
    rfl
  by_cases habove : e.path <+: path ++ [key]
  · rcases List.prefix_concat_iff.mp (by simpa using habove) with heq | ⟨r, rfl⟩
    · exact hbelow (heq ▸ List.prefix_rfl)
    · -- Both sides are mappings above the removed key, so the walk cannot have stopped there.
      exfalso
      have hcur : ∃ m, optionAt current e.path = some (.mapping m) ∧
          childKeys (optionAt current e.path) ≠ [] := by
        cases r with
        | nil =>
          obtain ⟨m, hm, hmem⟩ := mapping_of_optionAt (by simpa using hcurrent)
          exact ⟨m, hm, List.ne_nil_of_mem hmem⟩
        | cons a r =>
          have hbelow : optionAt current (e.path ++ a :: (r ++ [key])) ≠ none := by
            simpa using hcurrent
          obtain ⟨m, hm, hmem⟩ := mapping_of_optionAt hbelow
          exact ⟨m, hm, List.ne_nil_of_mem hmem⟩
      have hdes : ∃ m, optionAt desired e.path = some (.mapping m) := by
        cases r with
        | nil => exact ⟨n, by simpa using hdesired⟩
        | cons a r =>
          have hbelow : optionAt desired (e.path ++ a :: r) ≠ none := by simp [hdesired]
          obtain ⟨m, hm, _⟩ := mapping_of_optionAt hbelow
          exact ⟨m, hm⟩
      obtain ⟨m, hm, hkeys⟩ := hcur
      obtain ⟨m', hm'⟩ := hdes
      refine hrep.stuck ⟨by rw [hm, hm']; exact descends_mappings m m', ?_⟩
      obtain ⟨k, hk⟩ := List.exists_mem_of_ne_nil _ hkeys
      exact List.ne_nil_of_mem (mem_keySet.mpr (Or.inl hk))
  · exact hbelow (by
      by_contra hnot
      exact hcomp ⟨habove, hnot⟩)

/-- A document is canonical as an optional value. -/
theorem Document.optionCanonical (d : Document) :
    OptionCanonical (some (.mapping d.entries)) := by
  intro v hv
  cases hv
  exact d.canonical

theorem OptionCanonical.optionAt {value : Option Value} (h : OptionCanonical value)
    (path : List String) : OptionCanonical (optionAt value path) := by
  induction path generalizing value with
  | nil => simpa using h
  | cons key path ih => simpa using ih (h.child key)

/-- The keys of a mapping inside a document are unique. -/
theorem Document.nodup_valueAt (d : Document) {path : List String} {n : Mapping}
    (h : valueAt (.mapping d.entries) path = some (.mapping n)) : (n.map Prod.fst).Nodup := by
  have hcanonical : (Value.mapping n).Canonical := by
    refine OptionCanonical.optionAt d.optionCanonical path _ ?_
    simpa [Config.optionAt] using h
  simp only [Value.Canonical] at hcanonical
  exact Assoc.nodup_of_sorted hcanonical.1

/-- Two documents that differ at a path have a reported change at, above or below it. -/
theorem exists_change (current desired : Document) (path : List String)
    (hne : valueAt (.mapping current.entries) path ≠ valueAt (.mapping desired.entries) path) :
    ∃ e ∈ diff current.entries desired.entries, ¬ Incomparable e.path path := by
  by_contra hnone
  refine hne (diffValue_agree current.optionCanonical desired.optionCanonical fun e he => ?_)
  by_contra hcomp
  exact hnone ⟨e, he, hcomp⟩

/-- The value of a change is the desired value at its path. -/
theorem new_eq_valueAt {current desired : Mapping} {e : DiffEntry} (he : e ∈ diff current desired) :
    e.new = valueAt (.mapping desired) e.path := (diffValue_reported he).new_eq

/-- The report of two documents is empty exactly for equal documents. -/
theorem diff_eq_nil_iff (a b : Document) : diff a.entries b.entries = [] ↔ a = b := by
  constructor
  · intro h
    have := diffValue_eq_nil a.optionCanonical b.optionCanonical h
    exact Document.ext_entries (by simpa using this)
  · rintro rfl
    simp [diff, diffValue]

end Nyanpasu.Config
