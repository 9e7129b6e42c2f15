import Nyanpasu.Config.Patch

/-!
# Faithfulness of patches

A patch is verified against the leaves of the same serialization that was sent. The
results here give the exact condition under which that serialization carries the whole
change: every changed path with its desired value, so that merging it into the current
document gives the desired one.
-/

namespace Nyanpasu.Config

mutual

/-- Recursive merge of a patch into a mapping: nested mappings are merged, everything
else is replaced. -/
def merge (target : Mapping) : List (String × Value) → Mapping
  | [] => target
  | (key, value) :: entries =>
      merge (target.insert key (mergeValue (target.get key) value)) entries

/-- The merge of one value over the optional value it replaces. -/
def mergeValue (target : Option Value) : Value → Value
  | .mapping entries =>
      match target.bind Value.asMapping with
      | some m => .mapping (merge m entries)
      | none => .mapping entries
  | .null => .null
  | .bool value => .bool value
  | .number value => .number value
  | .string value => .string value
  | .sequence items => .sequence items

end

/-- Two documents agree at a path: both have nothing there, both have a mapping, or both
have the same value up to `canonical`. -/
inductive Agree (canonical : Value → Value) : Option Value → Option Value → Prop where
  | absent : Agree canonical none none
  | mappings (m n : Mapping) : Agree canonical (some (.mapping m)) (some (.mapping n))
  | values {v w : Value} (h : canonical v = canonical w) : Agree canonical (some v) (some w)

/-- A patch that says exactly what changed. -/
structure Faithful (ip : IpText) (current desired : Mapping) (patch : ConfigPatch)
    (projection : RuntimeProjection) : Prop where
  /-- Every changed path is in the serialization with the desired value. -/
  sent : ∀ e ∈ diff current desired, ∃ value, e.new = some value ∧
    valueAt (.mapping patch.toMapping) e.path = some (canonicalAt ip e.path value)
  /-- Every leaf of the serialization is expected of the runtime. -/
  expected : ∀ path leaf, IsLeaf (.mapping patch.toMapping) path leaf →
    (path, leaf) ∈ projection.expected
  /-- Merging the serialization into the current document gives the desired one. -/
  merged : ∀ path, Agree (canonicalAt ip path)
    (valueAt (.mapping (merge current patch.toMapping)) path) (valueAt (.mapping desired) path)
  /-- A verified runtime carries the desired value at every changed path. -/
  verified : ∀ runtime, projection.verify runtime = true → ∀ e ∈ diff current desired,
    ∀ value, e.new = some value → ∀ path leaf, IsLeaf (canonicalAt ip e.path value) path leaf →
      valueAt runtime (e.path ++ path) = some leaf

/-- The changes that the patch body can express: no value changes to null, and a changed
tun has no stack spelling that the body replaces. -/
structure Expressible (current desired : Mapping) : Prop where
  noNull : ∀ e ∈ diff current desired, e.new ≠ some .null
  stack : (∃ e ∈ diff current desired, e.path.head? = some "tun") →
    ∀ text, valueAt (.mapping desired) ["tun", "stack"] = some (.string text) →
      ¬ UnknownStack text

theorem Agree.refl (canonical : Value → Value) (value : Option Value) :
    Agree canonical value value := by
  cases value with
  | none => exact .absent
  | some v => exact .values rfl

/-- What is found in a merged mapping. -/
theorem merge_get (target patch : Mapping) (hpatch : (patch.map Prod.fst).Nodup) (key : String) :
    (merge target patch).get key =
      match Mapping.get patch key with
      | none => target.get key
      | some value => some (mergeValue (target.get key) value) := by
  induction patch generalizing target with
  | nil => simp [merge, Mapping.get]
  | cons entry patch ih =>
    obtain ⟨k, value⟩ := entry
    rw [List.map_cons, List.nodup_cons] at hpatch
    rw [merge, ih _ hpatch.2]
    by_cases hk : key = k
    · subst hk
      have hnone : Mapping.get patch key = none := by
        by_contra hsome
        exact hpatch.1 (Assoc.lookup_ne_none_iff.mp hsome)
      rw [hnone]
      simp [Mapping.get, Assoc.lookup_cons_if, Mapping.insert]
    · have hrest : Mapping.get ((k, value) :: patch) key = Mapping.get patch key := by
        simp [Mapping.get, Assoc.lookup_cons_if, hk]
      rw [hrest]
      simp [hk]

theorem mergeValue_of_not_mapping (target : Option Value) {value : Value}
    (h : value.asMapping = none) : mergeValue target value = value := by
  cases value with
  | mapping m => simp [Value.asMapping] at h
  | _ => simp [mergeValue]

/-- What is found in the merge of a mapping over an optional value. -/
theorem mergeValue_mapping (target : Option Value) (patch : Mapping)
    (hpatch : (patch.map Prod.fst).Nodup) :
    ∃ m, mergeValue target (.mapping patch) = .mapping m ∧ ∀ key, Mapping.get m key =
      match Mapping.get patch key with
      | none => child target key
      | some value => some (mergeValue (child target key) value) := by
  rw [mergeValue]
  cases h : target.bind Value.asMapping with
  | some m =>
    refine ⟨_, rfl, fun key => ?_⟩
    have hchild : child target key = m.get key := by simp [child, h]
    rw [merge_get _ _ hpatch, hchild]
  | none =>
    refine ⟨_, rfl, fun key => ?_⟩
    have hchild : child target key = none := by simp [child, h]
    rw [hchild]
    cases Mapping.get patch key with
    | none => rfl
    | some value => cases value <;> simp [mergeValue]

section Faithfulness

variable {ip : IpText} {patch : ConfigPatch} {projection : RuntimeProjection}

/-- A decoded leaf is serialized with its desired value. -/
theorem encode_eq_canonicalAt {current desired : Mapping} (hexpr : Expressible current desired)
    {path : List String} {type : LeafType} (htype : leafTypeAt path = some type)
    (hchanged : ∃ e ∈ diff current desired, e.path.head? = path.head?) {value : Value} {leaf : Leaf}
    (hvalue : valueAt (.mapping desired) path = some value)
    (hdecode : type.decode ip value = some leaf) : leaf.encode = canonicalAt ip path value := by
  obtain ⟨hlist, hstack⟩ := leafTypeAt_facts htype
  rw [canonicalAt, htype]
  refine LeafType.encode_decode hdecode hlist fun hts text htext => ?_
  obtain rfl := hstack hts
  exact hexpr.stack hchanged text (htext ▸ hvalue)

/-- A patchable path below a nested struct names one of its fields; any other patchable
path is a root. -/
theorem supported_cases {root : String} {path : List String}
    (h : patchNestedPathIsSupported (root :: path) = true) :
    (root ≠ "tun" ∧ root ≠ "tuic-server" ∧ path = []) ∨
      (root = "tun" ∨ root = "tuic-server") ∧
        ∃ key rest, path = key :: rest ∧ leafTypeAt [root, key] ≠ none := by
  rw [patchNestedPathIsSupported] at h
  split at h
  next htun =>
    right
    cases path with
    | nil => simp at h
    | cons key rest =>
      subst htun
      exact ⟨Or.inl rfl, key, rest, rfl, leafTypeAt_patchField key (by simpa using h)⟩
  next htun =>
    split at h
    next htuic =>
      right
      cases path with
      | nil => simp at h
      | cons key rest =>
        subst htuic
        exact ⟨Or.inr rfl, key, rest, rfl, leafTypeAt_tuicField key (by simpa using h)⟩
    next htuic => exact Or.inl ⟨htun, htuic, by simpa using h⟩

theorem canonicalAt_mapping (ip : IpText) (path : List String) (m : Mapping) :
    canonicalAt ip path (.mapping m) = .mapping m := by
  rw [canonicalAt]
  split
  · exact LeafType.canonical_mapping ip _ m
  · rfl

/-- A value found below a leaf field is found below its serialization. -/
theorem valueAt_canonicalAt {path : List String} {value found : Value} {key : String}
    {rest : List String} (h : valueAt value (key :: rest) = some found) :
    valueAt (canonicalAt ip path value) (key :: rest) = some found := by
  cases value with
  | mapping m => rwa [canonicalAt_mapping]
  | _ => simp [Value.asMapping] at h

/-- Every expressible change is sent with its desired value. -/
theorem Patched.sent {current desired : Mapping} (hp : Patched ip current desired patch)
    (hexpr : Expressible current desired) {e : DiffEntry} (he : e ∈ diff current desired) :
    ∃ value, e.new = some value ∧
      valueAt (.mapping patch.toMapping) e.path = some (canonicalAt ip e.path value) := by
  obtain ⟨root, path, value, hpath, hnew, _, hsupported⟩ := root_of_patchable (hp.changes e he)
  refine ⟨value, hnew, ?_⟩
  have hvalue : valueAt (.mapping desired) (root :: path) = some value := by
    rw [← hpath, ← new_eq_valueAt he, hnew]
  have hnull : value ≠ .null := fun heq => hexpr.noNull e he (heq ▸ hnew)
  have hroot : root ∈ changedRoots (diff current desired) :=
    mem_changedRoots.mpr ⟨e, he, by simp [hpath]⟩
  rw [hpath]
  cases hp.changed root hroot with
  | leaf hroot type htype hsome hcarried =>
    rcases supported_cases hsupported with ⟨_, _, rfl⟩ | ⟨hnested, _⟩
    · have hget : desired.get root = some value := by simpa [Value.asMapping] using hvalue
      obtain ⟨leaf, hdecode, hserialized⟩ := (hget ▸ hcarried).decoded hnull
      have henc := encode_eq_canonicalAt hexpr htype ⟨e, he, by simp [hpath]⟩ hvalue hdecode
      simp [Value.asMapping, hserialized, henc]
    · exact absurd hnested (by simp [hroot])
  | record hroot n encoded hdesired hserialized hnodup hkeys =>
    rcases supported_cases hsupported with ⟨htun, htuic, _⟩ | ⟨_, key, rest, rfl, htable⟩
    · exact absurd hroot (by simp [htun, htuic])
    · obtain ⟨type, htype, hcarried⟩ := (hkeys key).resolve_left fun h => htable h.1
      have hn : (Mapping.get n key).bind (valueAt · rest) = some value := by
        simpa [Value.asMapping, hdesired] using hvalue
      obtain ⟨w, hw, hrest⟩ := Option.bind_eq_some_iff.mp hn
      have hfield : valueAt (.mapping desired) [root, key] = some w := by
        simp [Value.asMapping, hdesired, hw]
      have hwnull : w ≠ .null := by
        rintro rfl
        cases rest with
        | nil => exact hnull (by simpa using hrest.symm)
        | cons k rest => simp [Value.asMapping] at hrest
      obtain ⟨leaf, hdecode, hencoded⟩ := (hw ▸ hcarried).decoded hwnull
      have henc := encode_eq_canonicalAt hexpr htype ⟨e, he, by simp [hpath]⟩ hfield hdecode
      have hlook : valueAt (.mapping patch.toMapping) (root :: key :: rest) =
          valueAt (canonicalAt ip [root, key] w) rest := by
        simp [Value.asMapping, hserialized, hencoded, henc]
      rw [hlook]
      cases rest with
      | nil =>
        obtain rfl : w = value := by simpa using hrest
        rfl
      | cons k rest => rw [valueAt_canonicalAt hrest, canonicalAt, leafTypeAt_deep]

/-- Merging a serialized leaf over what the current document has there gives the desired
value, at the leaf and below it. -/
theorem agree_mergeValue {path : List String} {type : LeafType}
    (htype : leafTypeAt path = some type) {value : Value} {leaf : Leaf}
    (hdecode : type.decode ip value = some leaf) (henc : leaf.encode = canonicalAt ip path value)
    {target : Option Value}
    (hkept : ∀ n, value = .mapping n → ∀ key, Mapping.get n key = none → child target key = none)
    (hnodup : ∀ n, value = .mapping n → (n.map Prod.fst).Nodup) (rest : List String) :
    Agree (canonicalAt ip (path ++ rest)) (valueAt (mergeValue target leaf.encode) rest)
      (valueAt value rest) := by
  cases hmapping : leaf.encode.asMapping with
  | some m =>
    rw [Value.asMapping_eq_some] at hmapping
    obtain ⟨rfl, htexts⟩ := LeafType.texts_of_encode_mapping hdecode hmapping
    obtain ⟨merged, hmerged, hget⟩ := mergeValue_mapping target m (hnodup m rfl)
    rw [hmapping, hmerged]
    cases rest with
    | nil => exact .mappings merged m
    | cons key rest =>
      have heq : Mapping.get merged key = Mapping.get m key := by
        rw [hget]
        cases hm : Mapping.get m key with
        | none => exact hkept m rfl key hm
        | some w =>
          obtain ⟨text, rfl⟩ := htexts key w hm
          simp [mergeValue]
      simp only [valueAt_cons, Value.asMapping, Option.bind_some, heq]
      exact Agree.refl _ _
  | none =>
    rw [mergeValue_of_not_mapping target hmapping, henc]
    cases rest with
    | nil =>
      refine .values ?_
      simp only [List.append_nil, canonicalAt, htype]
      exact type.canonical_idem ip value
    | cons key rest =>
      have hleft : (canonicalAt ip path value).asMapping = none := henc ▸ hmapping
      have hright : value.asMapping = none := by
        cases hv : value.asMapping with
        | none => rfl
        | some n =>
          rw [Value.asMapping_eq_some] at hv
          rw [hv, canonicalAt_mapping] at hleft
          simp [Value.asMapping] at hleft
      simp only [valueAt_cons, hleft, hright, Option.bind_none]
      exact .absent

/-- A key of a changed nested struct that is not serialized did not change. -/
theorem unserialized_unchanged {current desired : Document}
    (hp : Patched ip current.entries desired.entries patch)
    (hexpr : Expressible current.entries desired.entries) {root key : String} {n : Mapping}
    (hroot : root = "tun" ∨ root = "tuic-server")
    (hdesired : desired.entries.get root = some (.mapping n))
    (hkey : leafTypeAt [root, key] = none ∨ Mapping.get n key = none ∨
      Mapping.get n key = some .null) :
    child (current.entries.get root) key = Mapping.get n key := by
  have hgoal : valueAt (.mapping current.entries) [root, key] =
      valueAt (.mapping desired.entries) [root, key] := by
    by_contra hne
    obtain ⟨e, he, hcomp⟩ := exists_change current desired _ hne
    obtain ⟨root', path, value, hpath, hnew, _, hsupported⟩ := root_of_patchable (hp.changes e he)
    obtain rfl : root' = root := by
      by_contra hroots
      exact hcomp (hpath ▸ incomparable_of_key_ne hroots path [key])
    rcases supported_cases hsupported with ⟨htun, htuic, _⟩ | ⟨_, key', rest, rfl, htable⟩
    · exact absurd hroot (by simp [htun, htuic])
    · obtain rfl : key' = key := by
        by_contra hkeys
        refine hcomp (hpath ▸ incomparable_cons (incomparable_of_key_ne hkeys rest []))
      have hvalue : (Mapping.get n key').bind (valueAt · rest) = some value := by
        rw [← hnew, new_eq_valueAt he, hpath]
        simp [Value.asMapping, hdesired]
      rcases hkey with hkey | hkey | hkey
      · exact htable hkey
      · simp [hkey] at hvalue
      · cases rest with
        | nil =>
          have : value = .null := by simpa [hkey] using hvalue.symm
          exact hexpr.noNull e he (this ▸ hnew)
        | cons k rest => simp [hkey, Value.asMapping] at hvalue
  rw [← valueAt_pair, hgoal]
  simp [hdesired]

/-- A patch deletes nothing. -/
theorem Patched.nothing_deleted {current desired : Document}
    (hp : Patched ip current.entries desired.entries patch) {path : List String} {n : Mapping}
    {key : String} (hdesired : valueAt (.mapping desired.entries) path = some (.mapping n))
    (hkey : Mapping.get n key = none) :
    child (valueAt (.mapping current.entries) path) key = none := by
  by_contra hcurrent
  have hat : optionAt (some (.mapping current.entries)) (path ++ [key]) ≠ none := by
    rw [optionAt_append, optionAt_cons, optionAt_nil]
    exact hcurrent
  obtain ⟨e, he, hnew⟩ := diffValue_deletion current.optionCanonical desired.optionCanonical hat
    hdesired hkey
  obtain ⟨_, _, value, _, hsome, _⟩ := root_of_patchable (hp.changes e he)
  rw [hnew] at hsome
  cases hsome

/-- Merging a serialized nested struct over the current one gives the desired one. -/
theorem Patched.merged_record {current desired : Document}
    (hp : Patched ip current.entries desired.entries patch)
    (hexpr : Expressible current.entries desired.entries) {root : String} {n encoded : Mapping}
    (hroot : root = "tun" ∨ root = "tuic-server")
    (hdesired : desired.entries.get root = some (.mapping n))
    (hchanged : ∃ e ∈ diff current.entries desired.entries, e.path.head? = some root)
    (hnodup : (encoded.map Prod.fst).Nodup)
    (hkeys : ∀ key, leafTypeAt [root, key] = none ∧ Mapping.get encoded key = none ∨
      ∃ type, leafTypeAt [root, key] = some type ∧
        Carried ip type (Mapping.get n key) (Mapping.get encoded key)) (rest : List String) :
    Agree (canonicalAt ip (root :: rest))
      (valueAt (mergeValue (current.entries.get root) (.mapping encoded)) rest)
      (valueAt (.mapping n) rest) := by
  obtain ⟨m, hm, hget⟩ := mergeValue_mapping (current.entries.get root) encoded hnodup
  rw [hm]
  cases rest with
  | nil => exact .mappings m n
  | cons key rest =>
    rw [valueAt_root, valueAt_root, hget]
    cases hencoded : Mapping.get encoded key with
    | none =>
      -- A key that is not serialized kept its value.
      have hkey : leafTypeAt [root, key] = none ∨ Mapping.get n key = none ∨
          Mapping.get n key = some .null := by
        rcases hkeys key with ⟨htype, _⟩ | ⟨type, _, hcarried⟩
        · exact Or.inl htype
        · exact Or.inr (hencoded ▸ hcarried).of_none
      rw [unserialized_unchanged hp hexpr hroot hdesired hkey]
      exact Agree.refl _ _
    | some x =>
      obtain ⟨type, htype, hcarried⟩ := (hkeys key).resolve_left (by simp [hencoded])
      obtain ⟨value, leaf, hvalue, hdecode, rfl⟩ := (hencoded ▸ hcarried).of_some
      have hat : valueAt (.mapping desired.entries) [root, key] = some value := by
        simp [hdesired, hvalue]
      have henc := encode_eq_canonicalAt hexpr htype hchanged hat hdecode
      have hkept : ∀ n, value = .mapping n → ∀ k, Mapping.get n k = none →
          child (child (current.entries.get root) key) k = none := by
        intro n' hn k hk
        have := hp.nothing_deleted (hn ▸ hat) hk
        rwa [valueAt_pair] at this
      simp only [hvalue, Option.bind_some]
      exact agree_mergeValue htype hdecode henc hkept
        (fun n hn => desired.nodup_valueAt (hn ▸ hat)) rest

/-- Merging the serialization of an expressible patch gives the desired document. -/
theorem Patched.merged {current desired : Document}
    (hp : Patched ip current.entries desired.entries patch)
    (hexpr : Expressible current.entries desired.entries) (path : List String) :
    Agree (canonicalAt ip path)
      (valueAt (.mapping (merge current.entries patch.toMapping)) path)
      (valueAt (.mapping desired.entries) path) := by
  cases path with
  | nil => exact .mappings _ _
  | cons root rest =>
    have hmerge := merge_get current.entries patch.toMapping hp.nodup root
    by_cases hroot : root ∈ changedRoots (diff current.entries desired.entries)
    · obtain ⟨e, he, hhead⟩ := mem_changedRoots.mp hroot
      cases hp.changed root hroot with
      | leaf hleaf type htype hsome hcarried =>
        obtain ⟨value, hvalue⟩ := Option.ne_none_iff_exists'.mp hsome
        have hat : valueAt (.mapping desired.entries) [root] = some value := by
          simp [Value.asMapping, hvalue]
        have hnull : value ≠ .null := by
          rintro rfl
          obtain ⟨root', path, _, hpath, hnew, _, hsupported⟩ :=
            root_of_patchable (hp.changes e he)
          obtain rfl : root' = root := by simpa [hpath] using hhead
          rcases supported_cases hsupported with ⟨_, _, rfl⟩ | ⟨hnested, _⟩
          · exact hexpr.noNull e he (by rw [new_eq_valueAt he, hpath, hat])
          · exact absurd hnested (by simp [hleaf])
        obtain ⟨leaf, hdecode, hserialized⟩ := (hvalue ▸ hcarried).decoded hnull
        have henc := encode_eq_canonicalAt hexpr htype ⟨e, he, by simp [hhead]⟩ hat hdecode
        have hkept : ∀ n, value = .mapping n → ∀ key, Mapping.get n key = none →
            child (current.entries.get root) key = none := by
          intro n hn key hkey
          have := hp.nothing_deleted (hn ▸ hat) hkey
          rwa [valueAt_singleton] at this
        have hgoal := agree_mergeValue htype hdecode henc hkept
          (fun n hn => desired.nodup_valueAt (hn ▸ hat)) rest
        simp only [valueAt_root, hmerge, hserialized, hvalue, Option.bind_some]
        exact hgoal
      | record hnested n encoded hdesired hserialized hnodup hkeys =>
        simp only [valueAt_root, hmerge, hserialized, hdesired, Option.bind_some]
        exact hp.merged_record hexpr hnested hdesired ⟨e, he, hhead⟩ hnodup hkeys rest
    · have hget : current.entries.get root = desired.entries.get root := by
        by_contra hne
        obtain ⟨e, he, hcomp⟩ := exists_change current desired [root]
          (by rwa [valueAt_singleton, valueAt_singleton])
        obtain ⟨root', path, _, hpath, _⟩ := root_of_patchable (hp.changes e he)
        have hroots : root' ≠ root := by
          rintro rfl
          exact hroot (mem_changedRoots.mpr ⟨e, he, by simp [hpath]⟩)
        exact hcomp (hpath ▸ incomparable_of_key_ne hroots path [])
      rw [hp.unchanged root hroot] at hmerge
      rw [valueAt_root, valueAt_root, hmerge, hget]
      exact Agree.refl _ _

/-- The serialization of an expressible patch is faithful. -/
theorem Patched.faithful {current desired : Document}
    (hp : Patched ip current.entries desired.entries patch)
    (hprojection : projection.expected = collectLeaves [] (.mapping patch.toMapping))
    (hexpr : Expressible current.entries desired.entries) :
    Faithful ip current.entries desired.entries patch projection := by
  have hexpected : ∀ path leaf, IsLeaf (.mapping patch.toMapping) path leaf →
      (path, leaf) ∈ projection.expected := by
    intro path leaf hleaf
    rw [hprojection]
    exact mem_collectLeaves _ hleaf []
  refine ⟨fun e he => hp.sent hexpr he, hexpected, hp.merged hexpr, ?_⟩
  intro runtime hverify e he value hnew path leaf hleaf
  obtain ⟨value', hnew', hsent⟩ := hp.sent hexpr he
  obtain rfl : value' = value := by simpa [hnew] using hnew'.symm
  have hserialized : IsLeaf (.mapping patch.toMapping) (e.path ++ path) leaf := by
    refine ⟨?_, hleaf.2⟩
    rw [valueAt_append, hsent, Option.bind_some, hleaf.1]
  have := List.all_eq_true.mp hverify _ (hexpected _ _ hserialized)
  simpa using this

/-- Nothing in a serialized leaf is null. -/
theorem valueAt_encode_ne_null (leaf : Leaf) (path : List String) :
    valueAt leaf.encode path ≠ some .null := by
  cases path with
  | nil => simpa using leaf.encode_ne_null
  | cons key path =>
    cases leaf with
    | scalar scalar => cases scalar <;> simp [Leaf.encode, Scalar.encode, Value.asMapping]
    | list items => simp [Leaf.encode, Value.asMapping]
    | textMap entries =>
      rw [Leaf.encode, valueAt_root, Mapping.get, Assoc.lookup_map]
      cases entries.lookup key with
      | none => simp
      | some text => cases path <;> simp [Value.asMapping]

/-- Nothing in a serialized patch is null. -/
theorem ConfigPatch.valueAt_ne_null (patch : ConfigPatch) (path : List String) :
    valueAt (.mapping patch.toMapping) path ≠ some .null := by
  cases path with
  | nil => simp
  | cons root path =>
    rw [valueAt_root, toMapping_get]
    cases patch.fields.lookup root with
    | none => simp
    | some value =>
      cases value with
      | leaf leaf => exact valueAt_encode_ne_null leaf path
      | record fields =>
        cases path with
        | nil => simp [FieldValue.encode]
        | cons key path =>
          rw [Option.map_some, Option.bind_some, FieldValue.encode, valueAt_root, Mapping.get,
            Assoc.lookup_map]
          cases fields.lookup key with
          | none => simp
          | some leaf => exact valueAt_encode_ne_null leaf path

theorem canonicalAt_null (ip : IpText) (path : List String) :
    canonicalAt ip path .null = .null := by
  rw [canonicalAt]
  split
  next type _ =>
    cases type with
    | scalar type => cases type <;> rfl
    | list item => rfl
    | textMap => rfl
  · rfl

/-- A faithful patch has only expressible changes. -/
theorem Patched.expressible {current desired : Document}
    (hp : Patched ip current.entries desired.entries patch)
    (hf : Faithful ip current.entries desired.entries patch projection) :
    Expressible current.entries desired.entries := by
  refine ⟨fun e he hnull => ?_, ?_⟩
  · obtain ⟨value, hnew, hsent⟩ := hf.sent e he
    obtain rfl : value = .null := by simpa [hnew] using hnull
    rw [canonicalAt_null] at hsent
    exact patch.valueAt_ne_null e.path hsent
  · rintro ⟨e, he, hhead⟩ text htext hunknown
    have hmerge := merge_get current.entries patch.toMapping hp.nodup "tun"
    cases hp.changed "tun" (mem_changedRoots.mpr ⟨e, he, hhead⟩) with
    | leaf hroot => exact hroot.1 rfl
    | record _ n encoded hdesired hserialized hnodup hkeys =>
      have htype : leafTypeAt ["tun", "stack"] = some (.scalar .tunStack) := by decide +kernel
      obtain ⟨type, htype', hcarried⟩ := (hkeys "stack").resolve_left (by simp [htype])
      obtain rfl : LeafType.scalar .tunStack = type := by simpa [htype] using htype'
      have hstack : Mapping.get n "stack" = some (.string text) := by
        simpa [hdesired] using htext
      obtain ⟨leaf, hdecode, hencoded⟩ := (hstack ▸ hcarried).decoded (by simp)
      have henc : leaf.encode = .string "Unknown" := by
        simp only [LeafType.decode, ScalarType.decode, Value.asStr, Option.map_some,
          Option.some.injEq] at hdecode
        rw [← hdecode, Leaf.encode, Scalar.encode, spelling_unknownStack hunknown]
      obtain ⟨m, hm, hget⟩ := mergeValue_mapping (current.entries.get "tun") encoded hnodup
      have hmerged : valueAt (.mapping (merge current.entries patch.toMapping)) ["tun", "stack"] =
          some (.string "Unknown") := by
        simp only [valueAt_root, hmerge, hserialized, hm, Option.bind_some]
        rw [hget]
        simp only [hencoded, henc, Option.bind_some, valueAt_nil]
        rw [mergeValue_of_not_mapping _ rfl]
      have hagree := hf.merged ["tun", "stack"]
      rw [hmerged, htext] at hagree
      cases hagree with
      | values h =>
        have heq : "Unknown" = text := by
          simpa [canonicalAt, htype, LeafType.canonical, ScalarType.canonical] using h
        exact hunknown (by simp [← heq])

/-- **Patch faithfulness, exactly.** A change that is classified as a patch is sent,
verified and merged as desired if and only if the patch body can express it. -/
theorem patch_faithful_iff (current desired : Document)
    (h : classifyDocuments ip current.entries desired.entries = .ok (.patch patch projection)) :
    Faithful ip current.entries desired.entries patch projection ↔
      Expressible current.entries desired.entries := by
  obtain ⟨hp, hprojection⟩ := classifyDocuments_patched h
  exact ⟨hp.expressible, hp.faithful hprojection⟩

end Faithfulness

/-- A document in rule mode. -/
def ruleModeDocument : Document where
  entries := [("mode", .string "rule")]
  canonical := by decide

/-- A document in direct mode that also allows the LAN. -/
def directModeDocument : Document where
  entries := [("allow-lan", .bool true), ("mode", .string "direct")]
  canonical := by decide

/-- A document that allows the LAN and sets the mode to null. -/
def nullModeDocument : Document where
  entries := [("allow-lan", .bool true), ("mode", .null)]
  canonical := by decide

/-- A patch of the mode and of the LAN access is faithful. -/
theorem patch_faithful_directMode : Faithful plainIpText ruleModeDocument.entries
    directModeDocument.entries
    ⟨[("allow-lan", .leaf (.scalar (.bool true))),
      ("mode", .leaf (.scalar (.tunnelMode .direct)))]⟩
    ⟨[(["allow-lan"], .bool true), (["mode"], .string "direct")]⟩ :=
  (patch_faithful_iff ruleModeDocument directModeDocument (by decide +kernel)).mpr
    ⟨by decide +kernel, by
      intro _ text htext
      have hnone : valueAt (.mapping directModeDocument.entries) ["tun", "stack"] = none := by
        decide +kernel
      rw [hnone] at htext
      cases htext⟩

/-- A mode changed to null is not sent, while the patch of the other change verifies. -/
theorem patch_unfaithful : ¬ ∀ (ip : IpText) (current desired : Document) (patch : ConfigPatch)
    (projection : RuntimeProjection),
    classifyDocuments ip current.entries desired.entries = .ok (.patch patch projection) →
      Faithful ip current.entries desired.entries patch projection := by
  intro h
  have hf := h plainIpText ruleModeDocument nullModeDocument
    ⟨[("allow-lan", .leaf (.scalar (.bool true)))]⟩ ⟨[(["allow-lan"], .bool true)]⟩
    (by decide +kernel)
  obtain ⟨value, hnew, hsent⟩ := hf.sent ⟨["mode"], some .null⟩ (by decide +kernel)
  obtain rfl : value = .null := by simpa using hnew.symm
  rw [canonicalAt_null] at hsent
  exact ConfigPatch.valueAt_ne_null _ _ hsent

end Nyanpasu.Config
