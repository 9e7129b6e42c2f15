import Nyanpasu.Config.Classify

/-!
# What a patch carries

A change classified as a patch was decoded from the desired document, filtered by the
field tables, and is sent as the serialization of the decoded body. Each field of the
body is related here to the desired value of the same field.
-/

namespace Nyanpasu.Config

/-- The paths of all leaf fields of `ConfigPatch` with their types. -/
def leafTable : List (List String × LeafType) :=
  configPatch.flatMap fun field =>
    match field.type with
    | .leaf type => [([field.name], type)]
    | .record fields => fields.map fun nested => ([field.name, nested.name], nested.type)

/-- The type of the leaf field at a path. -/
def leafTypeAt (path : List String) : Option LeafType :=
  (leafTable.find? fun e => e.1 = path).map Prod.snd

/-- The value at a path with its networks and addresses in canonical text. -/
def canonicalAt (ip : IpText) (path : List String) (value : Value) : Value :=
  match leafTypeAt path with
  | some type => type.canonical ip value
  | none => value

section Tables

theorem leafTypeAt_of_mem : ∀ e ∈ leafTable, leafTypeAt e.1 = some e.2 := by decide +kernel

theorem mem_of_leafTypeAt {path : List String} {type : LeafType}
    (h : leafTypeAt path = some type) : (path, type) ∈ leafTable := by
  obtain ⟨e, he, rfl⟩ := Option.map_eq_some_iff.mp h
  have hpath : e.1 = path := by simpa using List.find?_some he
  exact hpath ▸ List.mem_of_find?_eq_some he

theorem leafTable_facts : ∀ e ∈ leafTable, e.2 ≠ .list .tunStack ∧
    (e.2 = .scalar .tunStack → e.1 = ["tun", "stack"]) ∧ e.1.length ≤ 2 := by
  decide +kernel

/-- The tables of the classification name the fields of the patch body. -/
theorem tables_agree : configPatch.map Field.name = patchFields ∧
    tunPatch.map Field.name = tunPatchFields ∧
    tuicServerPatch.map Field.name = tuicServerPatchFields := by decide +kernel

/-- A patchable root is one of the two nested structs or a leaf field. -/
theorem patchFields_cases : ∀ root ∈ patchFields,
    root = "tun" ∨ root = "tuic-server" ∨ root ≠ "tun" ∧ root ≠ "tuic-server" ∧
      ∃ e ∈ leafTable, e.1 = [root] ∧ Field.opt root (.leaf e.2) ∈ configPatch := by
  decide +kernel

theorem leafTypeAt_patchField : ∀ key ∈ tunPatchFields, leafTypeAt ["tun", key] ≠ none := by
  decide +kernel

theorem leafTypeAt_tuicField :
    ∀ key ∈ tuicServerPatchFields, leafTypeAt ["tuic-server", key] ≠ none := by
  decide +kernel

theorem tun_mem_configPatch : Field.opt "tun" (.record tunPatch) ∈ configPatch := by
  decide +kernel

theorem tuicServer_mem_configPatch :
    Field.opt "tuic-server" (.record tuicServerPatch) ∈ configPatch := by decide +kernel

/-- Only the stack of a tun has the catch-all type, and no list has it. -/
theorem leafTypeAt_facts {path : List String} {type : LeafType} (h : leafTypeAt path = some type) :
    type ≠ .list .tunStack ∧ (type = .scalar .tunStack → path = ["tun", "stack"]) :=
  ⟨(leafTable_facts _ (mem_of_leafTypeAt h)).1, (leafTable_facts _ (mem_of_leafTypeAt h)).2.1⟩

/-- Nothing below the fields of a nested struct is a field. -/
theorem leafTypeAt_deep (root key k : String) (path : List String) :
    leafTypeAt (root :: key :: k :: path) = none := by
  by_contra hsome
  obtain ⟨type, htype⟩ := Option.ne_none_iff_exists'.mp hsome
  have := (leafTable_facts _ (mem_of_leafTypeAt htype)).2.2
  simp at this

end Tables

/-- How a leaf of the serialization relates to the desired value of its field. -/
inductive Carried (ip : IpText) (type : LeafType) : Option Value → Option Value → Prop where
  | absent : Carried ip type none none
  | null : Carried ip type (some .null) none
  | value {value : Value} {leaf : Leaf} (hne : value ≠ .null)
      (hdecode : type.decode ip value = some leaf) : Carried ip type (some value) (some leaf.encode)

/-- A desired value other than null is decoded and serialized. -/
theorem Carried.decoded {ip : IpText} {type : LeafType} {value : Value} {out : Option Value}
    (h : Carried ip type (some value) out) (hne : value ≠ .null) :
    ∃ leaf, type.decode ip value = some leaf ∧ out = some leaf.encode := by
  cases h with
  | null => exact absurd rfl hne
  | value _ hdecode => exact ⟨_, hdecode, rfl⟩

/-- A field that is not serialized is absent or null. -/
theorem Carried.of_none {ip : IpText} {type : LeafType} {value : Option Value}
    (h : Carried ip type value none) : value = none ∨ value = some .null := by
  cases h with
  | absent => exact Or.inl rfl
  | null => exact Or.inr rfl

/-- A field that is serialized was decoded. -/
theorem Carried.of_some {ip : IpText} {type : LeafType} {value : Option Value} {out : Value}
    (h : Carried ip type value (some out)) :
    ∃ v leaf, value = some v ∧ type.decode ip v = some leaf ∧ out = leaf.encode := by
  cases h with
  | value _ hdecode => exact ⟨_, _, rfl, hdecode, rfl⟩

/-- How a changed root of the serialization relates to the desired document. -/
inductive RootCarried (ip : IpText) (desired serialized : Mapping) (root : String) : Prop where
  | leaf (hroot : root ≠ "tun" ∧ root ≠ "tuic-server") (type : LeafType)
      (htype : leafTypeAt [root] = some type) (hsome : desired.get root ≠ none)
      (h : Carried ip type (desired.get root) (serialized.get root))
  | record (hroot : root = "tun" ∨ root = "tuic-server") (n encoded : Mapping)
      (hdesired : desired.get root = some (.mapping n))
      (hserialized : serialized.get root = some (.mapping encoded))
      (hnodup : (encoded.map Prod.fst).Nodup)
      (h : ∀ key, leafTypeAt [root, key] = none ∧ Mapping.get encoded key = none ∨
        ∃ type, leafTypeAt [root, key] = some type ∧
          Carried ip type (Mapping.get n key) (Mapping.get encoded key))

/-- A change that was classified as a patch. -/
structure Patched (ip : IpText) (current desired : Mapping) (patch : ConfigPatch) : Prop where
  changes : ∀ e ∈ diff current desired, patchable e = true
  nodup : (patch.toMapping.map Prod.fst).Nodup
  unchanged : ∀ root, root ∉ changedRoots (diff current desired) → patch.toMapping.get root = none
  changed : ∀ root ∈ changedRoots (diff current desired),
    RootCarried ip desired patch.toMapping root

theorem mem_changedRoots {changes : List DiffEntry} {root : String} :
    root ∈ changedRoots changes ↔ ∃ e ∈ changes, e.path.head? = some root := by
  simp [changedRoots, mem_keySet]

/-- The patch document holds what `patchRoot` makes of every changed root. -/
theorem patchDocument_get {desired : Mapping} {roots : List String} (hroots : roots.Nodup)
    {document out : Mapping} (h : patchDocument desired roots document = .ok (some out)) :
    (∀ root ∈ roots, ∃ value, patchRoot desired root = .ok (some value) ∧
      out.get root = some value) ∧ ∀ root ∉ roots, out.get root = document.get root := by
  induction roots generalizing document with
  | nil =>
    simp only [patchDocument, Except.ok.injEq, Option.some.injEq] at h
    simp [h]
  | cons root roots ih =>
    rw [List.nodup_cons] at hroots
    rw [patchDocument] at h
    split at h
    next => cases h
    next => cases h
    next value hvalue =>
      obtain ⟨hin, hout⟩ := ih hroots.2 h
      refine ⟨fun r hr => ?_, fun r hr => ?_⟩
      · rcases List.mem_cons.mp hr with rfl | hr
        · exact ⟨value, hvalue, by simp [hout r hroots.1]⟩
        · exact hin r hr
      · rw [List.mem_cons, not_or] at hr
        simp [hout r hr.2, hr.1]

/-- A leaf field as its derived deserializer reads it. -/
theorem carried_of_read {ip : IpText} {name : String} {type : LeafType} {fallback : Leaf}
    {m : Mapping} {out : Option Leaf}
    (h : (Field.opt name type).read (LeafType.decode ip) fallback m = some out) :
    Carried ip type (m.get name) (out.map Leaf.encode) := by
  simp only [Field.read, Field.opt] at h
  cases hget : m.get name with
  | none =>
    simp only [hget, ite_true, Option.some.injEq] at h
    subst h
    exact .absent
  | some value =>
    by_cases hnull : value = .null
    · simp only [hget, hnull, and_self, ite_true, Option.some.injEq] at h
      subst h
      exact hnull ▸ .null
    · simp only [hget, hnull, and_false, ite_false] at h
      obtain ⟨leaf, hleaf, rfl⟩ := Option.map_eq_some_iff.mp h
      exact .value hnull hleaf

/-- The required `enable` of a nested struct, which `build_patch` has checked. -/
theorem carried_of_read_enable {ip : IpText} {name : String} {fallback : Leaf} {m : Mapping}
    {out : Option Leaf} {b : Bool} (hget : m.get name = some (.bool b))
    (h : (⟨name, false, .scalar .bool⟩ : Field LeafType).read (LeafType.decode ip) fallback m =
      some out) :
    Carried ip (.scalar .bool) (m.get name) (out.map Leaf.encode) := by
  simp only [Field.read, hget, Bool.false_eq_true, false_and, ite_false] at h
  obtain ⟨leaf, hleaf, rfl⟩ := Option.map_eq_some_iff.mp h
  exact hget ▸ .value (by simp) hleaf

/-- What a nested struct table must provide. -/
structure NestedTable (root : String) (fields : List (Field LeafType)) (allowed : List String) :
    Prop where
  names : fields.map Field.name = allowed
  nodup : allowed.Nodup
  inTable : ∀ field ∈ fields, leafTypeAt [root, field.name] = some field.type
  onlyTable : ∀ e ∈ leafTable, e.1.head? = some root → e.1.tail ∈ allowed.map ([·])
  optional : ∀ field ∈ fields,
    field = .opt field.name field.type ∨ field = ⟨"enable", false, .scalar .bool⟩

theorem tun_nestedTable : NestedTable "tun" tunPatch tunPatchFields := by
  constructor <;> decide +kernel

theorem tuicServer_nestedTable :
    NestedTable "tuic-server" tuicServerPatch tuicServerPatchFields := by
  constructor <;> decide +kernel

theorem NestedTable.leafTypeAt_eq_none {root : String} {fields : List (Field LeafType)}
    {allowed : List String} (ht : NestedTable root fields allowed) {key : String}
    (hkey : key ∉ allowed) : leafTypeAt [root, key] = none := by
  by_contra hsome
  obtain ⟨type, htype⟩ := Option.ne_none_iff_exists'.mp hsome
  have := ht.onlyTable _ (mem_of_leafTypeAt htype) rfl
  simp [hkey] at this

/-- A nested struct of the serialization carries the desired fields of its table. -/
theorem recordCarried {ip : IpText} {root : String} {fields : List (Field LeafType)}
    {allowed : List String} (ht : NestedTable root fields allowed) {n : Mapping}
    {out : List (String × Leaf)} {b : Bool}
    (henable : Mapping.get (n.filter fun e => allowed.contains e.1) "enable" = some (.bool b))
    (h : decodeFields (LeafType.decode ip) (.scalar (.bool false))
      (n.filter fun e => allowed.contains e.1) fields = some out) (key : String) :
    leafTypeAt [root, key] = none ∧
        Mapping.get (out.map fun e => (e.1, e.2.encode)) key = none ∨
      ∃ type, leafTypeAt [root, key] = some type ∧ Carried ip type (Mapping.get n key)
        (Mapping.get (out.map fun e => (e.1, e.2.encode)) key) := by
  obtain ⟨hread, hother, _⟩ := decodeFields_lookup (ht.names ▸ ht.nodup) h
  rw [Mapping.get, Assoc.lookup_map]
  by_cases hkey : key ∈ allowed
  · right
    obtain ⟨field, hfield, rfl⟩ := List.mem_map.mp (ht.names ▸ hkey)
    refine ⟨field.type, ht.inTable field hfield, ?_⟩
    have hget : Mapping.get (n.filter fun e => allowed.contains e.1) field.name =
        Mapping.get n field.name := by
      rw [Mapping.get, Mapping.get, Assoc.lookup_filter_key, if_pos (by simpa using hkey)]
    have hfieldRead := hread field hfield
    rw [← hget]
    rcases ht.optional field hfield with hopt | hopt
    · rw [hopt] at hfieldRead
      exact carried_of_read hfieldRead
    · rw [hopt] at hfieldRead ⊢
      exact carried_of_read_enable henable hfieldRead
  · left
    refine ⟨ht.leafTypeAt_eq_none hkey, ?_⟩
    rw [hother key (by rwa [ht.names])]
    rfl

theorem enable_of_not_lacksEnable {document : Mapping} {root : String} {m : Mapping}
    (h : lacksEnable document root = false) (hget : document.get root = some (.mapping m)) :
    ∃ b, Mapping.get m "enable" = some (.bool b) := by
  cases henable : Mapping.get m "enable" with
  | none => simp [lacksEnable, hget, Value.asMapping, henable] at h
  | some enable =>
    cases enable with
    | bool b => exact ⟨b, rfl⟩
    | _ => simp [lacksEnable, hget, Value.asMapping, henable, Value.asBool] at h

/-- The fields of a decoded patch, each as its deserializer reads it. -/
theorem ConfigPatch.ofMapping_lookup {ip : IpText} {document : Mapping} {patch : ConfigPatch}
    (h : ofMapping ip document = some patch) :
    (∀ field ∈ configPatch, field.read (FieldType.decode ip) (.record []) document =
      some (patch.fields.lookup field.name)) ∧
    (∀ name, name ∉ patchFields → patch.fields.lookup name = none) ∧
    (patch.toMapping.map Prod.fst).Nodup := by
  obtain ⟨fields, hfields, rfl⟩ := Option.map_eq_some_iff.mp h
  have hnodup : (configPatch.map Field.name).Nodup := by decide +kernel
  obtain ⟨hread, hother, hsub⟩ := decodeFields_lookup hnodup hfields
  refine ⟨hread, fun name hname => hother name (by rwa [tables_agree.1]), ?_⟩
  have hkeys : (toMapping ⟨fields⟩).map Prod.fst = fields.map Prod.fst := by
    simp [toMapping]
  rw [hkeys]
  exact hnodup.sublist hsub

theorem ConfigPatch.toMapping_get (patch : ConfigPatch) (root : String) :
    patch.toMapping.get root = (patch.fields.lookup root).map FieldValue.encode :=
  Assoc.lookup_map patch.fields FieldValue.encode root

/-- A changed nested struct of the desired document. -/
theorem rootCarried_record {ip : IpText} {root : String} {fields : List (Field LeafType)}
    {allowed : List String} (hroot : root = "tun" ∨ root = "tuic-server")
    (ht : NestedTable root fields allowed)
    (hmem : Field.opt root (.record fields) ∈ configPatch) {desired document : Mapping}
    {value filtered : Value} {patch : ConfigPatch} (hdesired : desired.get root = some value)
    (hfilter : filterMapping value allowed = .ok filtered)
    (hdocument : document.get root = some filtered)
    (henable : lacksEnable document root = false)
    (hpatch : ConfigPatch.ofMapping ip document = some patch) :
    RootCarried ip desired patch.toMapping root := by
  cases value with
  | mapping n =>
    obtain rfl : Value.mapping (n.filter fun e => allowed.contains e.1) = filtered := by
      simpa [filterMapping, Value.asMapping] using hfilter
    obtain ⟨b, hb⟩ := enable_of_not_lacksEnable henable hdocument
    have hread := (ConfigPatch.ofMapping_lookup hpatch).1 _ hmem
    simp only [Field.read, Field.opt, hdocument, reduceCtorEq, and_false, ite_false,
      FieldType.decode] at hread
    obtain ⟨fieldValue, hvalue, hlookup⟩ := Option.map_eq_some_iff.mp hread
    obtain ⟨out, hout, rfl⟩ := Option.map_eq_some_iff.mp hvalue
    refine .record hroot n (out.map fun e => (e.1, e.2.encode)) hdesired ?_ ?_
      (recordCarried ht hb hout)
    · rw [ConfigPatch.toMapping_get, ← hlookup]
      rfl
    · have hsub := (decodeFields_lookup (ht.names ▸ ht.nodup) hout).2.2
      rw [ht.names] at hsub
      have hkeys : (out.map fun e => (e.1, e.2.encode)).map Prod.fst = out.map Prod.fst := by
        simp
      rw [hkeys]
      exact ht.nodup.sublist hsub
  | _ => simp [filterMapping, Value.asMapping] at hfilter

/-- A changed leaf field of the desired document. -/
theorem rootCarried_leaf {ip : IpText} {root : String} {type : LeafType}
    (hroot : root ≠ "tun" ∧ root ≠ "tuic-server") (htype : leafTypeAt [root] = some type)
    (hmem : Field.opt root (.leaf type) ∈ configPatch) {desired document : Mapping}
    {value : Value} {patch : ConfigPatch} (hdesired : desired.get root = some value)
    (hdocument : document.get root = some value)
    (hpatch : ConfigPatch.ofMapping ip document = some patch) :
    RootCarried ip desired patch.toMapping root := by
  have hread := (ConfigPatch.ofMapping_lookup hpatch).1 _ hmem
  refine .leaf hroot type htype (by simp [hdesired]) ?_
  rw [ConfigPatch.toMapping_get, hdesired]
  by_cases hnull : value = .null
  · simp only [Field.read, Field.opt, hdocument, hnull, and_self, ite_true,
      Option.some.injEq] at hread
    rw [← hread, hnull]
    exact .null
  · simp only [Field.read, Field.opt, hdocument, hnull, and_false, ite_false,
      FieldType.decode] at hread
    obtain ⟨fieldValue, hvalue, hlookup⟩ := Option.map_eq_some_iff.mp hread
    obtain ⟨leaf, hleaf, rfl⟩ := Option.map_eq_some_iff.mp hvalue
    rw [← hlookup]
    exact .value hnull hleaf

/-- A root that did not change is not in the serialization. -/
theorem toMapping_get_eq_none {ip : IpText} {document : Mapping} {patch : ConfigPatch}
    (hpatch : ConfigPatch.ofMapping ip document = some patch) {root : String}
    (hroot : document.get root = none) : patch.toMapping.get root = none := by
  obtain ⟨hread, hother, _⟩ := ConfigPatch.ofMapping_lookup hpatch
  have hoptional : ∀ field ∈ configPatch, field.optional = true := by decide +kernel
  rw [ConfigPatch.toMapping_get]
  by_cases hmem : root ∈ patchFields
  · obtain ⟨field, hfield, rfl⟩ := List.mem_map.mp (tables_agree.1 ▸ hmem)
    have := hread field hfield
    simp only [Field.read, hroot, hoptional field hfield, ite_true, Option.some.injEq] at this
    rw [← this]
    rfl
  · rw [hother root hmem]
    rfl

/-- What the result of `build_patch` is made of. -/
theorem buildPatch_eq_patch {ip : IpText} {desired : Mapping} {changes : List DiffEntry}
    {patch : ConfigPatch} {projection : RuntimeProjection}
    (h : buildPatch ip desired changes = .ok (.patch patch projection)) :
    ∃ document, patchDocument desired (changedRoots changes) [] = .ok (some document) ∧
      lacksEnable document "tun" = false ∧ lacksEnable document "tuic-server" = false ∧
      ConfigPatch.ofMapping ip document = some patch ∧
      projection.expected = collectLeaves [] (.mapping patch.toMapping) := by
  rw [buildPatch] at h
  split at h
  next => cases h
  next => cases h
  next document hdocument =>
    split at h
    next => cases h
    next henable =>
      rw [Bool.or_eq_true, not_or, Bool.not_eq_true, Bool.not_eq_true] at henable
      split at h
      next => cases h
      next patch' hpatch =>
        cases h
        exact ⟨document, hdocument, henable.1, henable.2, hpatch, rfl⟩

/-- What `classify_documents` has checked when it patches. -/
theorem classifyDocuments_eq_patch {ip : IpText} {current desired : Mapping} {patch : ConfigPatch}
    {projection : RuntimeProjection}
    (h : classifyDocuments ip current desired = .ok (.patch patch projection)) :
    (∀ e ∈ diff current desired, patchable e = true) ∧
      buildPatch ip desired (diff current desired) = .ok (.patch patch projection) := by
  simp only [classifyDocuments] at h
  split at h
  · cases h
  · split at h
    · cases h
    · split at h
      · rename_i hall
        exact ⟨List.all_eq_true.mp hall, h⟩
      · split at h <;> cases h

/-- A patchable change names a root of the patch body. -/
theorem root_of_patchable {e : DiffEntry} (h : patchable e = true) :
    ∃ root path value, e.path = root :: path ∧ e.new = some value ∧ root ∈ patchFields ∧
      patchNestedPathIsSupported (root :: path) = true := by
  obtain ⟨path, new⟩ := e
  cases path with
  | nil => simp [patchable] at h
  | cons root path =>
    cases new with
    | none => simp [patchable] at h
    | some value =>
      simp only [patchable, Option.isSome_some, List.head?_cons, Option.any_some, Bool.true_and,
        Bool.and_eq_true, List.contains_iff_mem] at h
      exact ⟨root, path, value, rfl, rfl, h.1, h.2⟩

theorem filterMapping_of_map {value : Value} {allowed : List String} {out : Option Value}
    (h : (filterMapping value allowed).map some = .ok out) :
    ∃ filtered, filterMapping value allowed = .ok filtered ∧ out = some filtered := by
  cases hfilter : filterMapping value allowed with
  | error error => simp [hfilter, Except.map] at h
  | ok filtered => exact ⟨filtered, rfl, by simpa [hfilter, Except.map] using h.symm⟩

/-- **Inversion of a patch.** -/
theorem classifyDocuments_patched {ip : IpText} {current desired : Mapping} {patch : ConfigPatch}
    {projection : RuntimeProjection}
    (h : classifyDocuments ip current desired = .ok (.patch patch projection)) :
    Patched ip current desired patch ∧
      projection.expected = collectLeaves [] (.mapping patch.toMapping) := by
  obtain ⟨hchanges, hbuild⟩ := classifyDocuments_eq_patch h
  obtain ⟨document, hdocument, htun, htuic, hpatch, hprojection⟩ := buildPatch_eq_patch hbuild
  obtain ⟨hin, hout⟩ := patchDocument_get (nodup_keySet _ _) hdocument
  refine ⟨⟨hchanges, (ConfigPatch.ofMapping_lookup hpatch).2.2, fun root hroot => ?_,
    fun root hroot => ?_⟩, hprojection⟩
  · exact toMapping_get_eq_none hpatch (hout root hroot)
  · obtain ⟨value, hvalue, hget⟩ := hin root hroot
    obtain ⟨e, he, hhead⟩ := mem_changedRoots.mp hroot
    obtain ⟨root', path, _, hpath, _, hfield, _⟩ := root_of_patchable (hchanges e he)
    obtain rfl : root' = root := by simpa [hpath] using hhead
    rw [patchRoot] at hvalue
    cases hdesired : desired.get root' with
    | none => simp [hdesired] at hvalue
    | some v =>
      simp only [hdesired] at hvalue
      rcases patchFields_cases root' hfield with
        rfl | rfl | ⟨hne, hne', ⟨_, type⟩, hmem, rfl, hconfig⟩
      · obtain ⟨filtered, hfilter, hsome⟩ := filterMapping_of_map (by simpa using hvalue)
        exact rootCarried_record (Or.inl rfl) tun_nestedTable tun_mem_configPatch hdesired hfilter
          (hget.trans hsome) htun hpatch
      · obtain ⟨filtered, hfilter, hsome⟩ := filterMapping_of_map (by simpa using hvalue)
        exact rootCarried_record (Or.inr rfl) tuicServer_nestedTable tuicServer_mem_configPatch
          hdesired hfilter
          (hget.trans hsome) htuic hpatch
      · rw [if_neg hne, if_neg hne'] at hvalue
        cases hvalue
        exact rootCarried_leaf ⟨hne, hne'⟩ (leafTypeAt_of_mem _ hmem) hconfig hdesired hget hpatch

end Nyanpasu.Config
