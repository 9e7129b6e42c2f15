import Nyanpasu.Lib.Assoc
import Mathlib.Data.Rat.Defs
import Mathlib.Data.String.Basic

/-!
# YAML documents

The values a runtime config is made of after `canonicalize` has accepted it:
mapping keys are strings and tagged values do not occur. A canonical value lists
the keys of every mapping in strictly increasing order, so structural equality is
the equality the source uses.
-/

namespace Nyanpasu.Config

/-- A floating-point scalar up to the equality of `serde_yaml_ng::Number`, which
identifies all NaNs and the two zeros. -/
inductive YamlFloat where
  | nan
  | infinite (negative : Bool)
  | finite (value : ℚ)
  deriving DecidableEq, Repr

/-- A YAML number: an integer (`u64` or negative `i64`) or a float. -/
inductive Number where
  | int (value : ℤ)
  | float (value : YamlFloat)
  deriving DecidableEq, Repr

/-- A string-keyed, untagged YAML value. -/
inductive Value where
  | null
  | bool (value : Bool)
  | number (value : Number)
  | string (value : String)
  | sequence (items : List Value)
  | mapping (entries : List (String × Value))
  deriving Repr, Inhabited

/-- The entries of a mapping in their insertion order. -/
abbrev Mapping := List (String × Value)

mutual

/-- Structural equality of values is decidable. -/
def Value.decEq : (v w : Value) → Decidable (v = w)
  | .null, .null => isTrue rfl
  | .bool a, .bool b => decidable_of_iff (a = b) (by simp)
  | .number a, .number b => decidable_of_iff (a = b) (by simp)
  | .string a, .string b => decidable_of_iff (a = b) (by simp)
  | .sequence a, .sequence b =>
      have := decEqItems a b
      decidable_of_iff (a = b) (by simp)
  | .mapping a, .mapping b =>
      have := decEqEntries a b
      decidable_of_iff (a = b) (by simp)
  | .null, .bool _ | .null, .number _ | .null, .string _ | .null, .sequence _
  | .null, .mapping _ | .bool _, .null | .bool _, .number _ | .bool _, .string _
  | .bool _, .sequence _ | .bool _, .mapping _ | .number _, .null | .number _, .bool _
  | .number _, .string _ | .number _, .sequence _ | .number _, .mapping _
  | .string _, .null | .string _, .bool _ | .string _, .number _ | .string _, .sequence _
  | .string _, .mapping _ | .sequence _, .null | .sequence _, .bool _
  | .sequence _, .number _ | .sequence _, .string _ | .sequence _, .mapping _
  | .mapping _, .null | .mapping _, .bool _ | .mapping _, .number _ | .mapping _, .string _
  | .mapping _, .sequence _ => isFalse (by simp)

/-- Equality of sequences, item by item. -/
def decEqItems : (v w : List Value) → Decidable (v = w)
  | [], [] => isTrue rfl
  | a :: as, b :: bs =>
      have := Value.decEq a b
      have := decEqItems as bs
      decidable_of_iff (a = b ∧ as = bs) (by simp)
  | [], _ :: _ | _ :: _, [] => isFalse (by simp)

/-- Equality of mappings, entry by entry. -/
def decEqEntries : (v w : List (String × Value)) → Decidable (v = w)
  | [], [] => isTrue rfl
  | (k, a) :: as, (l, b) :: bs =>
      have := Value.decEq a b
      have := decEqEntries as bs
      decidable_of_iff (k = l ∧ a = b ∧ as = bs) (by simp [and_assoc])
  | [], _ :: _ | _ :: _, [] => isFalse (by simp)

end

instance : DecidableEq Value := Value.decEq

/-- `Value::as_mapping`. -/
def Value.asMapping : Value → Option Mapping
  | .mapping entries => some entries
  | _ => none

/-- `Value::as_str`. -/
def Value.asStr : Value → Option String
  | .string value => some value
  | _ => none

/-- `Value::as_bool`. -/
def Value.asBool : Value → Option Bool
  | .bool value => some value
  | _ => none

/-- `Value::as_i64`: only integers that fit the signed 64-bit range. -/
def Value.asI64 : Value → Option ℤ
  | .number (.int value) =>
      if -9223372036854775808 ≤ value ∧ value < 9223372036854775808 then some value else none
  | _ => none

/-- `Mapping::get` with a string key. -/
def Mapping.get (m : Mapping) (key : String) : Option Value := m.lookup key

/-- `Mapping::insert` with a string key. -/
def Mapping.insert (m : Mapping) (key : String) (value : Value) : Mapping :=
  Assoc.insert m key value

/-- `Mapping::remove` with a string key. The order of the entries that stay is not
modelled: every caller canonicalizes the document afterwards. -/
def Mapping.remove (m : Mapping) (key : String) : Mapping := Assoc.erase m key

/-- `Mapping::keys`. -/
def Mapping.keys (m : Mapping) : List String := m.map Prod.fst

@[simp] theorem Mapping.get_insert (m : Mapping) (key key' : String) (value : Value) :
    (m.insert key value).get key' = if key' = key then some value else m.get key' :=
  Assoc.lookup_insert m key key' value

@[simp] theorem Mapping.get_remove (m : Mapping) (key key' : String) :
    (m.remove key).get key' = if key' = key then none else m.get key' :=
  Assoc.lookup_erase m key key'

theorem Mapping.get_ne_none_iff {m : Mapping} {key : String} :
    m.get key ≠ none ↔ key ∈ m.keys := Assoc.lookup_ne_none_iff

@[simp] theorem Value.asMapping_mapping (m : Mapping) : (Value.mapping m).asMapping = some m := rfl

@[simp] theorem Value.asMapping_eq_some {v : Value} {m : Mapping} :
    v.asMapping = some m ↔ v = .mapping m := by
  cases v <;> simp [asMapping]

@[simp] theorem Value.asStr_eq_some {v : Value} {s : String} :
    v.asStr = some s ↔ v = .string s := by
  cases v <;> simp [asStr]

@[simp] theorem Value.asBool_eq_some {v : Value} {b : Bool} :
    v.asBool = some b ↔ v = .bool b := by
  cases v <;> simp [asBool]

/-- A value read as an `i64` is that integer. -/
theorem Value.eq_of_asI64 {v : Value} {z : ℤ} (h : v.asI64 = some z) : v = .number (.int z) := by
  unfold asI64 at h
  split at h
  · split at h
    · cases h
      rfl
    · cases h
  · cases h

mutual

/-- The number of nodes of a value, the measure of recursive traversals. -/
def Value.size : Value → ℕ
  | .sequence items => sizeItems items + 1
  | .mapping entries => sizeEntries entries + 1
  | .null | .bool _ | .number _ | .string _ => 1

/-- The number of nodes of a sequence. -/
def sizeItems : List Value → ℕ
  | [] => 0
  | v :: vs => v.size + sizeItems vs

/-- The number of nodes of the entries of a mapping. -/
def sizeEntries : List (String × Value) → ℕ
  | [] => 0
  | (_, v) :: es => v.size + sizeEntries es

end

theorem Value.size_pos (v : Value) : 0 < v.size := by
  cases v <;> simp [size]

/-- A value found in a mapping is smaller than the mapping. -/
theorem Mapping.size_get_lt {m : Mapping} {key : String} {v : Value} (h : m.get key = some v) :
    v.size < (Value.mapping m).size := by
  have hle : ∀ {entries : List (String × Value)}, (key, v) ∈ entries →
      v.size ≤ sizeEntries entries := by
    intro entries hmem
    induction entries with
    | nil => simp at hmem
    | cons e es ih =>
      rcases List.mem_cons.mp hmem with rfl | hmem
      · simp [sizeEntries]
      · have := ih hmem
        simp only [sizeEntries]
        omega
  have := hle (Assoc.mem_of_lookup h)
  simp only [Value.size]
  omega

mutual

/-- Canonical form: at every depth the keys of a mapping increase strictly. -/
def Value.Canonical : Value → Prop
  | .sequence items => CanonicalItems items
  | .mapping entries => (entries.map Prod.fst).Pairwise (· < ·) ∧ CanonicalEntries entries
  | .null | .bool _ | .number _ | .string _ => True

/-- Canonical form of every item of a sequence. -/
def CanonicalItems : List Value → Prop
  | [] => True
  | v :: vs => v.Canonical ∧ CanonicalItems vs

/-- Canonical form of every value of a mapping. -/
def CanonicalEntries : List (String × Value) → Prop
  | [] => True
  | (_, v) :: es => v.Canonical ∧ CanonicalEntries es

end

mutual

/-- Canonical form is decidable. -/
def Value.decCanonical : (v : Value) → Decidable v.Canonical
  | .sequence items =>
      have := decCanonicalItems items
      decidable_of_iff (CanonicalItems items) (by simp [Value.Canonical])
  | .mapping entries =>
      have := decCanonicalEntries entries
      decidable_of_iff ((entries.map Prod.fst).Pairwise (· < ·) ∧ CanonicalEntries entries)
        (by simp [Value.Canonical])
  | .null | .bool _ | .number _ | .string _ => isTrue (by simp [Value.Canonical])

/-- Canonical form of the items of a sequence is decidable. -/
def decCanonicalItems : (items : List Value) → Decidable (CanonicalItems items)
  | [] => isTrue (by simp [CanonicalItems])
  | v :: vs =>
      have := Value.decCanonical v
      have := decCanonicalItems vs
      decidable_of_iff (v.Canonical ∧ CanonicalItems vs) (by simp [CanonicalItems])

/-- Canonical form of the values of a mapping is decidable. -/
def decCanonicalEntries : (entries : List (String × Value)) →
    Decidable (CanonicalEntries entries)
  | [] => isTrue (by simp [CanonicalEntries])
  | (_, v) :: es =>
      have := Value.decCanonical v
      have := decCanonicalEntries es
      decidable_of_iff (v.Canonical ∧ CanonicalEntries es) (by simp [CanonicalEntries])

end

instance (v : Value) : Decidable v.Canonical := v.decCanonical

/-- Every value of a canonical mapping is canonical. -/
theorem Value.Canonical.get {m : Mapping} {key : String} {v : Value}
    (hm : (Value.mapping m).Canonical) (h : m.get key = some v) : v.Canonical := by
  have hall : ∀ {entries : List (String × Value)}, CanonicalEntries entries →
      (key, v) ∈ entries → v.Canonical := by
    intro entries hentries hmem
    induction entries with
    | nil => simp at hmem
    | cons e es ih =>
      simp only [CanonicalEntries] at hentries
      rcases List.mem_cons.mp hmem with rfl | hmem
      · exact hentries.1
      · exact ih hentries.2 hmem
  simp only [Value.Canonical] at hm
  exact hall hm.2 (Assoc.mem_of_lookup h)

/-- Canonical mappings with the same lookups are the same mapping. -/
theorem Mapping.ext_of_canonical {m n : Mapping} (hm : (Value.mapping m).Canonical)
    (hn : (Value.mapping n).Canonical) (h : ∀ key, m.get key = n.get key) : m = n := by
  simp only [Value.Canonical] at hm hn
  exact Assoc.eq_of_lookup_eq hm.1 hn.1 h

/-- A canonical document: the mapping at the top level of an accepted config. -/
structure Document where
  /-- The root entries. -/
  entries : Mapping
  /-- Keys increase strictly at every depth. -/
  canonical : (Value.mapping entries).Canonical

/-- Documents are equal when their entries are. -/
theorem Document.ext_entries {a b : Document} (h : a.entries = b.entries) : a = b := by
  cases a
  cases b
  simpa using h

instance : DecidableEq Document := fun a b =>
  decidable_of_iff (a.entries = b.entries) ⟨Document.ext_entries, fun h => h ▸ rfl⟩

/-- `value_at`: follow a path of mapping keys. -/
def valueAt (value : Value) : List String → Option Value
  | [] => some value
  | key :: path => (value.asMapping.bind (·.get key)).bind (valueAt · path)

@[simp] theorem valueAt_nil (v : Value) : valueAt v [] = some v := rfl

@[simp] theorem valueAt_cons (v : Value) (key : String) (path : List String) :
    valueAt v (key :: path) = (v.asMapping.bind (·.get key)).bind (valueAt · path) := rfl

theorem valueAt_root (m : Mapping) (root : String) (rest : List String) :
    valueAt (.mapping m) (root :: rest) = (m.get root).bind (valueAt · rest) := rfl

theorem valueAt_singleton (m : Mapping) (root : String) :
    valueAt (.mapping m) [root] = m.get root := by
  simp

/-- Following a concatenated path is following its two parts. -/
theorem valueAt_append (v : Value) (p q : List String) :
    valueAt v (p ++ q) = (valueAt v p).bind (valueAt · q) := by
  induction p generalizing v with
  | nil => rfl
  | cons key p ih =>
    rw [List.cons_append, valueAt_cons, valueAt_cons]
    cases v.asMapping.bind (·.get key) with
    | none => rfl
    | some w => exact ih w

end Nyanpasu.Config
