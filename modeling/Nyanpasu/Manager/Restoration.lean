import Nyanpasu.Config.Restore
import Nyanpasu.Config.Soundness
import Nyanpasu.Manager.Switching

/-!
# Admission to a graceful switch

The switch matrix picks the graceful path by `overlap_block`, and `prepare_graceful` then
refuses a document whose bootstrap cannot be restored. A hard switch has no such check, so
the two agree on a document exactly when the restoration exists.
-/

namespace Nyanpasu.Manager

open Config

/-- A program that, answered `managed` whenever it asks for the endpoint of the epoch,
comes to stage the document: it has refused nothing so far. -/
inductive Stages {α : Type} (managed : Except Error String) (epoch : ℕ) (bytes : List UInt8) :
    Action (Except Error α) → Prop where
  | asks (next : Answer (.endpoint epoch) → Action (Except Error α))
      (h : Stages managed epoch bytes (next managed)) :
      Stages managed epoch bytes (.call (.endpoint epoch) next)
  | stages (next : Artifact → Action (Except Error α)) :
      Stages managed epoch bytes ((stage epoch bytes).andThen next)

section Admission

variable {options : Options} {spec : InstanceSpec} {epoch : ℕ} {snapshot : ConfigSnapshot}
  {resolved : ResolvedFeatures} {managed : Except Error String} {full bootstrap : PreparedConfig}

/-- A hard switch stages every document that `prepare_full` accepts. -/
theorem prepareLaunchWithFeatures_stages
    (hfull : snapshot.prepareFull options.site (fun _ => managed) epoch resolved.runtime =
      .ok full) :
    Stages managed epoch full.bytes
      (prepareLaunchWithFeatures options spec epoch snapshot resolved) := by
  refine .asks _ ?_
  simp only [Program.bind, hfull]
  exact .stages _

/-- `prepare_graceful` stages it too, once the bootstrap is restored. -/
theorem prepareGraceful_stages
    (hfull : snapshot.prepareFull options.site (fun _ => managed) epoch resolved.runtime =
      .ok full)
    (hbootstrap : snapshot.prepareBootstrap options.site (fun _ => managed) epoch
      resolved.runtime = .ok bootstrap)
    (h : Restores options.ip snapshot.document.entries bootstrap full) :
    Stages managed epoch full.bytes (prepareGraceful options spec epoch snapshot resolved) := by
  obtain ⟨restoration, hrestoration⟩ := h.restored
  refine .asks _ ?_
  simp only [Program.bind, hfull]
  refine .asks _ ?_
  simp only [Program.bind, hbootstrap]
  change Stages managed epoch full.bytes
    (if full.controller ≠ bootstrap.controller then _ else _)
  rw [if_neg (not_not.mpr h.controller), hrestoration]
  exact .stages _

end Admission

/-- **Graceful admission, exactly.** A document that `overlap_block` lets pass has a
restorable bootstrap, and `prepare_graceful` refuses no document that a hard switch would
take, exactly when every field of an enabled tun is null or of the type of `TunPatch`. -/
theorem graceful_admits_iff (options : Options) (spec : InstanceSpec) (epoch : ℕ)
    (snapshot : ConfigSnapshot) (resolved : ResolvedFeatures) (managed : Except Error String)
    {full bootstrap : PreparedConfig}
    (hfull : snapshot.prepareFull options.site (fun _ => managed) epoch resolved.runtime =
      .ok full)
    (hbootstrap : snapshot.prepareBootstrap options.site (fun _ => managed) epoch
      resolved.runtime = .ok bootstrap) :
    (overlapBlock snapshot.document.entries = none →
      Restores options.ip snapshot.document.entries bootstrap full ∧
        (Stages managed epoch full.bytes
            (prepareLaunchWithFeatures options spec epoch snapshot resolved) →
          Stages managed epoch full.bytes
            (prepareGraceful options spec epoch snapshot resolved))) ↔
      (overlapBlock snapshot.document.entries = none →
        Restorable options.ip snapshot.document.entries) := by
  have hrestores := prepared_restores_iff options.ip hfull hbootstrap
  constructor
  · intro h hpass
    exact hrestores.mp (h hpass).1
  · intro h hpass
    have hrestored := hrestores.mpr (h hpass)
    exact ⟨hrestored, fun _ => prepareGraceful_stages hfull hbootstrap hrestored⟩

/-- A source document with an enabled tun and one more port. -/
def tunSnapshot (device : Value) : ConfigSnapshot where
  sourcePath := .external "source.yaml"
  document := .canonicalize [("mixed-port", .number (.int 7890)),
    ("tun", .mapping [("device", device), ("enable", .bool true)])]
  sourceHash := ""

/-- The YAML text of a device name. -/
def deviceText : Value → String
  | .string name => name
  | .number (.int number) => toString number
  | _ => "null"

/-- The YAML text of the documents prepared from a `tunSnapshot`. -/
def tunText (document : Mapping) : Option String := do
  let controller ← (← document.get "external-controller-unix").asStr
  let port ← (← document.get "mixed-port").asI64
  let tun ← (← document.get "tun").asMapping
  let device ← tun.get "device"
  let enable ← (← tun.get "enable").asBool
  return "external-controller-unix: " ++ controller ++ "\nmixed-port: " ++ toString port ++
    "\ntun:\n  device: " ++ deviceText device ++ "\n  enable: " ++ toString enable ++ "\n"

/-- A manager that serializes the documents of `tunSnapshot`. -/
def tunOptions : Options where
  site := {
    platform := .unix
    http := fun address => .ok (.http ("http://" ++ address ++ "/"))
    serialize := fun document =>
      match tunText document with
      | some text => .ok text.toUTF8.data.toList
      | none => .error (.yaml "not a `tunSnapshot`") }
  ip := plainIpText
  debugOptions := fun _ => "InstanceOptions"
  runtimeDir := "/run"
  processId := 7
  stopTimeout := "10s"

/-- The two prepared configs of a `tunSnapshot`. -/
def tunPrepared (device : Value) (zero : Bool) : Except Error PreparedConfig :=
  (tunSnapshot device).prepare tunOptions.site (fun _ => .ok "/run/core-2.sock") 2
    [.localIpc] zero

theorem exists_prepared {x : Except Error PreparedConfig} (h : x.toOption.isSome = true) :
    ∃ prepared, x = .ok prepared := by
  cases x with
  | error error => simp [Except.toOption] at h
  | ok prepared => exact ⟨prepared, rfl⟩

/-- A named device is restored. -/
theorem graceful_admits_named_device :
    ∃ full bootstrap, tunPrepared (.string "utun7") false = .ok full ∧
      tunPrepared (.string "utun7") true = .ok bootstrap ∧
      Restores plainIpText (tunSnapshot (.string "utun7")).document.entries bootstrap
        full := by
  obtain ⟨full, hfull⟩ := exists_prepared
    (x := tunPrepared (.string "utun7") false) (by decide +kernel)
  obtain ⟨bootstrap, hbootstrap⟩ := exists_prepared
    (x := tunPrepared (.string "utun7") true) (by decide +kernel)
  refine ⟨full, bootstrap, hfull, hbootstrap, ?_⟩
  have hiff := graceful_admits_iff tunOptions mihomoSpec 2 _
    ⟨[.unixSocketIpc], [.localIpc], none⟩ _ hfull hbootstrap
  refine (hiff.mpr (fun _ => ?_) (by decide +kernel)).1
  rintro tun ⟨htun, _⟩ field hfield value hvalue
  have hget : (tunSnapshot (.string "utun7")).document.entries.get "tun" =
      some (.mapping [("device", .string "utun7"), ("enable", .bool true)]) := by decide +kernel
  obtain rfl : [("device", .string "utun7"), ("enable", .bool true)] = tun := by
    simpa using hget.symm.trans htun
  have hdecoded : ∀ field ∈ tunPatch, ∀ value ∈ Mapping.get
      [("device", .string "utun7"), ("enable", .bool true)] field.name,
      (field.type.decode plainIpText value).isSome = true := by decide +kernel
  exact Or.inr (Option.isSome_iff_exists.mp (hdecoded field hfield value hvalue))

/-- A numbered device is not: `overlap_block` lets it pass and the patch cannot carry it. -/
theorem graceful_refuses_numbered_device :
    ¬ ∀ (options : Options) (spec : InstanceSpec) (epoch : ℕ) (snapshot : ConfigSnapshot)
        (resolved : ResolvedFeatures) (managed : Except Error String)
        (full bootstrap : PreparedConfig),
      snapshot.prepareFull options.site (fun _ => managed) epoch resolved.runtime = .ok full →
      snapshot.prepareBootstrap options.site (fun _ => managed) epoch resolved.runtime =
        .ok bootstrap →
      overlapBlock snapshot.document.entries = none →
      Restores options.ip snapshot.document.entries bootstrap full ∧
        (Stages managed epoch full.bytes
            (prepareLaunchWithFeatures options spec epoch snapshot resolved) →
          Stages managed epoch full.bytes
            (prepareGraceful options spec epoch snapshot resolved)) := by
  intro h
  obtain ⟨full, hfull⟩ := exists_prepared
    (x := tunPrepared (.number (.int 7)) false) (by decide +kernel)
  obtain ⟨bootstrap, hbootstrap⟩ := exists_prepared
    (x := tunPrepared (.number (.int 7)) true) (by decide +kernel)
  have hrestores := (h tunOptions mihomoSpec 2 _ ⟨[.unixSocketIpc], [.localIpc], none⟩ _ full
    bootstrap hfull hbootstrap (by decide +kernel)).1
  have hrestorable := (prepared_restores_iff plainIpText hfull hbootstrap).mp hrestores
  rcases hrestorable [("device", .number (.int 7)), ("enable", .bool true)]
    ⟨by decide +kernel, by decide +kernel⟩ (.opt "device" (.scalar .string)) (by decide +kernel)
    (.number (.int 7)) (by decide +kernel) with ⟨_, hnull⟩ | ⟨leaf, hleaf⟩
  · cases hnull
  · simp [Field.opt, LeafType.decode, ScalarType.decode, Value.asStr] at hleaf

end Nyanpasu.Manager
