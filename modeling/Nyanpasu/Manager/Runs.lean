import Mathlib.Data.List.Pairwise
import Nyanpasu.Config.Soundness
import Nyanpasu.Manager.RecoverLaws

/-!
# Runs of the manager

Any number of clients send requests, which are served one at a time under the control lock.
Every request keeps the world settled and meets a contract between the worlds in which it
got and gave back the lock. What the invariant says about the history then holds in every
run: processes are launched safely, the committed file is the active revision, and no
update is lost.
-/

namespace Nyanpasu.Manager

open Config Machine Serial

variable {options : Options} {b w w' : World} {α : Type}

/-- The plant in which every request runs to its end. -/
def completing (options : Options) :
    Plant Effect Answer World Request (Except Error Outcome) := plant options fun _ => False

/-- The configurations that a manager reaches when no request is dropped. -/
def Run (options : Options) : Config Effect Answer World Request (Except Error Outcome) → Prop :=
  Reach (completing options) (Built options)

/-- What the result of a request says about the worlds before and after it. -/
def Request.Contract (options : Options) :
    Request → World → Except Error Outcome → World → Prop
  | .start spec, b, result, w => SwitchResult spec b.nextEpoch b w result
  | .switch spec, b, result, w => SwitchResult spec b.nextEpoch b w result
  | .restart, b, result, w =>
      (b.ctrl.lastSpec = none ∧ w.ctrl = b.ctrl ∧ w.ledger = b.ledger ∧
        ∃ error, result = .error error) ∨
      ∃ spec, b.ctrl.lastSpec = some spec ∧ SwitchResult spec b.nextEpoch b w result
  | .apply input expected, b, result, w =>
      ∃ applied : Except Error ApplyOutcome, result = applied.map .applied ∧
        ApplyContract options input b applied w ∧ Guarded expected b applied w
  | .stop, b, _, w => StopResult b w
  | .shutdown, b, _, w => StopResult b w
  | .recover, b, _, w => w.ctrl.current = b.ctrl.current ∧ w.ledger = b.ledger

/-- The rule for an operation whose value is wrapped. -/
theorem wp_wrap {cut : World → Prop} {p : Action (Except Error α)} {f : α → Outcome}
    {Q : Except Error α → World → Prop} {post : Except Error Outcome → World → Prop}
    (hp : machine.wp cut p Q w)
    (hpost : ∀ result w, Q result w → post (result.map f) w) :
    machine.wp cut (p.andThen fun value => return .ok (f value)) post w :=
  wp_andThen hp (fun value w hQ => hpost (.ok value) w hQ) fun error w hQ =>
    hpost (.error error) w hQ

theorem SwitchResult.map {spec : InstanceSpec} {epoch : ℕ} {f : α → Outcome}
    {result : Except Error α} (h : SwitchResult spec epoch b w result) :
    SwitchResult spec epoch b w (result.map f) := by
  cases result with
  | ok value => exact h.ok (f value)
  | error error => exact h.error error

/-- Every request keeps the world settled and meets its contract. -/
theorem request_spec (request : Request) (h : Settled options.site w) :
    machine.wp (Cut options.site) (request.program options) (fun result w' =>
      Settled options.site w' ∧ request.Contract options w result w') w := by
  cases request with
  | start spec => exact wp_wrap (start_spec h) fun _ _ hdone => ⟨hdone.1, hdone.2.switchResult.map⟩
  | stop => exact wp_wrap (stop_spec h) fun _ _ hdone => hdone
  | switch spec => exact wp_wrap (switch_spec h) fun _ _ hdone => ⟨hdone.1, hdone.2.map⟩
  | restart =>
    refine wp_wrap (restart_spec h) ?_
    rintro result w' ⟨hsettled, ⟨hlast, hctrl, hledger, error, rfl⟩ | ⟨spec, hlast, hdone⟩⟩
    · exact ⟨hsettled, Or.inl ⟨hlast, hctrl, hledger, error, rfl⟩⟩
    · exact ⟨hsettled, Or.inr ⟨spec, hlast, hdone.map⟩⟩
  | apply input expected =>
    exact wp_wrap (applyConfig_spec h) fun result _ hdone => ⟨hdone.1, result, rfl, hdone.2⟩
  | recover => exact wp_wrap (recoverQuarantine_spec h) fun _ _ hdone => hdone
  | shutdown => exact wp_wrap (shutdown_spec h) fun _ _ hdone => hdone

section Environment

/-! An environment that answers every effect, so that runs can be played. -/

instance (w : World) (effect : Effect) (answer : Answer effect) :
    Decidable (w.allowed effect answer) := by
  cases effect <;> dsimp only [World.allowed] <;> infer_instance

instance (s : World) (effect : Effect) (answer : Answer effect) :
    Decidable ((completing options).machine.allowed s effect answer) :=
  inferInstanceAs (Decidable (s.allowed effect answer))

instance (s : World) : Decidable ((completing options).cuts s) := inferInstanceAs (Decidable False)

/-- A manager of documents that are reached over HTTP. -/
def httpOptions : Options where
  site := httpSite
  ip := plainIpText
  debugOptions := fun _ => "InstanceOptions"
  runtimeDir := "/run"
  processId := 7
  stopTimeout := "10s"

/-- Everything succeeds, and every document that is read has the mode. -/
def smooth (mode : String) (w : World) : (effect : Effect) → Answer effect
  | .load path => .ok { httpSnapshot mode with sourcePath := path }
  | .metadata _ => true
  | .resolveFeatures _ => .ok ⟨[.unixSocketIpc], [.localIpc], none⟩
  | .endpoint epoch => .ok ("/run/core-" ++ toString epoch ++ ".sock")
  | .checkConfig _ => .ok ()
  | .probeClient _ => .ok ()
  | .controlClient _ => .ok ()
  | .patchConfig _ _ => .ok ()
  | .configs _ => .ok (.mapping [("mode", .string mode)])
  | .updateConfig _ _ => .ok ()
  | .probeNow _ => true
  | .failureSummary _ lifecycle => lifecycle
  | .diagnostics _ => ""
  | .probeTimeout _ => false
  | .elapsed => false
  | .shutdownSink => ()
  | .nextEpoch => w.nextEpoch
  | .ctrl => w.ctrl
  | .takeCurrent => w.ctrl.current
  | .setCurrent _ => ()
  | .setLastSpec _ => ()
  | .setQuarantine _ => ()
  | .publish _ => 0
  | .spawnForwarder _ => ()
  | .abortForwarder _ => ()
  | .spawn _ _ epoch _ => ⟨.ok w.spawned, [.pid epoch]⟩
  | .settle _ => some (.running 100)
  | .borrow _ => ⟨.running 100, some ⟨.healthy, 0, 0, none, some 0⟩⟩
  | .publishCell _ _ => ()
  | .takeSupervisor id => (w.processes id).supervisor
  | .supervisorStop _ => some (.ok ())
  | .takeMonitor id => (w.processes id).monitor
  | .joinMonitor _ => true
  | .abortMonitor _ => ()
  | .tryExists _ => .ok false
  | .reap _ => .ok .killed
  | .freshTemp => w.temps
  | .validateAbsent _ => .ok ()
  | .validateExisting _ => .ok ()
  | .createNew _ => .ok ()
  | .setPermissions _ => .ok ()
  | .writeAll _ _ => .ok ()
  | .read artifact => .ok ((w.files.lookup artifact).getD [])
  | .moveNew _ _ => .ok ()
  | .replace _ _ => .ok ()
  | .syncDir => .ok ()
  | .removeRegular _ => .ok ()
  | .socketKind _ => .ok .missing
  | .removeFile _ => .ok ()
  | .dropStaged _ => true
  | .readDir => .ok (w.files.map Prod.fst)
  | .nextEntry => .ok ()
  | .mark _ => ()

/-- A process that finds an empty runtime directory. -/
def blankWorld : World where
  ctrl := ⟨none, none, []⟩
  epoch := 0
  files := []
  temps := 0
  spawned := 0
  processes := fun _ => .fresh 0
  forwarders := []
  history := ⟨[], [], [], [], [], [], fun _ => [], [], [], [], [], false, false, false⟩

theorem built_blankWorld : Built httpOptions blankWorld := by
  refine ⟨blankWorld, blankWorld, 0, ⟨rfl, rfl, rfl, rfl, rfl, by simp [blankWorld]⟩, ?_, rfl⟩
  refine .call (.ok []) (by simp [machine, World.allowed, Except.toOption, blankWorld])
    (.call (.ok ()) trivial ?_)
  simp only [Program.bind, pure, List.mergeSort_nil, List.dedup_nil]
  exact .ret

/-- A process that finds the pid record of an epoch. -/
def orphanedWorld (epoch : ℕ) : World :=
  { blankWorld with
    files := [(.pid epoch, [])]
    history := { blankWorld.history with found := [.pid epoch] } }

/-- The manager that has swept the directory of the pid record. -/
def sweptWorld (epoch : ℕ) : World := { orphanedWorld epoch with epoch, files := [] }

/-- The recorded process is gone, and its artifacts are removed. -/
theorem built_sweptWorld {epoch : ℕ} (h : epoch < 2 ^ 64) (hne : epoch ≠ 0) :
    Built httpOptions (sweptWorld epoch) := by
  have hsorted : ([epoch].mergeSort (· ≤ ·)).dedup = [epoch] := by simp
  have hreaped : (orphanedWorld epoch).step (.reap epoch) (.ok .alreadyExited) =
      orphanedWorld epoch := by
    simp [World.step, World.observeEpoch, orphanedWorld, blankWorld, Process.fresh, Ne.symm hne]
  have hremoved : ((orphanedWorld epoch).step (.removeRegular (.config epoch)) (.ok ())).step
      (.removeRegular (.pid epoch)) (.ok ()) = { orphanedWorld epoch with files := [] } := by
    simp [World.step, World.setFiles, orphanedWorld, Assoc.erase]
  have hfound : machine.Runs artifactEpochs (orphanedWorld epoch) (.ok [epoch])
      (orphanedWorld epoch) := by
    refine .call (.ok [.pid epoch])
      (by simp [machine, World.allowed, Except.toOption, orphanedWorld])
      (.call (.ok ()) trivial (.call (.ok ()) trivial ?_))
    rw [← hsorted]
    exact .ret
  have hswept : machine.Runs (sweepEpochs httpOptions [epoch]) (orphanedWorld epoch) (.ok ())
      { orphanedWorld epoch with files := [] } := by
    refine .call (.ok true) trivial (.call (.ok .alreadyExited) trivial ?_)
    change machine.Runs _ ((orphanedWorld epoch).step (.reap epoch) (.ok .alreadyExited)) _ _
    rw [hreaped]
    refine .call (.ok ()) trivial (.call (.ok ()) trivial ?_)
    change machine.Runs _ (((orphanedWorld epoch).step (.removeRegular (.config epoch))
      (.ok ())).step (.removeRegular (.pid epoch)) (.ok ())) _ _
    rw [hremoved]
    exact .call (.ok .missing) (fun _ => rfl) (.call (.ok [])
      (by simp [machine, World.allowed, World.step, Except.toOption, orphanedWorld])
      (.call (.ok ()) trivial (.call (.ok ()) trivial .ret)))
  have hruns : machine.Runs (sweepOrphans httpOptions) (orphanedWorld epoch)
      (.ok ([epoch].foldr max 0)) { orphanedWorld epoch with files := [] } :=
    hfound.bind (hswept.bind .ret)
  have hmax : [epoch].foldr max 0 = epoch := by simp
  rw [hmax] at hruns
  exact ⟨orphanedWorld epoch, _, epoch, ⟨rfl, rfl, rfl, rfl, rfl, by
    simpa [orphanedWorld, blankWorld, Artifact.epoch] using h⟩, hruns, rfl⟩

/-- Play a run of requests from a world, each in its own environment. -/
def playFrom (w : World)
    (requests : List (Request × (World → (effect : Effect) → Answer effect))) :
    Option (Config Effect Answer World Request (Except Error Outcome)) :=
  play (completing httpOptions) (requests.map fun request => .serve 0 request.1 300 request.2)
    ⟨w, none, []⟩

/-- Play a run of requests, each in its own environment. -/
def playRequests (requests : List (Request × (World → (effect : Effect) → Answer effect))) :
    Option (Config Effect Answer World Request (Except Error Outcome)) :=
  playFrom blankWorld requests

/-- What is true of the end of a run that was played from a new manager is true of some
run. -/
theorem exists_runFrom (hbuilt : Built httpOptions w)
    (requests : List (Request × (World → (effect : Effect) → Answer effect)))
    {p : Config Effect Answer World Request (Except Error Outcome) → Bool}
    (h : (playFrom w requests).any p = true) : ∃ c, Run httpOptions c ∧ p c = true := by
  obtain ⟨c, hplayed, hc⟩ := (Option.any_eq_true p _).mp h
  exact ⟨c, Reach.play (.start hbuilt) hplayed, hc⟩

/-- What is true of the end of a run that was played is true of some run. -/
theorem exists_run (requests : List (Request × (World → (effect : Effect) → Answer effect)))
    {p : Config Effect Answer World Request (Except Error Outcome) → Bool}
    (h : (playRequests requests).any p = true) : ∃ c, Run httpOptions c ∧ p c = true :=
  exists_runFrom built_blankWorld requests h

end Environment

section Runs

variable {c : Config Effect Answer World Request (Except Error Outcome)}

/-- In a run of requests the free states are settled and the replies meet their contract. -/
theorem Run.sound (h : Run options c) :
    Sound (completing options) (Settled options.site) (Request.Contract options) c :=
  Reach.sound (fun _ hbuilt => hbuilt.settled)
    (fun request _ hsettled => wp_mono (request_spec request hsettled)
      (fun _ _ hcut => hcut.elim) fun _ _ => id)
    (fun d => d.elim) h

/-- No process of the manager is spawned beside another one or forgotten. -/
structure ProcessesKept (w : World) : Prop where
  /-- A process is spawned only when nothing is quarantined and every earlier process is
  proven dead, but for the current instance at the boot of a graceful switch. -/
  launches : ∀ launch ∈ w.history.launches, launch.Safe
  /-- No process is forgotten. -/
  custody : ∀ id < w.spawned, (w.processes id).provenDead = true ∨
    (w.processes id).epoch ∈ w.quarantined ∨
    ∃ active, w.ctrl.current = some active ∧ active.handle.id = id
  /-- An epoch whose stop was not confirmed is quarantined. -/
  unconfirmed : ∀ epoch ∈ w.history.unconfirmed, epoch ∈ w.quarantined
  /-- An epoch leaves the quarantine dead and cleaned. -/
  releases : ∀ release ∈ w.history.releases, release.Safe

/-- What the history says about the processes of the manager. -/
structure ProcessSafe (w : World) : Prop extends ProcessesKept w where
  /-- Every epoch is greater than those before it. -/
  allocated : w.history.allocated.Pairwise (· > ·)
  /-- Every epoch is greater than those found at construction. -/
  found : ∀ artifact ∈ w.history.found, ∀ epoch ∈ w.history.allocated, artifact.epoch < epoch

/-- Processes are kept in every run. -/
theorem Run.processesKept (h : Run options c) (hfree : c.active = none) :
    ProcessesKept c.state := by
  have hinv := (h.sound.free hfree).inv
  refine ⟨hinv.chronicle.launches, fun id hid => ?_, fun epoch hmem => ?_,
    hinv.chronicle.releases⟩
  · rcases hinv.custody.law id hid with hdead | hlisted | hpending | hheld
    · exact Or.inl hdead
    · exact Or.inr (Or.inl hlisted)
    · exact absurd hpending List.not_mem_nil
    · refine Or.inr (Or.inr ?_)
      simpa [World.held, Option.map_eq_some_iff] using hheld
  · exact (hinv.chronicle.unconfirmed epoch hmem).resolve_right List.not_mem_nil

/-- Processes are safe in the runs whose epoch counter has not wrapped, and in no other. -/
theorem process_safety (h : Run options c) (hfree : c.active = none) :
    ProcessSafe c.state ↔
      c.state.history.top + c.state.history.allocated.length < 2 ^ 64 := by
  have hchronicle := (h.sound.free hfree).inv.chronicle
  constructor
  · intro hsafe
    by_contra hfull
    have hzero : 0 ∈ c.state.history.allocated := by
      rw [hchronicle.allocated]
      exact Counter.zero_mem hchronicle.top (by omega)
    -- a manager that found an artifact has given out zero above it
    cases hfound : c.state.history.found with
    | cons artifact rest =>
      have hlt := hsafe.found artifact (by simp [hfound]) 0 hzero
      omega
    | nil =>
      have htop : c.state.history.top = 0 := by rw [History.top, hfound]; rfl
      have hpairwise := hsafe.allocated
      rw [hchronicle.allocated] at hpairwise
      exact Counter.not_pairwise_issued (by omega) (by omega) hpairwise
  · intro hroom
    refine ⟨h.processesKept hfree, ?_, fun artifact hmem epoch hepoch => ?_⟩
    · rw [hchronicle.allocated]
      exact Counter.pairwise_issued hroom
    · rw [hchronicle.allocated] at hepoch
      have habove := Counter.origin_lt hroom hepoch
      have hle : artifact.epoch ≤ c.state.history.top :=
        List.le_max_of_le' _ (List.mem_map_of_mem hmem) le_rfl
      omega

/-- A start, a graceful switch beside the running instance, and a stop. -/
theorem process_safety_switch : ∃ c, Run httpOptions c ∧ ProcessSafe c.state ∧
    c.state.history.launches.map (fun launch => (launch.epoch, launch.alive)) =
      [(2, [0]), (1, [])] := by
  obtain ⟨c, hrun, hc⟩ := exists_run
    [(.start mihomoSpec, smooth "rule"), (.switch mihomoSpec, smooth "rule"),
      (.stop, smooth "rule")]
    (p := fun c => c.active.isNone &&
      (decide (c.state.history.top + c.state.history.allocated.length < 2 ^ 64) &&
      (c.state.history.launches.map fun launch => (launch.epoch, launch.alive)) =
        [(2, [0]), (1, [])]))
    (by decide +kernel)
  simp only [Bool.and_eq_true, Option.isNone_iff_eq_none, decide_eq_true_eq] at hc
  exact ⟨c, hrun, (process_safety hrun hc.1).mpr hc.2.1, hc.2.2⟩

/-- A manager that finds the pid record of the last epoch starts with epoch zero. -/
theorem first_epoch_zero : ∃ c, Run httpOptions c ∧ c.active = none ∧
    c.state.history.found = [.pid (2 ^ 64 - 1)] ∧ c.state.history.allocated = [0] ∧
    ¬ ProcessSafe c.state := by
  have hbuilt : Built httpOptions (sweptWorld (2 ^ 64 - 1)) :=
    built_sweptWorld (by decide) (by decide)
  obtain ⟨c, hrun, hc⟩ := exists_runFrom hbuilt
    [(.start mihomoSpec, smooth "rule")]
    (p := fun c => c.active.isNone && (c.state.history.found = [.pid (2 ^ 64 - 1)] &&
      c.state.history.allocated = [0]))
    (by decide +kernel)
  simp only [Bool.and_eq_true, Option.isNone_iff_eq_none, decide_eq_true_eq] at hc
  obtain ⟨hfree, hfound, hallocated⟩ := hc
  refine ⟨c, hrun, hfree, hfound, hallocated, fun hsafe => ?_⟩
  have hlt := hsafe.found (.pid (2 ^ 64 - 1)) (by simp [hfound]) 0 (by simp [hallocated])
  omega

/-- In every run the file that the process of the active revision loads is the serialization
of the active document. -/
theorem committed_file {active : Active} (h : Run options c) (hfree : c.active = none)
    (hcurrent : c.state.ctrl.current = some active) :
    Committed options.site c.state active.revision active.effectiveDocument ∧
      active.handle.spec.configPath = active.revision.runtimePath := by
  have hsettled := h.sound.free hfree
  have hfile := hsettled.file active hcurrent
  have hok := hsettled.inv.chronicle.current active hcurrent
  exact ⟨hfile, by rw [hok.spec, hfile.path, hok.epoch]⟩

/-- The file after a start and an apply that patches it. -/
theorem committed_file_patched : ∃ c active, Run httpOptions c ∧
    c.state.ctrl.current = some active ∧ active.revision.generation = 2 ∧
    Committed httpSite c.state active.revision active.effectiveDocument := by
  obtain ⟨c, hrun, hc⟩ := exists_run
    [(.start mihomoSpec, smooth "rule"), (.apply mihomoSpec none, smooth "direct")]
    (p := fun c => c.active.isNone && c.state.ctrl.current.any (·.revision.generation = 2))
    (by decide +kernel)
  simp only [Bool.and_eq_true, Option.isNone_iff_eq_none, Option.any_eq_true,
    decide_eq_true_eq] at hc
  obtain ⟨hfree, active, hcurrent, hgeneration⟩ := hc
  exact ⟨c, active, hrun, hcurrent, hgeneration, (committed_file hrun hfree hcurrent).1⟩

end Runs

section CompareAndSwap

/-- The outcome inside of every durability warning. -/
def ApplyOutcome.innermost : ApplyOutcome → ApplyOutcome
  | .durabilityUncertain outcome _ => outcome.innermost
  | outcome => outcome

/-- Whether an outcome is a rollback. -/
def ApplyOutcome.isRolledBack (outcome : ApplyOutcome) : Bool :=
  match outcome.innermost with
  | .rolledBack _ _ => true
  | _ => false

/-- The revision of the install `x` is greater than that of `y`, the epoch first. -/
def Active.Above (x y : Active) : Prop :=
  y.revision.epoch < x.revision.epoch ∨
    (y.revision.epoch = x.revision.epoch ∧ y.revision.generation < x.revision.generation)

/-- What a request with a result may install: nothing, one newer revision, or, when it was
rolled back, the very revision it replaced. -/
inductive Advances (newer : Active → Active → Prop) (b : World) (result : Except Error Outcome)
    (w : World) : Prop
  | none : w.history.installs = b.history.installs → Advances newer b result w
  | later (active : Active) : w.history.installs = active :: b.history.installs →
      (∀ older ∈ b.history.installs, newer active older) → Advances newer b result w
  | rolledBack (outcome : ApplyOutcome) (old active : Active) :
      result = .ok (.applied outcome) → outcome.isRolledBack = true →
      b.ctrl.current = some old → w.history.installs = active :: b.history.installs →
      active.SameRevision old → Advances newer b result w

/-- The relation of the installs may be replaced by one that it implies for them. -/
theorem Advances.imp {newer newer' : Active → Active → Prop} {result : Except Error Outcome}
    (h : Advances newer b result w)
    (himp : ∀ x ∈ w.history.installs, ∀ y ∈ b.history.installs, newer x y → newer' x y) :
    Advances newer' b result w := by
  cases h with
  | none hsame => exact .none hsame
  | later active hinstalls hnewer =>
    refine .later active hinstalls fun older holder => ?_
    exact himp active (by simp [hinstalls]) older holder (hnewer older holder)
  | rolledBack outcome old active hresult hrolled hold hinstalls hsame =>
    exact .rolledBack outcome old active hresult hrolled hold hinstalls hsame

/-- An install of a new epoch is later than every other one. -/
theorem Settled.later_of_unused {active : Active} (h : Settled options.site w)
    (hinstalls : w.history.installs = active :: b.history.installs)
    (hunused : b.Unused active.revision.epoch) :
    ∀ older ∈ b.history.installs, active.Later w.history.top older := by
  intro older holder
  have hordered := h.inv.chronicle.ordered
  rw [hinstalls] at hordered
  rcases (List.pairwise_cons.mp hordered).1 older holder with hlater | hsame
  · exact hlater
  · exact absurd (congrArg ConfigRevision.epoch hsame.revision.symm) (hunused older holder)

theorem SwitchResult.advances {spec : InstanceSpec} {result : Except Error Outcome} {epoch : ℕ}
    (h : SwitchResult spec epoch b w result) (hafter : Settled options.site w) :
    Advances (Active.Later w.history.top) b result w := by
  cases h with
  | switched hinstalled hopens =>
    exact .later _ hinstalled.installs (hafter.later_of_unused hinstalled.installs hopens.unused)
  | kept _ hledger => exact .none (installs_of_ledger hledger)
  | ended _ hledger => exact .none (installs_of_ledger hledger)
  | uncleaned _ hledger hopens =>
    have hinstalls := congrArg Ledger.installs hledger
    exact .later _ hinstalls (hafter.later_of_unused hinstalls hopens.unused)

theorem ApplyOutcome.Holds.advances {input : InstanceSpec} {outcome inner : ApplyOutcome}
    (h : inner.Holds options input b w) (hbefore : Settled options.site b)
    (hafter : Settled options.site w) (htop : w.history.top = b.history.top)
    (hinner : outcome.innermost = inner.innermost) :
    Advances (Active.Later w.history.top) b (.ok (.applied outcome)) w := by
  have hnext : ∀ {revision}, NextGeneration options input b revision w →
      Advances (Active.Later w.history.top) b (.ok (.applied outcome)) w := by
    rintro _ ⟨old, active, hold, hdone, rfl, hepoch, hgeneration⟩
    have hfollows := hbefore.inv.chronicle.follows_current hold
    rw [htop]
    exact .later active hdone.installs (later_of_nextGeneration hepoch hgeneration hfollows)
  induction inner with
  | noop revision => exact .none (installs_of_ledger h.1.ledger)
  | patched revision => exact hnext h
  | reloaded revision => exact hnext h
  | restarted revision => exact hnext h
  | switched revision =>
    obtain ⟨active, hdone, rfl, -, -, hunused⟩ := h
    exact .later active hdone.installs (hafter.later_of_unused hdone.installs hunused)
  | rolledBack revision failedApply =>
    obtain ⟨old, active, hold, -, hledger, -, hactive, -, -⟩ := h
    refine .rolledBack outcome old active rfl ?_ hold (congrArg Ledger.installs hledger) ?_
    · simp [ApplyOutcome.isRolledBack, hinner, ApplyOutcome.innermost]
    · rw [hactive]
      exact ⟨rfl, rfl, rfl⟩
  | durabilityUncertain inner warning ih => exact ih h hinner

/-- The contract of a request says how the installs advance. -/
theorem Request.Contract.advances {request : Request} {result : Except Error Outcome}
    (h : request.Contract options b result w) (hbefore : Settled options.site b)
    (hafter : Settled options.site w) (htop : w.history.top = b.history.top) :
    Advances (Active.Later w.history.top) b result w := by
  cases request with
  | start spec => exact SwitchResult.advances h hafter
  | switch spec => exact SwitchResult.advances h hafter
  | restart =>
    rcases h with ⟨-, -, hledger, -⟩ | ⟨spec, -, h⟩
    · exact .none (installs_of_ledger hledger)
    · exact h.advances hafter
  | apply input expected =>
    obtain ⟨applied, rfl, hcontract, -⟩ := h
    cases applied with
    | ok outcome => exact ApplyOutcome.Holds.advances hcontract hbefore hafter htop rfl
    | error error =>
      rcases hcontract with huntouched | hended
      · exact .none (installs_of_ledger huntouched.ledger)
      · exact .none (installs_of_ledger hended.ledger)
  | stop => exact .none (installs_of_ledger h.ledger)
  | shutdown => exact .none (installs_of_ledger h.ledger)
  | recover => exact .none (installs_of_ledger h.2)

/-- Installs and epochs are only added. -/
structure Extends (w w' : World) : Prop where
  installs : w.history.installs <:+ w'.history.installs
  allocated : w.history.allocated <:+ w'.history.allocated
  found : w'.history.found = w.history.found

instance : IsPreorder World Extends where
  refl _ := ⟨List.suffix_rfl, List.suffix_rfl, rfl⟩
  trans _ _ _ h h' :=
    ⟨h.installs.trans h'.installs, h.allocated.trans h'.allocated, h'.found.trans h.found⟩

theorem Extends.top (h : Extends w w') : w'.history.top = w.history.top := by
  rw [History.top, History.top, h.found]

theorem extends_step (w : World) (effect : Effect) (answer : Answer effect) :
    Extends w (w.step effect answer) := by
  cases effect
  case setCurrent active => exact ⟨List.suffix_cons _ _, List.suffix_rfl, rfl⟩
  case nextEpoch => exact ⟨List.suffix_rfl, List.suffix_cons _ _, rfl⟩
  case mark point => cases point <;> exact ⟨List.suffix_rfl, List.suffix_rfl, rfl⟩
  case spawn site spec epoch controller =>
    obtain ⟨result, artifacts⟩ := answer
    cases result <;> exact ⟨List.suffix_rfl, List.suffix_rfl, rfl⟩
  case settle id =>
    rcases answer with _ | (_ | _ | _ | _ | _) <;> exact ⟨List.suffix_rfl, List.suffix_rfl, rfl⟩
  case supervisorStop id =>
    rcases answer with _ | ((_ | _) | _) <;> exact ⟨List.suffix_rfl, List.suffix_rfl, rfl⟩
  case reap epoch =>
    rcases answer with _ | (_ | _ | _) <;> exact ⟨List.suffix_rfl, List.suffix_rfl, rfl⟩
  all_goals first
    | exact ⟨List.suffix_rfl, List.suffix_rfl, rfl⟩
    | (rcases answer with _ | _ <;> exact ⟨List.suffix_rfl, List.suffix_rfl, rfl⟩)

/-- The apply was turned away and left the control state, the runtime directory and the
history, with everything published, as they were. -/
structure Rejected (expected : RevisionId) (reply : Reply World Request (Except Error Outcome)) :
    Prop where
  error : ∃ error, reply.result = .error error ∧ TurnedAway expected error
  ctrl : reply.after.ctrl = reply.before.ctrl
  files : reply.after.files = reply.before.files
  history : reply.after.history = reply.before.history

/-- Installs with the same epoch and generation have the same documents. -/
def Active.Agrees (x y : Active) : Prop :=
  x.revision.epoch = y.revision.epoch → x.revision.generation = y.revision.generation →
    x.sourceDocument = y.sourceDocument ∧ x.effectiveDocument = y.effectiveDocument

instance : Std.Symm Active.Agrees where
  symm _ _ h := fun hepoch hgeneration =>
    (h hepoch.symm hgeneration.symm).imp Eq.symm Eq.symm

/-- A later install has another revision. -/
theorem Active.Later.ne {top : ℕ} {x y : Active} (h : x.Later top y)
    (hepoch : x.revision.epoch = y.revision.epoch) :
    x.revision.generation ≠ y.revision.generation := by
  unfold Active.Later at h
  rw [hepoch] at h
  omega

theorem Active.Follows.agrees {top : ℕ} {x y : Active} (h : x.Follows top y) : x.Agrees y := by
  intro hepoch hgeneration
  rcases h with hlater | hsame
  · exact absurd hgeneration (hlater.ne hepoch)
  · exact ⟨hsame.sourceDocument, hsame.effectiveDocument⟩

/-- No update is lost. -/
structure NoLostUpdate (c : Config Effect Answer World Request (Except Error Outcome)) :
    Prop where
  documents : ∀ x ∈ c.state.history.installs, ∀ y ∈ c.state.history.installs, x.Agrees y
  advances : ∀ reply ∈ c.replies, Advances Active.Above reply.before reply.result reply.after
  guarded : ∀ reply ∈ c.replies, ∀ input expected, reply.request = .apply input (some expected) →
    (∃ active, reply.before.ctrl.current = some active ∧ active.revision.id = expected) ∨
      Rejected expected reply
  /-- Of two applies with the same expected revision the second is turned away when the
  first has installed another revision. -/
  raced : c.replies.Pairwise fun newer older => ∀ input input' expected active,
    older.request = .apply input (some expected) →
    newer.request = .apply input' (some expected) →
    older.after.history.installs = active :: older.before.history.installs →
    active.revision.id ≠ expected → Rejected expected newer

section Guards

variable {c : Config Effect Answer World Request (Except Error Outcome)}
  {reply newer older : Reply World Request (Except Error Outcome)} {expected : RevisionId}

theorem guarded_of_contract {input : InstanceSpec}
    (hrequest : reply.request = .apply input (some expected))
    (h : reply.request.Contract options reply.before reply.result reply.after) :
    (∃ active, reply.before.ctrl.current = some active ∧ active.revision.id = expected) ∨
      Rejected expected reply := by
  rw [hrequest] at h
  obtain ⟨applied, hresult, -, hguard⟩ := h
  rcases hguard expected rfl with hcurrent | ⟨⟨error, rfl, haway⟩, hctrl, hfiles, hhistory⟩
  · exact Or.inl hcurrent
  · exact Or.inr ⟨⟨error, hresult, haway⟩, hctrl, hfiles, hhistory⟩

/-- After the install of another revision the expected one never comes back. -/
theorem not_current_again {old active current : Active}
    (hold : older.before.ctrl.current = some old) (hexpected : old.revision.id = expected)
    (hbegan : Settled options.site older.before) (hdone : Settled options.site newer.before)
    (hadvances : Advances (Active.Later older.after.history.top) older.before older.result
      older.after)
    (hinstalled : older.after.history.installs = active :: older.before.history.installs)
    (hother : active.revision.id ≠ expected)
    (hextends : Extends older.after newer.before)
    (hcurrent : newer.before.ctrl.current = some current) : current.revision.id ≠ expected := by
  have hmem : old ∈ older.before.history.installs :=
    List.mem_of_head? (hbegan.inv.chronicle.current old hold).newest
  have hlater : active.Later newer.before.history.top old := by
    rw [hextends.top]
    cases hadvances with
    | none hsame => simp [hsame] at hinstalled
    | later newest hnewest hlater =>
      obtain rfl : newest = active := by simpa [hnewest] using hinstalled
      exact hlater old hmem
    | rolledBack outcome previous newest _ _ hprevious hnewest hsame =>
      obtain rfl : newest = active := by simpa [hnewest] using hinstalled
      obtain rfl := Option.some.inj (hold.symm.trans hprevious)
      exact absurd (by rw [hsame.revision, hexpected]) hother
  have hactive : active ∈ newer.before.history.installs :=
    hextends.installs.subset (by simp [hinstalled])
  have hfollows := hdone.inv.chronicle.follows_current hcurrent active hactive
  have hcurrentLater : current.Later newer.before.history.top old := by
    rcases hfollows with hfollows | hsame
    · exact hfollows.trans hlater
    · unfold Active.Later at *
      rwa [hsame.revision]
  rintro rfl
  simp only [ConfigRevision.id, RevisionId.mk.injEq] at hexpected
  exact hcurrentLater.ne hexpected.1.symm hexpected.2.1.symm

/-- Until the counter wraps a later install has a greater revision. -/
theorem Active.Later.above {top count : ℕ} {x y : Active} (h : x.Later top y)
    (hx : x.revision.epoch ∈ Counter.issued (2 ^ 64) top count)
    (hy : y.revision.epoch ∈ Counter.issued (2 ^ 64) top count) (hroom : top + count < 2 ^ 64) :
    x.Above y := h.imp_left (Counter.lt_of_order_lt hroom hy hx)

/-- No update is lost in any run whose epoch counter has not wrapped. -/
theorem no_lost_update (h : Run options c) (hfree : c.active = none)
    (hroom : c.state.history.top + c.state.history.allocated.length < 2 ^ 64) :
    NoLostUpdate c := by
  have hsound := h.sound
  have hchronicle := (hsound.free hfree).inv.chronicle
  have hordered : Ordered Extends c :=
    Reach.ordered (P := completing options) extends_step (fun d => d.elim)
      (fun _ _ => ⟨List.suffix_rfl, List.suffix_rfl, rfl⟩) h
  have hadvances : ∀ reply ∈ c.replies,
      Advances (Active.Later reply.after.history.top) reply.before reply.result reply.after := by
    intro reply hreply
    obtain ⟨hbefore, hafter, hcontract⟩ := hsound.replied reply hreply
    exact hcontract.advances hbefore hafter (hordered.within reply hreply).top
  refine ⟨fun x hx y hy => ?_, fun reply hreply => ?_,
    fun reply hreply input expected hrequest => ?_, ?_⟩
  · have hpairwise := hchronicle.ordered.imp Active.Follows.agrees
    exact hpairwise.forall_of_forall (fun _ _ _ _ => ⟨rfl, rfl⟩) hx hy
  · obtain ⟨-, hafter, -⟩ := hsound.replied reply hreply
    have hwithin := hordered.within reply hreply
    have hsince := hordered.state reply hreply
    have hissued : ∀ active ∈ reply.after.history.installs, active.revision.epoch ∈
        Counter.issued (2 ^ 64) c.state.history.top c.state.history.allocated.length := by
      intro active hactive
      rw [← hchronicle.allocated]
      exact hsince.allocated.subset (hafter.inv.chronicle.installed active hactive)
    refine (hadvances reply hreply).imp fun x hx y hy hlater => ?_
    rw [← hsince.top] at hlater
    exact hlater.above (hissued x hx) (hissued y (hwithin.installs.subset hy)) hroom
  · exact guarded_of_contract hrequest (hsound.replied reply hreply).2.2
  · refine hordered.replies.imp_of_mem fun {newer older} hnewer holder hextends => ?_
    intro input input' expected active holderRequest hnewerRequest hinstalled hother
    obtain ⟨hbegan, -, hcontract⟩ := hsound.replied older holder
    obtain ⟨hdone, -, hcontract'⟩ := hsound.replied newer hnewer
    rcases guarded_of_contract holderRequest hcontract with ⟨old, hold, hexpected⟩ | hrejected
    · refine (guarded_of_contract hnewerRequest hcontract').resolve_left ?_
      rintro ⟨current, hcurrent, heq⟩
      exact not_current_again hold hexpected hbegan hdone (hadvances older holder) hinstalled
        hother hextends hcurrent heq
    · simp [hrejected.history] at hinstalled

/-- The revision that a start installs. -/
def startedRevision : Option RevisionId :=
  (playRequests [(.start mihomoSpec, smooth "rule")]).bind fun c =>
    c.state.ctrl.current.map (·.revision.id)

/-- Two applies that expect the revision of the start: the second is turned away. -/
theorem no_lost_update_race : ∃ c, Run httpOptions c ∧ NoLostUpdate c ∧
    startedRevision.isSome = true ∧
    (c.state.history.installs.map fun active =>
      (active.revision.epoch, active.revision.generation)) = [(1, 2), (1, 1)] ∧
    c.replies.map (fun reply => reply.result.toBool) = [false, true, true] := by
  obtain ⟨c, hrun, hc⟩ := exists_run [(.start mihomoSpec, smooth "rule"),
      (.apply mihomoSpec startedRevision, smooth "direct"),
      (.apply mihomoSpec startedRevision, smooth "global")]
    (p := fun c => c.active.isNone &&
      (decide (c.state.history.top + c.state.history.allocated.length < 2 ^ 64) &&
      ((c.state.history.installs.map fun active =>
        (active.revision.epoch, active.revision.generation)) = [(1, 2), (1, 1)] &&
      c.replies.map (fun reply => reply.result.toBool) = [false, true, true])))
    (by decide +kernel)
  simp only [Bool.and_eq_true, Option.isNone_iff_eq_none, decide_eq_true_eq] at hc
  exact ⟨c, hrun, no_lost_update hrun hc.1 hc.2.1, by decide +kernel, hc.2.2⟩

/-- The epochs and generations of the installs, newest first. -/
def World.revisions (w : World) : List (ℕ × ℕ) :=
  w.history.installs.map fun active => (active.revision.epoch, active.revision.generation)

/-- A switch that installs a smaller epoch does not advance. -/
theorem not_advances_of_switched {reply : Reply World Request (Except Error Outcome)} {x y : ℕ}
    (hswitched : (reply.result matches .ok (.switched _)) = true)
    (hbefore : reply.before.revisions = [(y, 1)])
    (hafter : reply.after.revisions = [(x, 1), (y, 1)])
    (hlt : x < y) : ¬ Advances Active.Above reply.before reply.result reply.after := by
  intro hadvances
  cases hadvances with
  | none hsame =>
    rw [World.revisions, hsame] at hafter
    exact absurd (hbefore.symm.trans hafter) (by simp)
  | later active hinstalls habove =>
    obtain ⟨old, hold, hkey⟩ := List.map_eq_singleton_iff.mp hbefore
    rw [World.revisions, hinstalls, hold] at hafter
    have hlater := habove old (by simp [hold])
    simp only [List.map_cons, List.map_nil, List.cons.injEq, Prod.mk.injEq] at hafter
    unfold Active.Above at hlater
    omega
  | rolledBack outcome old active hresult => simp [hresult] at hswitched

/-- A switch after the last epoch installs epoch zero. -/
theorem switched_to_zero : ∃ c, Run httpOptions c ∧ c.active = none ∧
    c.state.history.found = [.pid (2 ^ 64 - 2)] ∧
    c.state.revisions = [(0, 1), (2 ^ 64 - 1, 1)] ∧ ¬ NoLostUpdate c := by
  have hbuilt : Built httpOptions (sweptWorld (2 ^ 64 - 2)) :=
    built_sweptWorld (by decide) (by decide)
  obtain ⟨c, hrun, hc⟩ := exists_runFrom hbuilt
    [(.start mihomoSpec, smooth "rule"), (.switch mihomoSpec, smooth "rule")]
    (p := fun c => c.active.isNone && (c.state.history.found = [.pid (2 ^ 64 - 2)] &&
      (c.state.revisions = [(0, 1), (2 ^ 64 - 1, 1)] && c.replies.head?.any fun reply =>
        reply.result matches .ok (.switched _) && (reply.before.revisions = [(2 ^ 64 - 1, 1)] &&
          reply.after.revisions = [(0, 1), (2 ^ 64 - 1, 1)]))))
    (by decide +kernel)
  simp only [Bool.and_eq_true, Option.isNone_iff_eq_none, decide_eq_true_eq,
    Option.any_eq_true] at hc
  obtain ⟨hfree, hfound, hrevisions, reply, hreply, hswitched, hbefore, hafter⟩ := hc
  refine ⟨c, hrun, hfree, hfound, hrevisions, fun hkept => ?_⟩
  exact not_advances_of_switched hswitched hbefore hafter (by decide)
    (hkept.advances reply (List.mem_of_head? hreply))

end Guards

end CompareAndSwap

end Nyanpasu.Manager
