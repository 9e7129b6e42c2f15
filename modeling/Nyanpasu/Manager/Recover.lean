import Nyanpasu.Manager.Apply

/-!
# Recovery, construction and requests

The recovery of quarantined epochs, the sweep of the runtime directory at construction,
and the requests that clients make of the manager.
-/

namespace Nyanpasu.Manager

/-- The proof of death of one quarantined epoch: `none` when it is proven, else the
failure to report. -/
def proveEpochDead (entry : QuarantinedEpoch) : Action (Option String) := do
  if entry.deathProven then return none
  else
    let reaped : Except Error ReapOutcome ← perform (.reap entry.epoch)
    match reaped with
    | .ok .notFound =>
        return some ("epoch " ++ toString entry.epoch ++ ": " ++ entry.reason ++
          "; authoritative epoch pid record is unavailable")
    | .error error =>
        return some ("epoch " ++ toString entry.epoch ++ ": " ++ entry.reason ++
          "; recovery failed: " ++ error.message)
    | .ok _ => return none

/-- Set `death_proven` of the first entry of the epoch. -/
def setDeathProven (quarantine : List QuarantinedEpoch) (epoch : ℕ) : List QuarantinedEpoch :=
  match quarantine with
  | [] => []
  | entry :: rest =>
      if entry.epoch = epoch then { entry with deathProven := true } :: rest
      else entry :: setDeathProven rest epoch

/-- `retain`: every entry of the epoch leaves the list. -/
def releaseEpoch (quarantine : List QuarantinedEpoch) (epoch : ℕ) : List QuarantinedEpoch :=
  quarantine.filter fun entry => entry.epoch ≠ epoch

/-- One round of the loop of `recover_quarantine`: `none` when the epoch was released. -/
def recoverEntry (options : Options) (entry : QuarantinedEpoch) : Action (Option String) := do
  match ← proveEpochDead entry with
  | some failure => return some failure
  | none =>
    let ctrl ← getCtrl
    setQuarantine (if entry.deathProven then ctrl.quarantine
      else setDeathProven ctrl.quarantine entry.epoch)
    match ← cleanupEpoch options entry.epoch with
    | .ok () =>
        let ctrl ← getCtrl
        setQuarantine (releaseEpoch ctrl.quarantine entry.epoch)
        return none
    | .error error =>
        return some ("epoch " ++ toString entry.epoch ++ ": " ++ entry.reason ++
          "; artifact cleanup failed: " ++ error.message)

/-- The loop of `recover_quarantine`, with its failures in order. -/
def recoverEntries (options : Options) : List QuarantinedEpoch → Action (List String)
  | [] => return []
  | entry :: entries => do
      let failure ← recoverEntry options entry
      let failures ← recoverEntries options entries
      return failure.toList ++ failures

/-- `CoreManager::recover_quarantine`. -/
def recoverQuarantine (options : Options) : Action (Except Error Unit) := do
  let ctrl ← getCtrl
  if ctrl.quarantine.isEmpty then return .ok ()
  else
    let failures ← recoverEntries options ctrl.quarantine
    if failures.isEmpty then
      publish (.stopped none) none none none
      return .ok ()
    else
      let ctrl ← getCtrl
      return .error (.managerQuarantined ((ctrl.quarantine.head?.map (·.epoch)).getD 0)
        (" | ".intercalate failures))

/-- The loop of `artifact_epochs` over the directory entries. -/
def collectEpochs : List Artifact → Action (Except Error (List ℕ))
  | [] => (perform .nextEntry).andThen fun () => return .ok []
  | entry :: entries =>
      (perform .nextEntry).andThen fun () =>
      (collectEpochs entries).andThen fun epochs => return .ok (entry.epoch :: epochs)

/-- `artifact_epochs`. -/
def artifactEpochs : Action (Except Error (List ℕ)) :=
  (perform .readDir).andThen fun entries =>
  (collectEpochs entries).andThen fun epochs =>
  return .ok (epochs.mergeSort (· ≤ ·)).dedup

/-- The loop of `sweep_orphans`. -/
def sweepEpochs (options : Options) : List ℕ → Action (Except Error Unit)
  | [] => return .ok ()
  | epoch :: epochs =>
      (perform (.tryExists (.pid epoch))).andThen fun present => do
      if present then
        (perform (.reap epoch)).andThen fun _ =>
        (cleanupEpoch options epoch).andThen fun () => sweepEpochs options epochs
      else (cleanupEpoch options epoch).andThen fun () => sweepEpochs options epochs

/-- `sweep_orphans`: the largest epoch that left an artifact. -/
def sweepOrphans (options : Options) : Action (Except Error ℕ) :=
  artifactEpochs.andThen fun epochs =>
  (sweepEpochs options epochs).andThen fun () => return .ok (epochs.foldr max 0)

/-- A request to the manager. -/
inductive Request where
  | start (spec : InstanceSpec)
  | stop
  | switch (spec : InstanceSpec)
  | restart
  | apply (input : InstanceSpec) (expected : Option RevisionId)
  | recover
  | shutdown

/-- The result of a request. -/
inductive Outcome where
  | unit
  | switched (outcome : SwitchOutcome)
  | applied (outcome : ApplyOutcome)

/-- The program of a request. -/
def Request.program (options : Options) : Request → Action (Except Error Outcome)
  | .start spec => (Manager.start options spec).andThen fun () => return .ok .unit
  | .stop => (Manager.stop options).andThen fun () => return .ok .unit
  | .switch spec =>
      (Manager.switch options spec).andThen fun outcome => return .ok (.switched outcome)
  | .restart => (Manager.restart options).andThen fun outcome => return .ok (.switched outcome)
  | .apply input expected =>
      (applyConfig options input expected).andThen fun outcome => return .ok (.applied outcome)
  | .recover => (recoverQuarantine options).andThen fun () => return .ok .unit
  | .shutdown => (Manager.shutdown options).andThen fun () => return .ok .unit

end Nyanpasu.Manager
