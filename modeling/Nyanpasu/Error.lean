import Mathlib.Data.Nat.Notation

/-!
# Errors

The error type that every fallible operation of the core manager returns, with the
texts it displays. Errors of foreign libraries are known by their own text only.
-/

namespace Nyanpasu

/-- `ClashCoreKind`: the supported cores. -/
inductive CoreKind where
  | mihomo
  | clashRust
  | clashPremium
  | meow
  deriving DecidableEq, Repr

/-- The display name of a core kind. -/
def CoreKind.asRef : CoreKind → String
  | .mihomo => "mihomo"
  | .clashRust => "clash-rs"
  | .clashPremium => "clash"
  | .meow => "meow"

/-- `RevisionId`: what a client compares and swaps on. -/
structure RevisionId where
  epoch : ℕ
  generation : ℕ
  effectiveHash : String
  deriving DecidableEq, Repr

/-- The display text of a revision id. -/
def RevisionId.display (id : RevisionId) : String :=
  "epoch " ++ toString id.epoch ++ " generation " ++ toString id.generation ++
    " (" ++ id.effectiveHash ++ ")"

/-- The debug text of an optional revision id. -/
def RevisionId.debug : Option RevisionId → String
  | none => "None"
  | some id =>
      "Some(RevisionId \x7b epoch: " ++ toString id.epoch ++ ", generation: " ++
        toString id.generation ++ ", effective_hash: \"" ++ id.effectiveHash ++ "\" \x7d)"

/-- `Error` of the core manager. -/
inductive Error where
  | alreadyRunning
  | notStarted
  | configNotFound (path : String)
  | binaryNotFound (path : String)
  | coreVersionProbeFailed (binaryPath detail : String)
  | controllerMissing
  | requiredLocalIpcUnsupported (kind : CoreKind) (version : String)
  | configCheckFailed (detail : String)
  | invalidConfig (detail : String)
  | invalidManagerOptions (detail : String)
  | invalidHealthPolicy (detail : String)
  | unsafeRuntimeArtifact (path : String)
  | runtimeDirectoryOwned (path : String)
  | stopUnconfirmed (detail : String)
  | managerQuarantined (epoch : ℕ) (reason : String)
  | revisionConflict (expected : RevisionId) (actual : Option RevisionId)
  | applyFailed (detail : String)
  | applyRollbackFailed (apply rollback : String)
  | durabilityUncertain (source : Error) (warning : String)
  | startupTimeout (stderrTail : String)
  | startupFailed (stderrTail : String)
  | process (detail : String)
  | api (detail : String)
  | yaml (detail : String)
  | ioFailed (detail : String)
  deriving DecidableEq, Repr

/-- The display text of an error. -/
def Error.message : Error → String
  | .alreadyRunning => "core is already running"
  | .notStarted => "core is not running"
  | .configNotFound path => "config file not found: " ++ path
  | .binaryNotFound path => "core binary not found: " ++ path
  | .coreVersionProbeFailed binaryPath detail =>
      "failed to probe version from core binary `" ++ binaryPath ++ "`: " ++ detail
  | .controllerMissing =>
      "no external controller configured; the version health probe needs one"
  | .requiredLocalIpcUnsupported kind version =>
      "core `" ++ kind.asRef ++ "` version `" ++ version ++
        "` does not support the required local IPC transport; use LocalIpcPolicy::Prefer or " ++
        "LocalIpcPolicy::Disable"
  | .configCheckFailed detail => "config check failed: " ++ detail
  | .invalidConfig detail => "invalid runtime config: " ++ detail
  | .invalidManagerOptions detail => "invalid manager options: " ++ detail
  | .invalidHealthPolicy detail => "invalid health policy: " ++ detail
  | .unsafeRuntimeArtifact path => "unsafe runtime artifact: " ++ path
  | .runtimeDirectoryOwned path =>
      "runtime directory is already owned by another manager: " ++ path
  | .stopUnconfirmed detail => "core process death could not be confirmed: " ++ detail
  | .managerQuarantined epoch reason =>
      "manager is quarantined by uncertain epoch " ++ toString epoch ++ ": " ++ reason
  | .revisionConflict expected actual =>
      "config revision conflict: expected " ++ expected.display ++ ", actual " ++
        RevisionId.debug actual
  | .applyFailed detail => "config apply failed: " ++ detail
  | .applyRollbackFailed apply rollback =>
      "config apply failed (" ++ apply ++ "); rollback also failed (" ++ rollback ++ ")"
  | .durabilityUncertain source warning =>
      source.message ++ "; runtime durability warning: " ++ warning
  | .startupTimeout stderrTail =>
      "core did not become healthy before the startup timeout; diagnostic log tail:\n" ++
        stderrTail
  | .startupFailed stderrTail => "core failed to start; diagnostic log tail:\n" ++ stderrTail
  | .process detail => detail
  | .api detail => detail
  | .yaml detail => "failed to process config YAML: " ++ detail
  | .ioFailed detail => detail

end Nyanpasu
