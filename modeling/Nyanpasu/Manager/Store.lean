import Nyanpasu.Manager.Effect

/-!
# The runtime configuration store

`RuntimeConfigStore`: staged files, the atomic commits, the backup of an apply, and the
removal of everything that belongs to an epoch. The drop of a staged file that was not
consumed is written out where the source leaves its scope.
-/

namespace Nyanpasu.Manager

/-- `RuntimeConfigBackup`. -/
structure RuntimeConfigBackup where
  path : Artifact
  epoch : ℕ

/-- `RuntimeConfigCommit`, with the warning of an uncertain durability. -/
structure RuntimeConfigCommit where
  path : Artifact
  warning : Option String

/-- The drop of a `StagedRuntimeConfig`. -/
def dropStaged (staged : Artifact) : Action Unit := do
  let _ ← perform (.dropStaged staged)
  return ()

/-- An attempt whose failure drops the staged file. -/
def orDrop {α : Type} (staged : Artifact) (attempt : Action (Except Error α)) :
    Action (Except Error α) := do
  match ← attempt with
  | .error error =>
      dropStaged staged
      return .error error
  | .ok value => return .ok value

/-- The contents of a staged file are written and synced, or the file is removed. -/
def writeStaged (path : Artifact) (contents : List UInt8) : Action (Except Error Artifact) := do
  let result : Except (Error × List UInt8) Unit ← perform (.writeAll path contents)
  match result with
  | .error (error, _) =>
      let _ ← perform (.removeFile path)
      return .error error
  | .ok () => return .ok path

/-- `stage`. -/
def stage (epoch : ℕ) (contents : List UInt8) : Action (Except Error Artifact) := do
  let counter : ℕ ← perform .freshTemp
  let path := Artifact.staged epoch counter
  (perform (.validateAbsent path)).andThen fun () =>
  (perform (.createNew path)).andThen fun () =>
  (perform (.setPermissions path)).andThen fun () =>
  writeStaged path contents

/-- `validate_staged`. -/
def validateStaged (options : Options) (staged : Artifact) (epoch : ℕ) :
    Action (Except Error Unit) :=
  match staged with
  | .staged owner _ =>
      if owner = epoch then perform (.validateExisting staged)
      else return .error (.unsafeRuntimeArtifact (options.text (.runtime staged)))
  | _ => return .error (.unsafeRuntimeArtifact (options.text (.runtime staged)))

/-- `commit_new`. -/
def commitNew (options : Options) (staged : Artifact) (epoch : ℕ) : Action (Except Error Path) :=
  let target := Artifact.config epoch
  (orDrop staged (
    (validateStaged options staged epoch).andThen fun () =>
    (perform (.validateAbsent target)).andThen fun () =>
    perform (.moveNew staged target))).andThen fun () =>
  (perform .syncDir).andThen fun () =>
  return .ok (.runtime target)

/-- `installed_commit`. -/
def installedCommit (path : Artifact) : Except Error Unit → RuntimeConfigCommit
  | .ok () => ⟨path, none⟩
  | .error error => ⟨path, some ("runtime config was atomically installed, but " ++
      "parent-directory synchronization failed: " ++ error.message)⟩

/-- `commit_replace`. -/
def commitReplace (options : Options) (staged : Artifact) (epoch : ℕ) :
    Action (Except Error RuntimeConfigCommit) :=
  let target := Artifact.config epoch
  (orDrop staged (
    (validateStaged options staged epoch).andThen fun () =>
    (perform (.validateExisting target)).andThen fun () =>
    perform (.replace staged target))).andThen fun () => do
  let parentSync : Except Error Unit ← perform .syncDir
  return .ok (installedCommit target parentSync)

/-- `replace`. -/
def replace (options : Options) (epoch : ℕ) (contents : List UInt8) :
    Action (Except Error RuntimeConfigCommit) :=
  (stage epoch contents).andThen fun staged => commitReplace options staged epoch

/-- `backup`. -/
def backup (epoch generation : ℕ) : Action (Except Error RuntimeConfigBackup) :=
  let target := Artifact.config epoch
  let backupPath := Artifact.backup epoch generation
  (perform (.validateExisting target)).andThen fun () =>
  (perform (.read target)).andThen fun contents =>
  (stage epoch contents).andThen fun staged =>
  (orDrop staged (
    (perform (.validateAbsent backupPath)).andThen fun () =>
    perform (.moveNew staged backupPath))).andThen fun () =>
  (perform .syncDir).andThen fun () =>
  return .ok ⟨backupPath, epoch⟩

/-- `restore`. -/
def restore (options : Options) (saved : RuntimeConfigBackup) :
    Action (Except Error RuntimeConfigCommit) :=
  (perform (.validateExisting saved.path)).andThen fun () =>
  (perform (.read saved.path)).andThen fun contents =>
  replace options saved.epoch contents

/-- `remove_backup`. -/
def removeBackup (saved : RuntimeConfigBackup) : Action (Except Error Unit) :=
  perform (.removeRegular saved.path)

/-- `remove_socket_artifact`. -/
def removeSocketArtifact (options : Options) (path : Artifact) : Action (Except Error Unit) :=
  (perform (.socketKind path)).andThen fun kind =>
  match kind with
  | .missing => return .ok ()
  | .unsafeFile => return .error (.unsafeRuntimeArtifact (options.text (.runtime path)))
  | .socket => perform (.removeFile path)

/-- The artifacts that `cleanup_epoch` finds by a prefix of their name. -/
def isEpochExtra (epoch : ℕ) : Artifact → Bool
  | .backup owner _ | .staged owner _ | .pidTemp owner _ => owner = epoch
  | _ => false

/-- The loop of `cleanup_epoch` over the directory entries. -/
def removeExtras (epoch : ℕ) : List Artifact → Action (Except Error Unit)
  | [] => perform .nextEntry
  | entry :: entries =>
      (perform .nextEntry).andThen fun () =>
      if isEpochExtra epoch entry then
        (perform (.removeRegular entry)).andThen fun () => removeExtras epoch entries
      else removeExtras epoch entries

/-- `cleanup_epoch`. -/
def cleanupEpoch (options : Options) (epoch : ℕ) : Action (Except Error Unit) :=
  (perform (.removeRegular (.config epoch))).andThen fun () =>
  (perform (.removeRegular (.pid epoch))).andThen fun () =>
  (removeSocketArtifact options (.socket epoch)).andThen fun () =>
  (perform .readDir).andThen fun entries =>
  (removeExtras epoch entries).andThen fun () =>
  perform .syncDir

end Nyanpasu.Manager
