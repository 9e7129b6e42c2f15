import Nyanpasu.Lib.Assoc
import Nyanpasu.Lib.Moves
import Nyanpasu.Lib.Text
import Nyanpasu.Lib.Timeline
import Nyanpasu.Spec

/-!
# The version cache

`VersionCache::resolve` runs a core binary with `-v` and remembers what it printed under the
path and the modification time. The calls of one manager share a lock, which is taken after
the modification time was read. Here any number of calls move in any order beside binaries
that are replaced in place; a file that never gets a modification time a second time is known
by it, which is what the cache relies on.
-/

namespace Nyanpasu.Capability

open Moves

/-- A build of a core, known by what it prints when it is asked for its version. -/
structure Build where
  stdout : String
  stderr : String
  deriving DecidableEq, Repr

/-- A core binary with its modification time, in nanoseconds. -/
structure Binary where
  modified : ℕ
  build : Build
  deriving DecidableEq, Repr

/-- The output of a process that ended. -/
structure Output where
  success : Bool
  code : Option ℤ
  stdout : String
  stderr : String
  deriving DecidableEq, Repr

/-- What the system says of the metadata of a file that is there. -/
inductive Metadata where
  | given
  | denied
  /-- No modification time on this platform. -/
  | unsupported (detail : String)
  deriving DecidableEq, Repr

/-- `trim`. -/
def trim (text : String) : String :=
  String.ofList
    ((text.toList.dropWhile Text.isWhitespace).reverse.dropWhile Text.isWhitespace).reverse

/-- The debug text of an optional exit code. -/
def debugCode : Option ℤ → String
  | none => "None"
  | some code => "Some(" ++ toString code ++ ")"

/-- `binary_modified`, over the file that is found. -/
def binaryModified (spec : CoreSpec) (file : Option Binary) (metadata : Metadata) :
    Except Error ℕ :=
  match file, metadata with
  | none, _ => .error (.binaryNotFound spec.binaryPath)
  | some _, .denied => .error (.binaryNotFound spec.binaryPath)
  | some file, .given => .ok file.modified
  | some _, .unsupported detail => .error (.coreVersionProbeFailed spec.binaryPath detail)

/-- The version in what a process printed: standard output, or else standard error. -/
def printed (stdout stderr : String) : String :=
  if !(trim stdout).isEmpty then trim stdout else trim stderr

/-- `probe_version`, over the outcome of the process. -/
def probeVersion (binaryPath : String) : Except String Output → Except Error String
  | .error detail => .error (.coreVersionProbeFailed binaryPath detail)
  | .ok output =>
    if !output.success then
      .error (.coreVersionProbeFailed binaryPath
        ("process exited with code " ++ debugCode output.code))
    else if (printed output.stdout output.stderr).isEmpty then
      .error (.coreVersionProbeFailed binaryPath "version command produced no output")
    else .ok (printed output.stdout output.stderr)

/-- A probe that succeeds has the version that a process printed which succeeded. -/
theorem probeVersion_ok {binaryPath version : String} {outcome : Except String Output}
    (h : probeVersion binaryPath outcome = .ok version) :
    ∃ output, outcome = .ok output ∧ output.success = true ∧
      printed output.stdout output.stderr = version := by
  cases outcome with
  | error detail => cases h
  | ok output =>
    rw [probeVersion] at h
    split at h
    · cases h
    next hsuccess =>
      split at h
      · cases h
      · rw [Bool.not_eq_true, Bool.not_eq_false'] at hsuccess
        exact ⟨output, rfl, hsuccess, Except.ok.inj h⟩

section Cache

/-! ## Entries -/

variable {P : Type} [DecidableEq P]

/-- `VersionCacheKey`. Two paths are equal when their components are. -/
structure VersionCacheKey (P : Type) where
  binaryPath : P
  modified : ℕ
  deriving DecidableEq, Repr

/-- `retain` without the other entries of the path, and `insert`. -/
def store (entries : List (VersionCacheKey P × String)) (key : VersionCacheKey P)
    (version : String) : List (VersionCacheKey P × String) :=
  Assoc.insert (entries.filter fun e => e.1.binaryPath ≠ key.binaryPath) key version

/-- The entries kept are of other paths, so the new one is last. -/
theorem store_eq (entries : List (VersionCacheKey P × String)) (key : VersionCacheKey P)
    (version : String) :
    store entries key version =
      (entries.filter fun e => e.1.binaryPath ≠ key.binaryPath) ++ [(key, version)] := by
  rw [store]
  induction entries with
  | nil => rfl
  | cons e entries ih =>
    rw [List.filter_cons]
    split
    next hne =>
      rw [decide_eq_true_eq] at hne
      rw [Assoc.insert, if_neg (fun h => hne (congrArg _ h)), ih, List.cons_append]
    next => exact ih

/-- One entry for each path. -/
def Single (entries : List (VersionCacheKey P × String)) : Prop :=
  (entries.map fun e => e.1.binaryPath).Nodup

theorem Single.store {entries : List (VersionCacheKey P × String)} (h : Single entries)
    (key : VersionCacheKey P) (version : String) :
    Single (Capability.store entries key version) := by
  rw [Single, store_eq, List.map_append, List.map_singleton, List.nodup_append]
  refine ⟨?_, List.nodup_singleton _, ?_⟩
  · exact h.sublist (List.filter_sublist.map _)
  · intro path hpath other hother
    rw [List.mem_singleton] at hother
    obtain ⟨e, he, rfl⟩ := List.mem_map.mp hpath
    rw [hother]
    exact of_decide_eq_true (List.mem_filter.mp he).2

/-! ## Calls -/

/-- Where a call of `resolve` stands. The moment at which it read its key is kept with it. -/
inductive Stage (P : Type) where
  /-- Before the first `binary_modified`. -/
  | read
  /-- Before `lock`. -/
  | lock (key : VersionCacheKey P) (moment : ℕ)
  /-- Before `probe_version`, with the lock. -/
  | probe (key : VersionCacheKey P) (moment : ℕ)
  /-- Before the second `binary_modified`, with the lock. -/
  | recheck (key : VersionCacheKey P) (moment : ℕ) (version : String)
  /-- Returned, at a moment. -/
  | returned (key : Option (VersionCacheKey P)) (result : Except Error String) (moment : ℕ)
  /-- The future was dropped. -/
  | dropped
  deriving DecidableEq

/-- A call of `resolve`, and the moment at which it was made. -/
structure Call (P : Type) where
  spec : CoreSpec
  began : ℕ
  stage : Stage P

/-- The binaries on disk, and the calls of one manager on its `VersionCache`. -/
structure System (P : Type) where
  disk : Timeline P Binary
  entries : List (VersionCacheKey P × String)
  /-- The call that holds the lock of the entries. -/
  holder : Option ℕ
  calls : ℕ → Option (Call P)

/-- What the surroundings answer a call: about a file, or about the process it runs. -/
structure Answer where
  metadata : Metadata
  outcome : Except String Output

/-- What can happen: a call is made, goes on or is dropped, or a binary is changed in place. -/
inductive Move (P : Type) where
  | call (c : ℕ) (spec : CoreSpec)
  | resolve (c : ℕ) (answer : Answer)
  | drop (c : ℕ)
  | replace (path : P) (file : Binary)
  | remove (path : P)

/-- The file at a path. -/
def System.file (s : System P) (path : P) : Option Binary := s.disk.content s.disk.now path

/-- A call goes on to another stage. -/
def System.put (s : System P) (c : ℕ) (call : Call P) (stage : Stage P) : System P :=
  { s with calls := Function.update s.calls c (some { call with stage := stage }) }

/-- A call returns, and gives the lock back if it has it. -/
def System.finish (s : System P) (c : ℕ) (call : Call P) (key : Option (VersionCacheKey P))
    (result : Except Error String) : System P :=
  { s.put c call (.returned key result s.disk.now) with
    holder := if s.holder = some c then none else s.holder }

/-- The error of a binary that changed while it was probed. -/
def changedDuringProbe (spec : CoreSpec) : Error :=
  .coreVersionProbeFailed spec.binaryPath
    "core binary changed during version probe; retry with the replacement binary"

/-- The rest of `resolve` without a supplied version, up to its next suspension. -/
def System.resolve (parts : String → P) (s : System P) (c : ℕ) (call : Call P)
    (answer : Answer) : Option (System P) :=
  let path := parts call.spec.binaryPath
  match call.stage with
  | .read =>
    match binaryModified call.spec (s.file path) answer.metadata with
    | .error error => some (s.finish c call none (.error error))
    | .ok modified => some (s.put c call (.lock ⟨path, modified⟩ s.disk.now))
  | .lock key moment =>
    if s.holder.isSome then none
    else
      match s.entries.lookup key with
      | some version => some (s.finish c call key (.ok version))
      | none => some { s.put c call (.probe key moment) with holder := some c }
  | .probe key moment =>
    match probeVersion call.spec.binaryPath answer.outcome with
    | .error error => some (s.finish c call key (.error error))
    | .ok version => some (s.put c call (.recheck key moment version))
  | .recheck key _ version =>
    match binaryModified call.spec (s.file path) answer.metadata with
    | .error error => some (s.finish c call key (.error error))
    | .ok modified =>
      if modified ≠ key.modified then
        some (s.finish c call key (.error (changedDuringProbe call.spec)))
      else
        some { s.finish c call key (.ok version) with entries := store s.entries key version }
  | .returned .. => none
  | .dropped => none

/-- One move. A supplied version is returned at once. -/
def System.step (parts : String → P) (s : System P) : Move P → Option (System P)
  | .call c spec =>
    if (s.calls c).isSome then none
    else
      match spec.version with
      | some version => some (s.finish c ⟨spec, s.disk.now, .read⟩ none (.ok version))
      | none => some (s.put c ⟨spec, s.disk.now, .read⟩ .read)
  | .resolve c answer => (s.calls c).bind fun call => s.resolve parts c call answer
  | .drop c =>
    (s.calls c).bind fun call =>
      match call.stage with
      | .returned .. => none
      | _ => some { s.put c call .dropped with
          holder := if s.holder = some c then none else s.holder }
  | .replace path file => some { s with disk := s.disk.change path file }
  | .remove path => some { s with disk := s.disk.change path none }

/-- A process that succeeds is one of the build on disk, and printed what that build prints. -/
def honest (parts : String → P) (s : System P) (call : Call P) (answer : Answer) : Bool :=
  match call.stage, answer.outcome with
  | .probe _ _, .ok output =>
    !output.success || (s.file (parts call.spec.binaryPath)).any fun file =>
      file.build = ⟨output.stdout, output.stderr⟩
  | _, _ => true

/-- Processes are honest, and a file that is replaced gets a modification time that no file at
its path ever had. -/
def Admits (parts : String → P) (s : System P) : Move P → Prop
  | .resolve c answer => ∀ call ∈ s.calls c, honest parts s call answer
  | .replace path file => s.disk.Fresh Binary.modified path file
  | _ => True

instance (parts : String → P) (s : System P) (move : Move P) : Decidable (Admits parts s move) :=
  match move with
  | .call .. => inferInstanceAs (Decidable True)
  | .resolve c answer =>
    inferInstanceAs (Decidable (∀ call ∈ s.calls c, honest parts s call answer))
  | .drop _ => inferInstanceAs (Decidable True)
  | .replace path file => inferInstanceAs (Decidable (∀ moment ≤ s.disk.now,
      ∀ x ∈ s.disk.content moment path, x.modified ≠ file.modified))
  | .remove _ => inferInstanceAs (Decidable True)

/-- A manager that was just made, beside any binaries. -/
structure Started (s : System P) : Prop where
  unchanged : s.disk.changes = []
  noEntries : s.entries = []
  unlocked : s.holder = none
  noCalls : ∀ c, s.calls c = none

/-- The systems that any interleaving leads to. -/
abbrev Reachable (parts : String → P) : System P → Prop :=
  Reach (System.step parts) (Admits parts) Started

/-! ## Coherence -/

/-- A version is the one printed by the build that had the modification time of a key, and that
build was on disk between two moments. -/
def Had (disk : Timeline P Binary) (first last : ℕ) (key : VersionCacheKey P)
    (version : String) : Prop :=
  ∃ moment file, first ≤ moment ∧ moment ≤ last ∧
    disk.content moment key.binaryPath = some file ∧ file.modified = key.modified ∧
      printed file.build.stdout file.build.stderr = version

theorem Had.extend {disk disk' : Timeline P Binary} {first first' last last' : ℕ}
    {key : VersionCacheKey P} {version : String} (h : Had disk first last key version)
    (hdisk : disk'.Extends disk) (hnow : last ≤ disk.now) (hfirst : first' ≤ first)
    (hlast : last ≤ last') : Had disk' first' last' key version := by
  obtain ⟨moment, file, hle, hmoment, hfile, hrest⟩ := h
  refine ⟨moment, file, hfirst.trans hle, hmoment.trans hlast, ?_, hrest⟩
  rw [hdisk.content_eq moment (hmoment.trans hnow), hfile]

/-- What the cache promises. -/
structure Coherent (parts : String → P) (s : System P) : Prop where
  /-- The files at one path with one modification time are one build. -/
  known : ∀ first ≤ s.disk.now, ∀ last ≤ s.disk.now, ∀ path x y,
    s.disk.content first path = some x → s.disk.content last path = some y →
      x.modified = y.modified → x = y
  /-- An entry has the version of the build that had its modification time. -/
  entries : ∀ e ∈ s.entries, Had s.disk 0 s.disk.now e.1 e.2
  /-- There is one entry for each path at most. -/
  single : Single s.entries
  /-- A version that was not supplied is that of a build that was on disk during the call, and
  had the modification time that the call read. -/
  returned : ∀ c call key version moment, s.calls c = some call → call.spec.version = none →
    call.stage = .returned key (.ok version) moment → moment ≤ s.disk.now ∧
      ∃ modified, key = some ⟨parts call.spec.binaryPath, modified⟩ ∧
        Had s.disk call.began moment ⟨parts call.spec.binaryPath, modified⟩ version
  /-- A change to the binary since its modification time was read fails the call, which caches
  nothing. -/
  rechecked : ∀ c call key moment version answer s', s.calls c = some call →
    call.stage = .recheck key moment version →
    (∃ e ∈ s.disk.between moment s.disk.now, e.1 = parts call.spec.binaryPath) →
    s.step parts (.resolve c answer) = some s' →
      s'.entries = s.entries ∧ ∃ error,
        s'.calls c = some ⟨call.spec, call.began, .returned key (.error error) s.disk.now⟩ ∧
        ((s.file (parts call.spec.binaryPath)).isSome → answer.metadata = .given →
          error = changedDuringProbe call.spec)

/-! ## What the calls keep -/

/-- The key of a call was read from its binary, after the call began. -/
structure Keyed (parts : String → P) (disk : Timeline P Binary) (call : Call P)
    (key : VersionCacheKey P) (moment : ℕ) : Prop where
  path_eq : key.binaryPath = parts call.spec.binaryPath
  began_le : call.began ≤ moment
  le_now : moment ≤ disk.now
  file : ∃ file, disk.content moment key.binaryPath = some file ∧ file.modified = key.modified

/-- What is known of a call. -/
def Sound (parts : String → P) (disk : Timeline P Binary) (call : Call P) : Prop :=
  match call.stage with
  | .read => call.began ≤ disk.now
  | .lock key moment => Keyed parts disk call key moment
  | .probe key moment => Keyed parts disk call key moment
  | .recheck key moment version => Keyed parts disk call key moment ∧
      ∃ run file, moment ≤ run ∧ run ≤ disk.now ∧
        disk.content run key.binaryPath = some file ∧
          printed file.build.stdout file.build.stderr = version
  | .returned key (.ok version) moment => call.spec.version = none → moment ≤ disk.now ∧
      ∃ modified, key = some ⟨parts call.spec.binaryPath, modified⟩ ∧
        Had disk call.began moment ⟨parts call.spec.binaryPath, modified⟩ version
  | .returned _ (.error _) _ => True
  | .dropped => True

/-- What holds in every system that is reached. -/
structure Invariant (parts : String → P) (s : System P) : Prop where
  stamped : s.disk.Stamped Binary.modified
  entries : ∀ e ∈ s.entries, Had s.disk 0 s.disk.now e.1 e.2
  single : Single s.entries
  calls : ∀ c call, s.calls c = some call → Sound parts s.disk call

variable {parts : String → P} {disk disk' : Timeline P Binary} {s s' : System P} {c : ℕ}
  {call : Call P} {key : VersionCacheKey P} {moment : ℕ} {version : String}

theorem Keyed.extend (h : Keyed parts disk call key moment) (hdisk : disk'.Extends disk) :
    Keyed parts disk' call key moment := by
  refine ⟨h.path_eq, h.began_le, h.le_now.trans hdisk.now_le, ?_⟩
  rw [hdisk.content_eq moment h.le_now]
  exact h.file

theorem Keyed.key_eq (h : Keyed parts disk call key moment) :
    key = ⟨parts call.spec.binaryPath, key.modified⟩ := by
  rw [← h.path_eq]

/-- The stage of a call does not matter for its key. -/
theorem Keyed.put (h : Keyed parts disk call key moment) (stage : Stage P) :
    Keyed parts disk { call with stage := stage } key moment :=
  ⟨h.path_eq, h.began_le, h.le_now, h.file⟩

/-- What is known of a call stays known when the disk changes. -/
theorem Sound.extend (h : Sound parts disk call) (hdisk : disk'.Extends disk) :
    Sound parts disk' call := by
  obtain ⟨spec, began, stage⟩ := call
  cases stage with
  | read => exact le_trans h hdisk.now_le
  | lock key moment => exact Keyed.extend h hdisk
  | probe key moment => exact Keyed.extend h hdisk
  | recheck key moment version =>
    obtain ⟨hkeyed, run, file, hrun, hnow, hfile, hprinted⟩ := h
    refine ⟨hkeyed.extend hdisk, run, file, hrun, hnow.trans hdisk.now_le, ?_, hprinted⟩
    rw [hdisk.content_eq run hnow]
    exact hfile
  | returned key result moment =>
    cases result with
    | error error => trivial
    | ok version =>
      intro hversion
      obtain ⟨hnow, modified, hkey, hhad⟩ := h hversion
      exact ⟨hnow.trans hdisk.now_le, modified, hkey, hhad.extend hdisk hnow le_rfl le_rfl⟩
  | dropped => trivial

/-- A call that goes on keeps the invariant, whoever has the lock. -/
theorem Invariant.put (h : Invariant parts s) {stage : Stage P} (holder : Option ℕ)
    (hcall : Sound parts s.disk { call with stage := stage }) :
    Invariant parts { s.put c call stage with holder := holder } := by
  refine ⟨h.stamped, h.entries, h.single, fun c' call' hcall' => ?_⟩
  have hcalls : Function.update s.calls c (some { call with stage := stage }) c' = some call' :=
    hcall'
  by_cases hc : c' = c
  · subst hc
    rw [Function.update_self, Option.some.injEq] at hcalls
    rw [← hcalls]
    exact hcall
  · rw [Function.update_of_ne hc] at hcalls
    exact h.calls c' call' hcalls

/-- A version of the build that had the modification time of its key may be cached. -/
theorem Invariant.store (h : Invariant parts s) (hhad : Had s.disk 0 s.disk.now key version) :
    Invariant parts { s with entries := Capability.store s.entries key version } := by
  refine ⟨h.stamped, fun e he => ?_, h.single.store key version, h.calls⟩
  have hmem : e ∈ Capability.store s.entries key version := he
  rw [store_eq, List.mem_append, List.mem_singleton] at hmem
  rcases hmem with hmem | rfl
  · exact h.entries e (List.mem_of_mem_filter hmem)
  · exact hhad

/-- A binary may be changed to one with a fresh modification time, or removed. -/
theorem Invariant.change (h : Invariant parts s) {path : P} {file : Option Binary}
    (hfresh : ∀ y ∈ file, s.disk.Fresh Binary.modified path y) :
    Invariant parts { s with disk := s.disk.change path file } := by
  have hextends : (s.disk.change path file).Extends s.disk := Timeline.extends_change
  refine ⟨h.stamped.change hfresh, fun e he => ?_, h.single, fun c call hcall => ?_⟩
  · exact (h.entries e he).extend hextends le_rfl le_rfl hextends.now_le
  · exact (h.calls c call hcall).extend hextends

theorem binaryModified_ok {spec : CoreSpec} {file : Option Binary} {metadata : Metadata}
    {modified : ℕ} (h : binaryModified spec file metadata = .ok modified) :
    ∃ x, file = some x ∧ x.modified = modified := by
  cases file with
  | none => cases h
  | some x =>
    cases metadata with
    | given => exact ⟨x, rfl, Except.ok.inj h⟩
    | denied => cases h
    | unsupported detail => cases h

/-- A key that is still the modification time after the probe is that of the build that ran. -/
theorem Had.of_recheck (hstamped : disk.Stamped Binary.modified)
    (hkeyed : Keyed parts disk call key moment) {run : ℕ} {file last : Binary}
    (hrun : moment ≤ run) (hnow : run ≤ disk.now)
    (hfile : disk.content run key.binaryPath = some file)
    (hprinted : printed file.build.stdout file.build.stderr = version)
    (hlast : disk.content disk.now key.binaryPath = some last)
    (hmodified : last.modified = key.modified) :
    Had disk call.began disk.now key version := by
  obtain ⟨first, hfirst, hkey⟩ := hkeyed.file
  have hsame := hstamped.content_eq hrun hnow le_rfl hfirst hlast (hkey.trans hmodified.symm)
  rw [hfile] at hsame
  obtain rfl : file = first := Option.some.inj hsame
  exact ⟨run, file, hkeyed.began_le.trans hrun, hnow, hfile, hkey, hprinted⟩

/-- An entry under the key of a call has the version of the build that the call found. -/
theorem Had.of_entry (hstamped : disk.Stamped Binary.modified)
    (hkeyed : Keyed parts disk call key moment) (h : Had disk 0 disk.now key version) :
    Had disk call.began disk.now key version := by
  obtain ⟨first, hfirst, hkey⟩ := hkeyed.file
  obtain ⟨built, file, -, hbuilt, hfile, hmodified, hprinted⟩ := h
  obtain rfl : file = first :=
    hstamped.eq hbuilt hkeyed.le_now hfile hfirst (hmodified.trans hkey.symm)
  exact ⟨moment, file, hkeyed.began_le, hkeyed.le_now, hfirst, hkey, hprinted⟩

/-- A call may return a version that was found under its key. -/
theorem Sound.of_had (hkeyed : Keyed parts disk call key moment)
    (h : Had disk call.began disk.now key version) :
    Sound parts disk { call with stage := .returned key (.ok version) disk.now } := by
  intro _
  have hkey := hkeyed.key_eq
  refine ⟨le_rfl, key.modified, congrArg some hkey, ?_⟩
  rw [← hkey]
  exact h

/-- The rest of a call keeps the invariant. -/
theorem Invariant.resolve (h : Invariant parts s) {answer : Answer}
    (hcall : s.calls c = some call) (hhonest : honest parts s call answer = true)
    (hstep : s.resolve parts c call answer = some s') : Invariant parts s' := by
  have hsound := h.calls c call hcall
  obtain ⟨spec, began, stage⟩ := call
  cases stage with
  | read =>
    rw [System.resolve] at hstep
    cases hmodified : binaryModified spec (s.file (parts spec.binaryPath)) answer.metadata with
    | error error =>
      simp only [hmodified] at hstep
      obtain rfl := Option.some.inj hstep
      exact h.put _ trivial
    | ok modified =>
      simp only [hmodified] at hstep
      obtain rfl := Option.some.inj hstep
      exact h.put _ ⟨rfl, hsound, le_rfl, binaryModified_ok hmodified⟩
  | lock key moment =>
    rw [System.resolve] at hstep
    simp only at hstep
    split at hstep
    · cases hstep
    cases hlookup : s.entries.lookup key with
    | some version =>
      simp only [hlookup] at hstep
      obtain rfl := Option.some.inj hstep
      have hentry := h.entries _ (Assoc.mem_of_lookup hlookup)
      exact h.put _ (.of_had hsound (.of_entry h.stamped hsound hentry))
    | none =>
      simp only [hlookup] at hstep
      obtain rfl := Option.some.inj hstep
      exact h.put _ (hsound.put _)
  | probe key moment =>
    rw [System.resolve] at hstep
    cases hprobe : probeVersion spec.binaryPath answer.outcome with
    | error error =>
      simp only [hprobe] at hstep
      obtain rfl := Option.some.inj hstep
      exact h.put _ trivial
    | ok version =>
      simp only [hprobe] at hstep
      obtain rfl := Option.some.inj hstep
      obtain ⟨output, houtcome, hsuccess, hprinted⟩ := probeVersion_ok hprobe
      have hrun : (s.file (parts spec.binaryPath)).any (fun file =>
          decide (file.build = ⟨output.stdout, output.stderr⟩)) = true := by
        simpa [honest, houtcome, hsuccess] using hhonest
      obtain ⟨file, hfile, hbuild⟩ := (Option.any_eq_true _ _).mp hrun
      rw [decide_eq_true_eq] at hbuild
      have hkeyed : Keyed parts s.disk _ key moment := hsound
      refine h.put _ ⟨hkeyed.put _, s.disk.now, file, hkeyed.le_now, le_rfl, ?_, ?_⟩
      · rw [hkeyed.path_eq]
        exact hfile
      · rw [hbuild]
        exact hprinted
  | recheck key moment version =>
    obtain ⟨hkeyed, run, file, hrun, hnow, hfile, hprinted⟩ := hsound
    rw [System.resolve] at hstep
    cases hmodified : binaryModified spec (s.file (parts spec.binaryPath)) answer.metadata with
    | error error =>
      simp only [hmodified] at hstep
      obtain rfl := Option.some.inj hstep
      exact h.put _ trivial
    | ok modified =>
      simp only [hmodified] at hstep
      split at hstep
      · obtain rfl := Option.some.inj hstep
        exact h.put _ trivial
      next hsame =>
        obtain rfl := Option.some.inj hstep
        obtain ⟨last, hlast, rfl⟩ := binaryModified_ok hmodified
        rw [ne_eq, not_not] at hsame
        have hpath : s.disk.content s.disk.now key.binaryPath = some last := by
          rw [hkeyed.path_eq]
          exact hlast
        have hhad := Had.of_recheck h.stamped hkeyed hrun hnow hfile hprinted hpath hsame
        refine (h.put _ (.of_had hkeyed hhad)).store ?_
        exact hhad.extend (.refl s.disk) le_rfl (Nat.zero_le _) le_rfl
  | returned key result moment => cases hstep
  | dropped => cases hstep

theorem Invariant.step {move : Move P} (h : Invariant parts s) (hadmits : Admits parts s move)
    (hstep : s.step parts move = some s') : Invariant parts s' := by
  cases move with
  | call c spec =>
    rw [System.step] at hstep
    split at hstep
    · cases hstep
    cases hversion : spec.version with
    | some version =>
      simp only [hversion] at hstep
      obtain rfl := Option.some.inj hstep
      refine h.put _ fun hnone => ?_
      rw [hversion] at hnone
      cases hnone
    | none =>
      simp only [hversion] at hstep
      obtain rfl := Option.some.inj hstep
      exact h.put _ le_rfl
  | resolve c answer =>
    obtain ⟨call, hcall, hresolve⟩ := Option.bind_eq_some_iff.mp hstep
    exact h.resolve hcall (hadmits call hcall) hresolve
  | drop c =>
    obtain ⟨call, hcall, hdrop⟩ := Option.bind_eq_some_iff.mp hstep
    split at hdrop
    · cases hdrop
    · obtain rfl := Option.some.inj hdrop
      exact h.put _ trivial
  | replace path file =>
    obtain rfl := Option.some.inj hstep
    refine h.change fun y hy => ?_
    obtain rfl : file = y := Option.some.inj hy
    exact hadmits
  | remove path =>
    obtain rfl := Option.some.inj hstep
    refine h.change fun y hy => ?_
    cases hy

theorem Reachable.invariant (h : Reachable parts s) : Invariant parts s := by
  refine Reach.invariant ?_ (fun s move s' hs hadmits hstep => hs.step hadmits hstep) h
  intro s hs
  refine ⟨.of_unchanged hs.unchanged, ?_, ?_, ?_⟩
  · rw [hs.noEntries]
    intro e he
    cases he
  · rw [hs.noEntries]
    exact List.nodup_nil
  · intro c call hcall
    rw [hs.noCalls c] at hcall
    cases hcall

/-- A binary that was changed since its modification time was read has another one. -/
theorem Keyed.modified_ne (hstamped : disk.Stamped Binary.modified)
    (hkeyed : Keyed parts disk call key moment)
    (hchanged : ∃ e ∈ disk.between moment disk.now, e.1 = key.binaryPath) {file : Binary}
    (hfile : disk.content disk.now key.binaryPath = some file) :
    file.modified ≠ key.modified := by
  intro hsame
  obtain ⟨first, hfirst, hkey⟩ := hkeyed.file
  obtain ⟨e, he, hpath⟩ := hchanged
  exact hstamped hkeyed.le_now le_rfl hfirst hfile (hkey.trans hsame.symm) e he hpath

/-- **The version cache is coherent**, whatever the calls and the replacements. -/
theorem cache_coherent (h : Reachable parts s) : Coherent parts s := by
  have hinv := h.invariant
  refine ⟨?_, hinv.entries, hinv.single, ?_, ?_⟩
  · intro first hfirst last hlast path x y hx hy hsame
    exact hinv.stamped.eq hfirst hlast hx hy hsame
  · intro c call key version moment hcall hversion hstage
    have hsound := hinv.calls c call hcall
    rw [Sound, hstage] at hsound
    exact hsound hversion
  · intro c call key moment version answer s' hcall hstage hchanged hstep
    have hsound := hinv.calls c call hcall
    rw [Sound, hstage] at hsound
    obtain ⟨hkeyed, -⟩ := hsound
    rw [← hkeyed.path_eq] at hchanged ⊢
    rw [System.step, hcall, Option.bind_some, System.resolve, hstage] at hstep
    rw [← hkeyed.path_eq] at hstep
    have hput : ∀ result, (s.finish c call key result).calls c =
        some ⟨call.spec, call.began, .returned key result s.disk.now⟩ := by
      intro result
      exact Function.update_self ..
    cases hmodified : binaryModified call.spec (s.file key.binaryPath) answer.metadata with
    | error error =>
      simp only [hmodified] at hstep
      obtain rfl := Option.some.inj hstep
      refine ⟨rfl, error, hput _, fun hsome hgiven => ?_⟩
      obtain ⟨file, hfile⟩ := Option.isSome_iff_exists.mp hsome
      rw [hfile, hgiven] at hmodified
      cases hmodified
    | ok modified =>
      obtain ⟨file, hfile, rfl⟩ := binaryModified_ok hmodified
      simp only [hmodified] at hstep
      rw [if_pos (hkeyed.modified_ne hinv.stamped hchanged hfile)] at hstep
      obtain rfl := Option.some.inj hstep
      exact ⟨rfl, _, hput _, fun _ _ => rfl⟩

end Cache

/-! ## A replaced binary -/

/-- A core without a supplied version. -/
def plainCore : CoreSpec := ⟨.mihomo, "/core", none, []⟩

/-- The build that prints a version. -/
def buildOf (version : String) : Build := ⟨version ++ "\n", ""⟩

/-- The run of the build that prints a version. -/
def printing (version : String) : Answer := ⟨.given, .ok ⟨true, some 0, version ++ "\n", ""⟩⟩

/-- A manager beside the first build. -/
def firstBuild : System String :=
  ⟨⟨fun path => if path = "/core" then some ⟨1, buildOf "1"⟩ else none, []⟩, [], none,
    fun _ => none⟩

/-- The second build comes between the reading and the lock of one call, the third between the
probe and the second reading of another. -/
def replacements : List (Move String) :=
  [.call 0 plainCore, .resolve 0 (printing "1"), .resolve 0 (printing "1"), .call 1 plainCore,
    .resolve 1 (printing "1"), .resolve 0 (printing "1"), .resolve 0 (printing "1"),
    .replace "/core" ⟨2, buildOf "2"⟩, .resolve 1 (printing "2"), .call 2 plainCore,
    .resolve 2 (printing "2"), .resolve 2 (printing "2"), .resolve 2 (printing "2"),
    .replace "/core" ⟨3, buildOf "3"⟩]

/-- The replaced build is returned to the call that found it, and the call that probed a
replaced build is about to fail. -/
theorem cache_coherent_replaced : ∃ s, Coherent id s ∧ s.entries = [(⟨"/core", 1⟩, "1")] ∧
    (s.calls 1).map Call.stage = some (.returned (some ⟨"/core", 1⟩) (.ok "1") 1) ∧
    (s.calls 2).map Call.stage = some (.recheck ⟨"/core", 2⟩ 1 "2") := by
  have hstarted : Started firstBuild := ⟨rfl, rfl, rfl, fun _ => rfl⟩
  obtain ⟨s, hreach, hs⟩ := exists_reach (System.step id) (Admits id)
    (p := fun s => decide (s.entries = [(⟨"/core", 1⟩, "1")] ∧
      (s.calls 1).map Call.stage = some (.returned (some ⟨"/core", 1⟩) (.ok "1") 1) ∧
      (s.calls 2).map Call.stage = some (.recheck ⟨"/core", 2⟩ 1 "2")))
    hstarted replacements (by decide +kernel)
  exact ⟨s, cache_coherent hreach, of_decide_eq_true hs⟩

end Nyanpasu.Capability
