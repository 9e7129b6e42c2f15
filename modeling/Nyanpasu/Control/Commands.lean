import Nyanpasu.Lib.Program

/-!
# The control plane

The commands that install, start, stop and update the service itself ask the service manager of
the operating system, which may answer anything at any time. A command looks before it asks for
a change, and looks again before it reports success. What was asked for is kept together with
what was known at that moment.
-/

namespace Nyanpasu.Control

/-- `ServiceStatus`. -/
inductive ServiceStatus where
  | notInstalled
  | stopped (detail : Option String)
  | running
  deriving DecidableEq, Repr

/-- `CommandError`. -/
inductive CommandError where
  | permissionDenied
  | serviceNotInstalled
  | serviceAlreadyInstalled
  | serviceAlreadyStopped
  | serviceAlreadyRunning
  | io (text : String)
  | other (text : String)
  deriving DecidableEq, Repr

/-- The effects of the commands. -/
inductive Effect where
  /-- `get_service_manager`. -/
  | serviceManager
  | status
  | start
  | stop
  /-- The stop under the timeout of `stop_running_service`. -/
  | stopTimed
  /-- The processes of the service are killed. -/
  | kill
  | uninstall
  | sleep (seconds : ℕ)
  | sourceExists (path : String)
  | binaryExists
  /-- The version in `/status`. -/
  | serverVersion
  | currentExe
  | copy (source : String)
  deriving DecidableEq, Repr

/-- The answers to an effect. -/
@[reducible] def Answer : Effect → Type
  | .serviceManager => Except String Unit
  | .status => Except String ServiceStatus
  | .start => Except String Unit
  | .stop => Except String Unit
  | .stopTimed => Option (Except String Unit)
  | .kill => Unit
  | .uninstall => Except String Unit
  | .sleep _ => Unit
  | .sourceExists _ => Bool
  | .binaryExists => Bool
  | .serverVersion => Option String
  | .currentExe => Except String String
  | .copy _ => Except String Unit

/-- A command. -/
abbrev Action : Type → Type := Program Effect Answer

/-- Perform an effect. -/
abbrev perform (effect : Effect) : Action (Answer effect) := Program.perform effect

/-- Perform an effect whose error is one of input and output. -/
def tryIo {α : Type} (p : Action (Except String α)) : Action (Except CommandError α) := do
  let result ← p
  return result.mapError .io

/-- The display of a status in an error. -/
def ServiceStatus.debug : ServiceStatus → String
  | .notInstalled => "NotInstalled"
  | .stopped none => "Stopped(None)"
  | .stopped (some detail) => "Stopped(Some(\"" ++ detail ++ "\"))"
  | .running => "Running"

/-- The last look of a command. -/
def confirm (target : ServiceStatus → Bool) (failure : String) :
    Action (Except CommandError Unit) :=
  (tryIo (perform .status)).andThen fun status =>
  return if target status then .ok ()
    else .error (.other (failure ++ ", status: " ++ status.debug))

/-- The status of a service that runs. -/
def ServiceStatus.isRunning (status : ServiceStatus) : Bool := status = .running

/-- The status of a service that is stopped. -/
def ServiceStatus.isStopped : ServiceStatus → Bool
  | .stopped _ => true
  | _ => false

/-- The status of a service that is not there. -/
def ServiceStatus.isAbsent (status : ServiceStatus) : Bool := status = .notInstalled

/-- `start_with`. -/
def startWith : Action (Except CommandError Unit) :=
  (tryIo (perform .status)).andThen fun status =>
  match status with
  | .notInstalled => return .error .serviceNotInstalled
  | .running => return .error .serviceAlreadyRunning
  | .stopped _ =>
      (tryIo (perform .start)).andThen fun () => do
      perform (.sleep 3)
      confirm ServiceStatus.isRunning "service start failed"

/-- `stop_running_service`: a stop that hangs is followed by a kill. -/
def stopRunningService : Action (Except CommandError Unit) := do
  match ← perform .stopTimed with
  | some (.ok ()) => return .ok ()
  | some (.error text) => return .error (.other text)
  | none =>
    perform .kill
    return .ok ()

/-- `stop_impl` with the stop of production. -/
def stopWith : Action (Except CommandError Unit) :=
  (tryIo (perform .status)).andThen fun status =>
  match status with
  | .notInstalled => return .error .serviceNotInstalled
  | .stopped _ => return .error .serviceAlreadyStopped
  | .running =>
      stopRunningService.andThen fun () => do
      perform (.sleep 3)
      confirm ServiceStatus.isStopped "service stop failed"

/-- `restart_with`. -/
def restartWith : Action (Except CommandError Unit) :=
  (tryIo (perform .status)).andThen fun status =>
  match status with
  | .notInstalled => return .error .serviceNotInstalled
  | .stopped _ =>
      (tryIo (perform .start)).andThen fun () => do
      perform (.sleep 3)
      confirm ServiceStatus.isRunning "service restart failed"
  | .running =>
      (tryIo (perform .stop)).andThen fun () => do
      perform (.sleep 3)
      (tryIo (perform .start)).andThen fun () => do
      perform (.sleep 3)
      confirm ServiceStatus.isRunning "service restart failed"

/-- `uninstall_with`. -/
def uninstallWith : Action (Except CommandError Unit) :=
  (tryIo (perform .status)).andThen fun status =>
  match status with
  | .notInstalled => return .error .serviceNotInstalled
  | .stopped _ =>
      (tryIo (perform .uninstall)).andThen fun () =>
      confirm ServiceStatus.isAbsent "service uninstall failed"
  | .running =>
      (tryIo (perform .stop)).andThen fun () => do
      perform (.sleep 5)
      (tryIo (perform .uninstall)).andThen fun () =>
      confirm ServiceStatus.isAbsent "service uninstall failed"

/-- A command with the manager of the system. -/
def withManager (p : Action (Except CommandError Unit)) : Action (Except CommandError Unit) := do
  match ← perform .serviceManager with
  | .error text => return .error (.other text)
  | .ok () => p

section Update

variable {V : Type} [LT V] [DecidableLT V]

/-- `UpdateCommand`. -/
structure UpdateCommand where
  check : Bool
  source : Option String

/-- `UpdatePlan`. -/
inductive UpdatePlan where
  | seed
  | replaceOffline
  | stopReplaceStart
  | upToDate
  deriving DecidableEq, Repr

/-- `plan_update`. -/
def planUpdate (binaryExists : Bool) (source : V) (installed : Option V) : UpdatePlan :=
  if !binaryExists then .seed
  else match installed with
    | none => .replaceOffline
    | some installed => if installed < source then .stopReplaceStart else .upToDate

/-- `source_path`. -/
def sourcePath : Option String → Action (Except CommandError String)
  | some path => return .ok path
  | none => tryIo (perform .currentExe)

/-- The copy of a branch. -/
def copySource (explicit : Option String) : Action (Except CommandError Unit) :=
  (sourcePath explicit).andThen fun source => tryIo (perform (.copy source))

/-- A source that was given must exist. -/
def explicitSource : Option String → Action (Except CommandError (Option String))
  | none => return .ok none
  | some path => do
      if ← perform (.sourceExists path) then return .ok (some path)
      else return .error (.other ("update source does not exist: " ++ path))

/-- The version of the service that answers; one that cannot be parsed is a panic. -/
def askVersion (parse : String → Option V) : Action (Except CommandError (Option V)) := do
  match ← perform .serverVersion with
  | none => return .ok none
  | some text =>
    match parse text with
    | none => return .error (.other "panicked: version")
    | some version => return .ok (some version)

/-- Only a service whose binary is there is asked. -/
def installedVersion (parse : String → Option V) (binaryExists : Bool) :
    Action (Except CommandError (Option V)) :=
  if binaryExists then askVersion parse else return .ok none

/-- `update`. -/
def update (parse : String → Option V) (clientVersion : V) (ctx : UpdateCommand) :
    Action (Except CommandError Unit) :=
  (explicitSource ctx.source).andThen fun explicit => do
  let binaryExists ← perform .binaryExists
  (installedVersion parse binaryExists).andThen fun installed =>
    let plan := planUpdate binaryExists clientVersion installed
    if ctx.check then (sourcePath explicit).andThen fun _ => return .ok ()
    else match plan with
      | .seed | .replaceOffline => copySource explicit
      | .stopReplaceStart =>
          (withManager stopWith).andThen fun () =>
          (copySource explicit).andThen fun () => withManager startWith
      | .upToDate => return .ok ()

end Update

/-- What changes the service or its binary. -/
inductive Deed where
  | start
  | stop
  | kill
  | uninstall
  | copy (source : String)
  deriving DecidableEq, Repr

/-- A deed that was asked for, with what was known then. -/
structure Asked where
  deed : Deed
  /-- The last status, unless something was asked of the service since. -/
  seen : Option ServiceStatus
  /-- Whether the deed is known to be done. -/
  done : Bool
  deriving DecidableEq, Repr

/-- What a command knows and has asked for, newest first. -/
structure Host where
  seen : Option ServiceStatus
  /-- Every status that was seen. -/
  looks : List ServiceStatus
  /-- Whether the binary of the service exists, and what its version is, if the service answered. -/
  binaryExists : Bool
  answered : Option String
  /-- Whether the running binary was looked up. -/
  resolved : Bool
  asked : List Asked
  deriving DecidableEq, Repr

/-- The record of a deed; after it the status is not known. -/
def Host.ask (h : Host) (deed : Deed) (done : Bool) : Host :=
  { h with seen := none, asked := ⟨deed, h.seen, done⟩ :: h.asked }

/-- The state after an answered effect. -/
def Host.step (h : Host) : (effect : Effect) → Answer effect → Host
  | .status, .ok status => { h with seen := some status, looks := status :: h.looks }
  | .start, answer => h.ask .start answer.toBool
  | .stop, answer => h.ask .stop answer.toBool
  | .stopTimed, answer => h.ask .stop (answer.any Except.toBool)
  | .kill, _ => h.ask .kill true
  | .uninstall, answer => h.ask .uninstall answer.toBool
  -- A copy leaves the service as it is.
  | .copy source, answer =>
      { h with asked := ⟨.copy source, h.seen, answer.toBool⟩ :: h.asked }
  | .binaryExists, answer => { h with binaryExists := answer }
  | .serverVersion, answer => { h with answered := answer }
  | .currentExe, _ => { h with resolved := true }
  | _, _ => h

/-- The machine of the commands. Everything may be answered. -/
def machine : Machine Effect Answer Host where
  allowed := fun _ _ _ => True
  step := Host.step
  awaits := fun _ => false

/-- A command that begins. -/
def Host.fresh : Host := ⟨none, [], false, none, false, []⟩

open Machine

variable {h : Host} {α β : Type}

/-- Every run of a command from a state ends in a condition. -/
def Ends (p : Action α) (post : α → Host → Prop) (h : Host) : Prop :=
  machine.wp (fun _ => True) p post h

theorem ends_perform {effect : Effect} {post : Answer effect → Host → Prop}
    (hpost : ∀ answer, post answer (h.step effect answer)) : Ends (perform effect) post h :=
  wp_perform (fun _ => trivial) fun answer _ => ⟨fun _ => trivial, hpost answer⟩

theorem ends_tryIo {p : Action (Except String α)} {post : Except CommandError α → Host → Prop}
    (hp : Ends p (fun result h' => post (result.mapError .io) h') h) : Ends (tryIo p) post h :=
  wp_seq hp fun _ _ hpost => hpost

/-- A look at the status. -/
theorem look_ends : Ends (tryIo (perform .status)) (fun result h' =>
    match result with
    | .ok status => h' = { h with seen := some status, looks := status :: h.looks }
    | .error _ => h' = h) h := by
  refine ends_tryIo (ends_perform fun answer => ?_)
  cases answer <;> rfl

theorem start_ends : Ends (tryIo (perform .start))
    (fun result h' => h' = h.ask .start result.toBool) h :=
  ends_tryIo (ends_perform fun answer => by cases answer <;> rfl)

theorem stop_ends : Ends (tryIo (perform .stop))
    (fun result h' => h' = h.ask .stop result.toBool) h :=
  ends_tryIo (ends_perform fun answer => by cases answer <;> rfl)

theorem uninstall_ends : Ends (tryIo (perform .uninstall))
    (fun result h' => h' = h.ask .uninstall result.toBool) h :=
  ends_tryIo (ends_perform fun answer => by cases answer <;> rfl)

/-- A status that a stop can have left. -/
def Asked.AfterStop (older : List Asked) (a : Asked) : Prop :=
  (∃ status, a.seen = some status ∧ status.isStopped = true) ∨
    ∃ stop, older.head? = some stop ∧ stop.deed = .stop ∧ stop.done = true

/-- When a deed may be asked for, after the older ones. -/
def Asked.Due (older : List Asked) (a : Asked) : Prop :=
  match a.deed with
  | .stop => a.seen = some .running
  | .kill => ∃ stop, older.head? = some stop ∧ stop.deed = .stop ∧ stop.done = false
  | .start | .uninstall => a.AfterStop older
  | .copy _ => False

/-- Every deed was due. -/
def AllDue : List Asked → Prop
  | [] => True
  | a :: older => a.Due older ∧ AllDue older

/-- The commands about the service that is there. -/
inductive Command where
  | start
  | stop
  | restart
  | uninstall
  deriving DecidableEq, Repr

/-- The engine of a command. -/
def Command.program : Command → Action (Except CommandError Unit)
  | .start => startWith
  | .stop => stopWith
  | .restart => restartWith
  | .uninstall => uninstallWith

/-- What a command is for. -/
def Command.target : Command → ServiceStatus → Bool
  | .start | .restart => ServiceStatus.isRunning
  | .stop => ServiceStatus.isStopped
  | .uninstall => ServiceStatus.isAbsent

/-- The statuses that a command turns away, and what it reports then. -/
def Command.refusal : Command → ServiceStatus → Option CommandError
  | _, .notInstalled => some .serviceNotInstalled
  | .start, .running => some .serviceAlreadyRunning
  | .stop, .stopped _ => some .serviceAlreadyStopped
  | _, _ => none

/-- What a command may ask for when the first status that it sees is the given one, the first
deed first. It may stop asking anywhere. -/
def Command.order : Command → ServiceStatus → List Deed
  | .start, .stopped _ | .restart, .stopped _ => [.start]
  | .stop, .running => [.stop, .kill]
  | .restart, .running => [.stop, .start]
  | .uninstall, .stopped _ => [.uninstall]
  | .uninstall, .running => [.stop, .uninstall]
  | _, _ => []

variable {command : Command} {first : ServiceStatus} {deeds : List Asked}
  {result : Except CommandError Unit} {seen : Option ServiceStatus}

/-- Deeds that were due, in the order of the command. -/
structure Command.Allows (command : Command) (first : ServiceStatus) (deeds : List Asked) :
    Prop where
  due : AllDue deeds
  ordered : deeds.reverse.map Asked.deed <+: command.order first
  admitted : command.refusal first = none

/-- What a command has seen and done, and what it reports. -/
structure Did (command : Command) (h : Host) (result : Except CommandError Unit) (h' : Host)
    (deeds : List Asked) (looks : List ServiceStatus) (seen : Option ServiceStatus) : Prop where
  after : h' = { h with seen, looks := looks ++ h.looks, asked := deeds ++ h.asked }
  due : AllDue deeds
  /-- Without a look nothing is asked for. -/
  idle : looks = [] → deeds = [] ∧ result ≠ .ok ()
  /-- The first status decides what is asked for, each deed once. -/
  ordered : ∀ first, looks.getLast? = some first →
    deeds.reverse.map Asked.deed <+: command.order first
  /-- A service that is not there is reported, and so is one that is there already. -/
  refused : ∀ first error, looks.getLast? = some first → command.refusal first = some error →
    result = .error error ∧ deeds = [] ∧ looks = [first]
  ok : result = .ok () → deeds ≠ [] ∧ ∃ status, seen = some status ∧ command.target status = true

/-- A command that could not look. -/
theorem did_nothing {error : CommandError} : Did command h (.error error) h [] [] h.seen where
  after := rfl
  due := trivial
  idle := fun _ => ⟨rfl, fun heq => nomatch heq⟩
  ordered := fun _ heq => nomatch heq
  refused := fun _ _ heq => nomatch heq
  ok := fun heq => nomatch heq

/-- A command that turns away what it has seen. -/
theorem did_refuse {error : CommandError} (hrefusal : command.refusal first = some error) :
    Did command h (.error error) { h with seen := some first, looks := first :: h.looks } []
      [first] (some first) where
  after := rfl
  due := trivial
  idle := fun heq => nomatch heq
  ordered := fun _ _ => List.nil_prefix
  refused := by
    intro other error' hother herror
    obtain rfl := Option.some.inj hother
    obtain rfl := Option.some.inj (hrefusal.symm.trans herror)
    exact ⟨rfl, rfl, rfl⟩
  ok := fun heq => nomatch heq

/-- A command that has done something, or has tried to. -/
theorem Command.Allows.did {h₀ h' : Host} (hallows : command.Allows first deeds)
    (looks : List ServiceStatus) (hlooks : looks.getLast? = some first)
    (hafter : h' = { h₀ with seen, looks := looks ++ h₀.looks, asked := deeds ++ h₀.asked })
    (hok : result = .ok () → deeds ≠ [] ∧
      ∃ status, seen = some status ∧ command.target status = true) :
    Did command h₀ result h' deeds looks seen where
  after := hafter
  due := hallows.due
  idle := by
    rintro rfl
    cases hlooks
  ordered := by
    intro other hother
    obtain rfl := Option.some.inj (hlooks.symm.trans hother)
    exact hallows.ordered
  refused := by
    intro other error hother hrefusal
    obtain rfl := Option.some.inj (hlooks.symm.trans hother)
    rw [hallows.admitted] at hrefusal
    cases hrefusal
  ok := hok

/-- A host that a command has looked at once and has asked for some deeds. -/
def Host.after (h₀ : Host) (first : ServiceStatus) (seen : Option ServiceStatus)
    (deeds : List Asked) : Host :=
  { h₀ with seen, looks := first :: h₀.looks, asked := deeds ++ h₀.asked }

/-- A deed failed. -/
theorem Command.Allows.failed {error : CommandError} (h₀ : Host)
    (hallows : command.Allows first deeds) :
    ∃ deeds' looks seen', Did command h₀ (.error error) (h₀.after first seen deeds) deeds' looks
      seen' :=
  ⟨deeds, [first], seen, hallows.did [first] rfl rfl fun heq => nomatch heq⟩

/-- The last look of a command. -/
theorem confirm_ends {failure : String} (h₀ : Host) (hallows : command.Allows first deeds)
    (hne : deeds ≠ []) :
    Ends (confirm command.target failure)
      (fun result h' => ∃ deeds looks seen, Did command h₀ result h' deeds looks seen)
      (h₀.after first seen deeds) := by
  refine wp_andThen look_ends ?_ ?_
  · rintro status h' rfl
    refine ⟨deeds, [status, first], some status, hallows.did _ rfl rfl fun hok => ?_⟩
    refine ⟨hne, status, rfl, ?_⟩
    by_contra htarget
    rw [if_neg htarget] at hok
    cases hok
  · rintro error h' rfl
    exact hallows.failed h₀

/-- What a command does to any host, and what it reports. -/
def Does (command : Command) (p : Action (Except CommandError Unit)) : Prop :=
  ∀ h, Ends p (fun result h' => ∃ deeds looks seen, Did command h result h' deeds looks seen) h

/-- The look that a command begins with. -/
theorem does_of_look {p : ServiceStatus → Action (Except CommandError Unit)}
    (hp : ∀ h₀ first, Ends (p first)
      (fun result h' => ∃ deeds looks seen, Did command h₀ result h' deeds looks seen)
      (h₀.after first (some first) [])) :
    Does command ((tryIo (perform .status)).andThen p) := by
  intro h₀
  refine wp_andThen look_ends ?_ fun error h' hsame => ⟨[], [], h₀.seen, hsame ▸ did_nothing⟩
  rintro status h' rfl
  exact hp h₀ status

/-- A status that the command turns away. -/
theorem refusal_ends {error : CommandError} (h₀ : Host)
    (hrefusal : command.refusal first = some error) :
    Ends (pure (.error error))
      (fun result h' => ∃ deeds looks seen, Did command h₀ result h' deeds looks seen)
      (h₀.after first (some first) []) := ⟨[], [first], some first, did_refuse hrefusal⟩

/-- The pause after a deed. -/
theorem sleep_ends {seconds : ℕ} {p : Action α} {post : α → Host → Prop} (hp : Ends p post h) :
    Ends (do
      perform (.sleep seconds)
      p) post h := by
  refine wp_seq (Q := fun _ h' => h' = h) (ends_perform fun _ => rfl) ?_
  rintro _ h' rfl
  exact hp

/-- The start of a service that is stopped, and the look after it. -/
theorem start_does {failure : String} (h₀ : Host)
    (htarget : command.target = ServiceStatus.isRunning)
    (hallows : ∀ done, command.Allows first (⟨.start, seen, done⟩ :: deeds)) :
    Ends ((tryIo (perform .start)).andThen fun () => do
      perform (.sleep 3)
      confirm ServiceStatus.isRunning failure)
      (fun result h' => ∃ deeds looks seen, Did command h₀ result h' deeds looks seen)
      (h₀.after first seen deeds) := by
  refine wp_andThen start_ends ?_ ?_
  · rintro _ h' rfl
    rw [← htarget]
    exact sleep_ends (confirm_ends h₀ (hallows true) (List.cons_ne_nil _ _))
  · rintro error h' rfl
    exact (hallows false).failed h₀

theorem startWith_does : Does .start startWith := by
  refine does_of_look fun h₀ first => ?_
  cases first with
  | notInstalled | running => exact refusal_ends h₀ rfl
  | stopped detail =>
    exact start_does h₀ rfl fun done => ⟨⟨Or.inl ⟨_, rfl, rfl⟩, trivial⟩, List.prefix_rfl, rfl⟩

theorem restartWith_does : Does .restart restartWith := by
  refine does_of_look fun h₀ first => ?_
  cases first with
  | notInstalled => exact refusal_ends h₀ rfl
  | stopped detail =>
    exact start_does h₀ rfl fun done => ⟨⟨Or.inl ⟨_, rfl, rfl⟩, trivial⟩, List.prefix_rfl, rfl⟩
  | running =>
    have hstop : ∀ done, Command.restart.Allows .running [⟨.stop, some .running, done⟩] :=
      fun done => ⟨⟨rfl, trivial⟩, List.prefix_append [Deed.stop] [.start], rfl⟩
    refine wp_andThen stop_ends ?_ ?_
    · rintro _ h' rfl
      refine sleep_ends (start_does h₀ rfl fun done => ⟨⟨?_, (hstop true).due⟩,
        List.prefix_rfl, rfl⟩)
      exact Or.inr ⟨_, rfl, rfl, rfl⟩
    · rintro error h' rfl
      exact (hstop false).failed h₀

/-- The stop of production: it is done, or it failed, or it was followed by a kill. -/
theorem stopRunningService_ends (h₀ : Host) :
    Ends stopRunningService (fun _ h' => ∃ deeds, h' = h₀.after .running none deeds ∧
      Command.stop.Allows .running deeds ∧ deeds ≠ []) (h₀.after .running (some .running) []) := by
  have hstop : ∀ done, Command.stop.Allows .running [⟨.stop, some .running, done⟩] :=
    fun done => ⟨⟨rfl, trivial⟩, List.prefix_append [Deed.stop] [.kill], rfl⟩
  refine wp_seq (Q := fun answer h' => h' = (h₀.after .running (some .running) []).step .stopTimed
    answer) (ends_perform fun answer => rfl) ?_
  rintro answer h' rfl
  match answer with
  | some (.ok ()) => exact ⟨_, rfl, hstop true, List.cons_ne_nil _ _⟩
  | some (.error text) => exact ⟨_, rfl, hstop false, List.cons_ne_nil _ _⟩
  | none =>
    refine wp_seq (Q := fun _ h' => h' = Host.ask _ .kill true) (ends_perform fun _ => rfl) ?_
    rintro _ h' rfl
    have hkill : Command.stop.Allows .running
        [⟨.kill, none, true⟩, ⟨.stop, some .running, false⟩] :=
      ⟨⟨⟨_, rfl, rfl, rfl⟩, (hstop false).due⟩, List.prefix_rfl, rfl⟩
    exact ⟨_, rfl, hkill, List.cons_ne_nil _ _⟩

theorem stopWith_does : Does .stop stopWith := by
  refine does_of_look fun h₀ first => ?_
  cases first with
  | notInstalled | stopped detail => exact refusal_ends h₀ rfl
  | running =>
    refine wp_andThen (stopRunningService_ends h₀) ?_ ?_
    · rintro _ h' ⟨deeds, rfl, hallows, hne⟩
      exact sleep_ends (confirm_ends h₀ hallows hne)
    · rintro error h' ⟨deeds, rfl, hallows, -⟩
      exact hallows.failed h₀

/-- The removal of a service that is stopped, and the look after it. -/
theorem uninstall_does {failure : String} (h₀ : Host)
    (hallows : ∀ done, Command.uninstall.Allows first (⟨.uninstall, seen, done⟩ :: deeds)) :
    Ends ((tryIo (perform .uninstall)).andThen fun () => confirm ServiceStatus.isAbsent failure)
      (fun result h' => ∃ deeds looks seen, Did .uninstall h₀ result h' deeds looks seen)
      (h₀.after first seen deeds) := by
  refine wp_andThen uninstall_ends ?_ ?_
  · rintro _ h' rfl
    exact @confirm_ends .uninstall _ _ _ _ h₀ (hallows true) (List.cons_ne_nil _ _)
  · rintro error h' rfl
    exact (hallows false).failed h₀

theorem uninstallWith_does : Does .uninstall uninstallWith := by
  refine does_of_look fun h₀ first => ?_
  cases first with
  | notInstalled => exact refusal_ends h₀ rfl
  | stopped detail =>
    exact uninstall_does h₀ fun done => ⟨⟨Or.inl ⟨_, rfl, rfl⟩, trivial⟩, List.prefix_rfl, rfl⟩
  | running =>
    have hstop : ∀ done, Command.uninstall.Allows .running [⟨.stop, some .running, done⟩] :=
      fun done => ⟨⟨rfl, trivial⟩, List.prefix_append [Deed.stop] [.uninstall], rfl⟩
    refine wp_andThen stop_ends ?_ ?_
    · rintro _ h' rfl
      refine sleep_ends (uninstall_does h₀ fun done => ⟨⟨?_, (hstop true).due⟩,
        List.prefix_rfl, rfl⟩)
      exact Or.inr ⟨_, rfl, rfl, rfl⟩
    · rintro error h' rfl
      exact (hstop false).failed h₀

theorem Command.does (command : Command) : Does command command.program := by
  cases command with
  | start => exact startWith_does
  | stop => exact stopWith_does
  | restart => exact restartWith_does
  | uninstall => exact uninstallWith_does

/-- A command with the manager of the system does what it does with one that is there. -/
theorem withManager_does {p : Action (Except CommandError Unit)} (hp : Does command p) :
    Does command (withManager p) := by
  intro h
  refine wp_seq (Q := fun _ h' => h' = h) (ends_perform fun _ => rfl) ?_
  rintro available h' rfl
  cases available with
  | error text => exact ⟨[], [], h'.seen, did_nothing⟩
  | ok value => exact hp h'

section Update

variable {V : Type} {parse : String → Option V} {ctx : UpdateCommand} {explicit : Option String}

theorem explicitSource_ends : Ends (explicitSource ctx.source)
    (fun result h' => h' = h ∧ ∀ explicit, result = .ok explicit → explicit = ctx.source) h := by
  cases hsource : ctx.source with
  | none => exact ⟨rfl, fun explicit heq => by cases heq; rfl⟩
  | some path =>
    refine wp_seq (Q := fun _ h' => h' = h) (ends_perform fun _ => rfl) ?_
    rintro present h' rfl
    cases present with
    | false => exact ⟨rfl, fun explicit heq => by cases heq⟩
    | true => exact ⟨rfl, fun explicit heq => by cases heq; rfl⟩

/-- The version that an answer tells. -/
def Tells (parse : String → Option V) (answered : Option String) : Option V → Prop
  | none => answered = none
  | some version => ∃ text, answered = some text ∧ parse text = some version

/-- What is known of the version after the service was asked. -/
theorem installedVersion_ends {binaryExists : Bool} : Ends (installedVersion parse binaryExists)
    (fun result h' => ∃ answered, h' = { h with answered } ∧ ∀ installed, result = .ok installed →
      binaryExists = true → Tells parse answered installed) h := by
  cases binaryExists with
  | false => exact ⟨h.answered, rfl, fun _ _ heq => absurd heq Bool.false_ne_true⟩
  | true =>
    refine wp_seq (Q := fun answer h' => h' = { h with answered := answer })
      (ends_perform fun _ => rfl) ?_
    rintro answer h' rfl
    cases answer with
    | none =>
      refine ⟨none, rfl, fun installed heq _ => ?_⟩
      cases heq
      rfl
    | some text =>
      cases hparse : parse text with
      | none =>
        simp only [hparse]
        refine ⟨some text, rfl, fun installed heq => ?_⟩
        cases heq
      | some version =>
        simp only [hparse]
        refine ⟨some text, rfl, fun installed heq _ => ?_⟩
        cases heq
        exact ⟨text, rfl, hparse⟩

theorem sourcePath_ends : Ends (sourcePath explicit) (fun result h' =>
    (∃ resolved, h' = { h with resolved }) ∧
      ∀ path, result = .ok path → ∀ given, explicit = some given → path = given) h := by
  cases explicit with
  | some path =>
    exact ⟨⟨h.resolved, rfl⟩, fun source heq given hgiven => by cases heq; cases hgiven; rfl⟩
  | none =>
    refine ends_tryIo (ends_perform fun answer => ⟨⟨true, rfl⟩, ?_⟩)
    intro path _ given hgiven
    cases hgiven

/-- At most one copy, of the source that was given if there is one, made while the status last
seen was `seen`. -/
def Copies (explicit : Option String) (seen : Option ServiceStatus) (copied : List Asked) : Prop :=
  ∀ a ∈ copied, copied = [a] ∧ a.seen = seen ∧
    ∃ source, a.deed = .copy source ∧ ∀ given, explicit = some given → source = given

/-- A copy is at most one deed. -/
theorem copySource_ends : Ends (copySource explicit) (fun result h' =>
    ∃ resolved copied, h' = { h with resolved, asked := copied ++ h.asked } ∧
      Copies explicit h.seen copied ∧ (result = .ok () → ∃ a ∈ copied, a.done = true)) h := by
  refine wp_andThen sourcePath_ends ?_ ?_
  · rintro path h' ⟨⟨resolved, rfl⟩, hpath⟩
    refine ends_tryIo (ends_perform fun answer => ?_)
    refine ⟨resolved, [⟨.copy path, h.seen, answer.toBool⟩], rfl, ?_, ?_⟩
    · intro a ha
      rw [List.mem_singleton] at ha
      subst ha
      exact ⟨rfl, rfl, path, rfl, hpath path rfl⟩
    · intro hok
      cases answer with
      | error text => cases hok
      | ok value => exact ⟨_, List.mem_singleton.mpr rfl, rfl⟩
  · rintro error h' ⟨⟨resolved, rfl⟩, -⟩
    refine ⟨resolved, [], rfl, fun a ha => absurd ha List.not_mem_nil, fun heq => ?_⟩
    cases heq

variable [LT V] {clientVersion : V}

/-- The service answers an older version than the client has. -/
def Host.Older (parse : String → Option V) (clientVersion : V) (h : Host) : Prop :=
  h.binaryExists = true ∧
    ∃ text version, h.answered = some text ∧ parse text = some version ∧ version < clientVersion

/-- The service answers, and not with an older version: what cannot be parsed is a panic. -/
def Host.Current (parse : String → Option V) (clientVersion : V) (h : Host) : Prop :=
  h.binaryExists = true ∧
    ∃ text, h.answered = some text ∧ ∀ version, parse text = some version → ¬version < clientVersion

/-- What an update has done: it may have stopped the service, copied the binary and started the
service again. -/
structure Updated (parse : String → Option V) (clientVersion : V) (ctx : UpdateCommand)
    (result : Except CommandError Unit) (h : Host) (stopped copied started : List Asked) :
    Prop where
  asked : h.asked = started ++ copied ++ stopped
  stops : AllDue stopped
  starts : AllDue started
  /-- A check does nothing, and nothing is done to a service that is not older. -/
  idle : ctx.check = true ∨ h.Current parse clientVersion → h.asked = []
  /-- The service is left alone unless it answers an older version. -/
  older : stopped ≠ [] ∨ started ≠ [] → h.Older parse clientVersion
  /-- An older service was seen stopped before the copy; otherwise the copy is made without a
  look at the status. -/
  copies : ∃ seen, Copies ctx.source seen copied ∧
    (h.Older parse clientVersion → copied ≠ [] → ∃ detail, seen = some (.stopped detail))
  blind : ¬h.Older parse clientVersion → h.looks = []
  /-- A service whose binary could not be replaced is not started again. -/
  replaced : started ≠ [] → ∃ a ∈ copied, a.done = true
  /-- An up to date service does not make the update look up its own binary. -/
  resolves : h.Current parse clientVersion → ctx.check = false → h.resolved = false
  /-- Success means that the copy was made, and that a service that was replaced runs. -/
  ok : result = .ok () → ctx.check = false → ¬h.Current parse clientVersion →
    (∃ a ∈ copied, a.done = true) ∧ (h.Older parse clientVersion → h.seen = some .running)

/-- A service cannot be both. -/
theorem Host.Current.not_older (hcurrent : h.Current parse clientVersion) :
    ¬h.Older parse clientVersion := by
  rintro ⟨-, text, version, hanswered, hversion, hlt⟩
  obtain ⟨-, text', hanswered', hnot⟩ := hcurrent
  rw [hanswered] at hanswered'
  cases hanswered'
  exact hnot version hversion hlt

/-- An update that has done nothing. -/
theorem updated_nothing {result : Except CommandError Unit} (hasked : h.asked = [])
    (hlooks : h.looks = [])
    (hresolves : h.Current parse clientVersion → ctx.check = false → h.resolved = false)
    (hok : result = .ok () → ctx.check = false → h.Current parse clientVersion) :
    Updated parse clientVersion ctx result h [] [] [] where
  asked := hasked
  stops := trivial
  starts := trivial
  idle := fun _ => hasked
  older := by
    rintro (hne | hne)
    · exact absurd rfl hne
    · exact absurd rfl hne
  copies := ⟨none, fun a ha => absurd ha List.not_mem_nil, fun _ hne => absurd rfl hne⟩
  blind := fun _ => hlooks
  replaced := fun hne => absurd rfl hne
  resolves := hresolves
  ok := fun hresult hcheck hnot => absurd (hok hresult hcheck) hnot

/-- An update of an older service, as far as it came. -/
theorem updated_older {result : Except CommandError Unit} {stopped copied started : List Asked}
    (seen : Option ServiceStatus) (hcheck : ctx.check = false)
    (holder : h.Older parse clientVersion) (hasked : h.asked = started ++ copied ++ stopped)
    (hstops : AllDue stopped) (hstarts : AllDue started) (hcopies : Copies ctx.source seen copied)
    (hseen : copied ≠ [] → ∃ status, seen = some status ∧ status.isStopped = true)
    (hreplaced : started ≠ [] ∨ result = .ok () → ∃ a ∈ copied, a.done = true)
    (hok : result = .ok () → h.seen = some .running) :
    Updated parse clientVersion ctx result h stopped copied started where
  asked := hasked
  stops := hstops
  starts := hstarts
  idle := by
    rintro (heq | hcurrent)
    · rw [hcheck] at heq
      cases heq
    · exact absurd holder hcurrent.not_older
  older := fun _ => holder
  copies := by
    refine ⟨seen, hcopies, fun _ hne => ?_⟩
    obtain ⟨status, rfl, hstopped⟩ := hseen hne
    cases status with
    | stopped detail => exact ⟨detail, rfl⟩
    | notInstalled | running => cases hstopped
  blind := fun hnot => absurd holder hnot
  replaced := fun hne => hreplaced (Or.inl hne)
  resolves := fun hcurrent _ => absurd holder hcurrent.not_older
  ok := fun hresult _ _ => ⟨hreplaced (Or.inr hresult), fun _ => hok hresult⟩

theorem replace_ends (hcheck : ctx.check = false) (holder : h.Older parse clientVersion)
    (hasked : h.asked = []) :
    Ends ((withManager stopWith).andThen fun () =>
      (copySource ctx.source).andThen fun () => withManager startWith)
      (fun result h' => ∃ stopped copied started,
        Updated parse clientVersion ctx result h' stopped copied started) h := by
  refine wp_andThen (withManager_does stopWith_does h) ?_ ?_
  · rintro _ h' ⟨stopped, looks, seen, hdid⟩
    obtain ⟨-, status, rfl, hstatus⟩ := hdid.ok rfl
    obtain rfl := hdid.after
    refine wp_andThen copySource_ends ?_ ?_
    · rintro _ h' ⟨resolved, copied, rfl, hcopies, hcopied⟩
      refine wp_imp (withManager_does startWith_does _) ?_
      rintro result h' ⟨started, looks', seen, hdid'⟩
      obtain rfl := hdid'.after
      refine ⟨stopped, copied, started, updated_older _ hcheck holder ?_ hdid.due hdid'.due hcopies
        (fun _ => ⟨status, rfl, hstatus⟩) (fun _ => hcopied rfl) fun hok => ?_⟩
      · simp [hasked]
      · obtain ⟨-, last, rfl, hlast⟩ := hdid'.ok hok
        simpa [Command.target, ServiceStatus.isRunning] using hlast
    · rintro error h' ⟨resolved, copied, rfl, hcopies, -⟩
      refine ⟨stopped, copied, [], updated_older _ hcheck holder ?_ hdid.due trivial hcopies
        (fun _ => ⟨status, rfl, hstatus⟩) ?_ fun heq => ?_⟩
      · simp [hasked]
      · rintro (hne | heq)
        · exact absurd rfl hne
        · cases heq
      · cases heq
  · rintro error h' ⟨stopped, looks, seen, hdid⟩
    obtain rfl := hdid.after
    refine ⟨stopped, [], [], updated_older none hcheck holder ?_ hdid.due trivial
      (fun a ha => absurd ha List.not_mem_nil) (fun hne => absurd rfl hne) ?_ fun heq => ?_⟩
    · simp [hasked]
    · rintro (hne | heq)
      · exact absurd rfl hne
      · cases heq
    · cases heq

/-- The binary of a service that does not answer is replaced where it lies. -/
theorem offline_ends (hcheck : ctx.check = false) (hcurrent : ¬h.Current parse clientVersion)
    (holder : ¬h.Older parse clientVersion) (hasked : h.asked = []) (hlooks : h.looks = []) :
    Ends (copySource ctx.source) (fun result h' => ∃ stopped copied started,
      Updated parse clientVersion ctx result h' stopped copied started) h := by
  refine wp_imp copySource_ends ?_
  rintro result h' ⟨resolved, copied, rfl, hcopies, hcopied⟩
  refine ⟨[], copied, [], ?_⟩
  constructor
  · simp [hasked]
  · trivial
  · trivial
  · rintro (heq | heq)
    · rw [hcheck] at heq
      cases heq
    · exact absurd heq hcurrent
  · rintro (hne | hne)
    · exact absurd rfl hne
    · exact absurd rfl hne
  · exact ⟨h.seen, hcopies, fun heq => absurd heq holder⟩
  · exact fun _ => hlooks
  · exact fun hne => absurd rfl hne
  · exact fun heq => absurd heq hcurrent
  · exact fun hok _ _ => ⟨hcopied hok, fun heq => absurd heq holder⟩

/-- A check looks up the binary that would be copied, and does nothing else. -/
theorem check_ends (hcheck : ctx.check = true) (hasked : h.asked = []) (hlooks : h.looks = []) :
    Ends ((sourcePath explicit).andThen fun _ => return .ok ()) (fun result h' =>
      ∃ stopped copied started,
        Updated parse clientVersion ctx result h' stopped copied started) h := by
  have hnothing : ∀ result resolved, Updated parse clientVersion ctx result { h with resolved }
      [] [] [] := by
    intro result resolved
    refine updated_nothing hasked hlooks ?_ ?_
    · intro _ heq
      rw [hcheck] at heq
      cases heq
    · intro _ heq
      rw [hcheck] at heq
      cases heq
  refine wp_andThen sourcePath_ends ?_ ?_
  · rintro path h' ⟨⟨resolved, rfl⟩, -⟩
    exact ⟨[], [], [], hnothing _ resolved⟩
  · rintro error h' ⟨⟨resolved, rfl⟩, -⟩
    exact ⟨[], [], [], hnothing _ resolved⟩

variable [DecidableLT V]

/-- What the plan says of the service. -/
theorem planUpdate_cases (binaryExists : Bool) (source : V) (installed : Option V) :
    (planUpdate binaryExists source installed = .seed ∧ binaryExists = false) ∨
      (planUpdate binaryExists source installed = .replaceOffline ∧ installed = none) ∨
      (planUpdate binaryExists source installed = .stopReplaceStart ∧ binaryExists = true ∧
        ∃ version, installed = some version ∧ version < source) ∨
      (planUpdate binaryExists source installed = .upToDate ∧ binaryExists = true ∧
        ∃ version, installed = some version ∧ ¬version < source) := by
  cases binaryExists with
  | false => exact Or.inl ⟨rfl, rfl⟩
  | true =>
    cases installed with
    | none => exact Or.inr (Or.inl ⟨rfl, rfl⟩)
    | some version =>
      by_cases hlt : version < source
      · exact Or.inr (Or.inr (Or.inl ⟨if_pos hlt, rfl, version, rfl, hlt⟩))
      · exact Or.inr (Or.inr (Or.inr ⟨if_neg hlt, rfl, version, rfl, hlt⟩))

/-- An update that knows the version of the service. -/
theorem planned_ends {installed : Option V} (hasked : h.asked = []) (hlooks : h.looks = [])
    (hresolved : h.resolved = false)
    (hanswered : h.binaryExists = true → Tells parse h.answered installed) :
    Ends (if ctx.check then (sourcePath ctx.source).andThen fun _ => return .ok ()
      else match planUpdate h.binaryExists clientVersion installed with
        | .seed | .replaceOffline => copySource ctx.source
        | .stopReplaceStart =>
            (withManager stopWith).andThen fun () =>
            (copySource ctx.source).andThen fun () => withManager startWith
        | .upToDate => return .ok ())
      (fun result h' => ∃ stopped copied started,
        Updated parse clientVersion ctx result h' stopped copied started) h := by
  cases hcheck : ctx.check with
  | true => exact check_ends hcheck hasked hlooks
  | false =>
    rcases planUpdate_cases h.binaryExists clientVersion installed with
      ⟨hplan, hbinary⟩ | ⟨hplan, rfl⟩ | ⟨hplan, hbinary, version, rfl, hlt⟩ |
      ⟨hplan, hbinary, version, rfl, hlt⟩
    · rw [hplan]
      refine offline_ends hcheck ?_ ?_ hasked hlooks
      · rintro ⟨heq, -⟩
        rw [hbinary] at heq
        cases heq
      · rintro ⟨heq, -⟩
        rw [hbinary] at heq
        cases heq
    · rw [hplan]
      refine offline_ends hcheck ?_ ?_ hasked hlooks
      · rintro ⟨hbinary, text, heq, -⟩
        rw [show h.answered = none from hanswered hbinary] at heq
        cases heq
      · rintro ⟨hbinary, text, _, heq, -⟩
        rw [show h.answered = none from hanswered hbinary] at heq
        cases heq
    · obtain ⟨text, htext, hversion⟩ := hanswered hbinary
      rw [hplan]
      exact replace_ends hcheck ⟨hbinary, text, version, htext, hversion, hlt⟩ hasked
    · obtain ⟨text, htext, hversion⟩ := hanswered hbinary
      rw [hplan]
      refine ⟨[], [], [], updated_nothing hasked hlooks (fun _ _ => hresolved) fun _ _ => ?_⟩
      refine ⟨hbinary, text, htext, fun version' heq => ?_⟩
      rw [hversion] at heq
      cases heq
      exact hlt

theorem update_ends : Ends (update parse clientVersion ctx) (fun result h' =>
    ∃ stopped copied started,
      Updated parse clientVersion ctx result h' stopped copied started) Host.fresh := by
  refine wp_andThen explicitSource_ends ?_ ?_
  · rintro explicit h' ⟨rfl, hexplicit⟩
    obtain rfl := hexplicit explicit rfl
    refine wp_seq (Q := fun answer h' => h' = { Host.fresh with binaryExists := answer })
      (ends_perform fun _ => rfl) ?_
    rintro binaryExists h' rfl
    refine wp_andThen installedVersion_ends ?_ ?_
    · rintro installed h' ⟨answered, rfl, hanswered⟩
      exact planned_ends (h := { Host.fresh with binaryExists, answered }) rfl rfl rfl
        (hanswered installed rfl)
    · rintro error h' ⟨answered, rfl, -⟩
      exact ⟨[], [], [], updated_nothing rfl rfl (fun _ _ => rfl) fun heq => by cases heq⟩
  · rintro error h' ⟨rfl, -⟩
    exact ⟨[], [], [], updated_nothing rfl rfl (fun _ _ => rfl) fun heq => by cases heq⟩

/-- The one version that the service of the example has. -/
def firstVersion (text : String) : Option ℕ := if text = "1" then some 1 else none

end Update

end Nyanpasu.Control
