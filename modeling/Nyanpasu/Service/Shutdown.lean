import Nyanpasu.Manager.Cancellation
import Nyanpasu.Service.Echo

/-!
# The end of the service

`shutdown` sets a latch under the lock of the service and then stops the core. Every request
that gets the lock later finds the latch and is refused before it has looked at anything, so
that nothing happens to the manager any more. The requests before it may be dropped by their
timeout where they await and hide nothing: a drop that loses sight of a process is not covered
here, as what it leaves behind no shutdown finds. The shutdown is not run under a timeout.
-/

namespace Nyanpasu.Service

open Manager Machine

variable {settings : Settings} {s s' : State} {α β : Type}

/-- The plant of the service, where a request may be dropped until the service is closing, as long
as the control state and the status show all there is. -/
def droppable (settings : Settings) : Serial.Plant Effect Answer State Request Response where
  machine := machine
  program := Request.program settings
  Drift := Empty
  drift := fun d => d.elim
  Drop := List Artifact
  drop := fun removed s => { s with world := s.world.drop removed }
  cuts := fun s => s.closing = false ∧ s.world.history.exposed = false

/-- What a request is answered once the latch is set. -/
def Request.refusal : Request → Response
  | .start _ _ | .stop | .restart => .done (.error "service is shutting down")
  | .apply _ _ _ => .applied (.error (.plain "service is shutting down"))
  | .recover => .recovered (.error (.plain "service is shutting down"))
  | .shutdown => .closed

section Operations

/-- What holds between the requests: once the latch is set there is no current instance. -/
structure Orderly (settings : Settings) (s : State) : Prop where
  settled : Settled settings.manager.site s.world
  closed : s.closing = true → s.world.ctrl.current = none

/-- The condition of the states in which a request is suspended. -/
def Droppable (settings : Settings) (s : State) : Prop := Manager.Cut settings.manager.site s.world

/-- What holds while a request runs that found the latch open. -/
def Open (settings : Settings) (s : State) : Prop :=
  Settled settings.manager.site s.world ∧ s.closing = false

/-- A program that keeps the service open and the manager settled. -/
def StaysOpen (settings : Settings) (p : Action α) : Prop :=
  ∀ s, Open settings s → machine.wp (Droppable settings) p (fun _ s' => Open settings s') s

theorem staysOpen_pure {value : α} : StaysOpen settings (pure value) := fun _ h => h

theorem staysOpen_seq {p : Action α} {f : α → Action β} (hp : StaysOpen settings p)
    (hf : ∀ value, StaysOpen settings (f value)) : StaysOpen settings (p >>= f) :=
  fun s h => wp_seq (hp s h) fun value s' hs' => hf value s' hs'

theorem staysOpen_andThen {E : Type} {p : Action (Except E α)} {f : α → Action (Except E β)}
    (hp : StaysOpen settings p) (hf : ∀ value, StaysOpen settings (f value)) :
    StaysOpen settings (p.andThen f) := by
  refine staysOpen_seq hp fun result => ?_
  cases result with
  | ok value => exact hf value
  | error error => exact staysOpen_pure

/-- An effect on neither the manager nor the latch. -/
theorem staysOpen_perform {effect : Effect}
    (hworld : ∀ (s : State) answer, (s.step effect answer).world = s.world)
    (hclosing : ∀ (s : State) answer, (s.step effect answer).closing = s.closing) :
    StaysOpen settings (perform effect) := by
  intro s h
  refine wp_perform (fun _ => h.1.cut) fun answer _ => ?_
  have hopen : Open settings (s.step effect answer) := by
    exact ⟨(hworld s answer).symm ▸ h.1, (hclosing s answer).trans h.2⟩
  exact ⟨fun _ => hopen.1.cut, hopen⟩

/-- The manager does not know the latch. -/
theorem contains_manager_latch : Contains machine Manager.machine Effect.manager (fun _ => id)
    State.world State.closing where
  allowed := fun _ _ _ h => h
  step := fun _ _ _ => rfl
  rest := fun _ _ _ => rfl
  awaits := fun _ => rfl

/-- An operation of the manager that leaves it settled. -/
theorem staysOpen_manage {p : Manager.Action α} {Q : World → α → World → Prop}
    (hp : ∀ w, Settled settings.manager.site w →
      Manager.machine.wp (Manager.Cut settings.manager.site) p
        (fun value w' => Settled settings.manager.site w' ∧ Q w value w') w) :
    StaysOpen settings (manage p) := by
  intro s h
  refine wp_imp (wp_lift contains_manager_latch (hp s.world h.1)) fun value s' hdone => ?_
  exact ⟨hdone.1.1, hdone.2.trans h.2⟩

theorem instanceSpec_staysOpen {core : CoreType} {configPath : String} :
    StaysOpen settings (instanceSpec settings core configPath) := by
  unfold instanceSpec
  split
  · exact staysOpen_pure
  refine staysOpen_seq (staysOpen_perform (fun _ _ => rfl) fun _ _ => rfl) fun present => ?_
  split
  · exact staysOpen_pure
  · split <;> exact staysOpen_pure

theorem publishRequestedCore_staysOpen {committed : Option CoreType} :
    StaysOpen settings (perform (.publishRequestedCore committed)) := by
  cases committed with
  | none => exact staysOpen_perform (fun _ _ => rfl) fun _ _ => rfl
  | some core => exact staysOpen_perform (fun _ _ => rfl) fun _ _ => rfl

theorem canonicalConfigPath_staysOpen {configFile : OsPath} :
    StaysOpen settings (canonicalConfigPath configFile) := by
  refine staysOpen_seq (staysOpen_perform (fun _ _ => rfl) fun _ _ => rfl) fun canonical => ?_
  split
  · split <;> exact staysOpen_pure
  · split <;> exact staysOpen_pure

/-- The latch is read as it is. -/
theorem closing_spec {cut : State → Prop} :
    machine.wp cut (perform .closing) (fun closing s' => closing = s.closing ∧ s' = s) s :=
  wp_perform (fun h => nomatch h) fun _ hanswer => ⟨fun h => (nomatch h), hanswer, rfl⟩

/-- What a request does to a service whose latch is set, and to an open one. -/
def Request.Final (settings : Settings) (request : Request) (s : State) (response : Response)
    (s' : State) : Prop :=
  (s.closing = true → s' = s ∧ response = request.refusal) ∧
    (request = .shutdown → s'.closing = true) ∧ Orderly settings s'

/-- A request that the latch refuses. -/
theorem unlessClosing_final {E γ : Type} {refusal : String → E} {p : Action (Except E γ)}
    {respond : Except E γ → Response} {request : Request}
    (hrequest : request.program settings = (do
      let result ← unlessClosing refusal p
      return respond result))
    (hne : request ≠ .shutdown)
    (hrefusal : respond (.error (refusal "service is shutting down")) = request.refusal)
    (hp : StaysOpen settings p) (h : Orderly settings s) :
    machine.wp (Droppable settings) (request.program settings)
      (request.Final settings s) s := by
  rw [hrequest]
  refine wp_seq (Q := fun result s' => request.Final settings s (respond result) s') ?_
    fun _ _ hdone => hdone
  refine wp_seq closing_spec ?_
  rintro closing s₁ ⟨hread, hsame⟩
  rw [hsame, hread]
  cases hclosing : s.closing with
  | true => exact ⟨fun _ => ⟨rfl, hrefusal⟩, fun heq => absurd heq hne, h⟩
  | false =>
    refine wp_imp (hp s ⟨h.settled, hclosing⟩) fun result s' hopen => ?_
    refine ⟨fun hset => ?_, fun heq => absurd heq hne, hopen.1, fun hset => ?_⟩
    · rw [hclosing] at hset
      cases hset
    · rw [hopen.2] at hset
      cases hset

theorem request_final (request : Request) (h : Orderly settings s) :
    machine.wp (Droppable settings) (request.program settings)
      (request.Final settings s) s := by
  cases request with
  | start core configPath =>
    refine unlessClosing_final rfl (fun heq => nomatch heq) rfl ?_ h
    refine staysOpen_andThen (staysOpen_perform (fun _ _ => rfl) fun _ _ => rfl)
      fun configPath => ?_
    refine staysOpen_andThen (staysOpen_perform (fun _ _ => rfl) fun _ _ => rfl) fun () => ?_
    refine staysOpen_seq (staysOpen_perform (fun _ _ => rfl) fun _ _ => rfl) fun state => ?_
    split
    · exact staysOpen_pure
    refine staysOpen_seq instanceSpec_staysOpen fun result => ?_
    cases result with
    | error error => exact staysOpen_pure
    | ok spec =>
      refine staysOpen_seq (staysOpen_manage fun w hw => Manager.start_spec hw) fun result => ?_
      cases result with
      | error error => exact staysOpen_pure
      | ok value => exact staysOpen_seq publishRequestedCore_staysOpen fun _ => staysOpen_pure
  | stop =>
    refine unlessClosing_final rfl (fun heq => nomatch heq) rfl ?_ h
    exact staysOpen_seq (staysOpen_manage fun w hw => Manager.stop_spec hw) fun _ => staysOpen_pure
  | restart =>
    refine unlessClosing_final rfl (fun heq => nomatch heq) rfl ?_ h
    exact staysOpen_seq (staysOpen_manage fun w hw => Manager.restart_spec hw)
      fun _ => staysOpen_pure
  | apply core configFile expected =>
    refine unlessClosing_final rfl (fun heq => nomatch heq) rfl ?_ h
    refine staysOpen_andThen canonicalConfigPath_staysOpen fun configPath => ?_
    refine staysOpen_andThen instanceSpec_staysOpen fun spec => ?_
    refine staysOpen_seq (staysOpen_manage fun w hw => Manager.applyConfig_spec hw) fun result => ?_
    cases result with
    | error error => exact staysOpen_pure
    | ok outcome =>
      simp only
      split
      · exact staysOpen_pure
      · exact staysOpen_seq publishRequestedCore_staysOpen fun _ => staysOpen_pure
  | recover =>
    refine unlessClosing_final rfl (fun heq => nomatch heq) rfl ?_ h
    exact staysOpen_seq (staysOpen_manage fun w hw => Manager.recoverQuarantine_spec hw)
      fun _ => staysOpen_pure
  | shutdown =>
    refine wp_seq (Q := fun _ s' => Request.Final settings .shutdown s .closed s') ?_
      fun _ _ hdone => hdone
    refine wp_seq closing_spec ?_
    rintro closing s₁ ⟨hread, hsame⟩
    rw [hsame, hread]
    cases hclosing : s.closing with
    | true => exact ⟨fun _ => ⟨rfl, rfl⟩, fun _ => hclosing, h⟩
    | false =>
      refine wp_seq (Q := fun _ s' => s' = s.step .close ())
        (wp_perform (fun h => nomatch h) fun _ _ => ⟨fun h => (nomatch h), rfl⟩) ?_
      rintro _ _ rfl
      refine wp_seq (wp_lift contains_manager_latch (Manager.shutdown_spec
        (w := (s.step .close ()).world) h.settled)) fun result s' hdone => ?_
      obtain ⟨⟨hsettled, hstopped⟩, hlatch⟩ := hdone
      refine ⟨fun hset => ?_, fun _ => hlatch, hsettled, fun _ => hstopped.current⟩
      rw [hclosing] at hset
      cases hset

end Operations

section Runs

variable {c : Serial.Config Effect Answer State Request Response}

/-- A latch that is set stays set. -/
def Latched (s s' : State) : Prop := s.closing = true → s'.closing = true

instance : IsPreorder State Latched where
  refl _ := id
  trans _ _ _ h h' := h' ∘ h

theorem latched_step (s : State) (effect : Effect) (answer : Answer effect) :
    Latched s (s.step effect answer) := by
  intro h
  cases effect with
  | close => rfl
  | publishRequestedCore committed => cases committed <;> exact h
  | manager effect => exact h
  | closing | canonicalizeUtf8 path | canonicalize path | metadata path | status | files => exact h

theorem Built.orderly (h : Built settings s) : Orderly settings s where
  settled := h.world.settled
  closed := fun hset => by
    rw [h.closing] at hset
    cases hset

/-- The free states are orderly, and a request that finds the latch is refused. -/
theorem sound_of_droppable (h : Serial.Reach (droppable settings) (Built settings) c) :
    Serial.Sound (droppable settings) (Orderly settings) (Request.Final settings) c := by
  refine Serial.Reach.sound (fun _ hbuilt => hbuilt.orderly) (fun request s hs => ?_)
    (fun d => d.elim) h
  refine wp_mono (request_final request hs) (fun s' hcut hcuts removed => ?_)
    fun _ _ hfinal => ⟨hfinal.2.2, hfinal⟩
  obtain ⟨hopen, hcovered⟩ := hcuts
  refine ⟨(hcut hcovered).drop hcovered, fun hset => ?_⟩
  have hset' : s'.closing = true := hset
  rw [hopen] at hset'
  cases hset'

/-- The state since which the request that holds the lock runs, or the free state. -/
def since (c : Serial.Config Effect Answer State Request Response) : State :=
  match c.active with
  | none => c.state
  | some job => job.before

/-- Nothing has happened since a shutdown returned. -/
structure Finished (c : Serial.Config Effect Answer State Request Response) : Prop where
  state : ∀ reply ∈ c.replies, reply.request = .shutdown → since c = reply.after
  refused : c.replies.Pairwise fun newer older => older.request = .shutdown →
    newer.before = older.after ∧ newer.result = newer.request.refusal ∧ newer.after = older.after

/-- A request cannot be dropped after a shutdown. -/
theorem not_dropped {s : State} {job : Serial.Job Effect Answer State Request Response}
    {replies : List (Serial.Reply State Request Response)}
    (h : Serial.Reach (droppable settings) (Built settings) ⟨s, some job, replies⟩)
    (hstate : ∀ reply ∈ replies, reply.request = .shutdown → job.before = reply.after)
    (hopen : s.closing = false) : ∀ reply ∈ replies, reply.request ≠ .shutdown := by
  intro reply hreply hshutdown
  have hset : reply.after.closing = true :=
    ((sound_of_droppable h).replied reply hreply).2.2.2.1 hshutdown
  have hordered : Serial.Ordered Latched ⟨s, some job, replies⟩ :=
    Serial.Reach.ordered (P := droppable settings) latched_step (fun d => Empty.elim d)
      (fun _ _ hset => hset) h
  rw [← hstate reply hreply hshutdown] at hset
  have hlatched := (hordered.job job rfl).1 hset
  rw [hopen] at hlatched
  cases hlatched

theorem finished (h : Serial.Reach (droppable settings) (Built settings) c) : Finished c := by
  induction h with
  | start _ => exact ⟨fun _ hmem => (nomatch hmem), .nil⟩
  | acquire client request _ ih => exact ⟨ih.state, ih.refused⟩
  | call answer _ _ ih => exact ⟨ih.state, ih.refused⟩
  | @finish s replies client request before value hreach ih =>
    have hsound := sound_of_droppable (.finish hreach)
    have hlast := (hsound.replied _ List.mem_cons_self).2.2
    have holder : ∀ older ∈ replies, older.request = .shutdown →
        before = older.after ∧ value = request.refusal ∧ s = older.after := by
      intro older hmem hshutdown
      have hbefore : before = older.after := ih.state older hmem hshutdown
      have hset : older.after.closing = true :=
        (hsound.replied older (List.mem_cons_of_mem _ hmem)).2.2.2.1 hshutdown
      obtain ⟨hsame, hrefused⟩ := hlast.1 (hbefore ▸ hset)
      exact ⟨hbefore, hrefused, hsame.trans hbefore⟩
    refine ⟨fun reply hreply hshutdown => ?_, List.pairwise_cons.mpr ⟨holder, ih.refused⟩⟩
    rcases List.mem_cons.mp hreply with rfl | hreply
    · rfl
    · exact (holder reply hreply hshutdown).2.2
  | drift d _ hd _ => exact d.elim
  | cutBefore d hreach _ hcut ih =>
    have hnone := not_dropped hreach ih.state hcut.1
    exact ⟨fun reply hreply hshutdown => absurd hshutdown (hnone reply hreply), ih.refused⟩
  | cutAfter d answer hreach _ hanswer hcut ih =>
    have hnone := not_dropped (.call answer hreach hanswer) ih.state hcut.1
    exact ⟨fun reply hreply hshutdown => absurd hshutdown (hnone reply hreply), ih.refused⟩

instance (s : State) (effect : Effect) (answer : Answer effect) :
    Decidable ((droppable settings).machine.allowed s effect answer) :=
  inferInstanceAs (Decidable ((plant settings).machine.allowed s effect answer))

instance (s : State) : Decidable ((droppable settings).cuts s) :=
  inferInstanceAs (Decidable (_ ∧ _))

/-- Whether a request closes the service. -/
def Request.closes : Request → Bool
  | .shutdown => true
  | _ => false

end Runs

end Nyanpasu.Service
