import Nyanpasu.Manager.World

/-!
# Quiet steps

Most effects leave the control state, the publications and the history alone: they read,
they write files that belong to one epoch, or they add evidence about a process. A program
made of such effects is framed by what it writes.
-/

namespace Nyanpasu.Manager

/-- The evidence about a process only grows. -/
structure Process.Grows (p q : Process) : Prop where
  epoch : q.epoch = p.epoch
  ready : p.ready = true → q.ready = true
  terminal : p.terminal = true → q.terminal = true
  stopped : p.stopped = true → q.stopped = true
  joined : p.joined = true → q.joined = true
  reaped : p.reaped = true → q.reaped = true
  reads : p.reads ⊆ q.reads

theorem Process.Grows.refl (p : Process) : p.Grows p :=
  ⟨rfl, id, id, id, id, id, List.Subset.refl _⟩

theorem Process.Grows.trans {p q r : Process} (h : p.Grows q) (h' : q.Grows r) : p.Grows r :=
  ⟨h'.epoch.trans h.epoch, h'.ready ∘ h.ready, h'.terminal ∘ h.terminal, h'.stopped ∘ h.stopped,
    h'.joined ∘ h.joined, h'.reaped ∘ h.reaped, List.Subset.trans h.reads h'.reads⟩

/-- A proof of death stays one. -/
theorem Process.Grows.provenDead {p q : Process} (h : p.Grows q) (hp : p.provenDead = true) :
    q.provenDead = true := by
  simp only [Process.provenDead, Bool.or_eq_true, Bool.and_eq_true] at hp ⊢
  rcases hp with (hp | ⟨hs, hj⟩) | hp
  · exact Or.inl (Or.inl (h.terminal hp))
  · exact Or.inl (Or.inr ⟨h.stopped hs, h.joined hj⟩)
  · exact Or.inr (h.reaped hp)

/-- Nothing changes but files in `T`, evidence about processes, and the slots of the
instances in `I`. -/
structure Quiet (T : Artifact → Prop) (I : ℕ → Prop) (w w' : World) : Prop where
  ctrl : w'.ctrl = w.ctrl
  epoch : w'.epoch = w.epoch
  spawned : w'.spawned = w.spawned
  forwarders : w'.forwarders = w.forwarders
  history : w'.history = w.history
  files : ∀ artifact, ¬ T artifact → w'.files.lookup artifact = w.files.lookup artifact
  grows : ∀ id, (w.processes id).Grows (w'.processes id)
  slots : ∀ id, ¬ I id → (w'.processes id).slots = (w.processes id).slots

/-- No artifact at all. -/
def noArtifact (_ : Artifact) : Prop := False

/-- No instance at all. -/
def noInstance (_ : ℕ) : Prop := False

/-- The artifacts of an epoch. -/
def ofEpoch (epoch : ℕ) (artifact : Artifact) : Prop := artifact.epoch = epoch

/-- One instance. -/
def onlyInstance (id : ℕ) (other : ℕ) : Prop := other = id

section Quiet

variable {T T' : Artifact → Prop} {I I' : ℕ → Prop} {w w' w'' : World}

theorem Quiet.refl (w : World) : Quiet T I w w :=
  ⟨rfl, rfl, rfl, rfl, rfl, fun _ _ => rfl, fun _ => .refl _, fun _ _ => rfl⟩

theorem Quiet.trans (h : Quiet T I w w') (h' : Quiet T I w' w'') : Quiet T I w w'' where
  ctrl := h'.ctrl.trans h.ctrl
  epoch := h'.epoch.trans h.epoch
  spawned := h'.spawned.trans h.spawned
  forwarders := h'.forwarders.trans h.forwarders
  history := h'.history.trans h.history
  files := fun a ha => (h'.files a ha).trans (h.files a ha)
  grows := fun id => (h.grows id).trans (h'.grows id)
  slots := fun id hid => (h'.slots id hid).trans (h.slots id hid)

theorem Quiet.mono (h : Quiet T I w w') (hT : ∀ a, T a → T' a) (hI : ∀ i, I i → I' i) :
    Quiet T' I' w w' :=
  { h with
    files := fun a ha => h.files a fun hTa => ha (hT a hTa)
    slots := fun id hid => h.slots id fun hIid => hid (hI id hIid) }

/-- A change of the directory alone. -/
theorem Quiet.ofFiles {files : List (Artifact × List UInt8)}
    (h : ∀ a, ¬ T a → files.lookup a = w.files.lookup a) : Quiet T I w (w.setFiles files) :=
  { Quiet.refl (T := T) (I := I) w with files := h }

/-- A change of one process alone. -/
theorem Quiet.ofObserve {id : ℕ} {f : Process → Process} (hf : ∀ p : Process, p.Grows (f p))
    (hslots : ¬ I id → ∀ p : Process, (f p).slots = p.slots) :
    Quiet T I w (w.observe id f) where
  ctrl := rfl
  epoch := rfl
  spawned := rfl
  forwarders := rfl
  history := rfl
  files := fun _ _ => rfl
  grows := fun j => by
    simp only [World.observe]
    split
    · exact hf _
    · exact .refl _
  slots := fun j hj => by
    simp only [World.observe]
    split
    · rename_i heq
      exact hslots (heq ▸ hj) _
    · rfl

/-- A change of the processes of one epoch alone. -/
theorem Quiet.ofObserveEpoch {epoch : ℕ} {f : Process → Process}
    (hf : ∀ p : Process, p.Grows (f p))
    (hslots : ∀ p : Process, (f p).slots = p.slots) :
    Quiet T I w (w.observeEpoch epoch f) where
  ctrl := rfl
  epoch := rfl
  spawned := rfl
  forwarders := rfl
  history := rfl
  files := fun _ _ => rfl
  grows := fun j => by
    simp only [World.observeEpoch]
    split
    · exact hf _
    · exact .refl _
  slots := fun j _ => by
    simp only [World.observeEpoch]
    split
    · exact hslots _
    · rfl

end Quiet

/-- The lookups after a move: the source is gone and the target has its contents. -/
theorem World.lookup_moved {w : World} {source target a : Artifact} {contents : List UInt8}
    (h : w.files.lookup source = some contents) :
    (w.moved source target).lookup a =
      if a = target then some contents else if a = source then none else w.files.lookup a := by
  simp only [World.moved, h, Assoc.lookup_insert, Assoc.lookup_erase]

/-- Other lookups survive a move. -/
theorem World.lookup_moved_other {w : World} {source target a : Artifact} (hs : a ≠ source)
    (ht : a ≠ target) : (w.moved source target).lookup a = w.files.lookup a := by
  cases h : w.files.lookup source with
  | none => simp only [World.moved, h]
  | some contents => rw [lookup_moved h, if_neg ht, if_neg hs]

/-- The effects that are quiet within the artifacts `T` and the instances `I`. -/
def Effect.Quietly (T : Artifact → Prop) (I : ℕ → Prop) : Effect → Prop
  | .createNew artifact | .writeAll artifact _ | .removeRegular artifact
  | .removeFile artifact | .dropStaged artifact => T artifact
  | .moveNew source target => T source ∧ T target
  | .publishCell id _ | .takeSupervisor id | .takeMonitor id => I id
  | .load _ | .nextEpoch | .takeCurrent | .setCurrent _ | .setLastSpec _ | .setQuarantine _
  | .publish _ | .spawnForwarder _ | .abortForwarder _ | .spawn _ _ _ _
  | .replace _ _ | .mark _ => False
  | _ => True

section Programs

variable {T : Artifact → Prop} {I : ℕ → Prop} {w : World} {cut : World → Prop} {α : Type}

theorem lookup_insert_outside {files : List (Artifact × List UInt8)} {artifact a : Artifact}
    {contents : List UInt8} (h : T artifact) (ha : ¬ T a) :
    (Assoc.insert files artifact contents).lookup a = files.lookup a := by
  rw [Assoc.lookup_insert, if_neg]
  rintro rfl
  exact ha h

theorem lookup_erase_outside {files : List (Artifact × List UInt8)} {artifact a : Artifact}
    (h : T artifact) (ha : ¬ T a) :
    (Assoc.erase files artifact).lookup a = files.lookup a := by
  rw [Assoc.lookup_erase, if_neg]
  rintro rfl
  exact ha h

/-- A quiet effect makes a quiet step. -/
theorem Effect.Quietly.step {effect : Effect} (h : effect.Quietly T I) (answer : Answer effect) :
    Quiet T I w (w.step effect answer) := by
  cases effect <;> simp only [Effect.Quietly] at h <;> try exact Quiet.refl w
  case createNew artifact =>
    cases answer with
    | error error => exact Quiet.refl w
    | ok value => exact .ofFiles fun a ha => lookup_insert_outside h ha
  case writeAll artifact contents =>
    cases answer with
    | error error => exact .ofFiles fun a ha => lookup_insert_outside h ha
    | ok value => exact .ofFiles fun a ha => lookup_insert_outside h ha
  case removeRegular artifact =>
    cases answer with
    | error error => exact Quiet.refl w
    | ok value => exact .ofFiles fun a ha => lookup_erase_outside h ha
  case removeFile artifact =>
    cases answer with
    | error error => exact Quiet.refl w
    | ok value => exact .ofFiles fun a ha => lookup_erase_outside h ha
  case dropStaged artifact =>
    cases answer with
    | false => exact Quiet.refl w
    | true => exact .ofFiles fun a ha => lookup_erase_outside h ha
  case moveNew source target =>
    cases answer with
    | error error => exact Quiet.refl w
    | ok value =>
      refine .ofFiles fun a ha => World.lookup_moved_other ?_ ?_
      · rintro rfl
        exact ha h.1
      · rintro rfl
        exact ha h.2
  case settle i =>
    match answer with
    | none => exact Quiet.refl w
    | some (.stopped reason) =>
        exact Quiet.ofObserve (f := fun p => { p with terminal := true })
          (fun p => by constructor <;> simp) fun _ _ => rfl
    | some .starting | some (.running _) | some (.restarting _) | some .stopping =>
        exact Quiet.ofObserve (f := fun p => { p with ready := true })
          (fun p => by constructor <;> simp) fun _ _ => rfl
  case borrow i =>
    exact Quiet.ofObserve (f := fun p => { p with
        terminal := p.terminal || answer.state.isTerminal, reads := answer :: p.reads })
      (fun p => by constructor <;> simp +contextual) fun _ _ => rfl
  case publishCell i state =>
    exact Quiet.ofObserve (f := fun p => { p with halting := true })
      (fun p => by constructor <;> simp) fun hI => absurd h hI
  case takeSupervisor i =>
    exact Quiet.ofObserve (f := fun p => { p with supervisor := false })
      (fun p => by constructor <;> simp) fun hI => absurd h hI
  case takeMonitor i =>
    exact Quiet.ofObserve (f := fun p => { p with monitor := false })
      (fun p => by constructor <;> simp) fun hI => absurd h hI
  case supervisorStop i =>
    match answer with
    | none => exact Quiet.refl w
    | some (.ok ()) =>
        exact Quiet.ofObserve (f := fun p => { p with stopped := true })
          (fun p => by constructor <;> simp) fun _ _ => rfl
    | some (.error .alreadyExited) =>
        exact Quiet.ofObserve (f := fun p => { p with stopped := true })
          (fun p => by constructor <;> simp) fun _ _ => rfl
    | some (.error (.other detail)) => exact Quiet.refl w
  case joinMonitor i =>
    cases answer with
    | false => exact Quiet.refl w
    | true =>
        exact Quiet.ofObserve (f := fun p => { p with joined := true })
          (fun p => by constructor <;> simp) fun _ _ => rfl
  case reap epoch =>
    match answer with
    | .error error => exact Quiet.refl w
    | .ok .notFound => exact Quiet.refl w
    | .ok .alreadyExited =>
        exact Quiet.ofObserveEpoch (f := fun p => { p with reaped := true })
          (fun p => by constructor <;> simp) fun _ => rfl
    | .ok .killed =>
        exact Quiet.ofObserveEpoch (f := fun p => { p with reaped := true })
          (fun p => by constructor <;> simp) fun _ => rfl
  case freshTemp => exact { Quiet.refl w with }

/-- The rule for one quiet effect. -/
theorem wp_quiet {effect : Effect} (h : effect.Quietly T I)
    (hcut : ∀ w', Quiet T I w w' → cut w') :
    machine.wp cut (perform effect)
      (fun answer w' => Quiet T I w w' ∧ w.allowed effect answer ∧ w' = w.step effect answer) w :=
  Machine.wp_perform (fun _ => hcut _ (Quiet.refl w)) fun answer hanswer =>
    ⟨fun _ => hcut _ (h.step answer), h.step answer, hanswer, rfl⟩

/-- The rule for one quiet effect after a quiet beginning. -/
theorem wp_quiet_from {effect : Effect} {w₀ : World} (hw : Quiet T I w₀ w)
    (h : effect.Quietly T I) (hcut : ∀ w', Quiet T I w₀ w' → cut w') :
    machine.wp cut (perform effect)
      (fun answer w' => Quiet T I w₀ w' ∧ w.allowed effect answer ∧ w' = w.step effect answer) w :=
  Machine.wp_imp (wp_quiet h fun w' hw' => hcut w' (hw.trans hw'))
    fun _ _ hw' => ⟨hw.trans hw'.1, hw'.2⟩

/-- The rule for an effect in which an operation is never suspended. -/
theorem wp_sync {effect : Effect} {post : Answer effect → World → Prop}
    (hsync : effect.awaits = false)
    (hpost : ∀ answer, w.allowed effect answer → post answer (w.step effect answer)) :
    machine.wp cut (perform effect) post w :=
  have hnever : machine.awaits effect ≠ true := by
    simp [machine, hsync]
  Machine.wp_perform (fun h => absurd h hnever) fun answer hanswer =>
    ⟨fun h => absurd h hnever, hpost answer hanswer⟩

/-- The rule for an effect that changes nothing. -/
theorem wp_inert {effect : Effect} (h : ∀ answer, w.step effect answer = w) (hcut : cut w) :
    machine.wp cut (perform effect) (fun answer w' => w.allowed effect answer ∧ w = w') w := by
  refine Machine.wp_perform (fun _ => hcut) fun answer hanswer => ?_
  rw [show machine.step w effect answer = w from h answer]
  exact ⟨fun _ => hcut, hanswer, rfl⟩

/-- The frame rule: a program of quiet effects is quiet. -/
theorem wp_frame {p : Action α} (hp : p.Uses (Effect.Quietly T I))
    (hcut : ∀ w', Quiet T I w w' → cut w') :
    machine.wp cut p (fun _ w' => Quiet T I w w') w := by
  induction p generalizing w with
  | ret value => exact Quiet.refl w
  | call effect next ih =>
    refine ⟨fun _ => hcut _ (Quiet.refl w), fun answer _ => ?_⟩
    have hstep : Quiet T I w (w.step effect answer) := hp.1.step answer
    refine ⟨fun _ => hcut _ hstep, ?_⟩
    have hnext := ih answer (hp.2 answer) (w := w.step effect answer)
      fun w' hw' => hcut w' (hstep.trans hw')
    exact Machine.wp_imp hnext fun _ w' hw' => hstep.trans hw'

/-- The frame rule after a quiet beginning. -/
theorem wp_frame_from {p : Action α} {w₀ : World} (hw : Quiet T I w₀ w)
    (hp : p.Uses (Effect.Quietly T I)) (hcut : ∀ w', Quiet T I w₀ w' → cut w') :
    machine.wp cut p (fun _ w' => Quiet T I w₀ w') w :=
  Machine.wp_imp (wp_frame hp fun w' hw' => hcut w' (hw.trans hw'))
    fun _ _ hw' => hw.trans hw'

end Programs

end Nyanpasu.Manager
