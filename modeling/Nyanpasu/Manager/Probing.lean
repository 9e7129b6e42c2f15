import Nyanpasu.Manager.Capability

/-!
# One run of `-v` for each key

`VersionCache::resolve` keeps the lock of the entries across the probe. So two calls never run
a binary at once, and a build whose version was cached is not run again under its key, whatever
the other calls do. The key is read before the lock is taken: a call that has read the time of an
older build misses the cache, and runs the build in place once more.
-/

namespace Nyanpasu.Capability

open Moves

variable {P : Type} [DecidableEq P] {parts : String → P} {s s' : System P} {c : ℕ}
  {call : Call P} {key : VersionCacheKey P} {moment : ℕ} {version : String}

/-- The key of a call that runs the binary, or has run it and holds the lock still. -/
def Stage.probing : Stage P → Option (VersionCacheKey P)
  | .probe key _ => some key
  | .recheck key _ _ => some key
  | _ => none

/-- The key of a call that has returned. -/
def Stage.returnedKey : Stage P → Option (VersionCacheKey P)
  | .returned key _ _ => key
  | _ => none

/-- What the rest of a call can do up to its next suspension. -/
inductive Went (parts : String → P) (s : System P) (c : ℕ) (call : Call P) : System P → Prop
  | unread (error : Error) (h : call.stage = .read) :
      Went parts s c call (s.finish c call none (.error error))
  | failed (key : VersionCacheKey P) (error : Error) (h : call.stage.probing = some key) :
      Went parts s c call (s.finish c call key (.error error))
  | keyed (modified : ℕ) (h : call.stage = .read) :
      Went parts s c call
        (s.put c call (.lock ⟨parts call.spec.binaryPath, modified⟩ s.disk.now))
  | found (key : VersionCacheKey P) (moment : ℕ) (version : String)
      (h : call.stage = .lock key moment) (hfree : s.holder = none)
      (hentry : s.entries.lookup key = some version) :
      Went parts s c call (s.finish c call key (.ok version))
  | entered (key : VersionCacheKey P) (moment : ℕ) (h : call.stage = .lock key moment)
      (hfree : s.holder = none) (hentry : s.entries.lookup key = none) :
      Went parts s c call { s.put c call (.probe key moment) with holder := some c }
  | ran (key : VersionCacheKey P) (moment : ℕ) (version : String)
      (h : call.stage = .probe key moment) :
      Went parts s c call (s.put c call (.recheck key moment version))
  | stored (key : VersionCacheKey P) (moment : ℕ) (version : String) (file : Binary)
      (h : call.stage = .recheck key moment version)
      (hfile : s.file (parts call.spec.binaryPath) = some file)
      (hmodified : file.modified = key.modified) :
      Went parts s c call
        { s.finish c call key (.ok version) with entries := store s.entries key version }

theorem went_of_resolve {answer : Answer} (hstep : s.resolve parts c call answer = some s') :
    Went parts s c call s' := by
  rw [System.resolve] at hstep
  cases hstage : call.stage with
  | read =>
    simp only [hstage] at hstep
    cases hmodified : binaryModified call.spec (s.file (parts call.spec.binaryPath))
        answer.metadata with
    | error error =>
      simp only [hmodified] at hstep
      obtain rfl := Option.some.inj hstep
      exact .unread error hstage
    | ok modified =>
      simp only [hmodified] at hstep
      obtain rfl := Option.some.inj hstep
      exact .keyed modified hstage
  | lock key moment =>
    simp only [hstage] at hstep
    split at hstep
    · cases hstep
    next hfree =>
      rw [Bool.not_eq_true, Option.isSome_eq_false_iff, Option.isNone_iff_eq_none] at hfree
      cases hlookup : s.entries.lookup key with
      | some version =>
        simp only [hlookup] at hstep
        obtain rfl := Option.some.inj hstep
        exact .found key moment version hstage hfree hlookup
      | none =>
        simp only [hlookup] at hstep
        obtain rfl := Option.some.inj hstep
        exact .entered key moment hstage hfree hlookup
  | probe key moment =>
    simp only [hstage] at hstep
    cases hprobe : probeVersion call.spec.binaryPath answer.outcome with
    | error error =>
      simp only [hprobe] at hstep
      obtain rfl := Option.some.inj hstep
      exact .failed key error (by rw [hstage, Stage.probing])
    | ok version =>
      simp only [hprobe] at hstep
      obtain rfl := Option.some.inj hstep
      exact .ran key moment version hstage
  | recheck key moment version =>
    simp only [hstage] at hstep
    have hkey : call.stage.probing = some key := by rw [hstage, Stage.probing]
    cases hmodified : binaryModified call.spec (s.file (parts call.spec.binaryPath))
        answer.metadata with
    | error error =>
      simp only [hmodified] at hstep
      obtain rfl := Option.some.inj hstep
      exact .failed key error hkey
    | ok modified =>
      simp only [hmodified] at hstep
      split at hstep
      · obtain rfl := Option.some.inj hstep
        exact .failed key _ hkey
      next hsame =>
        obtain rfl := Option.some.inj hstep
        obtain ⟨file, hfile, rfl⟩ := binaryModified_ok hmodified
        exact .stored key moment version file hstage hfile (not_not.mp hsame)
  | returned key result moment => simp only [hstage] at hstep; cases hstep
  | dropped => simp only [hstage] at hstep; cases hstep

/-! ## The lock -/

omit [DecidableEq P] in
theorem System.put_calls_self {stage : Stage P} :
    (s.put c call stage).calls c = some { call with stage := stage } :=
  Function.update_self ..

omit [DecidableEq P] in
theorem System.put_calls_of_ne {stage : Stage P} {d : ℕ} (h : d ≠ c) :
    (s.put c call stage).calls d = s.calls d :=
  Function.update_of_ne h ..

/-- Who runs a binary has the lock, and finds no entry under its key. -/
structure Locked (s : System P) : Prop where
  holds : ∀ c call, s.calls c = some call → call.stage.probing ≠ none → s.holder = some c
  absent : ∀ c call key, s.calls c = some call → call.stage.probing = some key →
    s.entries.lookup key = none

/-- Nobody else runs a binary while a call has the lock, or may take it. -/
theorem Locked.eq_of_probing (h : Locked s) {d : ℕ} {call' : Call P}
    (hfree : s.holder = none ∨ s.holder = some c) (hcall : s.calls d = some call')
    (hprobing : call'.stage.probing ≠ none) : d = c := by
  have hholds := h.holds d call' hcall hprobing
  rcases hfree with hfree | hfree
  · rw [hfree] at hholds
    cases hholds
  · rw [hfree] at hholds
    exact (Option.some.inj hholds).symm

/-- A call that does not run a binary next, and gives the lock back if it has it. -/
theorem Locked.put (h : Locked s) {stage : Stage P} {holder : Option ℕ}
    (hstage : stage.probing = none) (hholder : s.holder ≠ some c → holder = s.holder) :
    Locked { s.put c call stage with holder := holder } := by
  have hother : ∀ d call', (s.put c call stage).calls d = some call' →
      call'.stage.probing ≠ none → d ≠ c ∧ s.calls d = some call' := by
    intro d call' hcall hprobing
    by_cases hd : d = c
    · rw [hd, System.put_calls_self, Option.some.injEq] at hcall
      rw [← hcall] at hprobing
      exact absurd hstage hprobing
    · rw [System.put_calls_of_ne hd] at hcall
      exact ⟨hd, hcall⟩
  constructor
  · intro d call' hcall hprobing
    obtain ⟨hd, hbefore⟩ := hother d call' hcall hprobing
    have hholds := h.holds d call' hbefore hprobing
    have hfree : s.holder ≠ some c := by
      rw [hholds]
      exact fun heq => hd (Option.some.inj heq)
    exact (hholder hfree).trans hholds
  · intro d call' key hcall hprobing
    have hsome : call'.stage.probing ≠ none := by
      rw [hprobing]
      exact Option.some_ne_none key
    exact h.absent d call' key (hother d call' hcall hsome).2 hprobing

/-- A call that runs a binary next, and finds no entry under its key. -/
theorem Locked.probe (h : Locked s) {stage : Stage P} (hstage : stage.probing = some key)
    (hfree : s.holder = none ∨ s.holder = some c) (hentry : s.entries.lookup key = none) :
    Locked { s.put c call stage with holder := some c } := by
  have hself : ∀ d call', (s.put c call stage).calls d = some call' →
      call'.stage.probing ≠ none → d = c := by
    intro d call' hcall hprobing
    by_contra hd
    rw [System.put_calls_of_ne hd] at hcall
    exact hd (h.eq_of_probing hfree hcall hprobing)
  constructor
  · intro d call' hcall hprobing
    rw [hself d call' hcall hprobing]
  · intro d call' other hcall hprobing
    have hsome : call'.stage.probing ≠ none := by
      rw [hprobing]
      exact Option.some_ne_none other
    have hd := hself d call' hcall hsome
    have hcall' : (s.put c call stage).calls d = some call' := hcall
    rw [hd, System.put_calls_self, Option.some.injEq] at hcall'
    rw [← hcall', hstage, Option.some.injEq] at hprobing
    rw [← hprobing]
    exact hentry

/-- The rest of a call keeps the lock. -/
theorem Locked.went (h : Locked s) (hcall : s.calls c = some call)
    (hwent : Went parts s c call s') : Locked s' := by
  cases hwent with
  | unread error hstage => exact h.put rfl fun hne => if_neg hne
  | failed key error hprobing => exact h.put rfl fun hne => if_neg hne
  | keyed modified hstage =>
    have hput : Locked { s.put c call (.lock ⟨parts call.spec.binaryPath, modified⟩ s.disk.now) with
        holder := s.holder } := h.put rfl fun _ => rfl
    exact hput
  | found key moment version hstage hfree hentry => exact h.put rfl fun hne => if_neg hne
  | entered key moment hstage hfree hentry => exact h.probe rfl (Or.inl hfree) hentry
  | ran key moment version hstage =>
    have hprobing : call.stage.probing = some key := by rw [hstage, Stage.probing]
    have hholder : s.holder = some c := by
      refine h.holds c call hcall ?_
      rw [hprobing]
      exact Option.some_ne_none key
    have hlocked : Locked { s.put c call (.recheck key moment version) with holder := some c } :=
      h.probe rfl (Or.inr hholder) (h.absent c call key hcall hprobing)
    rw [← hholder] at hlocked
    exact hlocked
  | stored key moment version file hstage hfile hmodified =>
    have hholder : s.holder = some c := by
      refine h.holds c call hcall ?_
      rw [hstage, Stage.probing]
      exact Option.some_ne_none key
    have hput : Locked (s.finish c call key (.ok version)) := h.put rfl fun hne => if_neg hne
    refine ⟨hput.holds, fun d call' other hcall' hprobing => ?_⟩
    -- The lock is free now, so nobody runs a binary.
    have hholds : (s.finish c call key (.ok version)).holder = some d := by
      refine hput.holds d call' hcall' ?_
      rw [hprobing]
      exact Option.some_ne_none other
    rw [System.finish, if_pos hholder] at hholds
    cases hholds

theorem Locked.step {move : Move P} (h : Locked s) (hstep : s.step parts move = some s') :
    Locked s' := by
  cases move with
  | call c spec =>
    rw [System.step] at hstep
    split at hstep
    · cases hstep
    cases hversion : spec.version with
    | some version =>
      simp only [hversion] at hstep
      obtain rfl := Option.some.inj hstep
      exact h.put rfl fun hne => if_neg hne
    | none =>
      simp only [hversion] at hstep
      obtain rfl := Option.some.inj hstep
      have hput : Locked { s.put c ⟨spec, s.disk.now, .read⟩ .read with holder := s.holder } :=
        h.put rfl fun _ => rfl
      exact hput
  | resolve c answer =>
    obtain ⟨call, hcall, hresolve⟩ := Option.bind_eq_some_iff.mp hstep
    exact h.went hcall (went_of_resolve hresolve)
  | drop c =>
    obtain ⟨call, hcall, hdrop⟩ := Option.bind_eq_some_iff.mp hstep
    split at hdrop
    · cases hdrop
    · obtain rfl := Option.some.inj hdrop
      exact h.put rfl fun hne => if_neg hne
  | replace path file =>
    obtain rfl := Option.some.inj hstep
    exact ⟨h.holds, h.absent⟩
  | remove path =>
    obtain rfl := Option.some.inj hstep
    exact ⟨h.holds, h.absent⟩

theorem Reachable.locked (h : Reachable parts s) : Locked s := by
  refine Reach.invariant ?_ (fun s move s' hs _ hstep => hs.step hstep) h
  intro s hs
  constructor
  · intro c call hcall
    rw [hs.noCalls c] at hcall
    cases hcall
  · intro c call key hcall
    rw [hs.noCalls c] at hcall
    cases hcall

/-! ## A cached build -/

/-- The moves that leave the binary at a path alone. -/
def Move.spares (path : P) : Move P → Prop
  | .replace other _ => other ≠ path
  | .remove other => other ≠ path
  | _ => True

/-- A build stays cached: its entry stays, nobody runs it, and the calls that find it in place
get its version. -/
structure Flight (s : System P) (key : VersionCacheKey P) (version : String) (s' : System P) :
    Prop where
  entry : s'.entries.lookup key = some version
  unprobed : ∀ c call, s'.calls c = some call → call.stage.probing ≠ some key
  answered : ∀ c call, s'.calls c = some call → call.stage.returnedKey = some key →
    s.calls c = some call ∨ ∃ moment, call.stage = .returned key (.ok version) moment

theorem lookup_store_of_ne {entries : List (VersionCacheKey P × String)}
    {other : VersionCacheKey P} (h : key.binaryPath ≠ other.binaryPath) :
    (Capability.store entries other version).lookup key = entries.lookup key := by
  have hne : key ≠ other := fun heq => h (congrArg _ heq)
  rw [Capability.store, Assoc.lookup_insert, if_neg hne]
  induction entries with
  | nil => rfl
  | cons e entries ih =>
    rw [List.filter_cons]
    split
    · rw [Assoc.lookup_cons_if, Assoc.lookup_cons_if, ih]
    next hpath =>
      have hkey : key ≠ e.1 := by
        intro heq
        rw [← heq] at hpath
        exact hpath (decide_eq_true h)
      rw [Assoc.lookup_cons_if, if_neg hkey, ih]

/-- What a run keeps that leaves a cached build in place. -/
structure Cached (parts : String → P) (s : System P) (key : VersionCacheKey P) (version : String)
    (s' : System P) : Prop where
  invariant : Invariant parts s'
  locked : Locked s'
  entry : s'.entries.lookup key = some version
  file : ∃ file, s'.file key.binaryPath = some file ∧ file.modified = key.modified
  answered : ∀ c call, s'.calls c = some call → call.stage.returnedKey = some key →
    s.calls c = some call ∨ ∃ moment, call.stage = .returned key (.ok version) moment

section Cached

variable {s₀ : System P}

/-- Nobody runs a build that is cached. -/
theorem Cached.unprobed (h : Cached parts s₀ key version s) (hcall : s.calls c = some call) :
    call.stage.probing ≠ some key := by
  intro hprobing
  have habsent := h.locked.absent c call key hcall hprobing
  rw [h.entry] at habsent
  cases habsent

/-- A call that goes on keeps the answers, if it gives the cached one itself. -/
theorem Cached.put_answered (h : Cached parts s₀ key version s) {stage : Stage P}
    (hstage : stage.returnedKey = some key →
      ∃ moment, stage = .returned key (.ok version) moment) :
    ∀ d call', (s.put c call stage).calls d = some call' → call'.stage.returnedKey = some key →
      s₀.calls d = some call' ∨ ∃ moment, call'.stage = .returned key (.ok version) moment := by
  intro d call' hcall hreturned
  by_cases hd : d = c
  · rw [hd, System.put_calls_self, Option.some.injEq] at hcall
    rw [← hcall] at hreturned ⊢
    exact Or.inr (hstage hreturned)
  · rw [System.put_calls_of_ne hd] at hcall
    exact h.answered d call' hcall hreturned

/-- The rest of a call keeps a cached build. -/
theorem Cached.went (h : Cached parts s₀ key version s) (hcall : s.calls c = some call)
    (hinv : Invariant parts s') (hwent : Went parts s c call s') :
    Cached parts s₀ key version s' := by
  have hlocked := h.locked.went hcall hwent
  cases hwent with
  | unread error hstage =>
    exact ⟨hinv, hlocked, h.entry, h.file, h.put_answered fun heq => by cases heq⟩
  | failed other error hprobing =>
    refine ⟨hinv, hlocked, h.entry, h.file, h.put_answered fun heq => ?_⟩
    rw [Stage.returnedKey] at heq
    exact absurd (hprobing.trans heq) (h.unprobed hcall)
  | keyed modified hstage =>
    exact ⟨hinv, hlocked, h.entry, h.file, h.put_answered fun heq => by cases heq⟩
  | found other moment found hstage hfree hentry =>
    refine ⟨hinv, hlocked, h.entry, h.file, h.put_answered fun heq => ?_⟩
    obtain rfl : other = key := Option.some.inj heq
    rw [h.entry, Option.some.injEq] at hentry
    exact ⟨s.disk.now, by rw [hentry]⟩
  | entered other moment hstage hfree hentry =>
    exact ⟨hinv, hlocked, h.entry, h.file, h.put_answered fun heq => by cases heq⟩
  | ran other moment found hstage =>
    exact ⟨hinv, hlocked, h.entry, h.file, h.put_answered fun heq => by cases heq⟩
  | stored other moment found file hstage hfile hmodified =>
    have hprobing : call.stage.probing = some other := by rw [hstage, Stage.probing]
    have hne : other ≠ key := by
      intro heq
      rw [heq] at hprobing
      exact h.unprobed hcall hprobing
    have hpath : key.binaryPath ≠ other.binaryPath := by
      -- Both keys would be the modification time of the one file at the path.
      intro hsame
      have hsound := h.invariant.calls c call hcall
      rw [Sound, hstage] at hsound
      obtain ⟨last, hlast, hkey⟩ := h.file
      rw [hsame, hsound.1.path_eq, hfile] at hlast
      obtain rfl := Option.some.inj hlast
      refine hne ?_
      rw [hsound.1.key_eq, ← hmodified, hkey, ← hsound.1.path_eq, ← hsame]
    refine ⟨hinv, hlocked, ?_, h.file, h.put_answered fun heq => ?_⟩
    · exact (lookup_store_of_ne hpath).trans h.entry
    · exact absurd (Option.some.inj heq) hne

/-- A binary elsewhere may be changed. -/
theorem Cached.change (h : Cached parts s₀ key version s) {path : P} {file : Option Binary}
    (hpath : path ≠ key.binaryPath)
    (hinv : Invariant parts { s with disk := s.disk.change path file }) :
    Cached parts s₀ key version { s with disk := s.disk.change path file } := by
  refine ⟨hinv, ⟨h.locked.holds, h.locked.absent⟩, h.entry, ?_, h.answered⟩
  obtain ⟨last, hlast, hmodified⟩ := h.file
  refine ⟨last, ?_, hmodified⟩
  rw [System.file, Timeline.now_change, Timeline.content_change_succ,
    Function.update_of_ne (Ne.symm hpath)]
  exact hlast

theorem Cached.step {move : Move P} (h : Cached parts s₀ key version s)
    (hadmits : Admits parts s move) (hspares : move.spares key.binaryPath)
    (hstep : s.step parts move = some s') : Cached parts s₀ key version s' := by
  have hinv := h.invariant.step hadmits hstep
  have hlocked := h.locked.step hstep
  cases move with
  | call c spec =>
    rw [System.step] at hstep
    split at hstep
    · cases hstep
    cases hversion : spec.version with
    | some version =>
      simp only [hversion] at hstep
      obtain rfl := Option.some.inj hstep
      exact ⟨hinv, hlocked, h.entry, h.file, h.put_answered fun heq => by cases heq⟩
    | none =>
      simp only [hversion] at hstep
      obtain rfl := Option.some.inj hstep
      exact ⟨hinv, hlocked, h.entry, h.file, h.put_answered fun heq => by cases heq⟩
  | resolve c answer =>
    obtain ⟨call, hcall, hresolve⟩ := Option.bind_eq_some_iff.mp hstep
    exact h.went hcall hinv (went_of_resolve hresolve)
  | drop c =>
    obtain ⟨call, hcall, hdrop⟩ := Option.bind_eq_some_iff.mp hstep
    split at hdrop
    · cases hdrop
    · obtain rfl := Option.some.inj hdrop
      exact ⟨hinv, hlocked, h.entry, h.file, h.put_answered fun heq => by cases heq⟩
  | replace path file =>
    obtain rfl := Option.some.inj hstep
    exact h.change hspares hinv
  | remove path =>
    obtain rfl := Option.some.inj hstep
    exact h.change hspares hinv

end Cached

/-- The systems that a run from a system leads to which leaves a binary in place. -/
abbrev Leads (parts : String → P) (path : P) (s : System P) : System P → Prop :=
  Reach (System.step parts) (fun s move => Admits parts s move ∧ move.spares path) (Eq s)

/-- **One run of `-v` for each key.** Never do two calls run a binary at once; and from the
moment on at which the version of the build in place is cached, no call under the key of that
build runs it again while it stays in place, and every call that finds it returns the cached
version. -/
theorem probed_once (h : Reachable parts s) :
    (∀ c d call call', s.calls c = some call → s.calls d = some call' →
      call.stage.probing ≠ none → call'.stage.probing ≠ none → c = d) ∧
    ∀ key version file s', s.entries.lookup key = some version →
      s.file key.binaryPath = some file → file.modified = key.modified →
      Leads parts key.binaryPath s s' → Flight s key version s' := by
  have hlocked := h.locked
  refine ⟨?_, ?_⟩
  · intro c d call call' hc hd hcall hcall'
    have hholder := hlocked.holds d call' hd hcall'
    exact hlocked.eq_of_probing (Or.inr hholder) hc hcall
  · intro key version file s' hentry hfile hmodified hleads
    have hcached : Cached parts s key version s' := by
      refine Reach.invariant ?_ (fun s move s' hs hadmits hstep => ?_) hleads
      · rintro start rfl
        exact ⟨h.invariant, hlocked, hentry, ⟨file, hfile, hmodified⟩,
          fun c call hcall _ => Or.inl hcall⟩
      · exact hs.step hadmits.1 hadmits.2 hstep
    exact ⟨hcached.entry, fun c call hcall => hcached.unprobed hcall, hcached.answered⟩

instance (path : P) (s : System P) (move : Move P) :
    Decidable (Admits parts s move ∧ move.spares path) :=
  match move with
  | .call .. => inferInstanceAs (Decidable (_ ∧ True))
  | .resolve .. => inferInstanceAs (Decidable (_ ∧ True))
  | .drop _ => inferInstanceAs (Decidable (_ ∧ True))
  | .replace other _ => inferInstanceAs (Decidable (_ ∧ other ≠ path))
  | .remove other => inferInstanceAs (Decidable (_ ∧ other ≠ path))

/-- Two calls read the modification time of the first build, and one of them runs it. -/
def probes : List (Move String) :=
  [.call 0 plainCore, .resolve 0 (printing "1"), .call 1 plainCore, .resolve 1 (printing "1"),
    .resolve 0 (printing "1"), .resolve 0 (printing "1"), .resolve 0 (printing "1")]

/-- The other call returns what the first one cached, beside a binary that is replaced. -/
theorem probed_once_shared : ∃ s s' : System String,
    s.entries.lookup ⟨"/core", 1⟩ = some "1" ∧ Flight s ⟨"/core", 1⟩ "1" s' ∧
    (s'.calls 1).map Call.stage = some (.returned (some ⟨"/core", 1⟩) (.ok "1") 1) := by
  have hstarted : Started firstBuild := ⟨rfl, rfl, rfl, fun _ => rfl⟩
  obtain ⟨s, hreach, hs⟩ := exists_reach (System.step id) (Admits id)
    (p := fun s => (s.entries.lookup ⟨"/core", 1⟩ = some "1" ∧
        s.file "/core" = some ⟨1, buildOf "1"⟩) &&
      ([.replace "/other" ⟨5, buildOf "5"⟩, .resolve 1 (printing "1")].foldlM
        (attempt (System.step id) fun s move => Admits id s move ∧ move.spares "/core") s).any
        fun s' => (s'.calls 1).map Call.stage = some (.returned (some ⟨"/core", 1⟩) (.ok "1") 1))
    hstarted probes (by decide +kernel)
  rw [Bool.and_eq_true, decide_eq_true_eq] at hs
  obtain ⟨⟨hentry, hfile⟩, hs'⟩ := hs
  obtain ⟨s', hleads, hreturned⟩ := exists_reach (System.step id)
    (fun s move => Admits id s move ∧ move.spares "/core") (Eq.refl s) _ hs'
  exact ⟨s, s', hentry, (probed_once hreach).2 _ _ _ _ hentry hfile rfl hleads,
    of_decide_eq_true hreturned⟩

end Nyanpasu.Capability
