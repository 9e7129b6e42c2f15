import Nyanpasu.Log.Totality
import Mathlib.Algebra.Order.Group.Multiset
import Mathlib.Data.List.Pairwise
import Mathlib.Data.Multiset.Range

/-!
# Records

Every pushed line belongs to one record: it is the root of the record, or it continues
the record that its stream holds. The ledger of a run names the record of every line,
which records were released by which push and which are still held, and each frame that
left the parser is the one its record assembles.
-/

namespace Nyanpasu.Log

/-- The lines of a record, by their place among the pushes. -/
structure Record where
  root : ℕ
  continuations : List ℕ
  deriving DecidableEq

/-- The lines of a record, the root first. -/
def Record.lines (record : Record) : List ℕ := record.root :: record.continuations

/-- The frame of a root line and its continuation lines. -/
def assemble (root : LogFrame) (lines : List Text) : Checked LogFrame := do
  let frame ← boundFrame root
  let pending ← lines.foldlM Pending.append ⟨frame, 0⟩
  pure pending.frame

/-- The frames that a run returned, each with the number of its push. -/
def emissions (outs : List ParsedFrames) : List (ℕ × LogFrame) :=
  outs.zipIdx.flatMap fun (out, time) => out.frames.map fun frame => (time, frame)

section

variable {chrono : Chrono}

/-- The stream of a line. -/
def streamAt (pushes : List (Push chrono)) (j : ℕ) : Option LogStream :=
  (pushes[j]?).map Push.stream

/-- The texts of lines without their escapes. -/
def textsAt (pushes : List (Push chrono)) (lines : List ℕ) : List Text :=
  lines.filterMap fun j => (pushes[j]?).map fun push => visible push.line

/-- The frame that a line opens, before it is cut: its header is parsed with the clock that the
lines before it have left. -/
inductive Opens (kind : CoreKind) (epoch : ℕ) (pushes : List (Push chrono)) :
    ℕ → LogFrame → Prop where
  | intro {root : ℕ} {push : Push chrono} {parser : LogParser chrono} {outs : List ParsedFrames}
      {parsed : Option ParsedLine} {clock : PremiumClock chrono}
      (hpush : pushes[root]? = some push)
      (hrun : (LogParser.new kind epoch).run (pushes.take root) = .ok (parser, outs))
      (hparsed : parseHeader chrono kind parser.premiumClock (visible push.line) push.observedAt =
        .ok (parsed, clock)) :
      Opens kind epoch pushes root
        (parser.frameOf push.stream (visible push.line) push.observedAt parsed)

/-- A frame is the one that a record assembles. -/
def Tells (kind : CoreKind) (epoch : ℕ) (pushes : List (Push chrono)) (record : Record)
    (frame : LogFrame) : Prop :=
  ∃ root, Opens kind epoch pushes record.root root ∧
    assemble root (textsAt pushes record.continuations) = .ok frame

/-- A record has every line of its stream from its root up to a push, and no other line. -/
structure Spans (pushes : List (Push chrono)) (record : Record) (stream : LogStream) (time : ℕ) :
    Prop where
  own : ∀ j ∈ record.lines, streamAt pushes j = some stream
  later : ∀ j ∈ record.continuations, record.root < j ∧ j < time
  every : ∀ j, record.root < j → j < time → streamAt pushes j = some stream →
    j ∈ record.continuations

/-- What the records of a run that has returned say of its pushes. -/
structure Conserved (kind : CoreKind) (epoch : ℕ) (pushes : List (Push chrono))
    (emitted : List (ℕ × LogFrame)) (records : List (ℕ × Record)) : Prop where
  /-- Each frame is emitted with its record, and has the stream and the instant of its root. -/
  tells : List.Forall₂ (fun e r => e.1 = r.1 ∧ Tells kind epoch pushes r.2 e.2 ∧
    ∃ push, pushes[r.2.root]? = some push ∧ e.2.stream = push.stream ∧
      e.2.at_ = chrono.timestampMillis push.observedAt) emitted records
  /-- Every line is in one record, once. -/
  lines : (records.flatMap fun r => r.2.lines).Perm (List.range pushes.length)
  /-- A continuation belongs to the most recent root of its stream, still held when it came. -/
  recent : ∀ r ∈ records, ∀ j ∈ r.2.continuations,
    streamAt pushes j = streamAt pushes r.2.root ∧ r.2.root < j ∧ j < r.1 ∧
      ∀ r' ∈ records, streamAt pushes r'.2.root = streamAt pushes j → r'.2.root < j →
        r'.2.root ≤ r.2.root
  /-- The frames of a stream leave in the order of their roots. -/
  ordered : records.Pairwise fun r r' =>
    streamAt pushes r.2.root = streamAt pushes r'.2.root → r.2.root < r'.2.root
  /-- What the end of the process releases leaves in the order of the roots. -/
  last : records.Pairwise fun r r' =>
    r.1 = pushes.length → r'.1 = pushes.length → r.2.root < r'.2.root

/-! ## Lines of longer runs -/

variable {pushes : List (Push chrono)} {push : Push chrono} {record : Record}
  {stream : LogStream} {time n : ℕ}

theorem streamAt_append {j : ℕ} (h : j < pushes.length) :
    streamAt (pushes ++ [push]) j = streamAt pushes j := by
  rw [streamAt, streamAt, List.getElem?_append_left h]

theorem lt_of_streamAt {j : ℕ} (h : streamAt pushes j = some stream) : j < pushes.length := by
  obtain ⟨push, hpush, -⟩ := Option.map_eq_some_iff.mp h
  exact (List.getElem?_eq_some_iff.mp hpush).1

theorem streamAt_append_of_some {j : ℕ} (h : streamAt pushes j = some stream) :
    streamAt (pushes ++ [push]) j = some stream := by
  rw [streamAt_append (lt_of_streamAt h), h]

theorem streamAt_last : streamAt (pushes ++ [push]) pushes.length = some push.stream := by
  simp [streamAt]

/-- Later pushes do not change what a record spans. -/
theorem Spans.append (h : Spans pushes record stream time) (htime : time ≤ pushes.length) :
    Spans (pushes ++ [push]) record stream time where
  own := fun j hj => streamAt_append_of_some (h.own j hj)
  later := h.later
  every := by
    intro j hroot hj hstream
    rw [streamAt_append (by omega)] at hstream
    exact h.every j hroot hj hstream

/-- A line of the other stream leaves what a record spans. -/
theorem Spans.skip (h : Spans pushes record stream n) (hother : streamAt pushes n ≠ some stream) :
    Spans pushes record stream (n + 1) where
  own := h.own
  later := fun j hj => ⟨(h.later j hj).1, Nat.lt_succ_of_lt (h.later j hj).2⟩
  every := by
    intro j hroot hj hstream
    have hne : j ≠ n := fun heq => hother (heq ▸ hstream)
    exact h.every j hroot (by omega) hstream

/-- A line of its stream continues a record. -/
theorem Spans.continue (h : Spans pushes record stream n) (hroot : record.root < n)
    (hown : streamAt pushes n = some stream) :
    Spans pushes ⟨record.root, record.continuations ++ [n]⟩ stream (n + 1) where
  own := by
    intro j hj
    have hcases : j ∈ record.lines ∨ j = n := by
      simpa [Record.lines, or_assoc] using hj
    rcases hcases with hj | rfl
    · exact h.own j hj
    · exact hown
  later := by
    intro j hj
    rcases List.mem_append.mp hj with hj | hj
    · exact ⟨(h.later j hj).1, Nat.lt_succ_of_lt (h.later j hj).2⟩
    · obtain rfl := List.mem_singleton.mp hj
      exact ⟨hroot, Nat.lt_succ_self _⟩
  every := by
    intro j hroot hj hstream
    by_cases heq : j = n
    · simp [heq]
    · exact List.mem_append_left _ (h.every j hroot (by omega) hstream)

/-- A line opens a record of its own. -/
theorem spans_root (hown : streamAt pushes n = some stream) (htime : time ≤ n + 1) :
    Spans pushes ⟨n, []⟩ stream time where
  own := by simpa [Record.lines] using hown
  later := by simp
  every := by
    intro j hroot hj
    have : n < j := hroot
    omega

/-! ## The ledger of the lines -/

/-- The lines of a record that may be held. -/
def heldLines (held : Option Record) : Multiset ℕ := held.elim 0 fun record => record.lines

/-- The records of the first `n` lines: those released, with the push that released each, and
those held. -/
structure Book (pushes : List (Push chrono)) (n : ℕ) (records : List (ℕ × Record))
    (held : LogStream → Option Record) : Prop where
  count : n ≤ pushes.length
  lines : (records.flatMap fun r => r.2.lines : Multiset ℕ) + heldLines (held .stdout) +
    heldLines (held .stderr) = Multiset.range n
  spans : ∀ r ∈ records, r.1 ≤ n ∧ ∃ stream, Spans pushes r.2 stream r.1
  heldSpans : ∀ stream, ∀ record ∈ held stream, Spans pushes record stream n
  ordered : records.Pairwise fun r r' =>
    streamAt pushes r.2.root = streamAt pushes r'.2.root → r.2.root < r'.2.root
  heldLater : ∀ stream, ∀ record ∈ held stream, ∀ r ∈ records,
    streamAt pushes r.2.root = some stream → r.2.root < record.root

variable {records : List (ℕ × Record)} {held : LogStream → Option Record}

namespace Book

/-- Every line of a record is among those counted. -/
theorem lt_of_mem (h : Book pushes n records held) {r : ℕ × Record} (hr : r ∈ records) {j : ℕ}
    (hj : j ∈ r.2.lines) : j < n := by
  have hmem : j ∈ Multiset.range n := by
    rw [← h.lines]
    exact Multiset.mem_add.mpr (Or.inl (Multiset.mem_add.mpr (Or.inl
      (List.mem_flatMap.mpr ⟨r, hr, hj⟩))))
  exact Multiset.mem_range.mp hmem

theorem lt_of_held (h : Book pushes n records held) (hheld : held stream = some record) {j : ℕ}
    (hj : j ∈ record.lines) : j < n := by
  have hmem : j ∈ Multiset.range n := by
    rw [← h.lines]
    cases stream with
    | stdout =>
      refine Multiset.mem_add.mpr (Or.inl (Multiset.mem_add.mpr (Or.inr ?_)))
      rw [hheld]
      exact hj
    | stderr =>
      refine Multiset.mem_add.mpr (Or.inr ?_)
      rw [hheld]
      exact hj
  exact Multiset.mem_range.mp hmem

/-- One more push, not yet counted. -/
theorem append (h : Book pushes n records held) (push : Push chrono) :
    Book (pushes ++ [push]) n records held where
  count := by
    have := h.count
    simp only [List.length_append, List.length_singleton]
    omega
  lines := h.lines
  spans := by
    intro r hr
    obtain ⟨htime, stream, hspans⟩ := h.spans r hr
    exact ⟨htime, stream, hspans.append (htime.trans h.count)⟩
  heldSpans := fun stream record hrecord => (h.heldSpans stream record hrecord).append h.count
  ordered := by
    refine h.ordered.imp_of_mem ?_
    intro r r' hr hr' hlt hstream
    have hlt₁ := h.lt_of_mem hr (List.mem_cons_self : r.2.root ∈ r.2.lines)
    have hlt₂ := h.lt_of_mem hr' (List.mem_cons_self : r'.2.root ∈ r'.2.lines)
    have hcount := h.count
    rw [streamAt_append (by omega), streamAt_append (by omega)] at hstream
    exact hlt hstream
  heldLater := by
    intro stream record hrecord r hr hstream
    have hlt := h.lt_of_mem hr (List.mem_cons_self : r.2.root ∈ r.2.lines)
    have hcount := h.count
    rw [streamAt_append (by omega)] at hstream
    exact h.heldLater stream record hrecord r hr hstream

/-- The lines held, in either order of the streams. -/
theorem lines_of (h : Book pushes n records held) (stream other : LogStream)
    (hne : other ≠ stream) :
    (records.flatMap fun r => r.2.lines : Multiset ℕ) + heldLines (held other) +
      heldLines (held stream) = Multiset.range n := by
  rw [← h.lines]
  cases stream <;> cases other <;> first | rfl | exact absurd rfl hne | exact add_right_comm _ _ _

/-- The lines after a record of one stream was replaced. -/
theorem lines_update {total : Multiset ℕ} {rest : Multiset ℕ} {new : Option Record}
    (h : ∀ other, other ≠ stream →
      rest + heldLines (held other) + heldLines new = total) :
    rest + heldLines (Function.update held stream new .stdout) +
      heldLines (Function.update held stream new .stderr) = total := by
  cases stream with
  | stdout =>
    rw [Function.update_self, Function.update_of_ne (by simp), add_right_comm]
    exact h .stderr (by simp)
  | stderr =>
    rw [Function.update_self, Function.update_of_ne (by simp)]
    exact h .stdout (by simp)

/-- The record that a stream holds is released. -/
theorem flush (h : Book pushes n records held) (hheld : held stream = some record) :
    Book pushes n (records ++ [(n, record)]) (Function.update held stream none) where
  count := h.count
  lines := by
    refine lines_update fun other hne => ?_
    rw [← h.lines_of stream other hne, hheld]
    simp only [List.flatMap_append, List.flatMap_cons, List.flatMap_nil, List.append_nil,
      heldLines, Option.elim_none, Option.elim_some, ← Multiset.coe_add, add_zero]
    ac_rfl
  spans := by
    intro r hr
    rcases List.mem_append.mp hr with hr | hr
    · exact h.spans r hr
    · obtain rfl := List.mem_singleton.mp hr
      exact ⟨le_rfl, stream, h.heldSpans stream record hheld⟩
  heldSpans := by
    intro other record' hrecord'
    by_cases heq : other = stream
    · simp [heq] at hrecord'
    · rw [Function.update_of_ne heq] at hrecord'
      exact h.heldSpans other record' hrecord'
  ordered := by
    refine List.pairwise_append.mpr ⟨h.ordered, List.pairwise_singleton _ _, ?_⟩
    intro r hr r' hr' hstream
    obtain rfl := List.mem_singleton.mp hr'
    have hown := (h.heldSpans stream record hheld).own record.root List.mem_cons_self
    exact h.heldLater stream record hheld r hr (hstream.trans hown)
  heldLater := by
    intro other record' hrecord' r hr hstream
    by_cases heq : other = stream
    · simp [heq] at hrecord'
    · rw [Function.update_of_ne heq] at hrecord'
      rcases List.mem_append.mp hr with hr | hr
      · exact h.heldLater other record' hrecord' r hr hstream
      · obtain rfl := List.mem_singleton.mp hr
        have hown := (h.heldSpans stream record hheld).own record.root List.mem_cons_self
        exact absurd (Option.some.inj (hstream.symm.trans hown)) heq

/-- Whatever a stream holds is released. -/
theorem release (h : Book pushes n records held) (stream : LogStream) :
    Book pushes n (records ++ (held stream).toList.map fun record => (n, record))
      (Function.update held stream none) := by
  cases hheld : held stream with
  | none =>
    rw [← hheld, Function.update_eq_self]
    simpa [hheld] using h
  | some record => exact h.flush hheld

/-- Both streams release what they hold. -/
theorem releaseAll (h : Book pushes n records held) {first second : LogStream}
    (hne : second ≠ first) :
    Book pushes n (records ++ (held first).toList.map (fun record => (n, record)) ++
      (held second).toList.map fun record => (n, record)) fun _ => none := by
  have hboth := (h.release first).release second
  rw [Function.update_of_ne hne] at hboth
  have hempty : Function.update (Function.update held first none) second none =
      fun _ => none := by
    funext other
    cases first <;> cases second <;> cases other <;> first | rfl | exact absurd rfl hne
  rwa [hempty] at hboth

/-- When nothing is held, the records have each line once. -/
theorem perm (h : Book pushes n records fun _ => none) :
    (records.flatMap fun r => r.2.lines).Perm (List.range n) := by
  have hlines := h.lines
  simp only [heldLines, Option.elim_none, add_zero] at hlines
  exact Multiset.coe_eq_coe.mp hlines

/-- A line is in one record only. -/
theorem eq_of_mem (h : Book pushes n records fun _ => none) {r r' : ℕ × Record}
    (hr : r ∈ records) (hr' : r' ∈ records) {j : ℕ} (hj : j ∈ r.2.lines) (hj' : j ∈ r'.2.lines) :
    r = r' := by
  have hnodup : (records.flatMap fun r => r.2.lines).Nodup :=
    h.perm.nodup_iff.mpr List.nodup_range
  by_contra hne
  have : Std.Symm (Function.onFun List.Disjoint fun r : ℕ × Record => r.2.lines) :=
    ⟨fun _ _ hd => hd.symm⟩
  exact (List.nodup_flatMap.mp hnodup).2.forall hr hr' hne hj hj'

/-- A continuation belongs to the most recent root of its stream. -/
theorem recent (h : Book pushes n records fun _ => none) {r : ℕ × Record} (hr : r ∈ records)
    {j : ℕ} (hj : j ∈ r.2.continuations) :
    streamAt pushes j = streamAt pushes r.2.root ∧ r.2.root < j ∧ j < r.1 ∧
      ∀ r' ∈ records, streamAt pushes r'.2.root = streamAt pushes j → r'.2.root < j →
        r'.2.root ≤ r.2.root := by
  obtain ⟨-, stream, hspans⟩ := h.spans r hr
  obtain ⟨hroot, htime⟩ := hspans.later j hj
  have hown := hspans.own j (List.mem_cons_of_mem _ hj)
  refine ⟨hown.trans (hspans.own _ List.mem_cons_self).symm, hroot, htime, ?_⟩
  intro r' hr' hstream hlt
  by_contra hlater
  have hmem := hspans.every r'.2.root (by omega) (by omega) (hstream.trans hown)
  obtain rfl := h.eq_of_mem hr hr' (List.mem_cons_of_mem _ hmem) List.mem_cons_self
  exact hlater le_rfl

/-- The next line is counted in a record of its stream. -/
theorem take (h : Book pushes n records held) (hown : streamAt pushes n = some stream)
    {new : Record} (hlines : (new.lines : Multiset ℕ) = heldLines (held stream) + {n})
    (hspans : Spans pushes new stream (n + 1))
    (hlater : ∀ r ∈ records, streamAt pushes r.2.root = some stream → r.2.root < new.root) :
    Book pushes (n + 1) records (Function.update held stream (some new)) where
  count := lt_of_streamAt hown
  lines := by
    refine lines_update fun other hne => ?_
    have hsum := h.lines_of stream other hne
    rw [heldLines.eq_def (some new), Option.elim_some, hlines, Multiset.range_succ, ← hsum,
      ← Multiset.singleton_add]
    ac_rfl
  spans := by
    intro r hr
    obtain ⟨htime, hr⟩ := h.spans r hr
    exact ⟨Nat.le_succ_of_le htime, hr⟩
  heldSpans := by
    intro other record' hrecord'
    by_cases heq : other = stream
    · subst heq
      obtain rfl : new = record' := by simpa using hrecord'
      exact hspans
    · rw [Function.update_of_ne heq] at hrecord'
      refine (h.heldSpans other record' hrecord').skip ?_
      rw [hown]
      exact fun hsome => heq (Option.some.inj hsome).symm
  ordered := h.ordered
  heldLater := by
    intro other record' hrecord' r hr hstream
    by_cases heq : other = stream
    · subst heq
      obtain rfl : new = record' := by simpa using hrecord'
      exact hlater r hr hstream
    · rw [Function.update_of_ne heq] at hrecord'
      exact h.heldLater other record' hrecord' r hr hstream

/-- The next line opens a record that its stream holds. -/
theorem hold (h : Book pushes n records held) (hown : streamAt pushes n = some stream)
    (hheld : held stream = none) :
    Book pushes (n + 1) records (Function.update held stream (some ⟨n, []⟩)) := by
  refine h.take hown ?_ (spans_root hown le_rfl) ?_
  · simp [hheld, heldLines, Record.lines]
  · intro r hr _
    exact h.lt_of_mem hr List.mem_cons_self

/-- The next line continues the record that its stream holds. -/
theorem continued (h : Book pushes n records held) (hown : streamAt pushes n = some stream)
    (hheld : held stream = some record) :
    Book pushes (n + 1) records
      (Function.update held stream (some ⟨record.root, record.continuations ++ [n]⟩)) := by
  have hroot : record.root < n := h.lt_of_held hheld List.mem_cons_self
  refine h.take hown ?_ ((h.heldSpans stream record hheld).continue hroot hown) ?_
  · rw [hheld]
    simp only [Record.lines, heldLines, Option.elim_some, ← List.cons_append, ← Multiset.coe_add]
    rfl
  · exact h.heldLater stream record hheld

/-- The next line opens a record that is released at once. -/
theorem emit (h : Book pushes n records held) (hown : streamAt pushes n = some stream)
    (hheld : held stream = none) :
    Book pushes (n + 1) (records ++ [(n, ⟨n, []⟩)]) held where
  count := lt_of_streamAt hown
  lines := by
    have hone : ((⟨n, []⟩ : Record).lines : Multiset ℕ) = {n} := rfl
    simp only [List.flatMap_append, List.flatMap_cons, List.flatMap_nil, List.append_nil,
      ← Multiset.coe_add, hone, Multiset.range_succ, ← h.lines, ← Multiset.singleton_add]
    ac_rfl
  spans := by
    intro r hr
    rcases List.mem_append.mp hr with hr | hr
    · obtain ⟨htime, hr⟩ := h.spans r hr
      exact ⟨Nat.le_succ_of_le htime, hr⟩
    · obtain rfl := List.mem_singleton.mp hr
      exact ⟨Nat.le_succ _, stream, spans_root hown (Nat.le_succ n)⟩
  heldSpans := by
    intro other record' hrecord'
    refine (h.heldSpans other record' hrecord').skip ?_
    rw [hown]
    intro hsome
    obtain rfl := Option.some.inj hsome
    simp [hheld] at hrecord'
  ordered := by
    refine List.pairwise_append.mpr ⟨h.ordered, List.pairwise_singleton _ _, ?_⟩
    intro r hr r' hr' _
    obtain rfl := List.mem_singleton.mp hr'
    exact h.lt_of_mem hr List.mem_cons_self
  heldLater := by
    intro other record' hrecord' r hr hstream
    rcases List.mem_append.mp hr with hr | hr
    · exact h.heldLater other record' hrecord' r hr hstream
    · obtain rfl := List.mem_singleton.mp hr
      obtain rfl := Option.some.inj (hstream.symm.trans hown)
      simp [hheld] at hrecord'

end Book

/-! ## The ledger of a run -/

variable {kind : CoreKind} {epoch : ℕ} {parser parser' : LogParser chrono}
  {outs : List ParsedFrames} {out : ParsedFrames}

theorem textsAt_append {lines : List ℕ} (h : ∀ j ∈ lines, j < pushes.length) :
    textsAt (pushes ++ [push]) lines = textsAt pushes lines :=
  List.filterMap_congr fun j hj => by rw [List.getElem?_append_left (h j hj)]

theorem textsAt_snoc {lines : List ℕ} (h : ∀ j ∈ lines, j < pushes.length) :
    textsAt (pushes ++ [push]) (lines ++ [pushes.length]) =
      textsAt pushes lines ++ [visible push.line] := by
  rw [textsAt, List.filterMap_append]
  congr 1
  · exact textsAt_append h
  · simp

/-- What a line opens does not depend on the lines behind it. -/
theorem Opens.append {root : ℕ} {frame : LogFrame} (h : Opens kind epoch pushes root frame) :
    Opens kind epoch (pushes ++ [push]) root frame := by
  obtain ⟨hpush, hrun, hparsed⟩ := h
  have hlt := (List.getElem?_eq_some_iff.mp hpush).1
  exact .intro (by rwa [List.getElem?_append_left hlt])
    (by rwa [List.take_append_of_le_length (by omega)]) hparsed

theorem Tells.append {frame : LogFrame} (h : Tells kind epoch pushes record frame)
    (hlines : ∀ j ∈ record.continuations, j < pushes.length) :
    Tells kind epoch (pushes ++ [push]) record frame := by
  obtain ⟨root, hroot, hframe⟩ := h
  exact ⟨root, hroot.append, by rwa [textsAt_append hlines]⟩

/-- A held record with what the parser keeps of it. -/
def Holds (kind : CoreKind) (epoch : ℕ) (pushes : List (Push chrono)) (record : Record)
    (pending : Pending) : Prop :=
  ∃ root frame, Opens kind epoch pushes record.root root ∧ boundFrame root = .ok frame ∧
    (textsAt pushes record.continuations).foldlM Pending.append ⟨frame, 0⟩ = .ok pending

theorem Holds.tells {pending : Pending} (h : Holds kind epoch pushes record pending) :
    Tells kind epoch pushes record pending.frame := by
  obtain ⟨root, frame, hroot, hframe, hpending⟩ := h
  refine ⟨root, hroot, ?_⟩
  simp only [assemble, hframe, hpending, bind, Except.bind]
  rfl

theorem Holds.append {pending : Pending} (h : Holds kind epoch pushes record pending)
    (hlines : ∀ j ∈ record.continuations, j < pushes.length) :
    Holds kind epoch (pushes ++ [push]) record pending := by
  obtain ⟨root, frame, hroot, hframe, hpending⟩ := h
  exact ⟨root, frame, hroot.append, hframe, by rwa [textsAt_append hlines]⟩

theorem Holds.continue {pending pending' : Pending} (h : Holds kind epoch pushes record pending)
    (hlines : ∀ j ∈ record.continuations, j < pushes.length)
    (hpending' : pending.append (visible push.line) = .ok pending') :
    Holds kind epoch (pushes ++ [push])
      ⟨record.root, record.continuations ++ [pushes.length]⟩ pending' := by
  obtain ⟨root, frame, hroot, hframe, hpending⟩ := h
  refine ⟨root, frame, hroot.append, hframe, ?_⟩
  rw [textsAt_snoc hlines, List.foldlM_append, hpending]
  simp only [bind, Except.bind, List.foldlM_cons, List.foldlM_nil, hpending']
  rfl

/-- The records of a run, with the frames that told them and the ones the parser holds. -/
structure Ledger (kind : CoreKind) (epoch : ℕ) (pushes : List (Push chrono))
    (parser : LogParser chrono) (outs : List ParsedFrames) (records : List (ℕ × Record))
    (held : LogStream → Option Record) : Prop where
  ran : (LogParser.new kind epoch).run pushes = .ok (parser, outs)
  book : Book pushes pushes.length records held
  released : ∀ r ∈ records, r.1 < pushes.length
  tells : List.Forall₂ (fun e r => e.1 = r.1 ∧ Tells kind epoch pushes r.2 e.2)
    (emissions outs) records
  pending : ∀ stream, Option.Rel (Holds kind epoch pushes) (held stream) (parser.pending stream)
  newest : ∀ record ∈ held .stdout, ∀ record' ∈ held .stderr,
    parser.newestPending = some (if record.root < record'.root then .stderr else .stdout)

/-- A run returns as often as it is pushed. -/
theorem LogParser.length_run {pushes : List (Push chrono)} {parser parser' : LogParser chrono}
    {outs : List ParsedFrames} (h : parser.run pushes = .ok (parser', outs)) :
    outs.length = pushes.length := by
  induction pushes generalizing parser outs with
  | nil =>
    obtain ⟨⟩ := h
    rfl
  | cons push pushes ih =>
    obtain ⟨_, -, hrest⟩ := Checked.bind_eq_ok.mp h
    obtain ⟨_, hrun, hout⟩ := Checked.bind_eq_ok.mp hrest
    obtain ⟨⟩ := hout
    simp [ih hrun]

theorem emissions_append (outs : List ParsedFrames) (out : ParsedFrames) :
    emissions (outs ++ [out]) = emissions outs ++ out.frames.map fun frame =>
      (outs.length, frame) := by
  simp [emissions, List.zipIdx_append]

theorem ledger_new :
    Ledger kind epoch [] (LogParser.new kind epoch : LogParser chrono) [] [] fun _ => none where
  ran := rfl
  book :=
    { count := le_rfl
      lines := rfl
      spans := by simp
      heldSpans := by simp
      ordered := List.Pairwise.nil
      heldLater := by simp }
  released := by simp
  tells := List.Forall₂.nil
  pending := fun _ => .none
  newest := by simp

namespace Ledger

theorem held_lt (h : Ledger kind epoch pushes parser outs records held)
    (hheld : held stream = some record) : ∀ j ∈ record.continuations, j < pushes.length :=
  fun _ hj => h.book.lt_of_held hheld (List.mem_cons_of_mem _ hj)

/-- The frames that were told stay told. -/
theorem tells_append (h : Ledger kind epoch pushes parser outs records held)
    (push : Push chrono) :
    List.Forall₂ (fun e r => e.1 = r.1 ∧ Tells kind epoch (pushes ++ [push]) r.2 e.2)
      (emissions outs) records := by
  refine List.forall₂_iff_get.mpr ⟨h.tells.length_eq, fun i hi hi' => ?_⟩
  obtain ⟨htime, htells⟩ := h.tells.get hi hi'
  exact ⟨htime, htells.append fun j hj =>
    h.book.lt_of_mem (List.get_mem _ _) (List.mem_cons_of_mem _ hj)⟩

/-- What a stream held, released by one more push. -/
theorem flushed (h : Ledger kind epoch pushes parser outs records held) (push : Push chrono)
    (stream : LogStream) :
    ∃ records', Book (pushes ++ [push]) pushes.length records' (Function.update held stream none) ∧
      (∀ r ∈ records', r.1 < pushes.length + 1) ∧
      List.Forall₂ (fun e r => e.1 = r.1 ∧ Tells kind epoch (pushes ++ [push]) r.2 e.2)
        (emissions outs ++ ((parser.pending stream).map Pending.frame).toList.map
          fun frame => (pushes.length, frame)) records' := by
  have hpending := h.pending stream
  have hearlier : ∀ r ∈ records, r.1 < pushes.length + 1 :=
    fun r hr => Nat.lt_succ_of_lt (h.released r hr)
  cases hheld : held stream with
  | none =>
    rw [hheld] at hpending
    generalize parser.pending stream = pending at hpending ⊢
    cases hpending
    have hsame : Function.update held stream none = held := by
      rw [← hheld, Function.update_eq_self]
    refine ⟨records, ?_, hearlier, by simpa using h.tells_append push⟩
    rw [hsame]
    exact h.book.append push
  | some record =>
    rw [hheld] at hpending
    generalize parser.pending stream = pending at hpending ⊢
    cases hpending with | some hholds =>
    refine ⟨_, (h.book.append push).flush hheld, ?_, ?_⟩
    · intro r hr
      rcases List.mem_append.mp hr with hr | hr
      · exact hearlier r hr
      · obtain rfl := List.mem_singleton.mp hr
        exact Nat.lt_succ_self _
    · exact List.rel_append (h.tells_append push) (.cons
        ⟨rfl, (hholds.append (h.held_lt hheld)).tells⟩ .nil)

/-- The records that are held stay held on the other stream. -/
theorem pending_append (h : Ledger kind epoch pushes parser outs records held)
    (push : Push chrono) (other : LogStream) :
    Option.Rel (Holds kind epoch (pushes ++ [push])) (held other) (parser.pending other) := by
  have hpending := h.pending other
  cases hheld : held other with
  | none =>
    rw [hheld] at hpending
    generalize parser.pending other = pending at hpending ⊢
    cases hpending
    exact .none
  | some record =>
    rw [hheld] at hpending
    generalize parser.pending other = pending at hpending ⊢
    cases hpending with | some hholds =>
    exact .some (hholds.append (h.held_lt hheld))

/-- What the parser holds after it took or released a record of one stream. -/
theorem pending_update (h : Ledger kind epoch pushes parser outs records held)
    {push : Push chrono} {record : Option Record} {pending : Option Pending}
    (hnew : Option.Rel (Holds kind epoch (pushes ++ [push])) record pending) (other : LogStream) :
    Option.Rel (Holds kind epoch (pushes ++ [push]))
      (Function.update held push.stream record other)
      (Function.update parser.pending push.stream pending other) := by
  by_cases heq : other = push.stream
  · subst heq
    rwa [Function.update_self, Function.update_self]
  · rw [Function.update_of_ne heq, Function.update_of_ne heq]
    exact h.pending_append push other

/-- One more push extends the ledger. -/
theorem step (h : Ledger kind epoch pushes parser outs records held)
    (hpush : parser.pushAt push = .ok (parser', out)) :
    ∃ records' held',
      Ledger kind epoch (pushes ++ [push]) parser' (outs ++ [out]) records' held' := by
  have hran : (LogParser.new kind epoch).run (pushes ++ [push]) = .ok (parser', outs ++ [out]) := by
    rw [LogParser.run_append, h.ran]
    simp only [bind, Except.bind, LogParser.run, hpush]
    rfl
  have hlength : (pushes ++ [push]).length = pushes.length + 1 := by simp
  have houts : outs.length = pushes.length := LogParser.length_run h.ran
  have hkind : parser.kind = kind := (LogParser.run_same h.ran).1
  have hown : streamAt (pushes ++ [push]) pushes.length = some push.stream := streamAt_last
  have hcases := LogParser.pushAt_cases hpush
  generalize hresult : (parser', out) = result at hcases
  cases hcases with
  | opened parsed clock frame hparsed hframe =>
    obtain ⟨records', hbook, hreleased, htells⟩ := h.flushed push push.stream
    have hopens : Opens kind epoch (pushes ++ [push]) pushes.length
        (parser.frameOf push.stream (visible push.line) push.observedAt parsed) :=
      .intro (by simp) (by simpa using h.ran) (hkind ▸ hparsed)
    have hholds : Holds kind epoch (pushes ++ [push]) ⟨pushes.length, []⟩ ⟨frame, 0⟩ :=
      ⟨_, frame, hopens, hframe, rfl⟩
    rw [LogParser.emit] at hresult
    split at hresult
    next hhold =>
      -- the new root is held, and it is the newest
      obtain ⟨⟩ := hresult
      refine ⟨records', Function.update held push.stream (some ⟨pushes.length, []⟩), ?_⟩
      constructor
      case ran => exact hran
      case book =>
        rw [hlength, ← Function.update_idem (a := push.stream) (v := none) (f := held)]
        exact hbook.hold hown (Function.update_self _ _ _)
      case released => rwa [hlength]
      case tells =>
        rw [emissions_append, houts]
        simpa [ParsedFrames.frames] using htells
      case pending =>
        exact h.pending_update (.some hholds)
      case newest =>
        intro record hrecord record' hrecord'
        cases hstream : push.stream with
        | stdout =>
          rw [hstream] at hrecord hrecord'
          obtain rfl : (⟨pushes.length, []⟩ : Record) = record := by simpa using hrecord
          rw [Function.update_of_ne (by simp)] at hrecord'
          have := h.book.lt_of_held hrecord' List.mem_cons_self
          rw [if_neg (by simp only; omega)]
        | stderr =>
          rw [hstream] at hrecord hrecord'
          obtain rfl : (⟨pushes.length, []⟩ : Record) = record' := by simpa using hrecord'
          rw [Function.update_of_ne (by simp)] at hrecord
          have := h.book.lt_of_held hrecord List.mem_cons_self
          rw [if_pos this]
    next hhold =>
      obtain ⟨⟩ := hresult
      refine ⟨records' ++ [(pushes.length, ⟨pushes.length, []⟩)],
        Function.update held push.stream none, ?_⟩
      constructor
      case ran => exact hran
      case book =>
        rw [hlength]
        exact hbook.emit hown (Function.update_self _ _ _)
      case released =>
        rw [hlength]
        intro r hr
        rcases List.mem_append.mp hr with hr | hr
        · exact hreleased r hr
        · obtain rfl := List.mem_singleton.mp hr
          exact Nat.lt_succ_self _
      case tells =>
        rw [emissions_append, houts, ParsedFrames.frames, List.map_append, ← List.append_assoc]
        exact List.rel_append htells (.cons ⟨rfl, hholds.tells⟩ .nil)
      case pending =>
        exact h.pending_update .none
      case newest =>
        intro record hrecord record' hrecord'
        cases hstream : push.stream with
        | stdout => simp [hstream] at hrecord
        | stderr => simp [hstream] at hrecord'
  | continued clock pending pending' hpending hcontinued =>
    obtain ⟨⟩ := hresult
    have hrel := h.pending push.stream
    rw [hpending] at hrel
    generalize hheld : held push.stream = current at hrel
    cases hrel with | @some record _ hholds =>
    refine ⟨records, Function.update held push.stream
      (some ⟨record.root, record.continuations ++ [pushes.length]⟩), ?_⟩
    constructor
    case ran => exact hran
    case book =>
      rw [hlength]
      exact (h.book.append push).continued hown hheld
    case released =>
      rw [hlength]
      exact fun r hr => Nat.lt_succ_of_lt (h.released r hr)
    case tells =>
      rw [emissions_append]
      simpa [ParsedFrames.frames] using h.tells_append push
    case pending =>
      exact h.pending_update (.some (hholds.continue (h.held_lt hheld) hcontinued))
    case newest =>
      intro first hfirst second hsecond
      cases hstream : push.stream with
      | stdout =>
        rw [hstream] at hfirst hsecond hheld
        obtain rfl : (⟨record.root, _⟩ : Record) = first := by simpa using hfirst
        rw [Function.update_of_ne (by simp)] at hsecond
        exact h.newest record hheld second hsecond
      | stderr =>
        rw [hstream] at hfirst hsecond hheld
        obtain rfl : (⟨record.root, _⟩ : Record) = second := by simpa using hsecond
        rw [Function.update_of_ne (by simp)] at hfirst
        exact h.newest first hfirst record hheld

end Ledger

/-- Every run that returns has a ledger. -/
theorem exists_ledger (h : (LogParser.new kind epoch).run pushes = .ok (parser, outs)) :
    ∃ records held, Ledger kind epoch pushes parser outs records held := by
  induction pushes using List.reverseRecOn generalizing parser outs with
  | nil =>
    obtain ⟨⟩ := h
    exact ⟨_, _, ledger_new⟩
  | append_singleton pushes push ih =>
    obtain ⟨between, outs', out, hrun, hpush, rfl⟩ := LogParser.run_append_ok h
    obtain ⟨records, held, hledger⟩ := ih hrun
    exact hledger.step hpush

/-! ## Conservation -/

/-- Continuation lines leave the stream and the instant of a record. -/
theorem Pending.Continued.same {pending pending' : Pending} {line : Text}
    (h : pending.Continued line pending') :
    pending'.frame.stream = pending.frame.stream ∧ pending'.frame.at_ = pending.frame.at_ := by
  cases h with
  | full => exact ⟨rfl, rfl⟩
  | cut => exact ⟨rfl, rfl⟩
  | whole => exact ⟨rfl, rfl⟩

theorem foldlM_append_same {lines : List Text} {pending pending' : Pending}
    (h : lines.foldlM Pending.append pending = .ok pending') :
    pending'.frame.stream = pending.frame.stream ∧ pending'.frame.at_ = pending.frame.at_ := by
  induction lines generalizing pending with
  | nil =>
    obtain ⟨⟩ := h
    exact ⟨rfl, rfl⟩
  | cons line lines ih =>
    obtain ⟨between, hline, hrest⟩ := Checked.bind_eq_ok.mp h
    obtain ⟨between', hbetween, hcontinued⟩ := pending.append_spec line
    obtain rfl := Except.ok.inj (hline.symm.trans hbetween)
    obtain ⟨hstream, hat⟩ := ih hrest
    exact ⟨hstream.trans hcontinued.same.1, hat.trans hcontinued.same.2⟩

/-- A frame has the stream and the instant of the root of its record. -/
theorem Tells.root {frame : LogFrame} (h : Tells kind epoch pushes record frame) :
    ∃ push, pushes[record.root]? = some push ∧ frame.stream = push.stream ∧
      frame.at_ = chrono.timestampMillis push.observedAt := by
  obtain ⟨root, ⟨hpush, -, -⟩, hframe⟩ := h
  rename_i push _ _ parsed _
  refine ⟨push, hpush, ?_⟩
  obtain ⟨bounded, hbounded, hrest⟩ := Checked.bind_eq_ok.mp hframe
  obtain ⟨pending, hpending, hlast⟩ := Checked.bind_eq_ok.mp hrest
  obtain ⟨⟩ := hlast
  obtain ⟨bounded', hbounded', hcut⟩ := boundFrame_spec _
  obtain rfl := Except.ok.inj (hbounded.symm.trans hbounded')
  obtain ⟨hstream, hat⟩ := foldlM_append_same hpending
  rw [hstream, hat, hcut.stream, hcut.at_]
  cases parsed <;> exact ⟨rfl, rfl⟩

/-- The earlier of two held records is released first at the end of the process. -/
theorem Ledger.last_ordered (h : Ledger kind epoch pushes parser outs records held)
    {first second : LogStream} (hne : second ≠ first)
    (horder : parser.newestPending = some .stdout ↔ first = .stderr) :
    ∀ r ∈ (held first).toList, ∀ r' ∈ (held second).toList, r.root < r'.root := by
  intro r hr r' hr'
  rw [Option.mem_toList] at hr hr'
  have hdiff : r.root ≠ r'.root := by
    intro heq
    have hown := (h.book.heldSpans first r hr).own r.root List.mem_cons_self
    have hown' := (h.book.heldSpans second r' hr').own r'.root List.mem_cons_self
    rw [heq, hown'] at hown
    exact hne (Option.some.inj hown)
  cases first with
  | stdout =>
    obtain rfl : second = .stderr := by cases second <;> first | rfl | exact absurd rfl hne
    have hnewest := h.newest r hr r' hr'
    by_contra hlt
    rw [if_neg hlt] at hnewest
    exact absurd (horder.mp hnewest) (by simp)
  | stderr =>
    obtain rfl : second = .stdout := by cases second <;> first | rfl | exact absurd rfl hne
    have hnewest := h.newest r' hr' r hr
    rw [horder.mpr rfl] at hnewest
    by_contra hlt
    rw [if_pos (by omega)] at hnewest
    exact absurd (Option.some.inj hnewest) (by simp)

/-- The frame of the record that a stream holds. -/
theorem Ledger.tells_held (h : Ledger kind epoch pushes parser outs records held)
    (stream : LogStream) :
    List.Forall₂ (fun (e : ℕ × LogFrame) (r : ℕ × Record) =>
        e.1 = r.1 ∧ Tells kind epoch pushes r.2 e.2)
      (((parser.pending stream).map Pending.frame).toList.map fun frame => (pushes.length, frame))
      ((held stream).toList.map fun record => (pushes.length, record)) := by
  have hpending := h.pending stream
  generalize held stream = current at hpending ⊢
  generalize parser.pending stream = pending at hpending ⊢
  cases hpending with
  | none => exact .nil
  | some hholds => exact .cons ⟨rfl, hholds.tells⟩ .nil

/-- The end of the process releases the records that are held, and every line is accounted for. -/
theorem Ledger.finish (h : Ledger kind epoch pushes parser outs records held)
    {first second : LogStream} (hne : second ≠ first)
    (horder : parser.newestPending = some .stdout ↔ first = .stderr) :
    Conserved kind epoch pushes
      (emissions (outs ++ [((parser.pending first).map Pending.frame,
        (parser.pending second).map Pending.frame)]))
      (records ++ (held first).toList.map (fun record => (pushes.length, record)) ++
        (held second).toList.map fun record => (pushes.length, record)) := by
  have hbook := h.book.releaseAll hne
  constructor
  case tells =>
    rw [emissions_append, LogParser.length_run h.ran, ParsedFrames.frames, List.map_append,
      ← List.append_assoc]
    have hall := List.rel_append (List.rel_append h.tells (h.tells_held first))
      (h.tells_held second)
    exact hall.imp fun e r her => ⟨her.1, her.2, her.2.root⟩
  case lines => exact hbook.perm
  case recent => exact fun r hr j hj => hbook.recent hr hj
  case ordered => exact hbook.ordered
  case last =>
    have hearly : ∀ r ∈ records, r.1 ≠ pushes.length := fun r hr => Nat.ne_of_lt (h.released r hr)
    refine List.pairwise_append.mpr ⟨List.pairwise_append.mpr ⟨?_, ?_, ?_⟩, ?_, ?_⟩
    · exact List.pairwise_of_forall_mem_list fun r hr _ _ htime => absurd htime (hearly r hr)
    · cases held first <;> simp
    · exact fun r hr _ _ htime => absurd htime (hearly r hr)
    · cases held second <;> simp
    · intro r hr r' hr' htime _
      rcases List.mem_append.mp hr with hr | hr
      · exact absurd htime (hearly r hr)
      · obtain ⟨record, hrecord, rfl⟩ := List.mem_map.mp hr
        obtain ⟨record', hrecord', rfl⟩ := List.mem_map.mp hr'
        exact h.last_ordered hne horder record hrecord record' hrecord'

/-- The parser holds nothing and remembers no newest record. -/
def LogParser.Empty (parser : LogParser chrono) : Prop :=
  (∀ stream, parser.pending stream = none) ∧ parser.newestPending = none

/-- A session that returns is a run that does, and its end. -/
theorem LogParser.session_ok {last : ParsedFrames}
    (h : parser.session pushes = .ok (parser', outs, last)) :
    ∃ between, parser.run pushes = .ok (between, outs) ∧ parser' = between.finish.1 ∧
      last = between.finish.2 := by
  obtain ⟨⟨between, outs'⟩, hrun, hlast⟩ := Checked.bind_eq_ok.mp h
  obtain ⟨⟩ := hlast
  exact ⟨between, hrun, rfl, rfl⟩

/-- Every session that returns conserves its lines. -/
theorem LogParser.conserved {last : ParsedFrames}
    (h : (LogParser.new kind epoch).session pushes = .ok (parser', outs, last)) :
    parser'.Empty ∧
      ∃ records, Conserved kind epoch pushes (emissions (outs ++ [last])) records := by
  obtain ⟨parser, hrun, rfl, rfl⟩ := session_ok h
  obtain ⟨records, held, hledger⟩ := exists_ledger hrun
  refine ⟨⟨fun _ => rfl, rfl⟩, ?_⟩
  by_cases hnewest : parser.newestPending = some .stdout
  · have hlast : parser.finish.2 = ((parser.pending .stderr).map Pending.frame,
        (parser.pending .stdout).map Pending.frame) := by simp [LogParser.finish, hnewest]
    have hne : LogStream.stdout ≠ .stderr := by simp
    rw [hlast]
    exact ⟨_, hledger.finish hne (iff_of_true hnewest rfl)⟩
  · have hlast : parser.finish.2 = ((parser.pending .stdout).map Pending.frame,
        (parser.pending .stderr).map Pending.frame) := by
      cases hn : parser.newestPending with
      | none => simp [LogParser.finish, hn]
      | some stream =>
        cases stream with
        | stdout => exact absurd hn hnewest
        | stderr => simp [LogParser.finish, hn]
    have hne : LogStream.stderr ≠ .stdout := by simp
    rw [hlast]
    exact ⟨_, hledger.finish hne (iff_of_false hnewest (by simp))⟩

/-- Every line of a session is in one record, and each record is told by one frame, unless a push
panics. -/
theorem lines_conserved (chrono : Chrono) (kind : CoreKind) (epoch : ℕ)
    (pushes : List (Push chrono)) :
    (∃ parser outs last, (LogParser.new kind epoch).session pushes = .ok (parser, outs, last) ∧
      outs.length = pushes.length ∧ (∀ out ∈ outs, out.frames.length ≤ 2) ∧ parser.Empty ∧
      ∃ records, Conserved kind epoch pushes (emissions (outs ++ [last])) records) ↔
      TameRun kind epoch pushes := by
  rw [← run_ok_iff]
  constructor
  · rintro ⟨parser, outs, last, hsession, -⟩
    obtain ⟨run, hrun, -⟩ := Checked.bind_eq_ok.mp hsession
    exact ⟨run, hrun⟩
  · rintro ⟨⟨parser, outs⟩, hrun⟩
    have hsession : (LogParser.new kind epoch).session pushes =
        .ok (parser.finish.1, outs, parser.finish.2) := by
      simp only [LogParser.session, hrun, bind, Except.bind]
      rfl
    refine ⟨_, _, _, hsession, LogParser.length_run hrun, ?_, LogParser.conserved hsession⟩
    rintro ⟨first, second⟩ -
    cases first <;> cases second <;> simp [ParsedFrames.frames]

end

/-- A line that panics is lost, with the record that was held before it. -/
theorem wide_source_lost :
    ¬∃ parser outs last, (LogParser.new .clashRust 1).session
        [(⟨.stderr, "Error: held".toList, (0 : ℤ)⟩ : Push utcClock),
          ⟨.stderr, wideLine, (1 : ℤ)⟩] = .ok (parser, outs, last) ∧
      outs.length = 2 ∧ (∀ out ∈ outs, out.frames.length ≤ 2) ∧ parser.Empty ∧
      ∃ records, Conserved .clashRust 1
        [(⟨.stderr, "Error: held".toList, (0 : ℤ)⟩ : Push utcClock),
          ⟨.stderr, wideLine, (1 : ℤ)⟩] (emissions (outs ++ [last])) records := by
  rintro ⟨parser, outs, last, hsession, -⟩
  have herror : (LogParser.new .clashRust 1).session
      [(⟨.stderr, "Error: held".toList, (0 : ℤ)⟩ : Push utcClock),
        ⟨.stderr, wideLine, (1 : ℤ)⟩] = .error .slice := by
    rfl
  rw [herror] at hsession
  exact nomatch hsession

end Nyanpasu.Log
