import Nyanpasu.Log.Records

/-!
# Bounds and holes

Every frame respects the caps, and a frame that is not marked truncated has its whole
record. A truncated record should be a prefix of the whole one: continuation lines stop
at the first cut. A cut root is the exception, since it is held as if it were whole: when
the cut fell short of the cap, the next line can still slip into the bytes that are left.
-/

namespace Nyanpasu.Log

/-- A text and the lines that continue it. -/
def joined (text : Text) (lines : List Text) : Text :=
  text ++ lines.flatMap fun line => '\n' :: line

@[simp] theorem joined_nil (text : Text) : joined text [] = text := by
  simp [joined]

theorem joined_cons (text line : Text) (lines : List Text) :
    joined text (line :: lines) = joined (text ++ '\n' :: line) lines := by
  simp [joined]

theorem prefix_joined (text : Text) (lines : List Text) : text <+: joined text lines :=
  List.prefix_append _ _

/-! ## Frames that are not truncated -/

/-- What a frame has of its root and its continuation lines. -/
structure Holding (root : LogFrame) (lines : List Text) (frame : LogFrame) : Prop where
  bounded : frame.Bounded
  whole : frame.truncated = false →
    frame = { root with raw := joined root.raw lines, message := joined root.message lines }

/-- A root that was cut holds itself. -/
theorem holding_root {root frame : LogFrame} (h : root.Cut frame) : Holding root [] frame where
  bounded := h.bounded
  whole := by
    intro hwhole
    rw [h.uncut hwhole]
    simp

/-- A continuation line keeps what is held. -/
theorem Holding.continue {root : LogFrame} {lines : List Text} {pending pending' : Pending}
    {line : Text} (h : Holding root lines pending.frame)
    (hcontinued : pending.Continued line pending') :
    Holding root (lines ++ [line]) pending'.frame := by
  have hsnoc : ∀ text, joined text (lines ++ [line]) = joined text lines ++ '\n' :: line := by
    simp [joined]
  cases hcontinued with
  | full hfull => exact ⟨{ h.bounded with }, by simp⟩
  | cut raw message cutRaw cutMessage hroom hraw hmessage hcut =>
    exact ⟨{ h.bounded with
      raw := hraw.bounded h.bounded.raw
      message := hmessage.bounded h.bounded.message }, by simp⟩
  | whole raw message hroom hraw hmessage =>
    refine ⟨{ h.bounded with
      raw := hraw.bounded h.bounded.raw
      message := hmessage.bounded h.bounded.message }, ?_⟩
    intro hwhole
    have hframe := h.whole hwhole
    simp only [hraw.uncut.mp rfl, hmessage.uncut.mp rfl, hsnoc]
    rw [hframe]

/-- Continuation lines keep what is held. -/
theorem Holding.foldlM {root : LogFrame} {before lines : List Text} {pending pending' : Pending}
    (h : Holding root before pending.frame)
    (hlines : lines.foldlM Pending.append pending = .ok pending') :
    Holding root (before ++ lines) pending'.frame := by
  induction lines generalizing pending before with
  | nil =>
    obtain ⟨⟩ := hlines
    simpa using h
  | cons line lines ih =>
    obtain ⟨between, hline, hrest⟩ := Checked.bind_eq_ok.mp hlines
    obtain ⟨between', hbetween, hcontinued⟩ := pending.append_spec line
    obtain rfl := Except.ok.inj (hline.symm.trans hbetween)
    simpa using ih (h.continue hcontinued) hrest

/-- An assembled frame is bounded, and whole unless it is truncated. -/
theorem holding_assemble {root frame : LogFrame} {lines : List Text}
    (h : assemble root lines = .ok frame) : Holding root lines frame := by
  obtain ⟨bounded, hbounded, hrest⟩ := Checked.bind_eq_ok.mp h
  obtain ⟨pending, hpending, hlast⟩ := Checked.bind_eq_ok.mp hrest
  obtain ⟨⟩ := hlast
  obtain ⟨bounded', hbounded', hcut⟩ := boundFrame_spec root
  obtain rfl := Except.ok.inj (hbounded.symm.trans hbounded')
  exact (holding_root hcut).foldlM hpending

section

variable {chrono : Chrono} {kind : CoreKind} {epoch : ℕ} {pushes : List (Push chrono)}
  {parser : LogParser chrono} {outs : List ParsedFrames} {last : ParsedFrames}

/-- Every frame that the parser returns respects the caps; when it is not marked truncated it has
the whole root line and every continuation line of its record, and its metadata is uncut. -/
theorem frames_bounded
    (h : (LogParser.new kind epoch).session pushes = .ok (parser, outs, last)) :
    ∃ records, Conserved kind epoch pushes (emissions (outs ++ [last])) records ∧
      List.Forall₂ (fun (e : ℕ × LogFrame) (r : ℕ × Record) => e.2.Bounded ∧
        ∃ root, Opens kind epoch pushes r.2.root root ∧ (e.2.truncated = false →
          e.2.raw = joined root.raw (textsAt pushes r.2.continuations) ∧
          e.2.message = joined root.message (textsAt pushes r.2.continuations) ∧
          e.2.target = root.target ∧ e.2.timestamp = root.timestamp ∧ e.2.fields = root.fields))
        (emissions (outs ++ [last])) records := by
  obtain ⟨-, records, hconserved⟩ := LogParser.conserved h
  refine ⟨records, hconserved, hconserved.tells.imp ?_⟩
  rintro e r ⟨-, ⟨root, hroot, hframe⟩, -⟩
  have hholding := holding_assemble hframe
  refine ⟨hholding.bounded, root, hroot, fun hwhole => ?_⟩
  rw [hholding.whole hwhole]
  exact ⟨rfl, rfl, rfl, rfl, rfl⟩

end

/-- An error block of two lines. -/
def errorBlock : List (Push utcClock) :=
  [⟨.stderr, "Error: bad".toList, (0 : ℤ)⟩, ⟨.stderr, "at line 3".toList, (1 : ℤ)⟩]

/-- The frame of an error block is bounded and whole. -/
theorem frames_bounded_error :
    ∃ parser outs last, (LogParser.new .meow 1).session errorBlock = .ok (parser, outs, last) ∧
      ∃ records, Conserved .meow 1 errorBlock (emissions (outs ++ [last])) records ∧
        List.Forall₂ (fun (e : ℕ × LogFrame) (r : ℕ × Record) => e.2.Bounded ∧
          ∃ root, Opens .meow 1 errorBlock r.2.root root ∧ (e.2.truncated = false →
            e.2.raw = joined root.raw (textsAt errorBlock r.2.continuations) ∧
            e.2.message = joined root.message (textsAt errorBlock r.2.continuations) ∧
            e.2.target = root.target ∧ e.2.timestamp = root.timestamp ∧ e.2.fields = root.fields))
          (emissions (outs ++ [last])) records :=
  ⟨_, _, _, rfl, frames_bounded rfl⟩

/-! ## Frames that are truncated -/

/-- A text as continuation lines reach it, until the record is full. -/
inductive Grown : Bool → Text → List Text → Text → Prop where
  | nil (full : Bool) (text : Text) : Grown full text [] text
  | full (text line : Text) (lines : List Text) (text' : Text) (h : Grown true text lines text') :
      Grown true text (line :: lines) text'
  | grew {full cut : Bool} {text line next : Text} {lines : List Text} {text' : Text}
      (happended : Appended text line maxLogTextBytes next cut)
      (hfull : cut = true → full = true) (h : Grown full next lines text') :
      Grown false text (line :: lines) text'

namespace Grown

variable {full : Bool} {text text' : Text} {lines : List Text}

/-- A full record takes nothing more. -/
theorem eq_of_full (h : Grown true text lines text') : text' = text := by
  generalize hfull : true = full at h
  induction h with
  | nil => rfl
  | full text line lines text' h ih => exact ih rfl
  | grew => exact absurd hfull (by simp)

/-- Lines are only added behind a text. -/
theorem kept (h : Grown full text lines text') : text <+: text' := by
  induction h with
  | nil => exact List.prefix_rfl
  | full text line lines text' h ih => exact ih
  | grew happended hfull h ih => exact happended.kept.trans ih

/-- A text grows to a prefix of itself and the lines. -/
theorem prefix_joined (h : Grown full text lines text') : text' <+: joined text lines := by
  induction h with
  | nil => simp
  | full text line lines text' h ih =>
    rw [h.eq_of_full]
    exact Log.prefix_joined _ _
  | @grew full cut text line next lines text' happended hfull h ih =>
    rw [joined_cons]
    cases cut with
    | false => rwa [← happended.uncut.mp rfl]
    | true =>
      obtain rfl := hfull rfl
      rw [h.eq_of_full]
      exact happended.whole.trans (Log.prefix_joined _ _)

end Grown

/-- The first line that continues a cut text fits into the bytes that the cut has left. -/
def Slack (text : Text) (lines : List Text) : Prop :=
  maxLogTextBytes < text.len ∧
    ∃ line ∈ lines.head?, Fits (text.clip maxLogTextBytes) line maxLogTextBytes

/-- A root text and its lines have no hole exactly when no line slips in behind a cut. -/
theorem grown_clip_iff {text text' : Text} {lines : List Text}
    (h : Grown false (text.clip maxLogTextBytes) lines text') :
    text' <+: joined text lines ↔ ¬Slack text lines := by
  by_cases hcut : maxLogTextBytes < text.len
  swap
  · have hwhole := Text.clip_eq_self (Nat.le_of_not_lt hcut)
    rw [hwhole] at h
    exact iff_of_true h.prefix_joined fun hslack => hcut hslack.1
  obtain ⟨c, rest, htext⟩ := Text.exists_clip_rest hcut
  have hnext := Text.clip_next htext
  generalize hclip : text.clip maxLogTextBytes = kept at h htext hnext
  have hslack : Slack text lines ↔ ∃ line ∈ lines.head?, Fits kept line maxLogTextBytes := by
    rw [Slack, hclip]
    exact and_iff_right hcut
  rw [hslack]
  cases h with
  | nil =>
    refine iff_of_true ?_ (by simp)
    rw [joined_nil, htext]
    exact List.prefix_append _ _
  | @grew full cut _ line next lines _ happended hfull h =>
    simp only [List.head?_cons, Option.mem_def, Option.some.injEq, exists_eq_left']
    rw [← happended.fits, not_not]
    constructor
    · intro hstarts
      by_contra hgrew
      -- the separator stands where the first character that was cut should
      have hroom := (happended.fits.mp hgrew).1
      obtain ⟨added, rfl⟩ := happended.kept
      have hadded : added <+: '\n' :: line := by
        simpa using happended.whole
      cases added with
      | nil => simp at hgrew
      | cons separator added =>
        obtain ⟨rfl, -⟩ := List.cons_prefix_cons.mp hadded
        have hboth := h.kept.trans hstarts
        rw [htext, joined, List.append_assoc, List.prefix_append_right_inj,
          List.cons_append] at hboth
        obtain ⟨rfl, -⟩ := List.cons_prefix_cons.mp hboth
        have hsize : '\n'.utf8Size = 1 := rfl
        omega
    · rintro rfl
      have hcutLine : cut = true := by
        by_contra hno
        have := happended.uncut.mp (by simpa using hno)
        simp at this
      obtain rfl := hfull hcutLine
      rw [h.eq_of_full, htext, joined, List.append_assoc]
      exact List.prefix_append _ _

/-- Both texts of a record grow as its lines are appended. -/
theorem Pending.Continued.grown {pending pending' : Pending} {line : Text} {lines : List Text}
    {raw message : Text} (h : pending.Continued line pending')
    (hraw : Grown (pending'.continuations = maxContinuationLines) pending'.frame.raw lines raw)
    (hmessage : Grown (pending'.continuations = maxContinuationLines) pending'.frame.message lines
      message) :
    Grown (pending.continuations = maxContinuationLines) pending.frame.raw (line :: lines) raw ∧
      Grown (pending.continuations = maxContinuationLines) pending.frame.message (line :: lines)
        message := by
  cases h with
  | full hfull =>
    simp only [hfull, decide_true] at hraw hmessage ⊢
    exact ⟨.full _ _ _ _ hraw, .full _ _ _ _ hmessage⟩
  | cut raw' message' cutRaw cutMessage hroom happRaw happMessage hcut =>
    simp only [decide_true] at hraw hmessage
    simp only [hroom, decide_false]
    exact ⟨.grew happRaw (fun _ => rfl) hraw, .grew happMessage (fun _ => rfl) hmessage⟩
  | whole raw' message' hroom happRaw happMessage =>
    simp only [hroom, decide_false]
    exact ⟨.grew happRaw (fun h => nomatch h) hraw, .grew happMessage (fun h => nomatch h) hmessage⟩

theorem foldlM_append_grown {lines : List Text} {pending pending' : Pending}
    (h : lines.foldlM Pending.append pending = .ok pending') :
    Grown (pending.continuations = maxContinuationLines) pending.frame.raw lines
        pending'.frame.raw ∧
      Grown (pending.continuations = maxContinuationLines) pending.frame.message lines
        pending'.frame.message := by
  induction lines generalizing pending with
  | nil =>
    obtain ⟨⟩ := h
    exact ⟨.nil _ _, .nil _ _⟩
  | cons line lines ih =>
    obtain ⟨between, hline, hrest⟩ := Checked.bind_eq_ok.mp h
    obtain ⟨between', hbetween, hcontinued⟩ := pending.append_spec line
    obtain rfl := Except.ok.inj (hline.symm.trans hbetween)
    obtain ⟨hraw, hmessage⟩ := ih hrest
    exact hcontinued.grown hraw hmessage

/-- The texts of a frame have no hole exactly when no line slips in behind a cut root. -/
theorem assemble_prefix_iff {root frame : LogFrame} {lines : List Text}
    (h : assemble root lines = .ok frame) :
    (frame.raw <+: joined root.raw lines ↔ ¬Slack root.raw lines) ∧
      (frame.message <+: joined root.message lines ↔ ¬Slack root.message lines) := by
  obtain ⟨bounded, hbounded, hrest⟩ := Checked.bind_eq_ok.mp h
  obtain ⟨pending, hpending, hlast⟩ := Checked.bind_eq_ok.mp hrest
  obtain ⟨⟩ := hlast
  obtain ⟨bounded', hbounded', hcut⟩ := boundFrame_spec root
  obtain rfl := Except.ok.inj (hbounded.symm.trans hbounded')
  obtain ⟨hraw, hmessage⟩ := foldlM_append_grown hpending
  have hroom : decide (0 = maxContinuationLines) = false := rfl
  simp only [hcut.raw, hcut.message, hroom] at hraw hmessage
  exact ⟨grown_clip_iff hraw, grown_clip_iff hmessage⟩

section

variable {chrono : Chrono} {kind : CoreKind} {epoch : ℕ} {pushes : List (Push chrono)}
  {parser : LogParser chrono} {outs : List ParsedFrames} {last : ParsedFrames}

/-- The texts of every frame that the parser returns are prefixes of its whole record, exactly when
no line of a record slips in behind a root that was cut short of its cap. -/
theorem frames_prefix_iff
    (h : (LogParser.new kind epoch).session pushes = .ok (parser, outs, last)) :
    ∃ records, Conserved kind epoch pushes (emissions (outs ++ [last])) records ∧
      List.Forall₂ (fun (e : ℕ × LogFrame) (r : ℕ × Record) =>
        ∃ root, Opens kind epoch pushes r.2.root root ∧
          (e.2.raw <+: joined root.raw (textsAt pushes r.2.continuations) ↔
            ¬Slack root.raw (textsAt pushes r.2.continuations)) ∧
          (e.2.message <+: joined root.message (textsAt pushes r.2.continuations) ↔
            ¬Slack root.message (textsAt pushes r.2.continuations)))
        (emissions (outs ++ [last])) records := by
  obtain ⟨-, records, hconserved⟩ := LogParser.conserved h
  refine ⟨records, hconserved, hconserved.tells.imp ?_⟩
  rintro e r ⟨-, ⟨root, hroot, hframe⟩, -⟩
  exact ⟨root, hroot, assemble_prefix_iff hframe⟩

end

/-- The frame of an error block has no hole. -/
theorem frames_prefix_error :
    ∃ parser outs last, (LogParser.new .meow 1).session errorBlock = .ok (parser, outs, last) ∧
      ∃ records, Conserved .meow 1 errorBlock (emissions (outs ++ [last])) records ∧
        List.Forall₂ (fun (e : ℕ × LogFrame) (r : ℕ × Record) =>
          ∃ root, Opens .meow 1 errorBlock r.2.root root ∧
            (e.2.raw <+: joined root.raw (textsAt errorBlock r.2.continuations) ↔
              ¬Slack root.raw (textsAt errorBlock r.2.continuations)) ∧
            (e.2.message <+: joined root.message (textsAt errorBlock r.2.continuations) ↔
              ¬Slack root.message (textsAt errorBlock r.2.continuations)))
          (emissions (outs ++ [last])) records :=
  ⟨_, _, _, rfl, frames_prefix_iff rfl⟩

/-! ## A hole -/

/-- An error block whose root is one byte short of the cap when its last character is cut. -/
def longLine : Text := "Error:".toList ++ List.replicate 16377 'x' ++ ['€']

-- Unfolding the line by its own equation would evaluate it.
theorem longLine_eq : longLine = "Error:".toList ++ List.replicate 16377 'x' ++ ['€'] := by
  delta longLine
  rfl

/-- No layout of meow finds a header in a line of one word. -/
theorem parseMeow_word {chrono : Chrono} {line : Text}
    (h : ∀ c ∈ line, Text.isWhitespace c = false) : (parseMeow chrono line).run = .ok none := by
  have htrim : line.trimStart = line := by
    cases line with
    | nil => rfl
    | cons c line => simp [Text.trimStart, h c List.mem_cons_self]
  have htoken : (takeToken line).run = .ok none := by
    simp only [takeToken, htrim, Text.find_eq_none h]
    rfl
  exact Attempt.run_bind_none htoken

theorem longLine_chars {c : Char} (h : c ∈ longLine) : c ∈ ['E', 'r', 'o', ':', 'x', '€'] := by
  rw [longLine_eq, List.mem_append, List.mem_append, List.mem_replicate] at h
  rcases h with (h | ⟨-, rfl⟩) | h
  · have hsub : "Error:".toList ⊆ ['E', 'r', 'o', ':', 'x', '€'] := by decide
    exact hsub h
  · decide
  · obtain rfl := List.mem_singleton.mp h
    decide

/-- The cut of the long line leaves room for one byte. -/
theorem longLine_slack : Slack longLine [[]] := by
  have hkept : Text.len ("Error:".toList ++ List.replicate 16377 'x') = 16383 := by
    have hhead : Text.len "Error:".toList = 6 := rfl
    have hnarrow : 'x'.utf8Size = 1 := rfl
    rw [Text.len_append, hhead, Text.len_replicate, hnarrow]
  have hwide : '€'.utf8Size = 3 := rfl
  have hclip : longLine.clip maxLogTextBytes = "Error:".toList ++ List.replicate 16377 'x' := by
    rw [longLine_eq]
    exact Text.clip_append_cons (by rw [hkept]; decide) (by rw [hkept, hwide]; decide)
  refine ⟨?_, [], rfl, ?_⟩
  · rw [longLine_eq, Text.len_append, hkept]
    decide
  · rw [hclip, Fits, hkept]
    exact ⟨by decide, by simp⟩

/-- An error block of one word and a blank line is one frame, with a hole when there is slack. -/
theorem session_blank {line : Text} (hescape : '\x1b' ∉ line)
    (hword : ∀ c ∈ line, Text.isWhitespace c = false) (herror : errorRoot line = true) :
    ∃ parser frame, (LogParser.new .meow 1).session
        [(⟨.stderr, line, (0 : ℤ)⟩ : Push utcClock), ⟨.stderr, [], (1 : ℤ)⟩] =
          .ok (parser, [(none, none), (none, none)], (none, some frame)) ∧
      (frame.raw <+: joined line [[]] ↔ ¬Slack line [[]]) := by
  obtain ⟨frame, hframe, -⟩ := boundFrame_spec
    ((LogParser.new .meow 1 : LogParser utcClock).frameOf .stderr line (0 : ℤ) none)
  obtain ⟨pending, hpending, -⟩ := Pending.append_spec ⟨frame, 0⟩ []
  have hroot : (LogParser.new .meow 1).pushAt (⟨.stderr, line, (0 : ℤ)⟩ : Push utcClock) =
      .ok ((LogParser.new .meow 1).emit .stderr frame true) := by
    simp only [LogParser.new] at hframe
    simp only [LogParser.pushAt, stripAnsi_eq, visible_eq_self hescape, parseHeader, LogParser.new,
      parseMeow_word hword, bind, Except.bind, pure, Except.pure, herror, Bool.not_true,
      Bool.false_and, LogParser.openRecord, hframe, LogParser.holds]
    rfl
  have hblank : ((LogParser.new .meow 1).emit .stderr frame true).1.pushAt
      (⟨.stderr, [], (1 : ℤ)⟩ : Push utcClock) =
      ((LogParser.new .meow 1).emit .stderr frame true).1.continueRecord
        ⟨.stderr, [], (1 : ℤ)⟩ [] ⟨frame, 0⟩ := rfl
  have hassemble : assemble
      ((LogParser.new .meow 1 : LogParser utcClock).frameOf .stderr line (0 : ℤ) none) [[]] =
      .ok pending.frame := by
    simp only [assemble, hframe, bind, Except.bind, List.foldlM_cons, List.foldlM_nil, hpending]
    rfl
  refine ⟨LogParser.new .meow 1, pending.frame, ?_, (assemble_prefix_iff hassemble).1⟩
  simp only [LogParser.session, LogParser.run, hroot, hblank, LogParser.continueRecord, hpending,
    bind, Except.bind]
  rfl

/-- A blank line slips in behind a root that was cut: the text of the frame is no prefix of its
record. -/
theorem hole_behind_cut_root :
    ∃ parser frame, (LogParser.new .meow 1).session
        [(⟨.stderr, longLine, (0 : ℤ)⟩ : Push utcClock), ⟨.stderr, [], (1 : ℤ)⟩] =
          .ok (parser, [(none, none), (none, none)], (none, some frame)) ∧
      ¬frame.raw <+: joined longLine [[]] := by
  have hescape : '\x1b' ∉ longLine := by
    intro h
    have := longLine_chars h
    simp at this
  have hword : ∀ c ∈ longLine, Text.isWhitespace c = false := by
    intro c hc
    have := longLine_chars hc
    simp only [List.mem_cons, List.not_mem_nil, or_false] at this
    rcases this with rfl | rfl | rfl | rfl | rfl | rfl <;> rfl
  have herror : errorRoot longLine = true := by
    refine List.isPrefixOf_iff_prefix.mpr ⟨List.replicate 16377 'x' ++ ['€'], ?_⟩
    rw [longLine_eq, List.append_assoc]
  obtain ⟨parser, frame, hsession, hstarts⟩ := session_blank hescape hword herror
  exact ⟨parser, frame, hsession, fun h => hstarts.mp h longLine_slack⟩

end Nyanpasu.Log
