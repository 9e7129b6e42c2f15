import Nyanpasu.Log.Header
import Mathlib.Data.List.Chain
import Mathlib.Data.List.Forall2

/-!
# Dates of clash premium lines

Clash premium prints the time of a line and no date. The first line is dated by its observation, and
every later one by the line before it: the date advances when the printed time falls by more than
half a day. This file says for which runs these dates are the true ones.
-/

namespace Nyanpasu.Log

/-- A day in nanoseconds. -/
def fullDay : ℤ := 24 * 3600 * 10 ^ 9

/-- What the calendar of `chrono` has to do with numbers: dates are consecutive days, times of a day
are differences from midnight, and local times of a fixed offset are a day apart from one date to
the next. -/
structure Civil (chrono : Chrono) where
  day : chrono.Date → ℤ
  /-- Nanoseconds since midnight; leap seconds are behind the end of the day. -/
  nanos : chrono.Time → ℤ
  /-- The milliseconds of a local time on day zero. -/
  shift : chrono.Offset → chrono.Time → ℤ
  day_injective : Function.Injective day
  succ_iff : ∀ date next, chrono.succOpt date = some next ↔ day next = day date + 1
  pred_iff : ∀ date previous, chrono.predOpt date = some previous ↔ day previous + 1 = day date
  difference : ∀ a b, 0 ≤ nanos a → nanos a < fullDay → 0 ≤ nanos b → nanos b < fullDay →
    chrono.signedDurationSince a b = nanos a - nanos b
  millis : ∀ offset date time instant, chrono.fromLocalDatetime offset date time = some instant →
    chrono.timestampMillis instant = day date * 86400000 + shift offset time

section

variable {chrono : Chrono} (civil : Civil chrono) (offset : chrono.Offset)

/-- A line of clash premium with its true date and time, to the second that is printed, and the
instant at which it is observed, less than half a day away. -/
structure PremiumLine where
  text : Text
  observedAt : chrono.Instant
  observedOn : chrono.Date
  date : chrono.Date
  time : chrono.Time
  instant : chrono.Instant
  printed : (premiumHead chrono text).map (fun head => head.2.1) = some time
  sameOffset : chrono.offset observedAt = offset
  observed : chrono.dateNaive observedAt = some observedOn
  actual : chrono.fromLocalDatetime offset date time = some instant
  time_inDay : 0 ≤ civil.nanos time ∧ civil.nanos time < fullDay
  observed_inDay : 0 ≤ civil.nanos (chrono.time observedAt) ∧
    civil.nanos (chrono.time observedAt) < fullDay
  notAfter : (civil.day date * fullDay + civil.nanos time) -
    (civil.day observedOn * fullDay + civil.nanos (chrono.time observedAt)) < halfDay
  notBefore : (civil.day observedOn * fullDay + civil.nanos (chrono.time observedAt)) -
    (civil.day date * fullDay + civil.nanos time) < halfDay

/-- The local time of a line, in nanoseconds. -/
def PremiumLine.clock {civil : Civil chrono} {offset : chrono.Offset}
    (line : PremiumLine civil offset) : ℤ := civil.day line.date * fullDay + civil.nanos line.time

end

/-- `parse_premium` on one line after the other. -/
def premiumRun (chrono : Chrono) : PremiumClock chrono → List (Text × chrono.Instant) →
    Checked (List (Option ParsedLine))
  | _, [] => pure []
  | clock, (line, observedAt) :: rest => do
      let (parsed, clock) ← parsePremium chrono line observedAt clock
      let more ← premiumRun chrono clock rest
      pure (parsed :: more)

/-- The instant that is inferred for a line. -/
def inferred (parsed : Option ParsedLine) : Option ℤ :=
  parsed.bind fun line => line.timestamp.bind LogTimestamp.unixMs

section

variable {chrono : Chrono} {civil : Civil chrono} {offset : chrono.Offset}

/-- Every line of a run gets its true instant. -/
def DatedRight (clock : PremiumClock chrono) (lines : List (PremiumLine civil offset)) : Prop :=
  ∃ parsed, premiumRun chrono clock (lines.map fun line => (line.text, line.observedAt)) =
      .ok parsed ∧
    List.Forall₂ (fun line result => inferred result = some (chrono.timestampMillis line.instant))
      lines parsed

/-- A line on the same day as the one before it and at most half a day earlier, or on the next day
and less than half a day later. -/
def Follows (before after : PremiumLine civil offset) : Prop :=
  (civil.day after.date = civil.day before.date ∧ before.clock - after.clock ≤ halfDay) ∨
    (civil.day after.date = civil.day before.date + 1 ∧ after.clock - before.clock < halfDay)

/-- A line on the day of its observation or the day before. -/
def Anchored (line : PremiumLine civil offset) : Prop :=
  civil.day line.date ≤ civil.day line.observedOn

/-- The date that is inferred for a line. -/
def inferredDate (clock : PremiumClock chrono) (line : PremiumLine civil offset) :
    Option chrono.Date :=
  match clock with
  | some (date, previous) =>
      if chrono.signedDurationSince previous line.time > halfDay then chrono.succOpt date
      else some date
  | none =>
      if chrono.signedDurationSince line.time (chrono.time line.observedAt) > halfDay then
        chrono.predOpt line.observedOn
      else some line.observedOn

theorem premiumUnixMs_eq (clock : PremiumClock chrono) (line : PremiumLine civil offset) :
    premiumUnixMs chrono line.time line.observedAt clock = .ok (match inferredDate clock line with
      | none => (none, clock)
      | some date => (localUnixMs chrono date line.time offset, some (date, line.time))) := by
  have hdate : (premiumDate chrono line.time line.observedAt clock).run =
      .ok (inferredDate clock line) := by
    cases clock with
    | some last =>
      obtain ⟨date, previous⟩ := last
      simp only [premiumDate, inferredDate]
      split
      · rfl
      · rfl
    | none =>
      simp only [premiumDate, inferredDate, line.observed]
      split
      · rfl
      · rfl
  rw [premiumUnixMs, hdate]
  cases inferredDate clock line with
  | none => rfl
  | some date =>
    simp only [line.sameOffset]
    rfl

/-- The line that is parsed, and the clock it leaves. -/
theorem parsePremium_eq (clock : PremiumClock chrono) (line : PremiumLine civil offset) :
    ∃ parsed, inferred parsed = (inferredDate clock line).bind
        (localUnixMs chrono · line.time offset) ∧
      parsePremium chrono line.text line.observedAt clock = .ok (parsed,
        ((inferredDate clock line).map (·, line.time)).or clock) := by
  obtain ⟨⟨raw, time, level, body⟩, hhead, htime⟩ := Option.map_eq_some_iff.mp line.printed
  obtain rfl : time = line.time := htime
  have hunix := premiumUnixMs_eq clock line
  simp only [parsePremium, hhead, hunix, bind, Except.bind, pure, Except.pure]
  cases inferredDate clock line with
  | none => exact ⟨_, rfl, rfl⟩
  | some date => exact ⟨_, rfl, rfl⟩

/-- The instant is the true one exactly when the date is. -/
theorem localUnixMs_eq_iff (line : PremiumLine civil offset) (found : Option chrono.Date) :
    (found.bind (localUnixMs chrono · line.time offset)) =
      some (chrono.timestampMillis line.instant) ↔ found = some line.date := by
  constructor
  · intro h
    obtain ⟨date, rfl, h⟩ := Option.bind_eq_some_iff.mp h
    obtain ⟨instant, hinstant, hmillis⟩ := Option.map_eq_some_iff.mp h
    have hfound := civil.millis offset date line.time instant hinstant
    have htrue := civil.millis offset line.date line.time line.instant line.actual
    have hday : civil.day date = civil.day line.date := by omega
    rw [civil.day_injective hday]
  · rintro rfl
    rw [Option.bind_some, localUnixMs, line.actual, Option.map_some]

/-- A line that is not dated by another gets its true date when it is not printed on the day after
its observation. -/
theorem inferredDate_first (line : PremiumLine civil offset) :
    inferredDate none line = some line.date ↔ Anchored line := by
  have hbounds := line.time_inDay
  have hobserved := line.observed_inDay
  have hafter := line.notAfter
  have hbefore := line.notBefore
  rw [inferredDate, civil.difference _ _ hbounds.1 hbounds.2 hobserved.1 hobserved.2, Anchored]
  by_cases hlate : civil.nanos line.time - civil.nanos (chrono.time line.observedAt) > halfDay
  · rw [if_pos hlate, civil.pred_iff]
    simp only [fullDay, halfDay] at *
    omega
  · rw [if_neg hlate, Option.some.injEq, ← civil.day_injective.eq_iff]
    simp only [fullDay, halfDay] at *
    omega

/-- A later line gets its true date when it follows the one before it. -/
theorem inferredDate_next (before after : PremiumLine civil offset) :
    inferredDate (some (before.date, before.time)) after = some after.date ↔
      Follows before after := by
  have hbefore := before.time_inDay
  have hafter := after.time_inDay
  rw [inferredDate, civil.difference _ _ hbefore.1 hbefore.2 hafter.1 hafter.2, Follows,
    PremiumLine.clock, PremiumLine.clock]
  by_cases hlate : civil.nanos before.time - civil.nanos after.time > halfDay
  · rw [if_pos hlate, civil.succ_iff]
    simp only [fullDay, halfDay] at *
    omega
  · rw [if_neg hlate, Option.some.injEq, ← civil.day_injective.eq_iff]
    simp only [fullDay, halfDay] at *
    omega

/-- A run is dated right when its first line is, and the rest behind it. -/
theorem datedRight_cons (clock : PremiumClock chrono) (line : PremiumLine civil offset)
    (lines : List (PremiumLine civil offset)) : DatedRight clock (line :: lines) ↔
      inferredDate clock line = some line.date ∧
        DatedRight (some (line.date, line.time)) lines := by
  obtain ⟨parsed, hinferred, hparse⟩ := parsePremium_eq clock line
  constructor
  · rintro ⟨results, hrun, hall⟩
    obtain ⟨result, rest, hresult, hrest, rfl⟩ := List.forall₂_cons_left_iff.mp hall
    simp only [List.map_cons, premiumRun, hparse, bind, Except.bind, pure, Except.pure] at hrun
    split at hrun
    · cases hrun
    next more hmore =>
      obtain ⟨rfl, rfl⟩ := List.cons.inj (Except.ok.inj hrun)
      rw [hinferred, localUnixMs_eq_iff] at hresult
      rw [hresult, Option.map_some, Option.some_or] at hmore
      exact ⟨hresult, more, hmore, hrest⟩
  · rintro ⟨hdate, rest, hrun, hall⟩
    refine ⟨parsed :: rest, ?_, .cons ?_ hall⟩
    · rw [hdate, Option.map_some, Option.some_or] at hparse
      simp only [List.map_cons, premiumRun, hparse, hrun, bind, Except.bind, pure, Except.pure]
    · rw [hinferred, localUnixMs_eq_iff]
      exact hdate

/-- Behind a line with its true date, a run is dated right when every line follows the one
before. -/
theorem datedRight_iff_chain (lines : List (PremiumLine civil offset)) :
    ∀ before : PremiumLine civil offset, DatedRight (some (before.date, before.time)) lines ↔
      List.IsChain Follows (before :: lines) := by
  induction lines with
  | nil =>
    intro before
    exact iff_of_true ⟨[], rfl, .nil⟩ (List.isChain_singleton _)
  | cons line lines ih =>
    intro before
    rw [datedRight_cons, inferredDate_next, ih line, List.isChain_cons_cons]

/-- **Premium dates.** In every run of premium lines that are printed less than half a day before or
after their observation, every line gets its true instant exactly when the first line is not printed
on the day after its observation, and every other line is printed on the same day as the line before
it and at most half a day earlier, or on the next day and less than half a day later. -/
theorem premium_dated_iff (lines : List (PremiumLine civil offset)) :
    DatedRight none lines ↔
      (∀ line ∈ lines.head?, Anchored line) ∧ List.IsChain Follows lines := by
  cases lines with
  | nil => exact iff_of_true ⟨[], rfl, .nil⟩ ⟨by simp, List.isChain_nil⟩
  | cons line lines =>
    rw [datedRight_cons, inferredDate_first, datedRight_iff_chain]
    simp

end

/-- The value of two digits. -/
def twoDigits (tens ones : Char) : Option ℤ :=
  if tens.isDigit && ones.isDigit then
    some (10 * (tens.toNat - '0'.toNat : ℤ) + (ones.toNat - '0'.toNat : ℤ))
  else none

/-- A calendar without bounds at the offset zero: dates are days, times and instants nanoseconds. -/
def plainChrono : Chrono where
  Instant := ℤ
  Date := ℤ
  Time := ℤ
  Offset := Unit
  timestampMillis := (· / 10 ^ 6)
  parseFromRfc3339 := fun _ => none
  offset := fun _ => ()
  dateNaive := fun instant => some (instant / fullDay)
  time := (· % fullDay)
  fromYmdOpt := fun _ _ _ => none
  fromHmsNanoOpt := fun _ _ _ _ => none
  parseTime
    | [h, h', ':', m, m', ':', s, s'] => do
        let hours ← twoDigits h h'
        let minutes ← twoDigits m m'
        let seconds ← twoDigits s s'
        if hours < 24 ∧ minutes < 60 ∧ seconds < 60 then
          some ((hours * 3600 + minutes * 60 + seconds) * 10 ^ 9)
        else none
    | _ => none
  signedDurationSince := (· - ·)
  succOpt := fun date => some (date + 1)
  predOpt := fun date => some (date - 1)
  fromLocalDatetime := fun _ date time => some (date * fullDay + time)

/-- Its numbers. -/
def plainCivil : Civil plainChrono where
  day := fun date => date
  nanos := fun time => time
  shift := fun _ (time : ℤ) => time / 10 ^ 6
  day_injective := fun _ _ h => h
  succ_iff := fun (date next : ℤ) => by
    simp only [plainChrono, Option.some.injEq]
    omega
  pred_iff := fun (date previous : ℤ) => by
    simp only [plainChrono, Option.some.injEq]
    omega
  difference := fun _ _ _ _ _ _ => rfl
  millis := fun _ (date time instant : ℤ) h => by
    obtain rfl := Option.some.inj h
    simp only [plainChrono, fullDay]
    omega

/-- A line of a run that is observed when it is printed. -/
def promptLine (text : Text) (date time : ℤ) (hprinted : (premiumHead plainChrono text).map
      (fun head => head.2.1) = some time) (hnonneg : 0 ≤ time) (hlt : time < fullDay) :
    PremiumLine plainCivil () :=
  have hdate : (date * fullDay + time) / fullDay = date := by
    simp only [fullDay] at *
    omega
  have htime : (date * fullDay + time) % fullDay = time := by
    simp only [fullDay] at *
    omega
  { text, observedAt := date * fullDay + time, observedOn := date, date, time
    instant := date * fullDay + time
    printed := hprinted
    sameOffset := rfl
    observed := congrArg some hdate
    actual := rfl
    time_inDay := ⟨hnonneg, hlt⟩
    observed_inDay := by
      simp only [plainCivil, plainChrono, htime]
      exact ⟨hnonneg, hlt⟩
    notAfter := by
      simp only [plainCivil, plainChrono, htime, Int.sub_self]
      decide
    notBefore := by
      simp only [plainCivil, plainChrono, htime, Int.sub_self]
      decide }

/-- Two lines a day and an hour apart, each observed when it is printed: the second is dated on the
day of the first. -/
theorem quiet_day_misdated : ¬∀ (chrono : Chrono) (civil : Civil chrono) (offset : chrono.Offset)
    (lines : List (PremiumLine civil offset)), DatedRight none lines := by
  intro h
  have hrun := h plainChrono plainCivil () [
    promptLine "01:00:00 INF first".toList 0 (3600 * 10 ^ 9) rfl (by decide) (by decide),
    promptLine "02:00:00 INF second".toList 1 (7200 * 10 ^ 9) rfl (by decide) (by decide)]
  have hsecond := ((datedRight_cons _ _ _).mp hrun).2
  have hdate : some (0 : ℤ) = some 1 := ((datedRight_cons _ _ _).mp hsecond).1
  exact absurd hdate (by decide)

end Nyanpasu.Log
