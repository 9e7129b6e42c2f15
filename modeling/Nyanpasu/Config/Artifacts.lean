import Nyanpasu.Lib.Numeral
import Mathlib.Data.List.Dedup

/-!
# Names of runtime artifacts

What the store leaves in its directory carries an epoch in its name. `artifact_epoch` reads the
epoch of any name, and `cleanup_epoch` prints the names of an epoch again to delete them. A new
manager sweeps every epoch it can read and continues behind the greatest.
-/

namespace Nyanpasu.Config

/-- How the names of pid files and sockets begin. -/
def coreStart : Text := "core-".toList

/-- How the names of runtime configs begin. -/
def configStart : Text := "config-".toList

/-- How the names of staged configs begin. -/
def hiddenStart : Text := ".config-".toList

/-- How the names of pid files end. -/
def pidEnd : Text := ".pid".toList

/-- How the names of sockets end. -/
def socketEnd : Text := ".sock".toList

/-- How the names of runtime configs end. -/
def configEnd : Text := ".yaml".toList

/-- What follows the epoch of a backup. -/
def backupMark : Text := ".yaml.backup-".toList

/-- What follows the epoch of a staged config. -/
def stagedMark : Text := ".yaml.tmp-".toList

/-- What follows the epoch of a pid file that is not installed yet. -/
def pidTempMark : Text := ".pid.tmp-".toList

/-- The file name of `runtime_path`. -/
def configName (epoch : ℕ) : Text := configStart ++ (Nat.toDigits 10 epoch ++ configEnd)

/-- The file name of `pid_path`. -/
def pidName (epoch : ℕ) : Text := coreStart ++ (Nat.toDigits 10 epoch ++ pidEnd)

/-- The file name of `socket_path`. -/
def socketName (epoch : ℕ) : Text := coreStart ++ (Nat.toDigits 10 epoch ++ socketEnd)

/-- How the names of backups begin. -/
def backupStart (epoch : ℕ) : Text :=
  configStart ++ (Nat.toDigits 10 epoch ++ backupMark)

/-- How the names of staged files begin. -/
def stagedStart (epoch : ℕ) : Text :=
  hiddenStart ++ (Nat.toDigits 10 epoch ++ stagedMark)

/-- How the names of pid files begin before they are installed. -/
def pidTempStart (epoch : ℕ) : Text :=
  coreStart ++ (Nat.toDigits 10 epoch ++ pidTempMark)

/-- The names that the store makes for an epoch. -/
inductive Created (epoch : ℕ) : Text → Prop
  | config : Created epoch (configName epoch)
  | backup (generation : ℕ) : Created epoch (backupStart epoch ++ Nat.toDigits 10 generation)
  | staged (tail : Text) : Created epoch (stagedStart epoch ++ tail)
  | pid : Created epoch (pidName epoch)
  | pidTemp (tail : Text) (hdot : '.' ∉ tail) : Created epoch (pidTempStart epoch ++ tail)
  | socket : Created epoch (socketName epoch)

/-- The part of a name that `artifact_epoch` parses. -/
def epochText (name : Text) : Option Text :=
  ((Text.stripPrefix name coreStart).bind (Text.stripSuffix · pidEnd)).or <|
  ((Text.stripPrefix name coreStart).bind (Text.stripSuffix · socketEnd)).or <|
  ((Text.stripPrefix name configStart).bind fun value =>
    (Text.stripSuffix value configEnd).or
      ((Text.splitOnce value backupMark).map Prod.fst)).or <|
  ((Text.stripPrefix name hiddenStart).bind fun value =>
    (Text.splitOnce value stagedMark).map Prod.fst).or <|
  (Text.stripPrefix name coreStart).bind fun value =>
    (Text.splitOnce value pidTempMark).map Prod.fst

/-- `artifact_epoch`. -/
def artifactEpoch (name : Text) : Option ℕ := (epochText name).bind Text.parseU64

/-- The epoch of a directory entry. -/
def epochOf (entry : OsName) : Option ℕ := entry.toStr.bind artifactEpoch

/-- `artifact_epochs`. -/
def artifactEpochs (listing : List OsName) : List ℕ :=
  ((listing.filterMap epochOf).mergeSort (· ≤ ·)).dedup

/-- Delete a file if it is there; what is no regular file, or cannot be deleted, is blocked. -/
def removeFile (blocked : OsName → Bool) (listing : List OsName) (name : Text) :
    Option (List OsName) :=
  if .text name ∈ listing ∧ blocked (.text name) then none
  else some (listing.filter (· ≠ .text name))

/-- The names that `cleanup_epoch` finds by how they begin. -/
def isExtra (epoch : ℕ) (name : Text) : Bool :=
  (backupStart epoch).isPrefixOf name || (stagedStart epoch).isPrefixOf name ||
    (pidTempStart epoch).isPrefixOf name

/-- The loop of `cleanup_epoch` over the directory entries. -/
def removeExtras (blocked : OsName → Bool) (epoch : ℕ) (listing : List OsName) :
    List OsName → Option (List OsName)
  | [] => some listing
  | .text name :: entries =>
      if isExtra epoch name then
        (removeFile blocked listing name).bind fun listing =>
          removeExtras blocked epoch listing entries
      else removeExtras blocked epoch listing entries
  | .bytes _ :: entries => removeExtras blocked epoch listing entries

/-- `cleanup_epoch`, when it succeeds. -/
def cleanupEpoch (blocked : OsName → Bool) (epoch : ℕ) (listing : List OsName) :
    Option (List OsName) := do
  let listing ← removeFile blocked listing (configName epoch)
  let listing ← removeFile blocked listing (pidName epoch)
  let listing ← removeFile blocked listing (socketName epoch)
  removeExtras blocked epoch listing listing

/-- The loop of `sweep_orphans`; `reaps` tells whether the process of a pid file is reaped. -/
def sweepEpochs (blocked : OsName → Bool) (reaps : ℕ → Bool) (listing : List OsName) :
    List ℕ → Option (List OsName)
  | [] => some listing
  | epoch :: epochs =>
      if .text (pidName epoch) ∈ listing ∧ reaps epoch = false then none
      else (cleanupEpoch blocked epoch listing).bind fun listing =>
        sweepEpochs blocked reaps listing epochs

/-- `sweep_orphans`: what is left of the directory, and the greatest epoch. -/
def sweepOrphans (blocked : OsName → Bool) (reaps : ℕ → Bool) (listing : List OsName) :
    Option (List OsName × ℕ) :=
  (sweepEpochs blocked reaps listing (artifactEpochs listing)).map fun left =>
    (left, (artifactEpochs listing).foldr max 0)

/-- `next_epoch` a number of times; the additions wrap. -/
def nextEpochs (counter : ℕ) : ℕ → List ℕ
  | 0 => []
  | n + 1 => (counter + 1) % 2 ^ 64 :: nextEpochs ((counter + 1) % 2 ^ 64) n

/-- What the recognizer and the cleaner make of a directory that a manager opens and allocates a
number of epochs in: names the store makes are read back, the cleaner of an epoch removes what is
recognized as that epoch and nothing that is recognized as another, nothing recognized is left by
the sweep, and the new epochs follow all old ones. -/
structure Agreement (listing : List OsName) (count : ℕ) : Prop where
  created : ∀ epoch < 2 ^ 64, ∀ name, Created epoch name → artifactEpoch name = some epoch
  removes : ∀ entry ∈ listing, ∀ epoch, epochOf entry = some epoch →
    ∀ blocked left, cleanupEpoch blocked epoch listing = some left → entry ∉ left
  spares : ∀ blocked epoch left, cleanupEpoch blocked epoch listing = some left →
    ∀ entry ∈ listing, entry ∉ left → ∀ other, epochOf entry = some other → other = epoch
  clean : ∀ blocked reaps left top, sweepOrphans blocked reaps listing = some (left, top) →
    (∀ entry ∈ left, epochOf entry = none) ∧
    nextEpochs top count = List.range' (top + 1) count ∧
    ∀ epoch ∈ nextEpochs top count, .text (configName epoch) ∉ left ∧
      ∀ entry ∈ listing, ∀ other, epochOf entry = some other → other < epoch

/-- Every epoch that is read from a name is written there as it is printed: digits only, and no zero
in front of others. -/
def PlainNumerals (listing : List OsName) : Prop :=
  ∀ name text, .text name ∈ listing → epochText name = some text → Text.parseU64 text ≠ none →
    text.all Char.isDigit ∧ Text.Padded 1 text

/-! ## The two readings of a name -/

section Names

variable {name text : Text} {epoch other : ℕ}

/-- The shapes of names that an epoch is read from. -/
theorem epochText_shape (h : epochText name = some text) :
    name = coreStart ++ (text ++ pidEnd) ∨
    name = coreStart ++ (text ++ socketEnd) ∨
    name = configStart ++ (text ++ configEnd) ∨
    (∃ tail, name = configStart ++ (text ++ (backupMark ++ tail))) ∨
    (∃ tail, name = hiddenStart ++ (text ++ (stagedMark ++ tail))) ∨
    ∃ tail, name = coreStart ++ (text ++ (pidTempMark ++ tail)) := by
  simp only [epochText, Option.or_eq_some_iff, Option.bind_eq_some_iff, Option.map_eq_some_iff,
    Text.stripPrefix_eq_some_iff, Text.stripSuffix_eq_some_iff, Prod.exists] at h
  rcases h with ⟨value, rfl, rfl⟩ | ⟨-, ⟨value, rfl, rfl⟩ | ⟨-, ⟨value, rfl, hvalue⟩ |
    ⟨-, ⟨value, rfl, front, tail, hsplit, rfl⟩ | ⟨-, value, rfl, front, tail, hsplit, rfl⟩⟩⟩⟩
  · exact .inl rfl
  · exact .inr (.inl rfl)
  · rcases hvalue with rfl | ⟨-, front, tail, hsplit, rfl⟩
    · exact .inr (.inr (.inl rfl))
    · exact .inr (.inr (.inr (.inl ⟨tail, by rw [Text.eq_of_splitOnce hsplit]⟩)))
  · exact .inr (.inr (.inr (.inr (.inl ⟨tail, by rw [Text.eq_of_splitOnce hsplit]⟩))))
  · exact .inr (.inr (.inr (.inr (.inr ⟨tail, by rw [Text.eq_of_splitOnce hsplit]⟩))))

/-- The names that `cleanup_epoch` deletes. -/
def Cleaned (epoch : ℕ) (name : Text) : Prop :=
  name = configName epoch ∨ name = pidName epoch ∨ name = socketName epoch ∨ isExtra epoch name

theorem isExtra_iff : isExtra epoch name ↔ ∃ tail, name = backupStart epoch ++ tail ∨
    name = stagedStart epoch ++ tail ∨ name = pidTempStart epoch ++ tail := by
  simp only [isExtra, Bool.or_eq_true, List.isPrefixOf_iff_prefix, exists_or, or_assoc]
  exact or_congr (exists_congr fun _ => eq_comm)
    (or_congr (exists_congr fun _ => eq_comm) (exists_congr fun _ => eq_comm))

/-- A name with the printed epoch is deleted with that epoch. -/
theorem cleaned_of_epochText (h : epochText name = some (Nat.toDigits 10 epoch)) :
    Cleaned epoch name := by
  rw [Cleaned, isExtra_iff]
  rcases epochText_shape h with rfl | rfl | rfl | ⟨tail, rfl⟩ | ⟨tail, rfl⟩ | ⟨tail, rfl⟩
  · exact Or.inr (Or.inl rfl)
  · exact Or.inr (Or.inr (Or.inl rfl))
  · exact Or.inl rfl
  · refine Or.inr (Or.inr (Or.inr ⟨tail, Or.inl ?_⟩))
    rw [backupStart, List.append_assoc, List.append_assoc]
  · refine Or.inr (Or.inr (Or.inr ⟨tail, Or.inr (Or.inl ?_)⟩))
    rw [stagedStart, List.append_assoc, List.append_assoc]
  · refine Or.inr (Or.inr (Or.inr ⟨tail, Or.inr (Or.inr ?_)⟩))
    rw [pidTempStart, List.append_assoc, List.append_assoc]

/-- A suffix that ends behind a character leaves the character. -/
theorem mem_of_append_eq {front back start tail : Text} {c : Char}
    (h : start ++ (c :: tail) = front ++ back) (hlength : back.length ≤ tail.length) :
    c ∈ front := by
  have hfront : front = (start ++ (c :: tail)).take front.length := by rw [h, List.take_left]
  have hlengths := congrArg List.length h
  simp only [List.length_append, List.length_cons] at hlengths
  rw [hfront, List.take_append, List.mem_append]
  refine .inr ?_
  obtain ⟨n, hn⟩ : ∃ n, front.length - start.length = n + 1 := ⟨front.length - start.length - 1,
    by omega⟩
  rw [hn, List.take_succ_cons]
  exact List.mem_cons_self

theorem dot_notMem_toDigits (n : ℕ) : '.' ∉ Nat.toDigits 10 n := by
  intro h
  have := Nat.isDigit_of_mem_toDigits (by decide) (by decide) h
  simp at this

theorem epochText_core (value : Text) : epochText (coreStart ++ value) =
    (Text.stripSuffix value pidEnd).or ((Text.stripSuffix value socketEnd).or
      ((Text.splitOnce value pidTempMark).map Prod.fst)) := by
  have hcore : Text.stripPrefix (coreStart ++ value) coreStart = some value :=
    Text.stripPrefix_eq_some_iff.mpr rfl
  have hconfig : Text.stripPrefix (coreStart ++ value) configStart = none := rfl
  have hhidden : Text.stripPrefix (coreStart ++ value) hiddenStart = none := rfl
  simp [epochText, hcore, hconfig, hhidden]

theorem epochText_config (value : Text) : epochText (configStart ++ value) =
    (Text.stripSuffix value configEnd).or ((Text.splitOnce value backupMark).map Prod.fst) := by
  have hcore : Text.stripPrefix (configStart ++ value) coreStart = none := rfl
  have hconfig : Text.stripPrefix (configStart ++ value) configStart = some value :=
    Text.stripPrefix_eq_some_iff.mpr rfl
  have hhidden : Text.stripPrefix (configStart ++ value) hiddenStart = none := rfl
  simp [epochText, hcore, hconfig, hhidden]

theorem epochText_hidden (value : Text) : epochText (hiddenStart ++ value) =
    (Text.splitOnce value stagedMark).map Prod.fst := by
  have hcore : Text.stripPrefix (hiddenStart ++ value) coreStart = none := rfl
  have hconfig : Text.stripPrefix (hiddenStart ++ value) configStart = none := rfl
  have hhidden : Text.stripPrefix (hiddenStart ++ value) hiddenStart = some value :=
    Text.stripPrefix_eq_some_iff.mpr rfl
  simp [epochText, hcore, hconfig, hhidden]

/-- A longer mark behind the epoch: what is left when an ending is cut off has its dot. -/
theorem dot_mem_of_stripSuffix {digits mark ending front : Text} (hmark : mark.head? = some '.')
    (hlength : ending.length < mark.length) {tail : Text}
    (h : Text.stripSuffix (digits ++ (mark ++ tail)) ending = some front) : '.' ∈ front := by
  obtain ⟨rest, rfl⟩ := List.head?_eq_some_iff.mp hmark
  rw [Text.stripSuffix_eq_some_iff, List.cons_append] at h
  refine mem_of_append_eq h ?_
  rw [List.length_append]
  rw [List.length_cons] at hlength
  omega

/-- The text behind the epoch begins at the first dot. -/
theorem splitOnce_mark {mark tail : Text} (hmark : mark.head? = some '.') :
    Text.splitOnce (Nat.toDigits 10 epoch ++ (mark ++ tail)) mark =
      some (Nat.toDigits 10 epoch, tail) := by
  obtain ⟨rest, rfl⟩ := List.head?_eq_some_iff.mp hmark
  exact Text.splitOnce_append (dot_notMem_toDigits epoch)

/-- An ending is not cut off where the last dot has another behind it. -/
theorem stripSuffix_eq_none {front x y : Text} (hx : '.' ∉ x) (hy : '.' ∉ y) (hne : x ≠ y) :
    Text.stripSuffix (front ++ '.' :: x) ('.' :: y) = none := by
  rw [Option.eq_none_iff_forall_ne_some]
  intro rest h
  rw [Text.stripSuffix_eq_some_iff, List.append_eq_append_iff] at h
  rcases h with ⟨between, -, h⟩ | ⟨between, -, h⟩
  · cases between with
    | nil => exact hne (List.cons.inj h).2
    | cons c between =>
      rw [(List.cons.inj h).2] at hx
      exact hx (List.mem_append_right _ List.mem_cons_self)
  · cases between with
    | nil => exact hne (List.cons.inj h).2.symm
    | cons c between =>
      rw [(List.cons.inj h).2] at hy
      exact hy (List.mem_append_right _ List.mem_cons_self)

theorem stripSuffix_socket (digits : Text) :
    Text.stripSuffix (digits ++ socketEnd) pidEnd = none :=
  stripSuffix_eq_none (by decide) (by decide) (by decide)

/-- The epoch is read from a name that is deleted with it, unless another ending hides it. -/
theorem epochText_of_cleaned (h : Cleaned epoch name) :
    epochText name = some (Nat.toDigits 10 epoch) ∨ ∃ front, epochText name = some front ∧
      '.' ∈ front := by
  rw [Cleaned, isExtra_iff] at h
  rcases h with rfl | rfl | rfl | ⟨tail, rfl | rfl | rfl⟩
  · left
    rw [configName, epochText_config, Text.stripSuffix_eq_some_iff.mpr rfl, Option.some_or]
  · left
    rw [pidName, epochText_core, Text.stripSuffix_eq_some_iff.mpr rfl, Option.some_or]
  · left
    rw [socketName, epochText_core, stripSuffix_socket, Option.none_or,
      Text.stripSuffix_eq_some_iff.mpr rfl, Option.some_or]
  · rw [backupStart, List.append_assoc, List.append_assoc, epochText_config]
    cases hend : Text.stripSuffix (Nat.toDigits 10 epoch ++ (backupMark ++ tail)) configEnd with
    | some front => exact .inr ⟨front, rfl, dot_mem_of_stripSuffix rfl (by decide) hend⟩
    | none => exact .inl (by rw [Option.none_or, splitOnce_mark rfl, Option.map_some])
  · left
    rw [stagedStart, List.append_assoc, List.append_assoc, epochText_hidden, splitOnce_mark rfl,
      Option.map_some]
  · rw [pidTempStart, List.append_assoc, List.append_assoc, epochText_core]
    cases hpid : Text.stripSuffix (Nat.toDigits 10 epoch ++ (pidTempMark ++ tail)) pidEnd with
    | some front => exact .inr ⟨front, rfl, dot_mem_of_stripSuffix rfl (by decide) hpid⟩
    | none =>
      rw [Option.none_or]
      cases hend : Text.stripSuffix (Nat.toDigits 10 epoch ++ (pidTempMark ++ tail)) socketEnd with
      | some front => exact .inr ⟨front, rfl, dot_mem_of_stripSuffix rfl (by decide) hend⟩
      | none => exact .inl (by rw [Option.none_or, splitOnce_mark rfl, Option.map_some])

/-- What is deleted with an epoch is recognized as no other. -/
theorem artifactEpoch_of_cleaned (h : Cleaned epoch name)
    (hother : artifactEpoch name = some other) :
    other = epoch ∧ epochText name = some (Nat.toDigits 10 epoch) := by
  obtain ⟨text, htext, hparse⟩ := Option.bind_eq_some_iff.mp hother
  rcases epochText_of_cleaned h with hdigits | ⟨front, hfront, hdot⟩
  · refine ⟨?_, hdigits⟩
    rw [hdigits] at htext
    obtain rfl := Option.some.inj htext
    rw [Text.parseU64_of_isDigit Nat.toDigits_ne_nil (Text.all_isDigit_toDigits _),
      Text.decimal_toDigits] at hparse
    obtain ⟨-, heq⟩ := Option.ite_none_right_eq_some.mp hparse
    exact (Option.some.inj heq).symm
  · rw [hfront] at htext
    obtain rfl := Option.some.inj htext
    rw [Text.parseU64_eq_none hdot (by decide) (by decide)] at hparse
    cases hparse

theorem cons_ne_of_head_ne {x y : Text} {c d : Char} (h : c ≠ d) : c :: x ≠ d :: y :=
  fun heq => h (List.cons.inj heq).1

/-- The epoch of every name that the store makes is read back. -/
theorem epochText_of_created (h : Created epoch name) :
    epochText name = some (Nat.toDigits 10 epoch) := by
  cases h with
  | config =>
    rw [configName, epochText_config, Text.stripSuffix_eq_some_iff.mpr rfl, Option.some_or]
  | backup generation =>
    have hmark : backupMark = configEnd ++ '.' :: "backup-".toList := by decide
    have hnone : Text.stripSuffix (Nat.toDigits 10 epoch ++ (backupMark ++
        Nat.toDigits 10 generation)) configEnd = none := by
      rw [hmark, List.append_assoc, List.cons_append, ← List.append_assoc]
      refine stripSuffix_eq_none ?_ (by decide) (cons_ne_of_head_ne (by decide))
      rw [List.mem_append, not_or]
      exact ⟨by decide, dot_notMem_toDigits _⟩
    rw [backupStart, List.append_assoc, List.append_assoc, epochText_config, hnone, Option.none_or,
      splitOnce_mark rfl, Option.map_some]
  | staged tail =>
    rw [stagedStart, List.append_assoc, List.append_assoc, epochText_hidden, splitOnce_mark rfl,
      Option.map_some]
  | pid => rw [pidName, epochText_core, Text.stripSuffix_eq_some_iff.mpr rfl, Option.some_or]
  | pidTemp tail hdot =>
    have hmark : pidTempMark = pidEnd ++ '.' :: "tmp-".toList := by decide
    have htail : '.' ∉ "tmp-".toList ++ tail := by
      rw [List.mem_append, not_or]
      exact ⟨by decide, hdot⟩
    have hpid : Text.stripSuffix (Nat.toDigits 10 epoch ++ (pidTempMark ++ tail))
        pidEnd = none := by
      rw [hmark, List.append_assoc, List.cons_append, ← List.append_assoc]
      exact stripSuffix_eq_none htail (by decide) (cons_ne_of_head_ne (by decide))
    have hsocket : Text.stripSuffix (Nat.toDigits 10 epoch ++ (pidTempMark ++ tail)) socketEnd =
        none := by
      rw [hmark, List.append_assoc, List.cons_append, ← List.append_assoc]
      exact stripSuffix_eq_none htail (by decide) (cons_ne_of_head_ne (by decide))
    rw [pidTempStart, List.append_assoc, List.append_assoc, epochText_core, hpid, hsocket,
      Option.none_or, Option.none_or, splitOnce_mark rfl, Option.map_some]
  | socket =>
    rw [socketName, epochText_core, stripSuffix_socket, Option.none_or,
      Text.stripSuffix_eq_some_iff.mpr rfl, Option.some_or]

theorem artifactEpoch_of_created (hlt : epoch < 2 ^ 64) (h : Created epoch name) :
    artifactEpoch name = some epoch := by
  rw [artifactEpoch, epochText_of_created h, Option.bind_some, Text.parseU64_toDigits hlt]

end Names

/-! ## Sweeping a directory -/

section Sweeping

variable {blocked : OsName → Bool} {listing left : List OsName} {epoch : ℕ} {entry : OsName}

theorem mem_removeFile {name : Text} (h : removeFile blocked listing name = some left) :
    entry ∈ left ↔ entry ∈ listing ∧ entry ≠ .text name := by
  rw [removeFile] at h
  split at h
  · cases h
  · cases h
    rw [List.mem_filter, decide_eq_true_eq]

theorem mem_removeExtras {entries : List OsName}
    (h : removeExtras blocked epoch listing entries = some left) :
    entry ∈ left ↔ entry ∈ listing ∧
      ¬(entry ∈ entries ∧ ∃ name, entry = .text name ∧ isExtra epoch name) := by
  induction entries generalizing listing with
  | nil =>
    cases h
    simp
  | cons first entries ih =>
    cases first with
    | bytes name =>
      rw [removeExtras] at h
      rw [ih h, List.mem_cons]
      refine and_congr_right fun _ => not_congr ⟨fun hextra => ⟨.inr hextra.1, hextra.2⟩, ?_⟩
      rintro ⟨rfl | hmem, hextra⟩
      · obtain ⟨_, ⟨⟩, -⟩ := hextra
      · exact ⟨hmem, hextra⟩
    | text name =>
      rw [removeExtras] at h
      split at h
      next hextra =>
        obtain ⟨middle, hmiddle, hrest⟩ := Option.bind_eq_some_iff.mp h
        rw [ih hrest, mem_removeFile hmiddle, List.mem_cons]
        constructor
        · rintro ⟨⟨hmem, hne⟩, hnot⟩
          refine ⟨hmem, ?_⟩
          rintro ⟨heq | hin, hname⟩
          · exact hne heq
          · exact hnot ⟨hin, hname⟩
        · rintro ⟨hmem, hnot⟩
          refine ⟨⟨hmem, ?_⟩, fun hin => hnot ⟨.inr hin.1, hin.2⟩⟩
          rintro rfl
          exact hnot ⟨.inl rfl, name, rfl, hextra⟩
      next hextra =>
        rw [ih h, List.mem_cons]
        refine and_congr_right fun _ => not_congr ⟨fun hin => ⟨.inr hin.1, hin.2⟩, ?_⟩
        rintro ⟨rfl | hmem, other, hother, hyes⟩
        · obtain rfl := OsName.text.inj hother
          exact absurd hyes hextra
        · exact ⟨hmem, other, hother, hyes⟩

/-- What `cleanup_epoch` leaves. -/
theorem mem_cleanupEpoch (h : cleanupEpoch blocked epoch listing = some left) :
    entry ∈ left ↔ entry ∈ listing ∧ ∀ name, entry = .text name → ¬Cleaned epoch name := by
  obtain ⟨first, hfirst, h⟩ := Option.bind_eq_some_iff.mp h
  obtain ⟨second, hsecond, h⟩ := Option.bind_eq_some_iff.mp h
  obtain ⟨third, hthird, h⟩ := Option.bind_eq_some_iff.mp h
  rw [mem_removeExtras h, mem_removeFile hthird, mem_removeFile hsecond, mem_removeFile hfirst]
  constructor
  · rintro ⟨⟨⟨⟨hmem, hconfig⟩, hpid⟩, hsocket⟩, hextra⟩
    refine ⟨hmem, ?_⟩
    rintro name rfl (rfl | rfl | rfl | hyes)
    · exact hconfig rfl
    · exact hpid rfl
    · exact hsocket rfl
    · exact hextra ⟨⟨⟨⟨hmem, hconfig⟩, hpid⟩, hsocket⟩, name, rfl, hyes⟩
  · rintro ⟨hmem, hnot⟩
    refine ⟨⟨⟨⟨hmem, ?_⟩, ?_⟩, ?_⟩, ?_⟩
    · exact fun heq => hnot _ heq (.inl rfl)
    · exact fun heq => hnot _ heq (.inr (.inl rfl))
    · exact fun heq => hnot _ heq (.inr (.inr (.inl rfl)))
    · rintro ⟨-, name, heq, hyes⟩
      exact hnot name heq (.inr (.inr (.inr hyes)))

theorem mem_sweepEpochs {reaps : ℕ → Bool} {epochs : List ℕ}
    (h : sweepEpochs blocked reaps listing epochs = some left) :
    entry ∈ left ↔ entry ∈ listing ∧
      ∀ epoch ∈ epochs, ∀ name, entry = .text name → ¬Cleaned epoch name := by
  induction epochs generalizing listing with
  | nil =>
    cases h
    simp
  | cons epoch epochs ih =>
    rw [sweepEpochs] at h
    split at h
    · cases h
    · obtain ⟨middle, hmiddle, hrest⟩ := Option.bind_eq_some_iff.mp h
      rw [ih hrest, mem_cleanupEpoch hmiddle, List.forall_mem_cons, and_assoc]

/-- Nothing fails where nothing is blocked. -/
theorem cleanupEpoch_isSome (epoch : ℕ) (listing : List OsName) :
    ∃ left, cleanupEpoch (fun _ => false) epoch listing = some left := by
  have hfile : ∀ (listing : List OsName) (name : Text),
      removeFile (fun _ => false) listing name = some (listing.filter (· ≠ .text name)) := by
    intro listing name
    simp [removeFile]
  have hextras : ∀ entries listing : List OsName,
      ∃ left, removeExtras (fun _ => false) epoch listing entries = some left := by
    intro entries
    induction entries with
    | nil => exact fun listing => ⟨listing, rfl⟩
    | cons first entries ih =>
      intro listing
      cases first with
      | bytes name => exact ih listing
      | text name =>
        rw [removeExtras]
        split
        · rw [hfile]
          exact ih _
        · exact ih _
  simp only [cleanupEpoch, hfile, Option.bind_eq_bind, Option.bind_some]
  exact hextras _ _

theorem sweepEpochs_isSome (epochs : List ℕ) (listing : List OsName) :
    ∃ left, sweepEpochs (fun _ => false) (fun _ => true) listing epochs = some left := by
  induction epochs generalizing listing with
  | nil => exact ⟨listing, rfl⟩
  | cons epoch epochs ih =>
    obtain ⟨middle, hmiddle⟩ := cleanupEpoch_isSome epoch listing
    obtain ⟨left, hleft⟩ := ih middle
    exact ⟨left, by simp [sweepEpochs, hmiddle, hleft]⟩

theorem mem_artifactEpochs {listing : List OsName} {epoch : ℕ} :
    epoch ∈ artifactEpochs listing ↔ ∃ entry ∈ listing, epochOf entry = some epoch := by
  rw [artifactEpochs, List.mem_dedup, (List.mergeSort_perm _ _).mem_iff, List.mem_filterMap]

theorem epochOf_eq_some_iff {entry : OsName} {epoch : ℕ} : epochOf entry = some epoch ↔
    ∃ name, entry = .text name ∧ artifactEpoch name = some epoch := by
  simp only [epochOf, Option.bind_eq_some_iff, OsName.toStr_eq_some_iff]

theorem epochOf_lt {entry : OsName} {epoch : ℕ} (h : epochOf entry = some epoch) :
    epoch < 2 ^ 64 := by
  obtain ⟨name, -, hepoch⟩ := epochOf_eq_some_iff.mp h
  obtain ⟨text, -, hparse⟩ := Option.bind_eq_some_iff.mp hepoch
  exact Text.parseU64_lt hparse

/-- With printed numerals only, what is recognized is deleted with its epoch. -/
theorem PlainNumerals.cleaned {listing : List OsName} (h : PlainNumerals listing) {name : Text}
    {epoch : ℕ} (hmem : .text name ∈ listing) (hepoch : artifactEpoch name = some epoch) :
    Cleaned epoch name := by
  obtain ⟨text, htext, hparse⟩ := Option.bind_eq_some_iff.mp hepoch
  have hplain := h name text hmem htext (by simp [hparse])
  rw [(Text.eq_toDigits_iff hparse).mpr hplain] at htext
  exact cleaned_of_epochText htext

theorem nextEpochs_eq_iff {counter count : ℕ} (h : counter < 2 ^ 64) :
    nextEpochs counter count = List.range' (counter + 1) count ↔ counter + count < 2 ^ 64 := by
  induction count generalizing counter with
  | zero => simpa [nextEpochs] using h
  | succ count ih =>
    rw [nextEpochs, List.range'_succ, List.cons.injEq]
    by_cases hlast : counter + 1 < 2 ^ 64
    · rw [Nat.mod_eq_of_lt hlast, ih hlast]
      omega
    · have hover : counter + 1 = 2 ^ 64 := by omega
      rw [hover, Nat.mod_self]
      omega

end Sweeping

/-- **Recognizer and cleaner.** They agree on a directory, and the epochs of a manager that opens it
are new, exactly when every epoch in it is written as it is printed and the greatest leaves room for
the new ones. -/
theorem agreement_iff (listing : List OsName) (count : ℕ) : Agreement listing count ↔
    PlainNumerals listing ∧ (artifactEpochs listing).foldr max 0 + count < 2 ^ 64 := by
  have htop : (artifactEpochs listing).foldr max 0 < 2 ^ 64 := by
    by_cases hzero : (artifactEpochs listing).foldr max 0 = 0
    · rw [hzero]
      decide
    · obtain ⟨entry, -, hepoch⟩ := mem_artifactEpochs.mp (Nat.foldr_max_mem hzero)
      exact epochOf_lt hepoch
  constructor
  · intro h
    constructor
    · intro name text hmem htext hparse
      obtain ⟨epoch, hparse⟩ := Option.ne_none_iff_exists'.mp hparse
      have hepoch : artifactEpoch name = some epoch := by
        rw [artifactEpoch, htext, Option.bind_some, hparse]
      obtain ⟨left, hleft⟩ := cleanupEpoch_isSome epoch listing
      have hgone := h.removes _ hmem epoch
        (epochOf_eq_some_iff.mpr ⟨name, rfl, hepoch⟩) _ left hleft
      rw [mem_cleanupEpoch hleft] at hgone
      push Not at hgone
      obtain ⟨other, heq, hcleaned⟩ := hgone hmem
      obtain rfl := OsName.text.inj heq
      have hdigits := (artifactEpoch_of_cleaned hcleaned hepoch).2
      rw [htext] at hdigits
      exact (Text.eq_toDigits_iff hparse).mp (Option.some.inj hdigits)
    · obtain ⟨left, hleft⟩ := sweepEpochs_isSome (artifactEpochs listing) listing
      have hclean := h.clean _ _ left _ (by rw [sweepOrphans, hleft, Option.map_some])
      exact (nextEpochs_eq_iff htop).mp hclean.2.1
  · rintro ⟨hplain, hroom⟩
    refine ⟨fun epoch hlt name hname => artifactEpoch_of_created hlt hname, ?_, ?_, ?_⟩
    · intro entry hmem epoch hepoch blocked left hleft hstays
      obtain ⟨name, rfl, hepoch⟩ := epochOf_eq_some_iff.mp hepoch
      exact ((mem_cleanupEpoch hleft).mp hstays).2 name rfl (hplain.cleaned hmem hepoch)
    · intro blocked epoch left hleft entry hmem hgone other hother
      obtain ⟨name, rfl, hother⟩ := epochOf_eq_some_iff.mp hother
      rw [mem_cleanupEpoch hleft] at hgone
      push Not at hgone
      obtain ⟨name', heq, hcleaned⟩ := hgone hmem
      obtain rfl := OsName.text.inj heq
      exact (artifactEpoch_of_cleaned hcleaned hother).1
    · intro blocked reaps left top hsweep
      obtain ⟨left', hleft, heq⟩ := Option.map_eq_some_iff.mp hsweep
      obtain ⟨rfl, rfl⟩ := Prod.mk.inj heq
      have hnone : ∀ entry ∈ left', epochOf entry = none := by
        intro entry hentry
        by_contra hsome
        obtain ⟨epoch, hepoch⟩ := Option.ne_none_iff_exists'.mp hsome
        obtain ⟨hmem, hnot⟩ := (mem_sweepEpochs hleft).mp hentry
        obtain ⟨name, rfl, hname⟩ := epochOf_eq_some_iff.mp hepoch
        exact hnot epoch (mem_artifactEpochs.mpr ⟨_, hmem, hepoch⟩) name rfl
          (hplain.cleaned hmem hname)
      have hnext := (nextEpochs_eq_iff htop).mpr hroom
      refine ⟨hnone, hnext, fun epoch hepoch => ?_⟩
      rw [hnext, List.mem_range'_1] at hepoch
      have hlt : epoch < 2 ^ 64 := by omega
      refine ⟨fun hmem => ?_, fun entry hmem other hother => ?_⟩
      · have hread := hnone _ hmem
        rw [epochOf, OsName.toStr, Option.bind_some, artifactEpoch_of_created hlt .config] at hread
        cases hread
      · have hle := Nat.le_foldr_max (mem_artifactEpochs.mpr ⟨entry, hmem, hother⟩)
        omega

/-- An epoch with zeros in front is recognized, and its file is not deleted with the epoch. -/
theorem zeros_not_cleaned : artifactEpoch "core-007.pid".toList = some 7 ∧
    cleanupEpoch (fun _ => false) 7 [.text "core-007.pid".toList] =
      some [.text "core-007.pid".toList] ∧
    ¬Agreement [.text "core-007.pid".toList] 1 := by
  refine ⟨by decide, by decide, fun h => ?_⟩
  exact h.removes (.text "core-007.pid".toList) List.mem_cons_self 7 (by decide) (fun _ => false) _
    (by decide : _ = some [.text "core-007.pid".toList]) List.mem_cons_self

end Nyanpasu.Config
