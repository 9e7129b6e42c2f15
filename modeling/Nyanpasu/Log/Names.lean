import Nyanpasu.Log.Archive

/-!
# Names of archive files

The writer prints the number of a file with at least six digits, and reads it back from any
digits that fit 64 bits. Its directory may hold files of any name; which of them take part in the
rotation is decided by the name alone.
-/

namespace Nyanpasu.Log

/-- `FILE_PREFIX`. -/
def fileStart : Text := "core-".toList

/-- `FILE_SUFFIX`. -/
def fileEnd : Text := ".jsonl".toList

/-- `file_name`. -/
def fileName (seq : ℕ) : Text := fileStart ++ (Text.padded 6 seq ++ fileEnd)

/-- `file_seq`. -/
def fileSeq (name : Text) : Option ℕ :=
  (((Text.stripPrefix name fileStart).bind (Text.stripSuffix · fileEnd)).filter fun digits =>
    !digits.isEmpty && digits.all Char.isDigit).bind Text.parseU64

/-- The names in the log directory. -/
structure Folder where
  names : List OsName
  nodup : names.Nodup

namespace Folder

/-- The number read from a name. -/
def seqOf (name : OsName) : Option ℕ := name.toStr.bind fileSeq

/-- `read_seqs`. -/
def readSeqs (folder : Folder) : List ℕ := folder.names.filterMap seqOf

/-- The greatest number, zero when there is none. -/
def top (folder : Folder) : ℕ := folder.readSeqs.foldr max 0

/-- `next_seq`: the addition wraps. -/
def nextSeq (folder : Folder) : ℕ := (folder.top + 1) % 2 ^ 64

/-- `remove_file`; a file that is held open elsewhere stays. -/
def remove (held : OsName → Bool) (folder : Folder) (seq : ℕ) : Folder where
  names := folder.names.filter fun name => held name || name ≠ .text (fileName seq)
  nodup := folder.nodup.filter _

/-- `create`: open for appending, and make the file if it is missing. -/
def create (folder : Folder) (seq : ℕ) : Folder :=
  if h : .text (fileName seq) ∈ folder.names then folder
  else ⟨folder.names ++ [.text (fileName seq)],
    folder.nodup.append (List.nodup_singleton _) (by simpa using h)⟩

/-- `prune_dir`. -/
def prune (folder : Folder) (keep : ℕ) (protect : Option ℕ) (held : OsName → Bool) : Folder :=
  ((pruneTargets folder.readSeqs keep).filter fun seq => some seq ≠ protect).foldl (remove held)
    folder

end Folder

/-- `Writer` by the names it deals with. -/
structure NameWriter where
  folder : Folder
  seq : ℕ

/-- `Writer::open`, where the directory is listed and the file is made: an error of either is
returned, and there is no writer. -/
def NameWriter.open_ (folder : Folder) (maxFiles : ℕ) (held : OsName → Bool) : NameWriter :=
  let seq := folder.nextSeq
  ⟨(folder.prune (maxFiles - 1) none held).create seq, seq⟩

/-- `rotate`, with the files that are held open at each of its prunings. A `create` that fails,
after which the writer goes on with its old file, is left out; a directory that cannot be listed is
one whose files are all held open. -/
def NameWriter.rotate (writer : NameWriter) (maxFiles : ℕ) (held held' : OsName → Bool) :
    NameWriter :=
  let seq := (writer.seq + 1) % 2 ^ 64
  let folder := (writer.folder.prune (maxFiles - 1) (some writer.seq) held).create seq
  ⟨folder.prune maxFiles (some seq) held', seq⟩

/-- The rotations of a run, each with the folder it found. -/
def NameWriter.rotations (writer : NameWriter) (maxFiles : ℕ) :
    List ((OsName → Bool) × (OsName → Bool)) → List (Folder × NameWriter)
  | [] => []
  | (held, held') :: rest =>
      let next := writer.rotate maxFiles held held'
      (writer.folder, next) :: next.rotations maxFiles rest

/-- Every file a run makes: the first when it opens the folder, and one for each rotation. -/
def NameWriter.run (folder : Folder) (maxFiles : ℕ) (held : OsName → Bool)
    (rotations : List ((OsName → Bool) × (OsName → Bool))) : List (Folder × NameWriter) :=
  let writer := NameWriter.open_ folder maxFiles held
  (folder, writer) :: writer.rotations maxFiles rotations

/-- Only the writer's own files take part when it moves to a new file: a number is read from no
other name, a file is only deleted when there are enough newer ones of the writer's own, and the new
number is greater than all others. -/
structure OwnFiles (maxFiles : ℕ) (before : Folder) (writer : NameWriter) : Prop where
  own : ∀ name ∈ before.names, ∀ seq, Folder.seqOf name = some seq → name = .text (fileName seq)
  distinct : before.readSeqs.Nodup
  kept : ∀ name ∈ before.names, name ∉ writer.folder.names → ∃ seq, name = .text (fileName seq) ∧
    ∃ newer : List ℕ, newer.Nodup ∧ maxFiles ≤ newer.length ∧
      ∀ other ∈ newer, seq < other ∧ .text (fileName other) ∈ writer.folder.names
  newer : ∀ seq ∈ before.readSeqs, seq < writer.seq
  fresh : .text (fileName writer.seq) ∉ before.names

/-- The number of every recognized file is written with six digits, or with more and none of them a
zero in front. -/
def Folder.Regular (folder : Folder) : Prop :=
  ∀ digits : Text, .text (fileStart ++ (digits ++ fileEnd)) ∈ folder.names → digits ≠ [] →
    digits.all Char.isDigit → digits.decimal < 2 ^ 64 → Text.Padded 6 digits

/-! ## Names and numbers -/

theorem fileSeq_eq_some_iff {name : Text} {seq : ℕ} : fileSeq name = some seq ↔
    ∃ digits : Text, name = fileStart ++ (digits ++ fileEnd) ∧ digits ≠ [] ∧
      digits.all Char.isDigit ∧ digits.decimal < 2 ^ 64 ∧ seq = digits.decimal := by
  simp only [fileSeq, Option.bind_eq_some_iff, Option.filter_eq_some_iff,
    Text.stripPrefix_eq_some_iff,
    Text.stripSuffix_eq_some_iff, Bool.and_eq_true, Bool.not_eq_true', List.isEmpty_eq_false_iff]
  constructor
  · rintro ⟨digits, ⟨⟨rest, rfl, rfl⟩, hne, hall⟩, hparse⟩
    rw [Text.parseU64_of_isDigit hne hall] at hparse
    obtain ⟨hlt, heq⟩ := Option.ite_none_right_eq_some.mp hparse
    exact ⟨digits, rfl, hne, hall, hlt, (Option.some.inj heq).symm⟩
  · rintro ⟨digits, rfl, hne, hall, hlt, rfl⟩
    refine ⟨digits, ⟨⟨_, rfl, rfl⟩, hne, hall⟩, ?_⟩
    rw [Text.parseU64_of_isDigit hne hall, if_pos hlt]

theorem fileSeq_lt {name : Text} {seq : ℕ} (h : fileSeq name = some seq) : seq < 2 ^ 64 := by
  obtain ⟨digits, -, -, -, hlt, rfl⟩ := fileSeq_eq_some_iff.mp h
  exact hlt

/-- The writer reads back the numbers it prints. -/
theorem fileSeq_fileName {seq : ℕ} (h : seq < 2 ^ 64) : fileSeq (fileName seq) = some seq :=
  fileSeq_eq_some_iff.mpr ⟨Text.padded 6 seq, rfl, Text.padded_ne_nil _ _,
    Text.all_isDigit_padded _ _, by rwa [Text.decimal_padded], by rw [Text.decimal_padded]⟩

theorem fileName_injective {seq seq' : ℕ} (h : fileName seq = fileName seq') : seq = seq' := by
  rw [fileName, fileName, List.append_cancel_left_eq, List.append_cancel_right_eq] at h
  rw [← Text.decimal_padded 6 seq, h, Text.decimal_padded]

namespace Folder

variable {folder : Folder} {name : OsName} {seq : ℕ}

theorem seqOf_eq_some_iff : seqOf name = some seq ↔
    ∃ text, name = .text text ∧ fileSeq text = some seq := by
  simp only [seqOf, Option.bind_eq_some_iff, OsName.toStr_eq_some_iff]

theorem mem_readSeqs : seq ∈ folder.readSeqs ↔ ∃ name ∈ folder.names, seqOf name = some seq :=
  List.mem_filterMap

theorem lt_of_mem_readSeqs (h : seq ∈ folder.readSeqs) : seq < 2 ^ 64 := by
  obtain ⟨name, -, hseq⟩ := mem_readSeqs.mp h
  obtain ⟨text, -, htext⟩ := seqOf_eq_some_iff.mp hseq
  exact fileSeq_lt htext

theorem mem_readSeqs_of_fileName (hlt : seq < 2 ^ 64) (h : .text (fileName seq) ∈ folder.names) :
    seq ∈ folder.readSeqs :=
  mem_readSeqs.mpr ⟨_, h, seqOf_eq_some_iff.mpr ⟨_, rfl, fileSeq_fileName hlt⟩⟩

/-- Numbers are only read from the names that the writer prints. -/
def Own (folder : Folder) : Prop :=
  ∀ name ∈ folder.names, ∀ seq, seqOf name = some seq → name = .text (fileName seq)

theorem own_iff_regular : folder.Own ↔ folder.Regular := by
  constructor
  · intro h digits hmem hne hall hlt
    have hseq := seqOf_eq_some_iff.mpr
      ⟨_, rfl, fileSeq_eq_some_iff.mpr ⟨digits, rfl, hne, hall, hlt, rfl⟩⟩
    have hname := OsName.text.inj (h _ hmem _ hseq)
    rw [fileName, List.append_cancel_left_eq, List.append_cancel_right_eq] at hname
    exact (Text.padded_decimal_iff (by decide) hall).mp hname.symm
  · intro h name hmem seq hseq
    obtain ⟨text, rfl, htext⟩ := seqOf_eq_some_iff.mp hseq
    obtain ⟨digits, rfl, hne, hall, hlt, rfl⟩ := fileSeq_eq_some_iff.mp htext
    rw [fileName, (Text.padded_decimal_iff (by decide) hall).mpr (h digits hmem hne hall hlt)]

/-- With its own names only, the writer reads every number once. -/
theorem Own.nodup (h : folder.Own) : folder.readSeqs.Nodup := by
  rw [readSeqs, List.Nodup, List.pairwise_filterMap]
  refine folder.nodup.imp_of_mem ?_
  intro name name' hmem hmem' hne seq hseq seq' hseq' heq
  rw [h name hmem seq hseq, h name' hmem' seq' hseq', heq] at hne
  exact hne rfl

theorem Own.fileName_mem (h : folder.Own) (hseq : seq ∈ folder.readSeqs) :
    .text (fileName seq) ∈ folder.names := by
  obtain ⟨name, hname, hseq⟩ := mem_readSeqs.mp hseq
  rw [← h name hname seq hseq]
  exact hname

/-! ## Pruning by name -/

theorem mem_foldl_remove {held : OsName → Bool} (targets : List ℕ) :
    name ∈ (targets.foldl (remove held) folder).names ↔
      name ∈ folder.names ∧ (held name ∨ ∀ seq ∈ targets, name ≠ .text (fileName seq)) := by
  induction targets generalizing folder with
  | nil => simp
  | cons seq targets ih =>
    rw [List.foldl_cons, ih, remove, List.mem_filter, List.forall_mem_cons]
    simp only [Bool.or_eq_true, decide_eq_true_eq]
    tauto

theorem mem_prune {keep : ℕ} {protect : Option ℕ} {held : OsName → Bool} :
    name ∈ (folder.prune keep protect held).names ↔ name ∈ folder.names ∧ (held name ∨
      ∀ seq ∈ pruneTargets folder.readSeqs keep, some seq ≠ protect →
        name ≠ .text (fileName seq)) := by
  rw [prune, mem_foldl_remove]
  simp only [List.mem_filter, decide_eq_true_eq, and_imp]

theorem mem_create : name ∈ (folder.create seq).names ↔
    name ∈ folder.names ∨ name = .text (fileName seq) := by
  rw [create]
  split
  · next hmem =>
    refine ⟨.inl, ?_⟩
    rintro (h | rfl)
    · exact h
    · exact hmem
  · simp

/-- Fewer names, or one more that the writer prints, are its own as well. -/
theorem Own.mono {folder' : Folder} (h : folder.Own)
    (hsub : ∀ name ∈ folder'.names, name ∈ folder.names ∨ ∃ seq < 2 ^ 64,
      name = .text (fileName seq)) : folder'.Own := by
  intro name hname seq hseq
  rcases hsub name hname with hmem | ⟨seq', hlt, rfl⟩
  · exact h name hmem seq hseq
  · obtain ⟨text, htext, hread⟩ := seqOf_eq_some_iff.mp hseq
    obtain rfl := OsName.text.inj htext
    rw [fileSeq_fileName hlt] at hread
    rw [Option.some.inj hread]

/-- What is deleted is one of the writer's files, and the newest that were to be kept are there,
all of them newer. -/
theorem Own.prune_kept (h : folder.Own) {keep : ℕ} {protect : Option ℕ} {held : OsName → Bool}
    (hmem : name ∈ folder.names) (hgone : name ∉ (folder.prune keep protect held).names) :
    ∃ seq, name = .text (fileName seq) ∧ seq ∈ folder.readSeqs ∧ some seq ≠ protect ∧
      ∃ newer : List ℕ, newer.Nodup ∧ newer.length = keep ∧ ∀ other ∈ newer, seq < other ∧
        other ∈ folder.readSeqs ∧
          .text (fileName other) ∈ (folder.prune keep protect held).names := by
  rw [mem_prune] at hgone
  push Not at hgone
  obtain ⟨-, seq, htarget, hother, rfl⟩ := hgone hmem
  have hread := target_mem htarget
  refine ⟨seq, rfl, hread, hother, newestSeqs folder.readSeqs keep, ?_, ?_, fun new hnew => ?_⟩
  · exact ((List.mergeSort_perm _ _).nodup_iff.mpr h.nodup).sublist (List.take_sublist _ _)
  · have hpos := List.length_pos_of_mem htarget
    rw [pruneTargets, List.length_drop] at hpos
    rw [newestSeqs, List.length_take]
    omega
  · have hlt := lt_newest_of_target h.nodup htarget hnew
    refine ⟨hlt, newest_mem hnew, mem_prune.mpr ⟨h.fileName_mem (newest_mem hnew), .inr ?_⟩⟩
    intro old hold _ heq
    have := lt_newest_of_target h.nodup hold hnew
    rw [fileName_injective (OsName.text.inj heq)] at this
    omega

/-- Pruning for a new file and making it. -/
theorem Own.create_kept (h : folder.Own) (hlt : seq < 2 ^ 64)
    (hnewer : ∀ old ∈ folder.readSeqs, old < seq) {maxFiles : ℕ} {protect : Option ℕ}
    {held : OsName → Bool} (hmem : name ∈ folder.names)
    (hgone : name ∉ ((folder.prune (maxFiles - 1) protect held).create seq).names) :
    ∃ old, name = .text (fileName old) ∧ ∃ newer : List ℕ, newer.Nodup ∧
      maxFiles ≤ newer.length ∧ ∀ other ∈ newer, old < other ∧
        .text (fileName other) ∈ ((folder.prune (maxFiles - 1) protect held).create seq).names := by
  have hgone' : name ∉ (folder.prune (maxFiles - 1) protect held).names := by
    intro hstays
    exact hgone (mem_create.mpr (.inl hstays))
  obtain ⟨old, hname, hread, -, newer, hnodup, hlength, hall⟩ := h.prune_kept hmem hgone'
  refine ⟨old, hname, seq :: newer, ?_, ?_, ?_⟩
  · refine List.nodup_cons.mpr ⟨fun hseq => ?_, hnodup⟩
    exact Nat.lt_irrefl _ (hnewer seq (hall seq hseq).2.1)
  · rw [List.length_cons, hlength]
    omega
  · intro other hother
    rcases List.mem_cons.mp hother with rfl | hother
    · exact ⟨hnewer old hread, mem_create.mpr (.inr rfl)⟩
    · obtain ⟨hlater, -, hkept⟩ := hall other hother
      exact ⟨hlater, mem_create.mpr (.inl hkept)⟩

theorem Own.create (h : folder.Own) (hlt : seq < 2 ^ 64) (keep : ℕ) (protect : Option ℕ)
    (held : OsName → Bool) : ((folder.prune keep protect held).create seq).Own := by
  refine h.mono fun name hname => ?_
  rcases mem_create.mp hname with hname | rfl
  · exact .inl (mem_prune.mp hname).1
  · exact .inr ⟨seq, hlt, rfl⟩

theorem readSeqs_mono {folder' : Folder} (h : ∀ name ∈ folder'.names, name ∈ folder.names)
    (hseq : seq ∈ folder'.readSeqs) : seq ∈ folder.readSeqs := by
  obtain ⟨name, hname, hread⟩ := mem_readSeqs.mp hseq
  exact mem_readSeqs.mpr ⟨name, h name hname, hread⟩

/-- A new file adds its own number. -/
theorem mem_readSeqs_create {new : ℕ} (hlt : new < 2 ^ 64)
    (h : seq ∈ (folder.create new).readSeqs) : seq ∈ folder.readSeqs ∨ seq = new := by
  obtain ⟨name, hname, hread⟩ := mem_readSeqs.mp h
  rcases mem_create.mp hname with hname | rfl
  · exact .inl (mem_readSeqs.mpr ⟨name, hname, hread⟩)
  · obtain ⟨text, htext, hseq⟩ := seqOf_eq_some_iff.mp hread
    obtain rfl := OsName.text.inj htext
    rw [fileSeq_fileName hlt] at hseq
    exact .inr (Option.some.inj hseq).symm

end Folder

namespace NameWriter

variable {writer : NameWriter} {folder : Folder} {maxFiles : ℕ} {held held' : OsName → Bool}

/-- The writer's folder: no number but its own names', and none above the active file's. -/
structure Numbered (writer : NameWriter) : Prop where
  own : writer.folder.Own
  le_seq : ∀ seq ∈ writer.folder.readSeqs, seq ≤ writer.seq

/-- The active file is there. -/
theorem active_open_ : .text (fileName (open_ folder maxFiles held).seq) ∈
    (open_ folder maxFiles held).folder.names := Folder.mem_create.mpr (.inr rfl)

theorem active_rotate : .text (fileName (writer.rotate maxFiles held held').seq) ∈
    (writer.rotate maxFiles held held').folder.names := by
  refine Folder.mem_prune.mpr ⟨Folder.mem_create.mpr (.inr rfl), .inr fun seq _ hother heq => ?_⟩
  exact hother (congrArg some (fileName_injective (OsName.text.inj heq)).symm)

theorem nextSeq_lt : folder.nextSeq < 2 ^ 64 := Nat.mod_lt _ (by decide)

theorem seq_rotate_lt : (writer.rotate maxFiles held held').seq < 2 ^ 64 := Nat.mod_lt _ (by decide)

/-- Opening a regular folder. -/
theorem open_spec (maxFiles : ℕ) (held : OsName → Bool) (h : folder.Own)
    (hlt : folder.top + 1 < 2 ^ 64) :
    OwnFiles maxFiles folder (open_ folder maxFiles held) ∧
      (open_ folder maxFiles held).Numbered ∧
      (open_ folder maxFiles held).seq = folder.top + 1 := by
  have hseq : (open_ folder maxFiles held).seq = folder.top + 1 := Nat.mod_eq_of_lt hlt
  have hnewer : ∀ seq ∈ folder.readSeqs, seq < (open_ folder maxFiles held).seq := by
    intro seq hread
    have := Nat.le_foldr_max hread
    rw [hseq, Folder.top]
    omega
  refine ⟨⟨h, h.nodup, ?_, hnewer, fun hmem => ?_⟩, ⟨?_, fun seq hread => ?_⟩, hseq⟩
  · exact fun name hmem hgone => h.create_kept nextSeq_lt hnewer hmem hgone
  · exact Nat.lt_irrefl _ (hnewer _ (Folder.mem_readSeqs_of_fileName nextSeq_lt hmem))
  · exact h.create nextSeq_lt _ _ _
  · rcases Folder.mem_readSeqs_create nextSeq_lt hread with hread | rfl
    · exact Nat.le_of_lt (hnewer seq (Folder.readSeqs_mono
        (fun name hname => (Folder.mem_prune.mp hname).1) hread))
    · exact Nat.le_refl _

/-- Rotating a regular folder. -/
theorem rotate_spec (maxFiles : ℕ) (held held' : OsName → Bool) (h : writer.Numbered)
    (hlt : writer.seq + 1 < 2 ^ 64) :
    OwnFiles maxFiles writer.folder (writer.rotate maxFiles held held') ∧
      (writer.rotate maxFiles held held').Numbered ∧
      (writer.rotate maxFiles held held').seq = writer.seq + 1 := by
  have hseq : (writer.rotate maxFiles held held').seq = writer.seq + 1 := Nat.mod_eq_of_lt hlt
  have hnewer : ∀ seq ∈ writer.folder.readSeqs,
      seq < (writer.rotate maxFiles held held').seq := by
    intro seq hread
    have := h.le_seq seq hread
    omega
  set middle := (writer.folder.prune (maxFiles - 1) (some writer.seq) held).create
    (writer.rotate maxFiles held held').seq with hmiddle
  have hown : middle.Own := h.own.create seq_rotate_lt _ _ _
  have hafter : (writer.rotate maxFiles held held').folder =
    middle.prune maxFiles (some (writer.rotate maxFiles held held').seq) held' := rfl
  have hpruned : ∀ name ∈ (writer.rotate maxFiles held held').folder.names,
      name ∈ middle.names := fun name hname => (Folder.mem_prune.mp hname).1
  refine ⟨⟨h.own, h.own.nodup, fun name hmem hgone => ?_, hnewer, fun hmem => ?_⟩,
    ⟨hown.mono fun name hname => .inl (hpruned name hname), fun seq hread => ?_⟩, hseq⟩
  · by_cases hmid : name ∈ middle.names
    · obtain ⟨seq, hname, -, -, newer, hnodup, hlength, hall⟩ := hown.prune_kept hmid hgone
      exact ⟨seq, hname, newer, hnodup, Nat.le_of_eq hlength.symm, fun other hother =>
        ⟨(hall other hother).1, (hall other hother).2.2⟩⟩
    · obtain ⟨old, hname, newer, hnodup, hlength, hall⟩ :=
        h.own.create_kept seq_rotate_lt hnewer hmem hmid
      refine ⟨old, hname, ?_⟩
      -- either all the newer files survive the second pruning, or one is deleted for newer ones
      by_cases hstay : ∀ other ∈ newer,
          .text (fileName other) ∈ (writer.rotate maxFiles held held').folder.names
      · exact ⟨newer, hnodup, hlength, fun other hother =>
          ⟨(hall other hother).1, hstay other hother⟩⟩
      · push Not at hstay
        obtain ⟨other, hother, hlost⟩ := hstay
        obtain ⟨hlater, hthere⟩ := hall other hother
        obtain ⟨seq, heq, -, -, newest, hnodup', hlength', hall'⟩ := hown.prune_kept hthere hlost
        rw [← fileName_injective (OsName.text.inj heq)] at hall'
        exact ⟨newest, hnodup', Nat.le_of_eq hlength'.symm, fun new hnew =>
          ⟨Nat.lt_trans hlater (hall' new hnew).1, (hall' new hnew).2.2⟩⟩
  · exact Nat.lt_irrefl _ (hnewer _ (Folder.mem_readSeqs_of_fileName seq_rotate_lt hmem))
  · have hread' := Folder.readSeqs_mono hpruned hread
    rcases Folder.mem_readSeqs_create seq_rotate_lt hread' with hread | rfl
    · exact Nat.le_of_lt (hnewer seq (Folder.readSeqs_mono
        (fun name hname => (Folder.mem_prune.mp hname).1) hread))
    · exact Nat.le_refl _

/-- Rotations from a regular folder, as long as there are numbers left. -/
theorem Numbered.rotations (rotations : List ((OsName → Bool) × (OsName → Bool))) :
    ∀ {writer : NameWriter}, writer.Numbered → writer.seq + rotations.length < 2 ^ 64 →
      ∀ move ∈ writer.rotations maxFiles rotations, OwnFiles maxFiles move.1 move.2 := by
  induction rotations with
  | nil => simp [NameWriter.rotations]
  | cons rotation rotations ih =>
    intro writer h hlt move hmove
    rw [List.length_cons] at hlt
    obtain ⟨hown, hnext, hseq⟩ := rotate_spec maxFiles rotation.1 rotation.2 h (by omega)
    rcases List.mem_cons.mp hmove with rfl | hmove
    · exact hown
    · exact ih hnext (by omega) move hmove

/-- A run of rotations that all find greater numbers did not reach the last number. -/
theorem seq_add_length_lt (rotations : List ((OsName → Bool) × (OsName → Bool))) :
    ∀ {writer : NameWriter}, .text (fileName writer.seq) ∈ writer.folder.names →
      writer.seq < 2 ^ 64 →
      (∀ move ∈ writer.rotations maxFiles rotations, OwnFiles maxFiles move.1 move.2) →
      writer.seq + rotations.length < 2 ^ 64 := by
  induction rotations with
  | nil => exact fun _ hlt _ => hlt
  | cons rotation rotations ih =>
    intro writer hactive hlt h
    have hown := h _ List.mem_cons_self
    have hmore := hown.newer _ (Folder.mem_readSeqs_of_fileName hlt hactive)
    have hseq : (writer.rotate maxFiles rotation.1 rotation.2).seq =
        (writer.seq + 1) % 2 ^ 64 := rfl
    have hlast : writer.seq + 1 < 2 ^ 64 := by
      by_contra hover
      have hmax : writer.seq + 1 = 2 ^ 64 := by omega
      rw [hseq, hmax, Nat.mod_self] at hmore
      omega
    rw [Nat.mod_eq_of_lt hlast] at hseq
    have hrest := ih active_rotate seq_rotate_lt fun move hmove =>
      h move (List.mem_cons_of_mem _ hmove)
    rw [hseq] at hrest
    rw [List.length_cons]
    omega

end NameWriter

/-! ## The archive by numbers -/

section Numbers

variable {folder : Folder} {dir : Dir} {seq : ℕ}

theorem Folder.names_foldl_remove (targets : List ℕ) :
    (targets.foldl (Folder.remove fun _ => false) folder).names =
      folder.names.filter fun name => ∀ seq ∈ targets, name ≠ .text (fileName seq) := by
  induction targets generalizing folder with
  | nil => simp
  | cons seq targets ih =>
    rw [List.foldl_cons, ih, Folder.remove, List.filter_filter]
    refine List.filter_congr fun name _ => ?_
    simp [Bool.and_comm]

/-- Pruning by name is pruning by number. -/
theorem Folder.Own.readSeqs_prune (h : folder.Own) (hsame : folder.readSeqs = dir.seqs) (keep : ℕ)
    (protect : Option ℕ) : (folder.prune keep protect fun _ => false).readSeqs =
      (pruneDir dir keep protect).seqs := by
  rw [Folder.prune, Folder.readSeqs, Folder.names_foldl_remove, pruneDir, Dir.seqs,
    (Dir.foldl_remove _ _).1, ← hsame]
  set targets := (pruneTargets folder.readSeqs keep).filter fun seq => some seq ≠ protect
  calc (folder.names.filter fun name => ∀ seq ∈ targets, name ≠ .text (fileName seq)).filterMap
        Folder.seqOf
      = folder.readSeqs.filter (· ∉ targets) := by
        rw [Folder.readSeqs, List.filterMap_filter, List.filter_filterMap]
        refine List.filterMap_congr fun name hname => ?_
        cases hseq : Folder.seqOf name with
        | none => simp
        | some seq =>
          have hown := h name hname seq hseq
          have hiff : (∀ other ∈ targets, name ≠ .text (fileName other)) ↔ seq ∉ targets := by
            rw [hown]
            refine ⟨fun hall hmem => hall seq hmem rfl, fun hnot other hother heq => hnot ?_⟩
            rwa [fileName_injective (OsName.text.inj heq)]
          by_cases hmem : seq ∈ targets <;> simp [hiff, hmem, Option.filter]
    _ = (dir.files.filter fun file => file.1 ∉ targets).map Prod.fst := by
        rw [hsame, Dir.seqs, List.filter_map]
        rfl

/-- A file made by name is made by number. -/
theorem Folder.Own.readSeqs_create (h : folder.Own) (hsame : folder.readSeqs = dir.seqs)
    (hlt : seq < 2 ^ 64) : (folder.create seq).readSeqs = (dir.create seq).seqs := by
  by_cases hmem : seq ∈ folder.readSeqs
  · rw [Folder.create, dif_pos (h.fileName_mem hmem), Dir.create, if_pos (hsame ▸ hmem), hsame]
  · have hnew : .text (fileName seq) ∉ folder.names :=
      fun hname => hmem (Folder.mem_readSeqs_of_fileName hlt hname)
    have hread : Folder.seqOf (.text (fileName seq)) = some seq := fileSeq_fileName hlt
    rw [Folder.create, dif_neg hnew, Dir.create, if_neg (hsame ▸ hmem)]
    simp only [Folder.readSeqs, Dir.seqs, List.filterMap_append, List.map_append,
      List.filterMap_cons, hread, List.filterMap_nil, List.map_cons, List.map_nil]
    rw [show folder.names.filterMap Folder.seqOf = dir.files.map Prod.fst from hsame]

/-- The archive by numbers is what the names show of it. -/
structure NameWriter.Agrees (named : NameWriter) (writer : Writer) : Prop where
  seqs : named.folder.readSeqs = writer.dir.seqs
  seq : named.seq = writer.seq

theorem NameWriter.open_agrees (options : SinkOptions) (h : folder.Own)
    (hsame : folder.readSeqs = dir.seqs) (hlt : folder.top + 1 < 2 ^ 64) :
    (NameWriter.open_ folder options.maxFiles fun _ => false).Agrees
      (Writer.open_ dir options) := by
  have hseq : folder.nextSeq = dir.nextSeq := by
    rw [Folder.nextSeq, Nat.mod_eq_of_lt hlt, Folder.top, hsame, Dir.nextSeq]
  have hpruned : (folder.prune (options.maxFiles - 1) none fun _ => false).Own :=
    h.mono fun name hname => .inl (Folder.mem_prune.mp hname).1
  refine ⟨?_, hseq⟩
  rw [NameWriter.open_, Writer.open_, ← hseq]
  exact hpruned.readSeqs_create (h.readSeqs_prune hsame _ _) nextSeq_lt

theorem NameWriter.rotate_agrees {named : NameWriter} {writer : Writer} (h : named.Agrees writer)
    (hown : named.folder.Own) (hlt : named.seq + 1 < 2 ^ 64) :
    (named.rotate writer.options.maxFiles (fun _ => false) fun _ => false).Agrees
      writer.rotate := by
  have hseq : (named.seq + 1) % 2 ^ 64 = writer.seq + 1 := by rw [Nat.mod_eq_of_lt hlt, h.seq]
  have hpruned : (named.folder.prune (writer.options.maxFiles - 1) (some named.seq)
      fun _ => false).Own := hown.mono fun name hname => .inl (Folder.mem_prune.mp hname).1
  have hnumber : writer.seq + 1 < 2 ^ 64 := h.seq ▸ hlt
  have hfirst := hpruned.readSeqs_create (hown.readSeqs_prune h.seqs _ _) hnumber
  refine ⟨?_, hseq⟩
  rw [NameWriter.rotate, Writer.rotate, hseq]
  rw [h.seq] at hfirst ⊢
  exact (hown.create hnumber _ _ _).readSeqs_prune hfirst _ _

end Numbers

/-- **Names and rotation.** In every run of the writer only its own files take part in every
rotation exactly when the folder it opens has no other names with numbers, and the numbers do not
run out. -/
theorem ownFiles_iff (folder : Folder) (options : SinkOptions) (held : OsName → Bool)
    (rotations : List ((OsName → Bool) × (OsName → Bool))) :
    (∀ move ∈ NameWriter.run folder options.maxFiles held rotations,
      OwnFiles options.maxFiles move.1 move.2) ↔
      folder.Regular ∧ folder.top + 1 + rotations.length < 2 ^ 64 := by
  constructor
  · intro h
    have hfirst := h _ List.mem_cons_self
    refine ⟨Folder.own_iff_regular.mp hfirst.own, ?_⟩
    have hrest := NameWriter.seq_add_length_lt rotations NameWriter.active_open_
      NameWriter.nextSeq_lt fun move hmove => h move (List.mem_cons_of_mem _ hmove)
    have hseq : (NameWriter.open_ folder options.maxFiles held).seq = (folder.top + 1) % 2 ^ 64 :=
      rfl
    have htop : folder.top + 1 < 2 ^ 64 := by
      by_cases hzero : folder.top = 0
      · rw [hzero]
        decide
      · have hmem : folder.top ∈ folder.readSeqs := Nat.foldr_max_mem hzero
        have hlt := Folder.lt_of_mem_readSeqs hmem
        have hmore := hfirst.newer _ hmem
        by_contra hover
        have hmax : folder.top + 1 = 2 ^ 64 := by omega
        rw [hseq, hmax, Nat.mod_self] at hmore
        omega
    rw [hseq, Nat.mod_eq_of_lt htop] at hrest
    exact hrest
  · rintro ⟨hregular, hlt⟩ move hmove
    obtain ⟨hown, hnumbered, hseq⟩ := NameWriter.open_spec options.maxFiles held
      (Folder.own_iff_regular.mpr hregular) (by omega)
    rcases List.mem_cons.mp hmove with rfl | hmove
    · exact hown
    · exact hnumbered.rotations rotations (by omega) move hmove

/-- An archive of one file, and another file named alike with a number of one digit. -/
def mixedFolder : Folder :=
  ⟨[.text "core-000005.jsonl".toList, .text "core-9.jsonl".toList], by decide⟩

/-- The other file is counted, and the only file of the archive is deleted for it although two
were to be kept. -/
theorem unpadded_name_counted : fileSeq "core-9.jsonl".toList = some 9 ∧
    "core-9.jsonl".toList ≠ fileName 9 ∧
    (NameWriter.open_ mixedFolder 2 fun _ => false).folder.names =
      [.text "core-9.jsonl".toList, .text "core-000010.jsonl".toList] ∧
    ¬∀ move ∈ NameWriter.run mixedFolder 2 (fun _ => false) [], OwnFiles 2 move.1 move.2 := by
  have hseqs : mixedFolder.readSeqs = [5, 9] := by decide
  have htargets : pruneTargets [5, 9] 1 = [5] := by simp [pruneTargets, List.mergeSort]
  refine ⟨by decide, by decide, ?_, fun h => ?_⟩
  · simp only [NameWriter.open_, Folder.nextSeq, Folder.top, Folder.prune, hseqs, htargets]
    decide
  · have hname :=
      (h _ List.mem_cons_self).own (.text "core-9.jsonl".toList) (by decide) 9 (by decide)
    exact absurd hname (by decide)

end Nyanpasu.Log
