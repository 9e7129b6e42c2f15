import Nyanpasu.Lib.Numeral
import Nyanpasu.Log.Json
import Mathlib.Data.List.Pairwise
import Mathlib.Data.List.Nodup
import Mathlib.Data.List.Perm.Subperm

/-!
# The log archive

A rolling directory of line-delimited records: one file per sequence number, a new file
once the active one has reached its limit, and only the newest files kept. The directory
remembers what was pruned, so that a result can speak of every line ever written.
-/

namespace Nyanpasu.Log

/-- `SinkOptions`; `CoreManager::new` refuses limits of zero. -/
structure SinkOptions where
  maxBytes : ℕ
  maxFiles : ℕ
  maxBytes_pos : 0 < maxBytes
  maxFiles_pos : 0 < maxFiles

/-- The recognized files of the log directory by sequence number, and those that were pruned. -/
structure Dir where
  files : List (ℕ × List UInt8)
  pruned : List (ℕ × List UInt8)

namespace Dir

/-- Every file that ever was in the directory. -/
def all (dir : Dir) : List (ℕ × List UInt8) := dir.files ++ dir.pruned

/-- `read_seqs`. -/
def seqs (dir : Dir) : List ℕ := dir.files.map Prod.fst

/-- `remove_file`. -/
def remove (dir : Dir) (seq : ℕ) : Dir :=
  ⟨dir.files.filter fun file => file.1 ≠ seq,
    dir.pruned ++ dir.files.filter fun file => file.1 = seq⟩

/-- `create`: open for appending, and make the file if it is missing. -/
def create (dir : Dir) (seq : ℕ) : Dir :=
  if seq ∈ dir.seqs then dir else ⟨dir.files ++ [(seq, [])], dir.pruned⟩

/-- `write_all` to the open file of a sequence number. -/
def append (dir : Dir) (seq : ℕ) (bytes : List UInt8) : Dir :=
  ⟨dir.files.map fun file => if file.1 = seq then (file.1, file.2 ++ bytes) else file, dir.pruned⟩

/-- `next_seq`. The numbers of the code have 64 bits; a directory that only this writer fills
starts at one and takes one number for each file, and does not get to their end. -/
def nextSeq (dir : Dir) : ℕ := dir.seqs.foldr max 0 + 1

end Dir

/-- `prune_targets`: all but the newest files. -/
def pruneTargets (seqs : List ℕ) (maxFiles : ℕ) : List ℕ :=
  (seqs.mergeSort fun a b => b ≤ a).drop maxFiles

/-- `prune_dir`. -/
def pruneDir (dir : Dir) (keep : ℕ) (protect : Option ℕ) : Dir :=
  ((pruneTargets dir.seqs keep).filter fun seq => some seq ≠ protect).foldl Dir.remove dir

/-- `Writer`, with the directory it writes to. -/
structure Writer where
  dir : Dir
  options : SinkOptions
  written : ℕ
  seq : ℕ

namespace Writer

/-- `Writer::open`. -/
def open_ (dir : Dir) (options : SinkOptions) : Writer :=
  let seq := dir.nextSeq
  ⟨(pruneDir dir (options.maxFiles - 1) none).create seq, options, 0, seq⟩

/-- `flush_pending`. -/
def flushPending (writer : Writer) (buffer : List UInt8) : Writer :=
  if buffer.isEmpty then writer
  else { writer with
    dir := writer.dir.append writer.seq buffer
    written := writer.written + buffer.length }

/-- `rotate`, with numbers below the end of the 64 bits as in `next_seq`. -/
def rotate (writer : Writer) : Writer :=
  let seq := writer.seq + 1
  let dir := (pruneDir writer.dir (writer.options.maxFiles - 1) (some writer.seq)).create seq
  { writer with dir := pruneDir dir writer.options.maxFiles (some seq), written := 0, seq }

/-- One round of the loop of `write`: rotate before the record that would land past the limit, and
buffer it. -/
def writeEntry (writer : Writer) (at_ : ℤ) (buffer : List UInt8) (entry : Entry) :
    Writer × List UInt8 :=
  if writer.options.maxBytes ≤ writer.written + buffer.length then
    ((writer.flushPending buffer).rotate, [] ++ (entry.record at_).json ++ ['\n'.toUInt8])
  else (writer, buffer ++ (entry.record at_).json ++ ['\n'.toUInt8])

end Writer

/-! ## Pruning -/

/-- Every sequence number is used once, and what was pruned is older than what was kept. -/
structure Dir.Ranked (dir : Dir) : Prop where
  unique : (dir.all.map Prod.fst).Nodup
  newest : ∀ old ∈ dir.pruned, ∀ file ∈ dir.files, old.1 < file.1

/-- Removing a file keeps it among those that ever were. -/
theorem Dir.all_remove (dir : Dir) (seq : ℕ) : (dir.remove seq).all.Perm dir.all := by
  have hsplit : (dir.files.filter (fun file => file.1 ≠ seq) ++
      dir.files.filter fun file => file.1 = seq).Perm dir.files := by
    simpa using
      List.filter_append_perm (fun file : ℕ × List UInt8 => decide (file.1 ≠ seq)) dir.files
  rw [Dir.all, Dir.remove]
  refine .trans ?_ (hsplit.append_right dir.pruned)
  rw [List.append_assoc]
  exact List.perm_append_comm.append_left _

/-- What is left of the files when some are removed, and what is added to those pruned. -/
theorem Dir.foldl_remove (targets : List ℕ) (dir : Dir) :
    (targets.foldl Dir.remove dir).files = dir.files.filter (fun file => file.1 ∉ targets) ∧
      (targets.foldl Dir.remove dir).all.Perm dir.all ∧
      ∀ old ∈ (targets.foldl Dir.remove dir).pruned, old ∈ dir.pruned ∨
        old ∈ dir.files ∧ old.1 ∈ targets := by
  induction targets generalizing dir with
  | nil => simp
  | cons seq targets ih =>
    obtain ⟨hfiles, hall, hpruned⟩ := ih (dir.remove seq)
    rw [List.foldl_cons]
    refine ⟨?_, hall.trans (dir.all_remove seq), ?_⟩
    · rw [hfiles, Dir.remove, List.filter_filter]
      refine List.filter_congr fun file _ => ?_
      by_cases h : file.1 = seq <;> simp [h]
    · intro old hold
      rcases hpruned old hold with hold | ⟨hold, htarget⟩
      · rcases List.mem_append.mp hold with hold | hold
        · exact .inl hold
        · obtain ⟨hfile, hseq⟩ := List.mem_filter.mp hold
          exact .inr ⟨hfile, by simp [of_decide_eq_true hseq]⟩
      · exact .inr ⟨(List.mem_filter.mp hold).1, List.mem_cons_of_mem _ htarget⟩

/-- The newest files, which are not pruned. -/
def newestSeqs (seqs : List ℕ) (maxFiles : ℕ) : List ℕ :=
  (seqs.mergeSort fun a b => b ≤ a).take maxFiles

/-- A sequence number is among the newest or is to be pruned. -/
theorem mem_newest_or_targets {seqs : List ℕ} {seq : ℕ} (h : seq ∈ seqs) (keep : ℕ) :
    seq ∈ newestSeqs seqs keep ∨ seq ∈ pruneTargets seqs keep := by
  rw [← List.mem_append, newestSeqs, pruneTargets, List.take_append_drop]
  exact (List.mergeSort_perm seqs _).mem_iff.mpr h

/-- What is to be pruned is older than what is among the newest. -/
theorem lt_newest_of_target {seqs : List ℕ} (hunique : seqs.Nodup) {keep old new : ℕ}
    (hold : old ∈ pruneTargets seqs keep) (hnew : new ∈ newestSeqs seqs keep) : old < new := by
  have hsorted : (seqs.mergeSort fun a b => b ≤ a).Pairwise fun a b => (decide (b ≤ a)) = true :=
    List.pairwise_mergeSort (by intro a b c; simp only [decide_eq_true_eq]; omega)
      (by intro a b; simp only [Bool.or_eq_true, decide_eq_true_eq]; omega) seqs
  have hnodup : (seqs.mergeSort fun a b => b ≤ a).Nodup :=
    (List.mergeSort_perm seqs _).nodup_iff.mpr hunique
  have hstrict := hsorted.and hnodup
  rw [← List.take_append_drop keep (seqs.mergeSort _)] at hstrict
  obtain ⟨hle, hne⟩ := (List.pairwise_append.mp hstrict).2.2 new hnew old hold
  have := of_decide_eq_true hle
  omega

theorem target_mem {seqs : List ℕ} {keep seq : ℕ} (h : seq ∈ pruneTargets seqs keep) :
    seq ∈ seqs :=
  (List.mergeSort_perm seqs _).mem_iff.mp (List.mem_of_mem_drop h)

theorem newest_mem {seqs : List ℕ} {keep seq : ℕ} (h : seq ∈ newestSeqs seqs keep) : seq ∈ seqs :=
  (List.mergeSort_perm seqs _).mem_iff.mp (List.mem_of_mem_take h)

/-- The greatest number is among the newest. -/
theorem mem_newest_of_max {seqs : List ℕ} (hunique : seqs.Nodup) {keep top : ℕ} (hkeep : 0 < keep)
    (htop : top ∈ seqs) (hmax : ∀ seq ∈ seqs, seq ≤ top) : top ∈ newestSeqs seqs keep := by
  rcases mem_newest_or_targets htop keep with h | h
  · exact h
  · have hne : newestSeqs seqs keep ≠ [] := by
      intro hnil
      have hlen : (newestSeqs seqs keep).length = 0 := by rw [hnil]; rfl
      have hpos : 0 < seqs.length := List.length_pos_of_mem htop
      rw [newestSeqs, List.length_take, List.length_mergeSort] at hlen
      omega
    obtain ⟨new, hnew⟩ := List.exists_mem_of_ne_nil _ hne
    have hlt := lt_newest_of_target hunique h hnew
    have hle := hmax new (newest_mem hnew)
    omega

/-- What pruning leaves. -/
structure Pruned (dir dir' : Dir) (protect : Option ℕ) (count : ℕ) : Prop where
  ranked : dir'.Ranked
  all : dir'.all.Perm dir.all
  files : ∀ file ∈ dir'.files, file ∈ dir.files
  kept : ∀ seq ∈ protect, seq ∈ dir.seqs → seq ∈ dir'.seqs
  count : dir'.files.length ≤ count

theorem Dir.Ranked.seqs {dir : Dir} (h : dir.Ranked) : dir.seqs.Nodup := by
  have := h.unique
  rw [Dir.all, List.map_append] at this
  exact this.of_append_left

/-- Pruning keeps the newest files and the one that is protected, if it is the newest of all. -/
theorem pruneDir_spec {dir : Dir} (h : dir.Ranked) (keep : ℕ) (protect : Option ℕ)
    (hprotect : ∀ top ∈ protect, ∀ seq ∈ dir.seqs, seq ≤ top) :
    Pruned dir (pruneDir dir keep protect) protect (max keep protect.toList.length) := by
  have hseqs := h.seqs
  obtain ⟨hfiles, hall, hpruned⟩ := Dir.foldl_remove
    ((pruneTargets dir.seqs keep).filter fun seq => some seq ≠ protect) dir
  have hkept : ∀ file ∈ (pruneDir dir keep protect).files,
      file ∈ dir.files ∧ (file.1 ∈ newestSeqs dir.seqs keep ∨ some file.1 = protect) := by
    intro file hfile
    rw [pruneDir, hfiles] at hfile
    obtain ⟨hfile, hnot⟩ := List.mem_filter.mp hfile
    refine ⟨hfile, ?_⟩
    have hmem : file.1 ∈ dir.seqs := List.mem_map_of_mem hfile
    rcases mem_newest_or_targets hmem keep with hnew | htarget
    · exact .inl hnew
    · refine .inr ?_
      simpa [htarget] using hnot
  constructor
  case all => exact hall
  case files => exact fun file hfile => (hkept file hfile).1
  case kept =>
    intro top htop hmem
    obtain ⟨file, hfile, rfl⟩ := List.mem_map.mp hmem
    refine List.mem_map_of_mem ?_
    rw [pruneDir, hfiles]
    refine List.mem_filter.mpr ⟨hfile, ?_⟩
    simp [Option.mem_def.mp htop]
  case ranked =>
    refine ⟨(hall.map Prod.fst).nodup_iff.mpr h.unique, ?_⟩
    intro old hold file hfile
    obtain ⟨hin, hnew⟩ := hkept file hfile
    rcases hpruned old hold with hold | ⟨holdFile, htarget⟩
    · exact h.newest old hold file hin
    · obtain ⟨htarget, hother⟩ := List.mem_filter.mp htarget
      rcases hnew with hnew | htop
      · exact lt_newest_of_target hseqs htarget hnew
      · have hle := hprotect file.1 htop.symm old.1 (List.mem_map_of_mem holdFile)
        have hne : old.1 ≠ file.1 := by
          intro heq
          rw [heq, htop] at hother
          simp at hother
        omega
  case count =>
    have hnodup : ((pruneDir dir keep protect).files.map Prod.fst).Nodup := by
      have := (hall.map Prod.fst).nodup_iff.mpr h.unique
      rw [Dir.all, List.map_append] at this
      exact this.of_append_left
    have hle : (pruneDir dir keep protect).files.length =
        ((pruneDir dir keep protect).files.map Prod.fst).length := by simp
    rw [hle]
    cases protect with
    | none =>
      have hsub : (pruneDir dir keep none).files.map Prod.fst ⊆ newestSeqs dir.seqs keep := by
        intro seq hseq
        obtain ⟨file, hfile, rfl⟩ := List.mem_map.mp hseq
        simpa using (hkept file hfile).2
      have := (hnodup.subperm hsub).length_le
      rw [newestSeqs, List.length_take] at this
      simp only [Option.toList_none, List.length_nil]
      omega
    | some top =>
      have hsub : (pruneDir dir keep (some top)).files.map Prod.fst ⊆
          if keep = 0 then [top] else newestSeqs dir.seqs keep := by
        intro seq hseq
        obtain ⟨file, hfile, rfl⟩ := List.mem_map.mp hseq
        obtain ⟨hin, hnew⟩ := hkept file hfile
        split
        next hzero => simpa [newestSeqs, hzero] using hnew
        next hpos =>
          rcases hnew with hnew | htop
          · exact hnew
          · obtain rfl := Option.some.inj htop
            exact mem_newest_of_max hseqs (by omega) (List.mem_map_of_mem hin)
              (hprotect _ rfl)
      have := (hnodup.subperm hsub).length_le
      simp only [Option.toList_some, List.length_singleton]
      split at this
      · simp only [List.length_singleton] at this
        omega
      · rw [newestSeqs, List.length_take] at this
        omega

/-! ## Opening, appending and rotating -/

/-- A file that is newer than all others is added. -/
theorem Dir.create_spec {dir : Dir} (h : dir.Ranked) {seq : ℕ}
    (hnew : ∀ file ∈ dir.all, file.1 < seq) :
    (dir.create seq).Ranked ∧ (dir.create seq).all.Perm (dir.all ++ [(seq, [])]) ∧
      (dir.create seq).files = dir.files ++ [(seq, [])] := by
  have hfresh : seq ∉ dir.seqs := by
    intro hmem
    obtain ⟨file, hfile, heq⟩ := List.mem_map.mp hmem
    have := hnew file (List.mem_append_left _ hfile)
    omega
  have hcreate : dir.create seq = ⟨dir.files ++ [(seq, [])], dir.pruned⟩ := if_neg hfresh
  have hall : (dir.create seq).all.Perm (dir.all ++ [(seq, [])]) := by
    rw [hcreate, Dir.all, Dir.all, List.append_assoc, List.append_assoc]
    exact List.perm_append_comm.append_left _
  refine ⟨⟨?_, ?_⟩, hall, by rw [hcreate]⟩
  · refine (hall.map Prod.fst).nodup_iff.mpr ?_
    rw [List.map_append]
    refine h.unique.append (List.nodup_singleton _) ?_
    intro old hold heq
    obtain ⟨file, hfile, rfl⟩ := List.mem_map.mp hold
    have := hnew file hfile
    simp at heq
    omega
  · rw [hcreate]
    intro old hold file hfile
    rcases List.mem_append.mp hfile with hfile | hfile
    · exact h.newest old hold file hfile
    · rw [List.mem_singleton.mp hfile]
      exact hnew old (List.mem_append_right _ hold)

/-- What is appended to a file of the directory ends its contents. -/
theorem Dir.append_spec {dir : Dir} (h : dir.Ranked) {seq : ℕ} (hmem : seq ∈ dir.seqs)
    {rest : List (ℕ × List UInt8)} {content : List UInt8}
    (hall : dir.all.Perm (rest ++ [(seq, content)])) (bytes : List UInt8) :
    (dir.append seq bytes).Ranked ∧
      (dir.append seq bytes).all.Perm (rest ++ [(seq, content ++ bytes)]) ∧
      (dir.append seq bytes).seqs = dir.seqs := by
  set grow : ℕ × List UInt8 → ℕ × List UInt8 :=
    fun file => if file.1 = seq then (file.1, file.2 ++ bytes) else file with hgrow
  have hkey : ∀ file, (grow file).1 = file.1 := by
    intro file
    rw [hgrow]
    by_cases heq : file.1 = seq <;> simp [heq]
  have hother : ∀ files : List (ℕ × List UInt8), seq ∉ files.map Prod.fst →
      files.map grow = files := by
    intro files hnot
    refine (List.map_congr_left fun file hfile => ?_).trans (List.map_id files)
    have hne : file.1 ≠ seq := by
      rintro rfl
      exact hnot (List.mem_map_of_mem hfile)
    exact if_neg hne
  have hnodup := h.unique
  rw [Dir.all, List.map_append, List.nodup_append] at hnodup
  have hpruned : dir.pruned.map grow = dir.pruned :=
    hother _ fun hold => hnodup.2.2 seq hmem seq hold rfl
  have hmap : (dir.append seq bytes).all = dir.all.map grow := by
    rw [Dir.all, Dir.all, List.map_append, hpruned]
    rfl
  have hseqs : (dir.append seq bytes).seqs = dir.seqs := by
    rw [Dir.seqs, Dir.append, List.map_map]
    exact List.map_congr_left fun file _ => hkey file
  refine ⟨⟨?_, ?_⟩, ?_, hseqs⟩
  · rw [hmap, List.map_map]
    have hkeys : Prod.fst ∘ grow = Prod.fst := funext hkey
    rw [hkeys]
    exact h.unique
  · intro old hold file hfile
    obtain ⟨before, hbefore, rfl⟩ := List.mem_map.mp hfile
    change old.1 < (grow before).1
    rw [hkey]
    exact h.newest old hold before hbefore
  · rw [hmap]
    have hrest : seq ∉ rest.map Prod.fst := by
      have := (hall.map Prod.fst).nodup_iff.mp h.unique
      rw [List.map_append, List.nodup_append] at this
      intro hin
      exact this.2.2 seq hin seq (by simp) rfl
    refine (hall.map grow).trans ?_
    rw [List.map_append, hother rest hrest]
    simp [hgrow]

/-! ## Volumes

The records that were accepted, as the files hold them: the closed volumes, which were rotated
away, and the current one. -/

/-- The line of a record. -/
def line (record : ArchiveRecord) : List UInt8 := record.json ++ ['\n'.toUInt8]

/-- The lines of some records. -/
def encode (records : List ArchiveRecord) : List UInt8 := records.flatMap line

@[simp] theorem encode_append (records more : List ArchiveRecord) :
    encode (records ++ more) = encode records ++ encode more :=
  List.flatMap_append

@[simp] theorem encode_singleton (record : ArchiveRecord) :
    encode [record] = line record := by
  simp [encode]

/-- A line is never empty. -/
theorem eq_nil_of_encode {records : List ArchiveRecord} (h : encode records = []) :
    records = [] := by
  cases records with
  | nil => rfl
  | cons record records => simp [encode, line] at h

/-- The files of some volumes, numbered from the first. -/
def shelf (first : ℕ) : List (List ArchiveRecord) → List (ℕ × List UInt8)
  | [] => []
  | volume :: volumes => (first, encode volume) :: shelf (first + 1) volumes

theorem shelf_append (first : ℕ) (volumes : List (List ArchiveRecord))
    (volume : List ArchiveRecord) :
    shelf first (volumes ++ [volume]) =
      shelf first volumes ++ [(first + volumes.length, encode volume)] := by
  induction volumes generalizing first with
  | nil => rfl
  | cons head volumes ih =>
    have hlength : first + 1 + volumes.length = first + (volumes.length + 1) := by omega
    simp [shelf, ih, hlength]

theorem shelf_bounds {first : ℕ} {volumes : List (List ArchiveRecord)}
    {file : ℕ × List UInt8} (h : file ∈ shelf first volumes) :
    first ≤ file.1 ∧ file.1 < first + volumes.length := by
  induction volumes generalizing first with
  | nil => simp [shelf] at h
  | cons head volumes ih =>
    rw [List.length_cons]
    rcases List.mem_cons.mp h with rfl | h
    · simp
    · have := ih h
      omega

/-- A volume reached the limit with its last record only. -/
def Full (maxBytes : ℕ) (volume : List ArchiveRecord) : Prop :=
  maxBytes ≤ (encode volume).length ∧ (encode volume.dropLast).length < maxBytes

/-- The writer holds the volumes: their files are in the directory or were pruned from it as the
oldest, and the end of the current volume may still be in the buffer. -/
structure Shelved (old : List (ℕ × List UInt8)) (first : ℕ)
    (closed : List (List ArchiveRecord)) (current : List ArchiveRecord)
    (writer : Writer) (buffer : List UInt8) : Prop where
  older : ∀ file ∈ old, file.1 < first
  seq : writer.seq = first + closed.length
  content : ∃ stored held, stored ++ held = current ∧ encode held = buffer ∧
    writer.written = (encode stored).length ∧
    writer.dir.all.Perm (old ++ shelf first (closed ++ [stored]))
  ranked : writer.dir.Ranked
  count : writer.dir.files.length ≤ writer.options.maxFiles
  active : writer.seq ∈ writer.dir.seqs
  full : ∀ volume ∈ closed, Full writer.options.maxBytes volume
  room : (encode current.dropLast).length < writer.options.maxBytes

namespace Shelved

variable {old : List (ℕ × List UInt8)} {first : ℕ}
  {closed : List (List ArchiveRecord)} {current : List ArchiveRecord}
  {writer : Writer} {buffer : List UInt8}

/-- The active file is the newest. -/
theorem top (h : Shelved old first closed current writer buffer) :
    ∀ file ∈ writer.dir.all, file.1 ≤ writer.seq := by
  obtain ⟨stored, held, -, -, -, hall⟩ := h.content
  intro file hfile
  have hseq := h.seq
  rcases List.mem_append.mp (hall.mem_iff.mp hfile) with hfile | hfile
  · have := h.older file hfile
    omega
  · have := shelf_bounds hfile
    rw [List.length_append, List.length_singleton] at this
    omega

theorem top_seqs (h : Shelved old first closed current writer buffer) :
    ∀ seq ∈ writer.dir.seqs, seq ≤ writer.seq := by
  intro seq hseq
  obtain ⟨file, hfile, rfl⟩ := List.mem_map.mp hseq
  exact h.top file (List.mem_append_left _ hfile)

/-- What is on disk and what is buffered is the current volume. -/
theorem size (h : Shelved old first closed current writer buffer) :
    writer.written + buffer.length = (encode current).length := by
  obtain ⟨stored, held, rfl, rfl, hwritten, -⟩ := h.content
  rw [encode_append, List.length_append, hwritten]

/-- The active file outlives every pruning that protects it. -/
theorem protected_ (h : Shelved old first closed current writer buffer) (keep : ℕ) :
    writer.seq ∈ (pruneDir writer.dir keep (some writer.seq)).seqs := by
  refine (pruneDir_spec h.ranked keep (some writer.seq) ?_).kept _ rfl h.active
  intro top htop seq hseq
  obtain rfl := Option.some.inj htop
  exact h.top_seqs seq hseq

/-- A flush puts the buffer on disk. -/
theorem flush (h : Shelved old first closed current writer buffer) :
    Shelved old first closed current (writer.flushPending buffer) [] := by
  unfold Writer.flushPending
  split
  next hempty =>
    obtain rfl := List.isEmpty_iff.mp hempty
    exact h
  next =>
    obtain ⟨stored, held, hcurrent, hbuffer, hwritten, hall⟩ := h.content
    rw [shelf_append, ← h.seq, ← List.append_assoc] at hall
    obtain ⟨hranked, happend, hseqs⟩ := Dir.append_spec h.ranked h.active hall buffer
    refine ⟨h.older, h.seq, ⟨current, [], by simp, rfl, ?_, ?_⟩, hranked, ?_, ?_, h.full, h.room⟩
    · simp [← hcurrent, ← hbuffer, hwritten]
    · rw [shelf_append, ← h.seq, ← List.append_assoc, ← hcurrent, encode_append, hbuffer]
      exact happend
    · have := h.count
      simpa [Dir.append] using this
    · rw [hseqs]
      exact h.active

/-- A rotation closes a volume that has reached the limit. -/
theorem rotate (h : Shelved old first closed current writer [])
    (hlimit : writer.options.maxBytes ≤ (encode current).length) :
    Shelved old first (closed ++ [current]) [] writer.rotate [] := by
  obtain ⟨stored, held, hcurrent, hheld, -, hall⟩ := h.content
  obtain rfl := eq_nil_of_encode hheld
  rw [List.append_nil] at hcurrent
  -- The files other than the active one are pruned to make room for the next.
  have hprune := pruneDir_spec h.ranked (writer.options.maxFiles - 1)
    (some writer.seq) (by
      intro top htop seq hseq
      obtain rfl := Option.some.inj htop
      exact h.top_seqs seq hseq)
  have hnew : ∀ file ∈ (pruneDir writer.dir (writer.options.maxFiles - 1) (some writer.seq)).all,
      file.1 < writer.seq + 1 := by
    intro file hfile
    have := h.top file (hprune.all.mem_iff.mp hfile)
    omega
  obtain ⟨hranked, hcreate, hfiles⟩ := Dir.create_spec hprune.ranked hnew
  set dir := (pruneDir writer.dir (writer.options.maxFiles - 1) (some writer.seq)).create
    (writer.seq + 1) with hdir
  have htop : ∀ seq ∈ dir.seqs, seq ≤ writer.seq + 1 := by
    intro seq hseq
    obtain ⟨file, hfile, rfl⟩ := List.mem_map.mp hseq
    rcases List.mem_append.mp (hcreate.mem_iff.mp (List.mem_append_left _ hfile)) with hin | hin
    · have := hnew file hin
      omega
    · obtain rfl := List.mem_singleton.mp hin
      exact Nat.le_refl _
  -- With a budget of one file the old file goes only now that it is closed.
  have hsettle := pruneDir_spec hranked writer.options.maxFiles
    (some (writer.seq + 1)) (by
      intro top hprotect seq hseq
      obtain rfl := Option.some.inj hprotect
      exact htop seq hseq)
  have hseq := h.seq
  constructor
  case older => exact h.older
  case seq =>
    rw [List.length_append, List.length_singleton]
    change writer.seq + 1 = _
    omega
  case content =>
    refine ⟨[], [], rfl, rfl, rfl, hsettle.all.trans (hcreate.trans ?_)⟩
    rw [shelf_append, List.length_append, List.length_singleton, ← Nat.add_assoc, ← hseq,
      ← List.append_assoc, ← hcurrent]
    exact (hprune.all.trans hall).append_right _
  case ranked => exact hsettle.ranked
  case count =>
    have hmax : max writer.options.maxFiles (some (writer.seq + 1)).toList.length =
        writer.options.maxFiles := by
      have := writer.options.maxFiles_pos
      simp only [Option.toList_some, List.length_singleton]
      omega
    have hcount := hsettle.count
    rw [hmax] at hcount
    exact hcount
  case active =>
    refine hsettle.kept (writer.seq + 1) rfl ?_
    rw [Dir.seqs, hfiles]
    simp
  case full =>
    intro volume hvolume
    rcases List.mem_append.mp hvolume with hvolume | hvolume
    · exact h.full volume hvolume
    · rw [List.mem_singleton.mp hvolume]
      exact ⟨hlimit, h.room⟩
  case room => exact writer.options.maxBytes_pos

/-- A record is put into the buffer while there is room. -/
theorem record (h : Shelved old first closed current writer buffer)
    (hroom : (encode current).length < writer.options.maxBytes) (record : ArchiveRecord) :
    Shelved old first closed (current ++ [record]) writer
      (buffer ++ record.json ++ ['\n'.toUInt8]) := by
  obtain ⟨stored, held, hcurrent, hheld, hwritten, hall⟩ := h.content
  refine ⟨h.older, h.seq, ⟨stored, held ++ [record], ?_, ?_, hwritten, hall⟩, h.ranked, h.count,
    h.active, h.full, ?_⟩
  · rw [← List.append_assoc, hcurrent]
  · rw [encode_append, encode_singleton, hheld, line, List.append_assoc]
  · rwa [List.dropLast_concat]

end Shelved

/-- The records of the volumes. -/
def Archives (old : List (ℕ × List UInt8)) (first : ℕ) (records : List ArchiveRecord)
    (writer : Writer) (buffer : List UInt8) : Prop :=
  ∃ closed current, closed.flatten ++ current = records ∧
    Shelved old first closed current writer buffer

theorem Dir.lt_nextSeq {dir : Dir} {file : ℕ × List UInt8} (h : file ∈ dir.files) :
    file.1 < dir.nextSeq := by
  have : file.1 ≤ dir.seqs.foldr max 0 := Nat.le_foldr_max (List.mem_map_of_mem h)
  unfold Dir.nextSeq
  omega

/-- A writer opens on an empty volume behind the files that are there. -/
theorem Archives.open_ {files : List (ℕ × List UInt8)} (hunique : (files.map Prod.fst).Nodup)
    (options : SinkOptions) :
    Archives files (Dir.nextSeq ⟨files, []⟩) [] (Writer.open_ ⟨files, []⟩ options) [] := by
  have hall : (Dir.mk files []).all = files := List.append_nil files
  have hranked : (Dir.mk files []).Ranked := by
    refine ⟨by rwa [hall], ?_⟩
    intro old hold
    simp at hold
  have holder : ∀ file ∈ files, file.1 < Dir.nextSeq ⟨files, []⟩ :=
    fun file hfile => Dir.lt_nextSeq hfile
  have hprune := pruneDir_spec hranked (options.maxFiles - 1) none (by simp)
  have hnew : ∀ file ∈ (pruneDir ⟨files, []⟩ (options.maxFiles - 1) none).all,
      file.1 < Dir.nextSeq ⟨files, []⟩ := by
    intro file hfile
    have := hprune.all.mem_iff.mp hfile
    rw [hall] at this
    exact holder file this
  obtain ⟨hcreated, hcreate, hfiles⟩ := Dir.create_spec hprune.ranked hnew
  refine ⟨[], [], rfl, holder, rfl, ⟨[], [], rfl, rfl, rfl, ?_⟩, hcreated, ?_, ?_, by simp, ?_⟩
  · have hkept := hprune.all
    rw [hall] at hkept
    exact hcreate.trans (hkept.append_right _)
  · have hcount := hprune.count
    have hpos := options.maxFiles_pos
    simp only [Option.toList_none, List.length_nil] at hcount
    change ((pruneDir ⟨files, []⟩ (options.maxFiles - 1) none).create _).files.length ≤
      options.maxFiles
    rw [hfiles, List.length_append, List.length_singleton]
    omega
  · change _ ∈ ((pruneDir ⟨files, []⟩ (options.maxFiles - 1) none).create _).files.map Prod.fst
    rw [hfiles]
    simp [Writer.open_]
  · exact options.maxBytes_pos

/-- One round of `write` adds one record. -/
theorem Archives.writeEntry {old : List (ℕ × List UInt8)} {first : ℕ}
    {records : List ArchiveRecord} {writer : Writer} {buffer : List UInt8}
    (h : Archives old first records writer buffer) (at_ : ℤ) (entry : Entry) :
    Archives old first (records ++ [entry.record at_])
      (writer.writeEntry at_ buffer entry).1 (writer.writeEntry at_ buffer entry).2 := by
  obtain ⟨closed, current, rfl, h⟩ := h
  unfold Writer.writeEntry
  have hsize := h.size
  split
  next hlimit =>
    refine ⟨closed ++ [current], [entry.record at_], by simp, ?_⟩
    have hflush := h.flush
    have hoptions : (writer.flushPending buffer).options = writer.options := by
      unfold Writer.flushPending
      split <;> rfl
    have hrotate := hflush.rotate (by rw [hoptions]; omega)
    exact hrotate.record (Writer.rotate _).options.maxBytes_pos (entry.record at_)
  next hroom =>
    exact ⟨closed, current ++ [entry.record at_], by simp, h.record (by omega) _⟩

/-! ## Reading the archive back -/

/-- The files from a sequence number on, kept or pruned, in increasing order. -/
def Dir.written (dir : Dir) (first : ℕ) : List (ℕ × List UInt8) :=
  (dir.all.filter fun file => first ≤ file.1).mergeSort fun a b => a.1 ≤ b.1

theorem shelf_pairwise (first : ℕ) (volumes : List (List ArchiveRecord)) :
    (shelf first volumes).Pairwise fun a b => a.1 < b.1 := by
  induction volumes generalizing first with
  | nil => exact .nil
  | cons volume volumes ih =>
    refine List.pairwise_cons.mpr ⟨?_, ih (first + 1)⟩
    intro file hfile
    have := shelf_bounds hfile
    change first < file.1
    omega

/-- In increasing order the files are the volumes. -/
theorem Dir.written_eq_shelf {dir : Dir} {old : List (ℕ × List UInt8)} {first : ℕ}
    {volumes : List (List ArchiveRecord)} (holder : ∀ file ∈ old, file.1 < first)
    (hall : dir.all.Perm (old ++ shelf first volumes)) :
    dir.written first = shelf first volumes := by
  have hfilter : (dir.all.filter fun file => first ≤ file.1).Perm (shelf first volumes) := by
    have hold : old.filter (fun file => decide (first ≤ file.1)) = [] := by
      refine List.filter_eq_nil_iff.mpr ?_
      intro file hfile
      have := holder file hfile
      simp only [decide_eq_true_eq]
      omega
    have hown : (shelf first volumes).filter (fun file => decide (first ≤ file.1)) =
        shelf first volumes := by
      refine List.filter_eq_self.mpr ?_
      intro file hfile
      exact decide_eq_true (shelf_bounds hfile).1
    have := hall.filter fun file => decide (first ≤ file.1)
    rwa [List.filter_append, hold, hown, List.nil_append] at this
  have hperm : (dir.written first).Perm (shelf first volumes) :=
    (List.mergeSort_perm _ _).trans hfilter
  have hstrict := shelf_pairwise first volumes
  have hsorted : (dir.written first).Pairwise fun a b => decide (a.1 ≤ b.1) = true :=
    List.pairwise_mergeSort (by intro a b c; simp only [decide_eq_true_eq]; omega)
      (by intro a b; simp only [Bool.or_eq_true, decide_eq_true_eq]; omega) _
  refine hperm.eq_of_pairwise ?_ hsorted
    (hstrict.imp fun hlt => decide_eq_true (Nat.le_of_lt hlt))
  intro a b ha hb hab hba
  have heq : a.1 = b.1 := Nat.le_antisymm (of_decide_eq_true hab) (of_decide_eq_true hba)
  have hnodup : ((shelf first volumes).map Prod.fst).Nodup :=
    List.pairwise_map.mpr (hstrict.imp Nat.ne_of_lt)
  exact List.inj_on_of_nodup_map hnodup (hperm.mem_iff.mp ha) hb heq

theorem shelf_flatMap (first : ℕ) (volumes : List (List ArchiveRecord)) :
    (shelf first volumes).flatMap Prod.snd = encode volumes.flatten := by
  induction volumes generalizing first with
  | nil => rfl
  | cons volume volumes ih => simp [shelf, ih]

/-- The lines of some records, split at the line breaks. -/
theorem splitOn_encode (records : List ArchiveRecord) :
    (encode records).splitOn '\n'.toUInt8 = records.map ArchiveRecord.json ++ [[]] := by
  induction records with
  | nil => rfl
  | cons record records ih =>
    have hcons : encode (record :: records) =
        record.json ++ '\n'.toUInt8 :: encode records := by
      simp [encode, line]
    rw [hcons, List.splitOn_append_cons_self_of_not_mem record.newline_notMem_json, ih]
    rfl

end Nyanpasu.Log
