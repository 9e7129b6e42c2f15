import Nyanpasu.Lib.Text

/-!
# Paths and patterns

Replacing a pattern in a text, and the components of a path. A replacement without slashes acts on
the components one by one; where the pattern occurs, different texts put in its place give different
results.
-/

namespace Text

/-- `str::contains`. -/
def containsText (pattern : Text) : Text → Bool
  | [] => pattern.isEmpty
  | c :: s => pattern.isPrefixOf (c :: s) || containsText pattern s

/-- The replacement, with a number of characters left of the last match. -/
def replaceFrom (pattern new : Text) : ℕ → Text → Text
  | _, [] => []
  | skip + 1, _ :: s => replaceFrom pattern new skip s
  | 0, c :: s =>
      if pattern.isPrefixOf (c :: s) then new ++ replaceFrom pattern new (pattern.length - 1) s
      else c :: replaceFrom pattern new 0 s

/-- `str::replace`. -/
def replace (pattern new s : Text) : Text := replaceFrom pattern new 0 s

section Replace

variable {pattern new new' s : Text} {c : Char}

theorem replaceFrom_skip (pattern new front s : Text) :
    replaceFrom pattern new front.length (front ++ s) = replaceFrom pattern new 0 s := by
  induction front with
  | nil => rfl
  | cons c front ih => rw [List.length_cons, List.cons_append, replaceFrom, ih]

@[simp] theorem replace_nil : replace pattern new [] = [] := rfl

theorem replace_match (h : pattern ≠ []) :
    replace pattern new (pattern ++ s) = new ++ replace pattern new s := by
  obtain ⟨c, rest, rfl⟩ := List.exists_cons_of_ne_nil h
  have hstart : (c :: rest).isPrefixOf (c :: (rest ++ s)) := by
    rw [List.isPrefixOf_iff_prefix, ← List.cons_append]
    exact List.prefix_append _ _
  rw [replace, List.cons_append, replaceFrom, if_pos hstart, List.length_cons, Nat.add_sub_cancel,
    replaceFrom_skip]
  rfl

theorem replace_cons (h : ¬pattern <+: c :: s) :
    replace pattern new (c :: s) = c :: replace pattern new s := by
  rw [replace, replaceFrom, if_neg (by rwa [List.isPrefixOf_iff_prefix])]
  rfl

theorem contains_cons (h : ¬pattern <+: c :: s) :
    containsText pattern (c :: s) = containsText pattern s := by
  rw [containsText, Bool.or_eq_right_iff_imp]
  intro hstart
  exact absurd (List.isPrefixOf_iff_prefix.mp hstart) h

theorem contains_match (h : pattern ≠ []) : containsText pattern (pattern ++ s) = true := by
  obtain ⟨c, rest, rfl⟩ := List.exists_cons_of_ne_nil h
  rw [List.cons_append, containsText, Bool.or_eq_true]
  left
  rw [List.isPrefixOf_iff_prefix, ← List.cons_append]
  exact List.prefix_append _ _

/-- A text is read from the left: the pattern, or a character where it does not begin. -/
theorem replace_induction {motive : Text → Prop} (hpattern : pattern ≠ []) (nil : motive [])
    (matched : ∀ s, motive s → motive (pattern ++ s))
    (step : ∀ c s, ¬pattern <+: c :: s → motive s → motive (c :: s)) (s : Text) : motive s := by
  induction hlength : s.length using Nat.strongRecOn generalizing s with
  | ind n ih =>
    cases s with
    | nil => exact nil
    | cons c s =>
      rw [List.length_cons] at hlength
      by_cases hstart : pattern <+: c :: s
      · obtain ⟨rest, hrest⟩ := hstart
        have hpos := List.length_pos_iff.mpr hpattern
        have hlengths := congrArg List.length hrest
        rw [List.length_append, List.length_cons] at hlengths
        rw [← hrest]
        exact matched rest (ih rest.length (by omega) rest rfl)
      · exact step c s hstart (ih s.length (by omega) s rfl)

/-- The text around the matches stays. -/
theorem exists_parts (h : pattern ≠ []) (s : Text) : ∃ (first : Text) (parts : List Text),
    (∀ new, replace pattern new s = first ++ parts.flatMap (new ++ ·)) ∧
      (containsText pattern s = true ↔ parts ≠ []) := by
  induction s using replace_induction h with
  | nil => exact ⟨[], [], fun new => rfl, by simp [containsText, h]⟩
  | matched s ih =>
    obtain ⟨first, parts, hreplace, -⟩ := ih
    refine ⟨[], first :: parts, fun new => ?_, by simp [contains_match h]⟩
    rw [replace_match h, hreplace, List.flatMap_cons, List.nil_append, List.append_assoc]
  | step c s hstart ih =>
    obtain ⟨first, parts, hreplace, hcontains⟩ := ih
    refine ⟨c :: first, parts, fun new => ?_, ?_⟩
    · rw [replace_cons hstart, hreplace, List.cons_append]
    · rw [contains_cons hstart, hcontains]

theorem replace_eq_self (hpattern : pattern ≠ []) (h : containsText pattern s = false) :
    replace pattern new s = s := by
  induction s using replace_induction hpattern with
  | nil => rfl
  | matched s ih =>
    rw [contains_match hpattern] at h
    cases h
  | step c s hstart ih =>
    rw [contains_cons hstart] at h
    rw [replace_cons hstart, ih h]

theorem length_flatMap_append (new : Text) (parts : List Text) :
    (parts.flatMap (new ++ ·)).length =
      parts.length * new.length + (parts.map List.length).sum := by
  induction parts with
  | nil => simp
  | cons part parts ih =>
    rw [List.flatMap_cons, List.length_append, List.length_append, ih, List.length_cons,
      List.map_cons, List.sum_cons, Nat.add_mul, Nat.one_mul]
    omega

/-- Where the pattern occurs, the result tells what was put in its place. -/
theorem replace_injective (hpattern : pattern ≠ []) (h : containsText pattern s = true)
    (heq : replace pattern new s = replace pattern new' s) : new = new' := by
  obtain ⟨first, parts, hreplace, hcontains⟩ := exists_parts hpattern s
  obtain ⟨part, parts, rfl⟩ := List.exists_cons_of_ne_nil (hcontains.mp h)
  rw [hreplace, hreplace, List.append_cancel_left_eq] at heq
  have hsame : new.length = new'.length := by
    have := congrArg List.length heq
    rw [length_flatMap_append, length_flatMap_append, Nat.add_right_cancel_iff] at this
    exact Nat.eq_of_mul_eq_mul_left (by rw [List.length_cons]; omega) this
  rw [List.flatMap_cons, List.flatMap_cons, List.append_assoc, List.append_assoc] at heq
  exact List.append_inj_left heq hsame

/-- A text without the separator begins the first piece. -/
theorem splitOn_append_of_notMem {front : Text} (h : c ∉ front) (s : Text) :
    (front ++ s).splitOn c = (s.splitOn c).modifyHead (front ++ ·) := by
  induction front with
  | nil =>
    obtain ⟨piece, pieces, hpieces⟩ := List.exists_cons_of_ne_nil (List.splitOn_ne_nil c s)
    rw [List.nil_append, hpieces]
    rfl
  | cons d front ih =>
    rw [List.mem_cons, not_or] at h
    obtain ⟨piece, pieces, hpieces⟩ := List.exists_cons_of_ne_nil (List.splitOn_ne_nil c s)
    rw [List.cons_append, List.splitOn_cons_eq_if_modifyHead, if_neg (by simpa using Ne.symm h.1),
      ih h.2, hpieces]
    rfl

/-- The first piece begins the text. -/
theorem piece_prefix {piece : Text} {pieces : List Text} (h : s.splitOn c = piece :: pieces) :
    piece <+: s := by
  induction s generalizing piece pieces with
  | nil =>
    rw [List.splitOn_nil] at h
    obtain rfl : [] = piece := (List.cons.inj h).1
    exact List.nil_prefix
  | cons d s ih =>
    rw [List.splitOn_cons_eq_if_modifyHead] at h
    split at h
    · rw [← (List.cons.inj h).1]
      exact List.nil_prefix
    · obtain ⟨first, rest, hfirst⟩ := List.exists_cons_of_ne_nil (List.splitOn_ne_nil c s)
      rw [hfirst, List.modifyHead_cons] at h
      rw [← (List.cons.inj h).1, List.cons_prefix_cons]
      exact ⟨rfl, ih hfirst⟩

/-- A replacement without the separator acts on the pieces. -/
theorem splitOn_replace (hpattern : pattern ≠ []) (h : c ∉ pattern) (hnew : c ∉ new) (s : Text) :
    (replace pattern new s).splitOn c = (s.splitOn c).map (replace pattern new) := by
  induction s using replace_induction hpattern with
  | nil => simp
  | matched s ih =>
    obtain ⟨piece, pieces, hpieces⟩ := List.exists_cons_of_ne_nil (List.splitOn_ne_nil c s)
    rw [replace_match hpattern, splitOn_append_of_notMem hnew, splitOn_append_of_notMem h, ih,
      hpieces, List.modifyHead_cons, List.map_cons, List.map_cons, List.modifyHead_cons,
      replace_match hpattern]
  | step d s hstart ih =>
    rw [replace_cons hstart, List.splitOn_cons_eq_if_modifyHead,
      List.splitOn_cons_eq_if_modifyHead, ih]
    split
    · rfl
    · obtain ⟨piece, pieces, hpieces⟩ := List.exists_cons_of_ne_nil (List.splitOn_ne_nil c s)
      have hpiece : ¬pattern <+: d :: piece := by
        intro hstarts
        exact hstart (hstarts.trans (List.cons_prefix_cons.mpr ⟨rfl, piece_prefix hpieces⟩))
      rw [hpieces, List.modifyHead_cons, List.map_cons, List.map_cons, List.modifyHead_cons,
        replace_cons hpiece]

/-- A pattern without the separator is in one of the pieces. -/
theorem exists_piece_contains (hpattern : pattern ≠ []) (hc : c ∉ pattern)
    (h : containsText pattern s = true) :
    ∃ piece ∈ s.splitOn c, containsText pattern piece = true := by
  induction s using replace_induction hpattern with
  | nil =>
    rw [containsText, List.isEmpty_iff] at h
    exact absurd h hpattern
  | matched s ih =>
    obtain ⟨piece, pieces, hpieces⟩ := List.exists_cons_of_ne_nil (List.splitOn_ne_nil c s)
    rw [splitOn_append_of_notMem hc, hpieces, List.modifyHead_cons]
    exact ⟨pattern ++ piece, List.mem_cons_self, contains_match hpattern⟩
  | step d s hstart ih =>
    rw [contains_cons hstart] at h
    obtain ⟨piece, hpiece, hcontains⟩ := ih h
    rw [List.splitOn_cons_eq_if_modifyHead]
    split
    · exact ⟨piece, List.mem_cons_of_mem _ hpiece, hcontains⟩
    · obtain ⟨first, rest, hfirst⟩ := List.exists_cons_of_ne_nil (List.splitOn_ne_nil c s)
      rw [hfirst] at hpiece ⊢
      rw [List.modifyHead_cons]
      rcases List.mem_cons.mp hpiece with rfl | hpiece
      · exact ⟨d :: piece, List.mem_cons_self, by rw [containsText, hcontains, Bool.or_true]⟩
      · exact ⟨piece, List.mem_cons_of_mem _ hpiece, hcontains⟩

theorem notMem_of_mem_splitOn {piece : Text} (h : piece ∈ s.splitOn c) : c ∉ piece := by
  induction s generalizing piece with
  | nil =>
    rw [List.splitOn_nil, List.mem_singleton] at h
    rw [h]
    exact List.not_mem_nil
  | cons d s ih =>
    rw [List.splitOn_cons_eq_if_modifyHead] at h
    split at h
    · rcases List.mem_cons.mp h with rfl | h
      · exact List.not_mem_nil
      · exact ih h
    next hne =>
      obtain ⟨first, rest, hfirst⟩ := List.exists_cons_of_ne_nil (List.splitOn_ne_nil c s)
      rw [hfirst, List.modifyHead_cons] at h
      rw [hfirst] at ih
      rcases List.mem_cons.mp h with rfl | h
      · rw [List.mem_cons, not_or]
        exact ⟨fun heq => hne (by simp [heq]), ih List.mem_cons_self⟩
      · exact ih (List.mem_cons_of_mem _ h)

end Replace

/-! ## Paths from the root -/

/-- Pieces between slashes that are no component. -/
def isBlank (piece : Text) : Bool := piece.isEmpty || piece = ['.']

/-- `Path::components` behind the root. -/
def components (path : Text) : List Text := (path.splitOn '/').filter (!isBlank ·)

/-- A piece with a pattern without dots in it is not blank. -/
theorem isBlank_of_contains {pattern piece : Text} (hpattern : pattern ≠ []) (hdot : '.' ∉ pattern)
    (h : containsText pattern piece = true) : isBlank piece = false := by
  rw [isBlank, Bool.or_eq_false_iff, List.isEmpty_eq_false_iff, decide_eq_false_iff_not]
  constructor
  · rintro rfl
    rw [containsText, List.isEmpty_iff] at h
    exact hpattern h
  · rintro rfl
    rw [containsText, containsText, Bool.or_eq_true, List.isEmpty_iff] at h
    rcases h with h | h
    · obtain ⟨c, rest, rfl⟩ := List.exists_cons_of_ne_nil hpattern
      have hc := (List.cons_prefix_cons.mp (List.isPrefixOf_iff_prefix.mp h)).1
      rw [hc] at hdot
      exact hdot List.mem_cons_self
    · exact hpattern h

/-- A pattern and a text in its place without dots make no other pieces blank. -/
theorem isBlank_replace {pattern new : Text} (hpattern : pattern ≠ []) (hnew : new ≠ [])
    (hdot : '.' ∉ pattern) (hdot' : '.' ∉ new) (piece : Text) :
    isBlank (replace pattern new piece) = isBlank piece := by
  cases h : containsText pattern piece with
  | false => rw [replace_eq_self hpattern h]
  | true =>
    obtain ⟨first, parts, hreplace, hcontains⟩ := exists_parts hpattern piece
    obtain ⟨part, parts, rfl⟩ := List.exists_cons_of_ne_nil (hcontains.mp h)
    obtain ⟨c, rest, rfl⟩ := List.exists_cons_of_ne_nil hnew
    have hmem : c ∈ replace pattern (c :: rest) piece := by
      rw [hreplace]
      simp
    rw [isBlank_of_contains hpattern hdot h, isBlank, Bool.or_eq_false_iff,
      List.isEmpty_eq_false_iff, decide_eq_false_iff_not]
    constructor
    · exact List.ne_nil_of_mem hmem
    · intro heq
      rw [heq, List.mem_singleton] at hmem
      rw [hmem] at hdot'
      exact hdot' List.mem_cons_self

/-- Such a replacement acts on the components. -/
theorem components_replace {pattern new : Text} (hpattern : pattern ≠ []) (hnew : new ≠ [])
    (hdot : '.' ∉ pattern) (hdot' : '.' ∉ new) (hslash : '/' ∉ pattern) (hslash' : '/' ∉ new)
    (path : Text) :
    (replace pattern new path).components = path.components.map (replace pattern new) := by
  rw [components, splitOn_replace hpattern hslash hslash', List.filter_map, components]
  congr 1
  refine List.filter_congr fun piece _ => ?_
  rw [Function.comp_apply, isBlank_replace hpattern hnew hdot hdot']

/-- `Path::file_name`. -/
def fileName (path : Text) : Option Text := path.components.getLast?.filter (· ≠ "..".toList)

/-- Pieces without the blank ones at the end. -/
def trimPieces (pieces : List Text) : List Text := (pieces.reverse.dropWhile isBlank).reverse

/-- `Path::parent` of a path from the root. -/
def parent (path : Text) : Option Text :=
  let pieces := trimPieces (path.splitOn '/')
  if pieces.isEmpty then none
  else
    let front := trimPieces pieces.dropLast
    if front.isEmpty then some ['/'] else some (['/'].intercalate front)

/-- `Path::is_absolute`. -/
def isAbsolute (path : Text) : Bool := path.head? = some '/'

/-- `Path::join` with a relative path. -/
def joinPath (base path : Text) : Text :=
  if base.getLast? = some '/' then base ++ path else base ++ '/' :: path

end Text

/-- The name of a file in a directory. -/
structure FileName where
  text : Text
  ne_nil : text ≠ []
  noSlash : '/' ∉ text
  ne_dot : text ≠ ['.']
  ne_dots : text ≠ "..".toList
  deriving DecidableEq

/-- A directory by its canonical path. -/
abbrev RealDir := List FileName

/-- The last component of a path, unless it leads upwards, names a file. -/
theorem FileName.of_fileName {path name : Text} (h : path.fileName = some name) :
    ∃ file : FileName, file.text = name ∧ path.components.getLast? = some name := by
  obtain ⟨hlast, hdots⟩ := Option.filter_eq_some_iff.mp h
  have hmem := List.mem_of_getLast? hlast
  rw [Text.components, List.mem_filter] at hmem
  have hblank : ¬(name = [] ∨ name = ['.']) := by
    have := hmem.2
    simpa [Text.isBlank, not_or] using this
  rw [not_or] at hblank
  exact ⟨⟨name, hblank.1, Text.notMem_of_mem_splitOn hmem.1, hblank.2, of_decide_eq_true hdots⟩,
    rfl, hlast⟩

namespace RealDir

/-- The path of a directory. -/
def text (dir : RealDir) : Text :=
  if dir.isEmpty then ['/'] else dir.flatMap fun name => '/' :: name.text

theorem joinPath_text (dir : RealDir) (path : Text) :
    Text.joinPath dir.text path = (dir.flatMap fun name => '/' :: name.text) ++ '/' :: path := by
  rcases List.eq_nil_or_concat dir with rfl | ⟨front, name, rfl⟩
  · rfl
  · rw [List.concat_eq_append]
    have hlast : (text (front ++ [name])).getLast? ≠ some '/' := by
      rw [text, if_neg (by simp), List.flatMap_append, List.flatMap_singleton, List.getLast?_append,
        List.getLast?_cons]
      intro h
      rw [Option.some_or, Option.some.injEq] at h
      cases hname : name.text.getLast? with
      | none => exact name.ne_nil (List.getLast?_eq_none_iff.mp hname)
      | some c =>
        rw [hname, Option.getD_some] at h
        rw [h] at hname
        exact name.noSlash (List.mem_of_getLast? hname)
    rw [Text.joinPath, if_neg hlast, text, if_neg (by simp)]

theorem splitOn_flatMap (dir : RealDir) :
    (dir.flatMap fun name => '/' :: name.text).splitOn '/' = [] :: dir.map FileName.text := by
  cases dir with
  | nil => simp
  | cons first dir =>
    rw [List.flatMap_cons, List.cons_append]
    have hhead : ('/' :: (first.text ++ dir.flatMap fun name => '/' :: name.text)).splitOn '/' =
        [] :: (first.text ++ dir.flatMap fun name => '/' :: name.text).splitOn '/' := by
      rw [List.splitOn_cons_eq_if_modifyHead, if_pos (by simp)]
    rw [hhead, Text.splitOn_append_of_notMem first.noSlash, splitOn_flatMap dir,
      List.modifyHead_cons, List.append_nil, List.map_cons]

/-- The path of a file tells its directory and its name. -/
theorem joinPath_injective {dir dir' : RealDir} {name name' : FileName}
    (h : Text.joinPath dir.text name.text = Text.joinPath dir'.text name'.text) :
    dir = dir' ∧ name = name' := by
  have hchild : ∀ (dir : RealDir) (name : FileName), Text.joinPath dir.text name.text =
      (dir ++ [name]).flatMap fun name => '/' :: name.text := by
    intro dir name
    rw [joinPath_text, List.flatMap_append, List.flatMap_singleton]
  have htext : Function.Injective FileName.text := by
    rintro ⟨text, _⟩ ⟨text', _⟩ rfl
    rfl
  have hpieces := congrArg (List.splitOn '/') h
  rw [hchild, hchild, splitOn_flatMap, splitOn_flatMap, List.cons.injEq] at hpieces
  have hlist := htext.list_map hpieces.2
  have hlast := List.append_inj' hlist rfl
  exact ⟨hlast.1, (List.cons.inj hlast.2).1⟩

theorem components_joinPath (dir : RealDir) (path : Text) :
    (Text.joinPath dir.text path).components = dir.map FileName.text ++ path.components := by
  have hkept : (dir.map FileName.text).filter (!Text.isBlank ·) = dir.map FileName.text := by
    rw [List.filter_eq_self]
    intro piece hpiece
    obtain ⟨name, -, rfl⟩ := List.mem_map.mp hpiece
    simp [Text.isBlank, name.ne_nil, name.ne_dot]
  rw [joinPath_text, Text.components, List.splitOn_append_cons_self, splitOn_flatMap,
    List.filter_append, Text.components, List.filter_cons_of_neg (by simp [Text.isBlank]), hkept]

end RealDir
