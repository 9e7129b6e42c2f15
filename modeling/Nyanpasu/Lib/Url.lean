import Nyanpasu.Lib.Text
import Mathlib.Data.List.TakeWhile

/-!
# URLs

Parsing and resolving references as the URL standard has it, over lists of characters. The
host parser is a parameter. What a reference names is decided first: a path below the base, a
path from its root, or an authority or a scheme of its own.
-/

/-- A segment of a path. -/
structure Segment where
  text : Text
  noSlash : '/' ∉ text

instance : DecidableEq Segment := fun a b =>
  decidable_of_iff (a.text = b.text)
    ⟨fun h => by cases a; cases b; cases h; rfl, congrArg Segment.text⟩

/-- The path of a URL: segments, or a text without structure. -/
inductive UrlPath where
  | segments (segments : List Segment)
  | plain (text : Text)

/-- A URL without its credentials. -/
structure Url (Host : Type) where
  scheme : Text
  host : Option Host
  port : Option ℕ
  path : UrlPath
  query : Option Text
  fragment : Option Text

/-- The host parser, which depends on whether the scheme is special. -/
structure HostRules (Host : Type) where
  parse : Bool → Text → Option Host
  empty : Host
  isLocalhost : Host → Bool

namespace Url

/-! ## Percent encoding -/

/-- A byte in hexadecimal. -/
def hex (byte : UInt8) : Text :=
  ['%', (Nat.digitChar (byte.toNat / 16)).toUpper, (Nat.digitChar (byte.toNat % 16)).toUpper]

/-- Percent-encode the characters of a set. -/
def percentEncode (set : Char → Bool) (text : Text) : Text :=
  text.flatMap fun c => if set c then (Text.bytes [c]).flatMap hex else [c]

/-- The value of a hexadecimal digit. -/
def hexValue (c : Char) : Option ℕ :=
  if c.isDigit then some (c.toNat - 48)
  else if 97 ≤ c.toNat ∧ c.toNat ≤ 102 then some (c.toNat - 87)
  else if 65 ≤ c.toNat ∧ c.toNat ≤ 70 then some (c.toNat - 55)
  else none

/-- Percent-decode to bytes. -/
def percentDecode : Text → List UInt8
  | '%' :: a :: b :: rest =>
    match hexValue a, hexValue b with
    | some high, some low => UInt8.ofNat (16 * high + low) :: percentDecode rest
    | _, _ => Text.bytes ['%'] ++ percentDecode (a :: b :: rest)
  | c :: rest => Text.bytes [c] ++ percentDecode rest
  | [] => []
  termination_by text => text.length

/-- The C0 control set: what is not printable ASCII. -/
def controlSet (c : Char) : Bool := c.toNat < 0x20 || 0x7e < c.toNat

/-- The fragment set. -/
def fragmentSet (c : Char) : Bool := controlSet c || c ∈ [' ', '"', '<', '>', '\x60']

/-- The query set. -/
def querySet (special : Bool) (c : Char) : Bool :=
  controlSet c || c ∈ [' ', '"', '#', '<', '>'] || special && c = '\x27'

/-- The path set. -/
def pathSet (c : Char) : Bool :=
  querySet false c || c ∈ ['?', '^', '\x60', '\x7b', '\x7d']

/-- The set of a segment that is set as a whole: what would end it, or be decoded, is encoded. -/
def segmentSet (c : Char) : Bool := pathSet c || c ∈ ['/', '%', '\\']

/-! ## Schemes -/

/-- The default port of a special scheme. -/
def defaultPort (scheme : Text) : Option ℕ :=
  if scheme = "ftp".toList then some 21
  else if scheme = "http".toList ∨ scheme = "ws".toList then some 80
  else if scheme = "https".toList ∨ scheme = "wss".toList then some 443
  else none

/-- Whether a scheme is special. -/
def isSpecial (scheme : Text) : Bool := scheme = "file".toList || (defaultPort scheme).isSome

/-- Control characters and spaces at the ends, and tabs and line breaks anywhere, do not count. -/
def strip (input : Text) : Text :=
  let isEdge := fun c : Char => decide (c.toNat ≤ 0x20)
  ((input.dropWhile isEdge).reverse.dropWhile isEdge).reverse.filter fun c =>
    c ∉ ['\t', '\n', '\r']

/-- A character of a scheme after its first. -/
def isSchemeChar (c : Char) : Bool := c.isAlphanum || c ∈ ['+', '-', '.']

/-- The scheme that a reference starts with, and what follows its colon. -/
def splitScheme (input : Text) : Option (Text × Text) :=
  if input.head?.any Char.isAlpha then
    match input.dropWhile isSchemeChar with
    | ':' :: rest => some ((input.takeWhile isSchemeChar).map Char.toLower, rest)
    | _ => none
  else none

/-- A slash, or a backslash in place of one. -/
def isSlash (special : Bool) (c : Char) : Bool := c = '/' || special && c = '\\'

/-! ## Authorities -/

/-- The characters that end an authority. -/
def endsAuthority (special : Bool) (c : Char) : Bool := isSlash special c || c ∈ ['?', '#']

/-- Split at the first colon outside brackets. -/
def splitHost (inBrackets : Bool) : Text → Text × Option Text
  | [] => ([], none)
  | c :: rest =>
    if c = ':' ∧ inBrackets = false then ([], some rest)
    else
      let inBrackets := if c = '[' then true else if c = ']' then false else inBrackets
      let (host, port) := splitHost inBrackets rest
      (c :: host, port)

/-- The port of an authority; the default port is left out. -/
def readPort (scheme : Text) : Option Text → Option (Option ℕ)
  | none | some [] => some none
  | some digits =>
    if digits.all Char.isDigit then
      let port := digits.foldl (fun n c => 10 * n + (c.toNat - 48)) 0
      if 65535 < port then none
      else some (if defaultPort scheme = some port then none else some port)
    else none

section

variable {Host : Type} (rules : HostRules Host)

/-- The host and the port of an authority. -/
def readAuthority (scheme authority : Text) : Option (Host × Option ℕ) := do
  let hostPort := (authority.reverse.takeWhile fun c => c ≠ '@').reverse
  let (host, port) := splitHost false hostPort
  if host = [] ∧ (isSpecial scheme ∨ port.isSome ∨ '@' ∈ authority) then none
  else
    let host ← rules.parse (isSpecial scheme) host
    let port ← readPort scheme port
    return (host, port)

/-! ## Paths -/

/-- A Windows drive letter. -/
def isDrive : Text → Bool
  | [letter, mark] => letter.isAlpha && mark ∈ [':', '|']
  | _ => false

/-- A Windows drive letter in its normal form. -/
def isNormalDrive : Text → Bool
  | [letter, mark] => letter.isAlpha && mark = ':'
  | _ => false

/-- Whether a reference starts with a Windows drive letter. -/
def startsWithDrive (input : Text) : Bool :=
  isDrive (input.take 2) && (input.drop 2).head?.all (endsAuthority true)

/-- A piece that stands for the segment above. -/
def isDoubleDot (piece : Text) : Bool :=
  piece.map Char.toLower ∈
    ["..".toList, ".%2e".toList, "%2e.".toList, "%2e%2e".toList]

/-- A piece that stands for the segment itself. -/
def isSingleDot (piece : Text) : Bool :=
  piece.map Char.toLower ∈ [".".toList, "%2e".toList]

theorem slash_notMem_hex (byte : UInt8) : '/' ∉ hex byte := by
  have hdigit : ∀ n < 16, (Nat.digitChar n).toUpper ≠ '/' := by decide
  have hhigh := hdigit (byte.toNat / 16) (by have := byte.toNat_lt; omega)
  have hlow := hdigit (byte.toNat % 16) (by omega)
  simp only [hex, List.mem_cons, List.not_mem_nil, or_false, not_or]
  exact ⟨by decide, hhigh.symm, hlow.symm⟩

theorem slash_notMem_percentEncode {set : Char → Bool} (h : set '/' = true) (text : Text) :
    '/' ∉ percentEncode set text := by
  intro hmem
  obtain ⟨c, -, hc⟩ := List.mem_flatMap.mp hmem
  split at hc
  · obtain ⟨byte, -, hbyte⟩ := List.mem_flatMap.mp hc
    exact slash_notMem_hex byte hbyte
  next hkeep =>
    obtain rfl := List.mem_singleton.mp hc
    exact hkeep h

/-- A piece between two slashes as a segment. -/
def Segment.ofPiece (piece : Text) : Segment where
  text := percentEncode (fun c => c = '/' || pathSet c) piece
  noSlash := slash_notMem_percentEncode rfl piece

/-- A whole text as a segment: everything that could be read as something else is encoded. The
library strips tabs and line breaks instead, and leaves `^` as it is. -/
def Segment.encode (text : Text) : Segment where
  text := percentEncode segmentSet text
  noSlash := slash_notMem_percentEncode rfl text

/-- Remove the last segment, but not a drive letter. -/
def shorten (scheme : Text) (path : List Segment) : List Segment :=
  if scheme = "file".toList ∧ path.length = 1 ∧ path.all (fun s => isNormalDrive s.text) then path
  else path.dropLast

/-- Add a piece to a path. -/
def addPiece (scheme : Text) (path : List Segment) (piece : Text) (last : Bool) : List Segment :=
  if isDoubleDot piece then
    if last then shorten scheme path ++ [Segment.ofPiece []] else shorten scheme path
  else if isSingleDot piece then
    if last then path ++ [Segment.ofPiece []] else path
  else if scheme = "file".toList ∧ path = [] ∧ isDrive piece then
    path ++ [Segment.ofPiece (piece.take 1 ++ [':'])]
  else path ++ [Segment.ofPiece piece]

/-- Add the pieces of a path. -/
def addPieces (scheme : Text) : List Segment → List Text → List Segment
  | path, [] => path
  | path, [piece] => addPiece scheme path piece true
  | path, piece :: pieces => addPieces scheme (addPiece scheme path piece false) pieces

variable {rules}

/-- The segments of a URL. -/
def segments (url : Url Host) : List Segment :=
  match url.path with
  | .segments segments => segments
  | .plain _ => []

/-- Whether a URL cannot be a base. -/
def isPlain (url : Url Host) : Bool :=
  match url.path with
  | .segments _ => false
  | .plain _ => true

/-- The path as text. -/
def pathText (url : Url Host) : Text :=
  match url.path with
  | .segments segments => segments.flatMap fun segment => '/' :: segment.text
  | .plain text => text

/-- Read a query and a fragment. -/
def withTail (url : Url Host) (tail : Text) : Url Host :=
  match tail with
  | '?' :: rest =>
    let url := { url with
      query := some (percentEncode (querySet (isSpecial url.scheme)) (rest.takeWhile (· ≠ '#'))) }
    match rest.dropWhile (· ≠ '#') with
    | _ :: rest => { url with fragment := some (percentEncode fragmentSet rest) }
    | [] => url
  | '#' :: rest => { url with fragment := some (percentEncode fragmentSet rest) }
  | _ => url

/-- What ends a path. -/
def endsPath (c : Char) : Bool := c ∈ ['?', '#']

/-- Read the pieces of a path, a query and a fragment. -/
def readPath (url : Url Host) (input : Text) : Url Host :=
  let pieces := (input.takeWhile (!endsPath ·)).splitOnP (isSlash (isSpecial url.scheme))
  let path := addPieces url.scheme url.segments pieces
  withTail { url with path := .segments path } (input.dropWhile (!endsPath ·))

/-- Read a path that may start with a slash. -/
def readPathStart (url : Url Host) (input : Text) : Url Host :=
  match input with
  | c :: rest =>
    if isSlash (isSpecial url.scheme) c then readPath url rest
    else if endsPath c ∧ isSpecial url.scheme = false then withTail url input
    else readPath url input
  | [] => if isSpecial url.scheme then readPath url [] else url

/-! ## References -/

/-- What a reference names. -/
inductive Route (Host : Type) where
  | relative (base : Url Host) (rest : Text)
  | rooted (base : Url Host) (rest : Text)
  | fragment (base : Url Host) (rest : Text)
  | authority (scheme rest : Text)
  | file (base : Option (Url Host)) (rest : Text)
  | path (scheme rest : Text)
  | plain (scheme rest : Text)
  | nothing

/-- The route of a reference without a scheme of its own. -/
def relativeRoute (base : Url Host) (rest : Text) : Route Host :=
  let special := isSpecial base.scheme
  match rest with
  | c :: rest' =>
    if isSlash special c then
      match rest' with
      | d :: rest'' =>
        if isSlash special d then
          .authority base.scheme (if special then rest''.dropWhile (isSlash true) else rest'')
        else .rooted base rest'
      | [] => .rooted base []
    else .relative base rest
  | [] => .relative base []

/-- The route of a reference with a scheme. -/
def schemeRoute (base : Option (Url Host)) (scheme rest : Text) : Route Host :=
  if scheme = "file".toList then
    .file (base.filter fun base => base.scheme = "file".toList) rest
  else if isSpecial scheme then
    match base.filter fun base => base.scheme = scheme with
    | some base =>
      match rest with
      | '/' :: '/' :: rest => .authority scheme (rest.dropWhile (isSlash true))
      | _ => relativeRoute base rest
    | none => .authority scheme (rest.dropWhile (isSlash true))
  else
    match rest with
    | '/' :: '/' :: rest => .authority scheme rest
    | '/' :: rest => .path scheme rest
    | _ => .plain scheme rest

/-- The route of a reference. -/
def route (base : Option (Url Host)) (input : Text) : Route Host :=
  match splitScheme input with
  | some (scheme, rest) => schemeRoute base scheme rest
  | none =>
    match base with
    | none => .nothing
    | some base =>
      if base.isPlain then
        match input with
        | '#' :: _ => .fragment base input
        | _ => .nothing
      else if base.scheme = "file".toList then .file (some base) input
      else relativeRoute base input

/-- Resolve a path, a query or a fragment below a base. -/
def relativeTo (base : Url Host) (rest : Text) : Url Host :=
  match rest with
  | [] => { base with fragment := none }
  | c :: _ =>
    if endsPath c then withTail { base with fragment := none } rest
    else
      let path := .segments (shorten base.scheme base.segments)
      readPath { base with path, query := none, fragment := none } rest

/-- A file URL without a path. -/
def fileUrl (host : Host) : Url Host := ⟨"file".toList, some host, none, .segments [], none, none⟩

variable (rules)

/-- Resolve a file URL. -/
def readFile (base : Option (Url Host)) (rest : Text) : Option (Url Host) :=
  match rest with
  | c :: d :: rest' =>
    if isSlash true c ∧ isSlash true d then
      let host := rest'.takeWhile (!endsAuthority true ·)
      let tail := rest'.dropWhile (!endsAuthority true ·)
      if isDrive host then some (readPath (fileUrl rules.empty) rest')
      else if host = [] then some (readPathStart (fileUrl rules.empty) tail)
      else (rules.parse true host).map fun host =>
        readPathStart (fileUrl (if rules.isLocalhost host then rules.empty else host)) tail
    else readLocal rest
  | _ => readLocal rest
where
  /-- A file URL without a host of its own. -/
  readLocal (rest : Text) : Option (Url Host) :=
    match rest, base with
    | c :: rest', base =>
      if isSlash true c then
        match base with
        | some base =>
          let drive := base.segments.take 1
          let keeps := !startsWithDrive rest' && drive.all fun s => isNormalDrive s.text
          let path := .segments (if keeps then drive else [])
          some (readPath { fileUrl rules.empty with host := base.host, path } rest')
        | none => some (readPath (fileUrl rules.empty) rest')
      else
        match base with
        | some base =>
          if startsWithDrive rest then
            some (readPath { fileUrl rules.empty with host := base.host } rest)
          else some (relativeTo base rest)
        | none => some (readPath (fileUrl rules.empty) rest)
    | [], some base => some { base with fragment := none }
    | [], none => some (readPath (fileUrl rules.empty) [])

/-- Follow the route of a reference. -/
def follow : Route Host → Option (Url Host)
  | .relative base rest => some (relativeTo base rest)
  | .rooted base rest =>
    some (readPath { base with path := .segments [], query := none, fragment := none } rest)
  | .fragment base rest => some (withTail { base with fragment := none } rest)
  | .authority scheme rest =>
    (readAuthority rules scheme (rest.takeWhile (!endsAuthority (isSpecial scheme) ·))).map
      fun (host, port) =>
        readPathStart ⟨scheme, some host, port, .segments [], none, none⟩
          (rest.dropWhile (!endsAuthority (isSpecial scheme) ·))
  | .file base rest => readFile rules base rest
  | .path scheme rest => some (readPath ⟨scheme, none, none, .segments [], none, none⟩ rest)
  | .plain scheme rest =>
    let path := .plain (percentEncode controlSet (rest.takeWhile (!endsPath ·)))
    some (withTail ⟨scheme, none, none, path, none, none⟩ (rest.dropWhile (!endsPath ·)))
  | .nothing => none

/-- `Url::parse`. -/
def parse (input : Text) : Option (Url Host) := follow rules (route none (strip input))

/-- `Url::join`. -/
def join (base : Url Host) (input : Text) : Option (Url Host) :=
  follow rules (route (some base) (strip input))

/-- `PathSegmentsMut::push`, taken to encode all of its argument: the segments `.` and `..` are
ignored. -/
def push (url : Url Host) (text : Text) : Url Host :=
  if text = ".".toList ∨ text = "..".toList then url
  else if url.segments.map Segment.text = [[]] then
    { url with path := .segments [Segment.encode text] }
  else { url with path := .segments (url.segments ++ [Segment.encode text]) }

end

/-! ## Origins -/

section

variable {Host : Type} {url base : Url Host}

/-- The same scheme, host and port. -/
def SameOrigin (url base : Url Host) : Prop :=
  url.scheme = base.scheme ∧ url.host = base.host ∧ url.port = base.port

theorem withTail_sameOrigin (url : Url Host) (tail : Text) :
    (withTail url tail).SameOrigin url := by
  unfold withTail
  split
  · split <;> exact ⟨rfl, rfl, rfl⟩
  · exact ⟨rfl, rfl, rfl⟩
  · exact ⟨rfl, rfl, rfl⟩

theorem readPath_sameOrigin (url : Url Host) (input : Text) :
    (readPath url input).SameOrigin url :=
  withTail_sameOrigin _ _

theorem readPathStart_sameOrigin (url : Url Host) (input : Text) :
    (readPathStart url input).SameOrigin url := by
  unfold readPathStart
  split
  · split
    · exact readPath_sameOrigin _ _
    · split
      · exact withTail_sameOrigin _ _
      · exact readPath_sameOrigin _ _
  · split
    · exact readPath_sameOrigin _ _
    · exact ⟨rfl, rfl, rfl⟩

theorem relativeTo_sameOrigin (base : Url Host) (rest : Text) :
    (relativeTo base rest).SameOrigin base := by
  unfold relativeTo
  split
  · exact ⟨rfl, rfl, rfl⟩
  · split
    · exact withTail_sameOrigin _ _
    · exact readPath_sameOrigin _ _

/-! ## Decoding what was encoded -/

theorem hexValue_digit : ∀ n < 16, hexValue (Nat.digitChar n).toUpper = some n := by decide

theorem percentDecode_hex (byte : UInt8) (rest : Text) :
    percentDecode (hex byte ++ rest) = byte :: percentDecode rest := by
  have hbyte := byte.toNat_lt
  have hvalue : 16 * (byte.toNat / 16) + byte.toNat % 16 = byte.toNat := by omega
  simp only [hex, List.cons_append, List.nil_append]
  rw [percentDecode, hexValue_digit _ (by omega), hexValue_digit _ (by omega)]
  change UInt8.ofNat (16 * (byte.toNat / 16) + byte.toNat % 16) :: _ = _
  rw [hvalue, UInt8.ofNat_toNat]

theorem percentDecode_bytes (bytes : List UInt8) (rest : Text) :
    percentDecode (bytes.flatMap hex ++ rest) = bytes ++ percentDecode rest := by
  induction bytes with
  | nil => rfl
  | cons byte bytes ih =>
    rw [List.flatMap_cons, List.append_assoc, percentDecode_hex, ih, List.cons_append]

theorem percentDecode_cons {c : Char} (h : c ≠ '%') (rest : Text) :
    percentDecode (c :: rest) = Text.bytes [c] ++ percentDecode rest := by
  rw [percentDecode]
  rintro a b rest rfl
  exact absurd rfl h

/-- Encoding with a set that has the percent sign is undone by decoding. -/
theorem percentDecode_percentEncode {set : Char → Bool} (h : set '%' = true) (text : Text) :
    percentDecode (percentEncode set text) = Text.bytes text := by
  induction text with
  | nil => rw [percentEncode, List.flatMap_nil, percentDecode, Text.bytes_nil]
  | cons c text ih =>
    have hsplit : Text.bytes (c :: text) = Text.bytes [c] ++ Text.bytes text :=
      Text.bytes_append [c] text
    rw [percentEncode, List.flatMap_cons, hsplit, ← ih]
    by_cases hset : set c = true
    · rw [if_pos hset, percentDecode_bytes]
      rfl
    · have hne : c ≠ '%' := by
        rintro rfl
        exact hset h
      rw [if_neg hset, List.singleton_append, percentDecode_cons hne]
      rfl

/-- Decoding leaves a text without percent signs. -/
theorem percentDecode_of_notMem {text : Text} (h : '%' ∉ text) :
    percentDecode text = Text.bytes text := by
  induction text with
  | nil => rw [percentDecode, Text.bytes_nil]
  | cons c text ih =>
    have hc : c ≠ '%' := by
      rintro rfl
      exact h List.mem_cons_self
    rw [percentDecode_cons hc, ih fun hmem => h (List.mem_cons_of_mem c hmem)]
    exact (Text.bytes_append [c] text).symm

/-- Encoding leaves a text without characters of the set. -/
theorem percentEncode_eq_self {set : Char → Bool} {text : Text} (h : ∀ c ∈ text, set c = false) :
    percentEncode set text = text := by
  induction text with
  | nil => rfl
  | cons c text ih =>
    rw [percentEncode, List.flatMap_cons, h c List.mem_cons_self]
    exact congrArg (c :: ·) (ih fun d hd => h d (List.mem_cons_of_mem c hd))

/-! ## Paths as text -/

/-- Splitting the text of some segments gives the segments. -/
theorem splitOn_segments (text : Text) (h : '/' ∉ text) (segments : List Segment) :
    (text ++ segments.flatMap fun segment => '/' :: segment.text).splitOn '/' =
      text :: segments.map Segment.text := by
  induction segments generalizing text with
  | nil => simp [List.splitOn_eq_singleton h]
  | cons segment segments ih =>
    rw [List.flatMap_cons, List.cons_append, List.splitOn_append_cons_self_of_not_mem h,
      ih segment.text segment.noSlash]
    rfl

theorem splitOn_pathText (h : url.isPlain = false) :
    url.pathText.splitOn '/' = [] :: url.segments.map Segment.text := by
  unfold isPlain at h
  split at h
  next segments hpath =>
    have := splitOn_segments [] (by simp) segments
    rw [List.nil_append] at this
    simpa only [pathText, Url.segments, hpath] using this
  next => cases h

/-- A text that `push` does not ignore. -/
def Pushable (text : Text) : Prop := text ≠ ".".toList ∧ text ≠ "..".toList

instance (text : Text) : Decidable (Pushable text) := inferInstanceAs (Decidable (_ ∧ _))

@[simp] theorem isPlain_segments (url : Url Host) (segments : List Segment) :
    ({ url with path := .segments segments } : Url Host).isPlain = false := rfl

@[simp] theorem segments_segments (url : Url Host) (segments : List Segment) :
    ({ url with path := .segments segments } : Url Host).segments = segments := rfl

/-- What is pushed is added, but for what is ignored. -/
theorem foldl_push (h : url.isPlain = false)
    (hsegment : ∃ segment ∈ url.segments, segment.text ≠ [])
    (texts : List Text) :
    (texts.foldl push url).isPlain = false ∧ (texts.foldl push url).segments =
      url.segments ++ (texts.filter fun text => Pushable text).map Segment.encode := by
  induction texts generalizing url with
  | nil => simpa using h
  | cons text texts ih =>
    rw [List.foldl_cons]
    by_cases hpush : Pushable text
    · have hnot : ¬ (text = ".".toList ∨ text = "..".toList) := by
        rintro (heq | heq)
        · exact hpush.1 heq
        · exact hpush.2 heq
      have hroot : url.segments.map Segment.text ≠ [[]] := by
        obtain ⟨segment, hmem, hne⟩ := hsegment
        intro heq
        have htext : segment.text ∈ url.segments.map Segment.text := List.mem_map_of_mem hmem
        rw [heq] at htext
        exact hne (List.mem_singleton.mp htext)
      have hstep : push url text =
          { url with path := .segments (url.segments ++ [Segment.encode text]) } := by
        rw [push, if_neg hnot, if_neg hroot]
      obtain ⟨segment, hmem, hne⟩ := hsegment
      have hkept : ∃ segment ∈ (push url text).segments, segment.text ≠ [] :=
        ⟨segment, by rw [hstep]; exact List.mem_append_left _ hmem, hne⟩
      obtain ⟨hplain, hsegments⟩ := ih (by rw [hstep]; rfl) hkept
      refine ⟨hplain, ?_⟩
      rw [hsegments, hstep]
      simp [hpush]
    · have hstep : push url text = url := by
        refine if_pos ?_
        unfold Pushable at hpush
        tauto
      obtain ⟨hplain, hsegments⟩ := ih h hsegment
      rw [hstep]
      refine ⟨hplain, ?_⟩
      rw [hsegments]
      simp [hpush]

/-- A piece that is a segment as it stands. -/
def Plain (piece : Text) : Prop :=
  isDoubleDot piece = false ∧ isSingleDot piece = false ∧
    ∀ c ∈ piece, (decide (c = '/') || pathSet c) = false

instance (piece : Text) : Decidable (Plain piece) :=
  decidable_of_iff (isDoubleDot piece = false ∧ isSingleDot piece = false ∧
      (piece.all fun c => !(decide (c = '/') || pathSet c)) = true) (by
    rw [Plain, List.all_eq_true]
    simp only [Bool.not_eq_true'])

theorem addPieces_plain {scheme : Text} (hscheme : scheme ≠ "file".toList) {pieces : List Text}
    (h : ∀ piece ∈ pieces, Plain piece) (path : List Segment) :
    (addPieces scheme path pieces).map Segment.text = path.map Segment.text ++ pieces := by
  have hone : ∀ piece, Plain piece → ∀ path last,
      addPiece scheme path piece last = path ++ [Segment.ofPiece piece] := by
    rintro piece ⟨hdouble, hsingle, -⟩ path last
    rw [addPiece, if_neg (by simp [hdouble]), if_neg (by simp [hsingle]), if_neg]
    exact fun hdrive => hscheme hdrive.1
  have htext : ∀ piece, Plain piece → (Segment.ofPiece piece).text = piece :=
    fun piece hpiece => percentEncode_eq_self hpiece.2.2
  induction pieces generalizing path with
  | nil => simp [addPieces]
  | cons piece pieces ih =>
    have hpiece := h piece List.mem_cons_self
    cases pieces with
    | nil => simp [addPieces, hone piece hpiece, htext piece hpiece]
    | cons next pieces =>
      rw [addPieces, ih fun piece hmem => h piece (List.mem_cons_of_mem _ hmem)]
      · simp [hone piece hpiece, htext piece hpiece]
      · simp

/-- A reference of plain pieces is resolved below the base. -/
theorem join_plain (rules : HostRules Host) (hplain : base.isPlain = false)
    (hfile : base.scheme ≠ "file".toList) {input : Text} {pieces : List Text}
    (hstrip : strip input = input) (hscheme : splitScheme input = none)
    (hhead : ∃ c rest, input = c :: rest ∧ isSlash true c = false ∧ endsPath c = false)
    (hpath : ∀ c ∈ input, endsPath c = false)
    (hpieces : ∀ special, input.splitOnP (isSlash special) = pieces)
    (hclean : ∀ piece ∈ pieces, Plain piece) :
    ∃ url, join rules base input = some url ∧ url.isPlain = false ∧
      url.segments.map Segment.text = base.segments.dropLast.map Segment.text ++ pieces := by
  obtain ⟨c, rest, hinput, hslash, hend⟩ := hhead
  have hslash' : isSlash (isSpecial base.scheme) c = false := by
    cases isSpecial base.scheme with
    | true => exact hslash
    | false =>
      unfold isSlash at hslash ⊢
      simp at hslash ⊢
      exact hslash.1
  have hroute : route (some base) (strip input) = .relative base input := by
    rw [hstrip]
    unfold route
    simp only [hscheme, hplain, Bool.false_eq_true, if_false, if_neg hfile]
    simp only [hinput, relativeRoute, hslash', Bool.false_eq_true, if_false]
  have htake : input.takeWhile (!endsPath ·) = input :=
    List.takeWhile_eq_self_iff.mpr fun d hd => by simp [hpath d hd]
  have hdrop : input.dropWhile (!endsPath ·) = [] :=
    List.dropWhile_eq_nil_iff.mpr fun d hd => by simp [hpath d hd]
  have hshorten : shorten base.scheme base.segments = base.segments.dropLast := by
    rw [shorten, if_neg]
    exact fun h => hfile h.1
  refine ⟨relativeTo base input, by rw [join, hroute]; rfl, ?_, ?_⟩
  · rw [hinput, relativeTo]
    simp only [hend, Bool.false_eq_true, if_false]
    rw [← hinput, readPath, hdrop]
    rfl
  · rw [hinput, relativeTo]
    simp only [hend, Bool.false_eq_true, if_false]
    rw [← hinput, readPath, hdrop, htake]
    simp only [hpieces]
    change (addPieces base.scheme (shorten base.scheme base.segments) pieces).map _ = _
    rw [hshorten]
    exact addPieces_plain hfile hclean _

end

end Url
