import Codex.PathUri.Basic
import Codex.Lib.Resolve

/-!
# Paths of the host

`from_abs_path` and `to_abs_path` on a Unix host, whose paths are any bytes. `HostPaths` is what the
`url` crate and the process add: the URL of a path, the path of a URL, the home directory.

* `toAbsPath_fromAbsPath`: a path without null bytes converts back unless it starts like a drive;
* `fromAbsPath_driveShapedPath`: one that starts like a drive is refused on the way back.
-/

namespace Codex.PathUri

open Codex.Lib

/-! ### Absolute paths -/

/-- A name of a path: any bytes but a separator, and no dots. -/
def IsName (name : Bytes) : Prop := name ≠ [] ∧ name ≠ [0x2E] ∧ name ≠ [0x2E, 0x2E] ∧ 0x2F ∉ name

instance (name : Bytes) : Decidable (IsName name) := inferInstanceAs (Decidable (_ ∧ _))

/-- `AbsolutePathBuf`, by the names below the root -/
@[ext]
structure AbsolutePathBuf where
  names : List Bytes
  isName : ∀ name ∈ names, IsName name
  deriving DecidableEq

lemma dotKind_eq_name_iff_isName {part : Bytes} (hslash : 0x2F ∉ part) :
    dotKind 0x2E part = .name ↔ IsName part := by
  rw [dotKind_eq_name, IsName]
  exact ⟨fun h => ⟨h.1, h.2.1, h.2.2, hslash⟩, fun h => ⟨h.1, h.2.1, h.2.2.1⟩⟩

/-- `normalize_path`, of an absolute path -/
def normalizePath (path : Bytes) : AbsolutePathBuf where
  names := resolve (dotKind 0x2E) 0 [] (path.splitOn 0x2F)
  isName := by
    intro name hmem
    rcases mem_resolve hmem with h | ⟨hpart, hname⟩
    · cases h
    · rw [List.splitOn_eq_splitOnP] at hpart
      refine (dotKind_eq_name_iff_isName fun hslash => ?_).mp hname
      cases eq_false_of_mem_splitOnP hpart _ hslash

/-- A letter and a colon. -/
def isDriveName : Bytes → Bool
  | [drive, 0x3A] => (Char.ofNat drive.toNat).isAlpha
  | _ => false

lemma isDriveName_iff {name : Bytes} :
    isDriveName name = true ↔
      ∃ drive : UInt8, (Char.ofNat drive.toNat).isAlpha = true ∧ name = [drive, 0x3A] := by
  constructor
  · intro h
    unfold isDriveName at h
    split at h
    next drive => exact ⟨drive, h, rfl⟩
    next => exact absurd h Bool.false_ne_true
  · rintro ⟨drive, h, rfl⟩
    exact h

namespace AbsolutePathBuf

variable (path : AbsolutePathBuf)

/-- `as_os_str().as_bytes()` -/
def bytes : Bytes :=
  if path.names = [] then [0x2F] else path.names.flatMap (0x2F :: ·)

/-- The first name is that of a drive. -/
def startsWithDrive : Bool := path.names.head?.any isDriveName

lemma bytes_head : path.bytes.head? = some 0x2F := by
  rw [bytes]
  split_ifs with h
  · rfl
  · cases hnames : path.names with
    | nil => exact absurd hnames h
    | cons name names => rfl

lemma splitOn_bytes :
    path.bytes.splitOn 0x2F = [] :: if path.names = [] then [[]] else path.names := by
  rw [bytes]
  split_ifs with h
  · rfl
  · rw [List.splitOn_eq_splitOnP, ← List.nil_append (List.flatMap _ _)]
    refine splitOnP_append_flatMap (p := (· == 0x2F)) rfl nofun ?_
    intro name hname b hb
    exact beq_eq_false_iff_ne.mpr fun heq => (path.isName name hname).2.2.2 (heq ▸ hb)

end AbsolutePathBuf

lemma resolve_isName {names : List Bytes} (h : ∀ name ∈ names, IsName name) :
    resolve (dotKind 0x2E) 0 [] names = names :=
  resolve_names fun name hname =>
    (dotKind_eq_name_iff_isName (h name hname).2.2.2).mpr (h name hname)

lemma normalizePath_bytes (path : AbsolutePathBuf) : normalizePath path.bytes = path := by
  ext1
  show resolve (dotKind 0x2E) 0 [] _ = _
  rw [AbsolutePathBuf.splitOn_bytes, resolve_cons, visitPart_of_skip rfl]
  split_ifs with h
  · rw [h]
    rfl
  · exact resolve_isName path.isName

lemma normalizePath_append_slash (path : Bytes) :
    normalizePath (path ++ [0x2F]) = normalizePath path := by
  ext1
  show resolve (dotKind 0x2E) 0 [] _ = resolve (dotKind 0x2E) 0 [] _
  rw [List.splitOn_append_cons_self, List.splitOn_nil, resolve_append, resolve_cons, resolve_nil,
    visitPart_of_skip rfl]

/-! ### The host -/

/-- The URL of an absolute path. -/
def fileUrl (crate : UrlCrate) (names : List Bytes) : Url where
  host := none
  path :=
    if h : names = [] then .root
    else
      { segments := names.map (percentEncode crate.keep)
        segments_ne := by simpa using h
        slash_notMem := by
          intro segment hmem
          obtain ⟨name, -, rfl⟩ := List.mem_map.mp hmem
          exact crate.slash_notMem_percentEncode name }

/-- What the `url` crate and the process add for the paths of the host. -/
structure HostPaths (crate : UrlCrate) where
  /-- `Url::from_file_path`, absent on an error -/
  fromFilePath : Bytes → Option Url
  /-- `Url::to_file_path`, absent on an error -/
  toFilePath : Url → Option Bytes
  /-- `dirs::home_dir` -/
  homeDir : Option Bytes
  /-- the URL of an absolute path has its percent-encoded components for segments -/
  fromFilePath_bytes : ∀ path : AbsolutePathBuf,
    fromFilePath path.bytes = some (fileUrl crate path.names)
  /-- the path of a URL is percent-decoded; a separator may be added -/
  toFilePath_eq : ∀ url : Url, url.host = none → 0 ∉ percentDecode url.path.encoded →
    toFilePath url = some (percentDecode url.path.encoded) ∨
      toFilePath url = some (percentDecode url.path.encoded ++ [0x2F])

def maybeExpandHomeDirectory (homeDir : Option Bytes) (path : Bytes) : Bytes :=
  if toBytes (fromUtf8Lossy path) = path then
    match homeDir, path with
    | some home, [0x7E] => home
    | some home, 0x7E :: 0x2F :: rest => home ++ 0x2F :: rest.dropWhile (· = 0x2F)
    | _, path => path
  else path

def fromAbsolutePathChecked (homeDir : Option Bytes) (path : Bytes) : Option AbsolutePathBuf :=
  let expanded := maybeExpandHomeDirectory homeDir path
  if expanded.head? = some 0x2F then some (normalizePath expanded) else none

lemma fromAbsolutePathChecked_of_head {homeDir : Option Bytes} {path : Bytes}
    (h : path.head? = some 0x2F) :
    fromAbsolutePathChecked homeDir path = some (normalizePath path) := by
  have hexpand : maybeExpandHomeDirectory homeDir path = path := by
    cases path with
    | nil => cases h
    | cons b rest =>
      cases h
      unfold maybeExpandHomeDirectory
      split_ifs
      · cases homeDir <;> rfl
      · rfl
  simp only [fromAbsolutePathChecked, hexpand, if_pos h]

namespace HostPaths

variable {crate : UrlCrate} (host : HostPaths crate)

def fromAbsPath (path : AbsolutePathBuf) : Option PathUri :=
  match (host.fromFilePath path.bytes).bind fun url => (tryFrom url).toOption with
  | some uri => some uri
  | none => fromOpaquePathBytes path.bytes

def toAbsPath (uri : PathUri) : Except PathUriParseError AbsolutePathBuf :=
  let error := PathUriParseError.invalidFileUriPath uri.url.asStr
  if inferPathConvention uri ≠ some .posix then .error error
  else
    match decodeBadPathUri uri.url with
    | some pathBytes =>
      match fromAbsolutePathChecked host.homeDir pathBytes with
      | some path => if host.fromAbsPath path = some uri then .ok path else .error error
      | none => .error error
    | none =>
      match host.toFilePath uri.url with
      | some path =>
        match fromAbsolutePathChecked host.homeDir path with
        | some path => .ok path
        | none => .error error
      | none => .error error

end HostPaths

/-! ### Converting back -/

section convert

variable {crate : UrlCrate} {path : AbsolutePathBuf}

variable (path)

lemma percentDecode_fileUrl :
    percentDecode (fileUrl crate path.names).path.encoded = path.bytes := by
  have hdecode : ∀ name : Bytes, percentDecode (percentEncode crate.keep name) = name :=
    percentDecode_percentEncode crate.keep_ascii crate.keep_percent
  rw [UrlPath.encoded, percentDecode_flatMap_slash, AbsolutePathBuf.bytes, fileUrl]
  split_ifs with h
  · rfl
  · rw [List.flatMap_map]
    simp only [hdecode]

lemma toNat_ofNat_of_isAlpha {b : UInt8} (h : (Char.ofNat b.toNat).isAlpha = true) :
    b.toNat < 128 := by
  have hall : ∀ n < 256, (Char.ofNat n).isAlpha = true → n < 128 := by decide +kernel
  exact hall b.toNat b.toNat_lt h

/-- The name of a drive is spelled like one in a URL, and no other name is. -/
theorem isWindowsDriveUriSegment_percentEncode (name : Bytes) :
    isWindowsDriveUriSegment (percentEncode crate.keep name) = isDriveName name := by
  rw [Bool.eq_iff_iff, isWindowsDriveUriSegment_iff, isDriveName_iff]
  constructor
  · rintro ⟨drive, halpha, hencode⟩
    have hdrive : drive ≠ '%' := by
      rintro rfl
      cases halpha
    have hlt := toNat_lt_of_isAlpha halpha
    have hdecode := percentDecode_percentEncode crate.keep_ascii crate.keep_percent name
    rw [hencode, percentDecode_cons_of_ne hdrive, utf8EncodeChar_of_lt hlt] at hdecode
    refine ⟨.ofNat drive.toNat, ?_, hdecode.symm⟩
    rw [UInt8.toNat_ofNat', Nat.mod_eq_of_lt (by omega), Char.ofNat_toNat]
    exact halpha
  · rintro ⟨drive, halpha, rfl⟩
    have hlt := toNat_ofNat_of_isAlpha halpha
    have hdrive := crate.keep_drive (Char.ofNat drive.toNat) (.inl halpha)
    rw [ofNat_toNat_of_lt hlt, UInt8.ofNat_toNat] at hdrive
    have hcolon : crate.keep 0x3A = true := crate.keep_drive ':' (.inr rfl)
    refine ⟨Char.ofNat drive.toNat, halpha, ?_⟩
    rw [percentEncode_cons, percentEncodeByte, if_pos hdrive, percentEncode_cons, percentEncodeByte,
      if_pos hcolon]
    rfl

lemma any_find?_fileUrl :
    ((fileUrl crate path.names).path.segments.find? (· ≠ [])).any isWindowsDriveUriSegment =
      path.startsWithDrive := by
  obtain ⟨names, hname⟩ := path
  cases names with
  | nil => rfl
  | cons name names =>
    have hne : percentEncode crate.keep name ≠ [] := by
      rw [Ne, percentEncode_eq_nil_iff]
      exact (hname name List.mem_cons_self).1
    have hfind : (fileUrl crate (name :: names)).path.segments.find? (· ≠ []) =
        some (percentEncode crate.keep name) := by
      rw [fileUrl, dif_neg (List.cons_ne_nil _ _)]
      exact List.find?_cons_of_pos (decide_eq_true hne)
    rw [hfind]
    exact isWindowsDriveUriSegment_percentEncode name

variable {path}

lemma inferUrl_fileUrl (hzero : 0 ∉ path.bytes) :
    inferUrl (fileUrl crate path.names) =
      some (if path.startsWithDrive then .windows else .posix) := by
  have hbad : decodeBadPathUri (fileUrl crate path.names) = none := by
    apply decodeBadPathUri_of_zero_notMem
    rwa [percentDecode_fileUrl]
  have hhost : (fileUrl crate path.names).host.isSome = false := rfl
  rw [inferUrl, hbad]
  simp only [hhost, any_find?_fileUrl, Bool.false_eq_true, if_false]
  split_ifs <;> rfl

lemma fromAbsPath_of_zero_notMem (host : HostPaths crate) (hzero : 0 ∉ path.bytes) :
    ∃ uri, host.fromAbsPath path = some uri ∧ uri.url = fileUrl crate path.names := by
  have hvalid : validateFileUrl (fileUrl crate path.names) = .ok () := by
    rw [validateFileUrl_eq_ok_iff, percentDecode_fileUrl]
    exact fun h => absurd h hzero
  refine ⟨⟨_, hvalid, nofun⟩, ?_, rfl⟩
  rw [HostPaths.fromAbsPath, host.fromFilePath_bytes, Option.bind_some,
    tryFrom_of_valid hvalid nofun]
  rfl

/-- **A path without null bytes converts back, unless it starts like a drive.** -/
theorem toAbsPath_fromAbsPath (host : HostPaths crate) (hzero : 0 ∉ path.bytes) :
    ∃ uri, host.fromAbsPath path = some uri ∧ host.toAbsPath uri =
        if path.startsWithDrive then .error (.invalidFileUriPath uri.url.asStr) else .ok path := by
  obtain ⟨uri, hfrom, hurl⟩ := fromAbsPath_of_zero_notMem host hzero
  refine ⟨uri, hfrom, ?_⟩
  have hinfer : inferPathConvention uri =
      some (if path.startsWithDrive then .windows else .posix) := by
    rw [inferPathConvention, hurl, inferUrl_fileUrl hzero]
  have hdecode : percentDecode uri.url.path.encoded = path.bytes := by
    rw [hurl, percentDecode_fileUrl]
  have hbad : decodeBadPathUri uri.url = none := by
    apply decodeBadPathUri_of_zero_notMem
    rwa [hdecode]
  unfold HostPaths.toAbsPath
  rw [hinfer, hbad]
  by_cases hdrive : path.startsWithDrive = true
  · rw [if_pos hdrive, if_pos hdrive]
    rfl
  · have htoFile := host.toFilePath_eq uri.url (by rw [hurl]; rfl) (by rwa [hdecode])
    have hslash : (path.bytes ++ [0x2F]).head? = some 0x2F := by
      rw [List.head?_append, path.bytes_head]
      rfl
    rw [hdecode] at htoFile
    rw [if_neg hdrive, if_neg hdrive]
    rcases htoFile with htoFile | htoFile
    · simp only [htoFile, fromAbsolutePathChecked_of_head path.bytes_head, normalizePath_bytes]
      rfl
    · simp only [htoFile, fromAbsolutePathChecked_of_head hslash, normalizePath_append_slash,
        normalizePath_bytes]
      rfl

end convert

/-! ### A host for plain texts -/

/-- Whether the bytes end with a letter and a colon or a bar after it. -/
def endsWithDriveLetter (bytes : Bytes) : Bool :=
  match bytes.reverse with
  | mark :: letter :: _ :: _ => [0x3A, 0x7C].contains mark &&
      ((0x41 ≤ letter && letter ≤ 0x5A) || (0x61 ≤ letter && letter ≤ 0x7A))
  | _ => false

/-- A host without a home directory; a path that ends like a drive is given a slash. -/
def plainHost : HostPaths plainCrate where
  fromFilePath := fun path =>
    if path.head? = some 0x2F then some (fileUrl plainCrate (normalizePath path).names) else none
  toFilePath := fun url =>
    let path := percentDecode url.path.encoded
    if url.host = none then
      some (if endsWithDriveLetter path then path ++ [0x2F] else path)
    else none
  homeDir := none
  fromFilePath_bytes := fun path => by rw [if_pos path.bytes_head, normalizePath_bytes]
  toFilePath_eq := fun url hhost _ => by
    simp only [hhost, if_true]
    split_ifs
    · exact .inr rfl
    · exact .inl rfl

/-- The path `/C:/src`. -/
def driveShapedPath : AbsolutePathBuf where
  names := [[0x43, 0x3A], [0x73, 0x72, 0x63]]
  isName := by decide

theorem fromAbsPath_driveShapedPath :
    ((plainHost.fromAbsPath driveShapedPath).map fun uri => plainHost.toAbsPath uri) ≠
      some (.ok driveShapedPath) := by
  decide +kernel

/-- The path `/src/C:`. -/
def srcPath : AbsolutePathBuf where
  names := [[0x73, 0x72, 0x63], [0x43, 0x3A]]
  isName := by decide

theorem toAbsPath_fromAbsPath_srcPath :
    ∃ uri, plainHost.fromAbsPath srcPath = some uri ∧ plainHost.toAbsPath uri = .ok srcPath :=
  toAbsPath_fromAbsPath plainHost (by decide)

end Codex.PathUri
