import Codex.PathUri.Normalize

/-!
# Native paths

`from_absolute_native_path` reads the text of an absolute path under a convention, `from_path_uri`
renders a URI under one. `NativeText` says which texts are read segment by segment: from the root,
from a drive, or from a share; the other absolute texts are opaque fallbacks.
-/

namespace Codex.PathUri

open Codex.Lib

/-! ### Reading -/

/-- `is_windows_separator_char` -/
def isWindowsSeparator (c : Char) : Bool := c == '\\' || c == '/'

namespace PathConvention

/-- The separators of `PathConvention::path_segments` -/
def isSeparator : PathConvention → Char → Bool
  | .posix => (· == '/')
  | .windows => isWindowsSeparator

/-- The separator that is rendered. -/
def separator : PathConvention → Char
  | .posix => '/'
  | .windows => '\\'

def pathSegments (convention : PathConvention) (path : Text) : List Text :=
  path.splitOnP convention.isSeparator

end PathConvention

def windowsOpaquePathUri (path : Text) : Option PathUri :=
  fromOpaquePathBytes ((encodeUtf16 path).flatMap toLeBytes)

variable (crate : UrlCrate) (path : Text)

def parsePosixPath : Option PathUri := do
  let rest ← stripPrefix ['/'] path
  if '\x00' ∈ rest then fromOpaquePathBytes (toBytes ('/' :: rest))
  else pathUriFromSegments crate .posix none (rest.splitOnP (· == '/'))

/-- `uses_namespace` in `parse_windows_path` -/
def usesNamespace : Text → Bool
  | first :: second :: ns :: separator :: _ =>
    isWindowsSeparator first && isWindowsSeparator second && isWindowsSeparator separator &&
      (ns == '.' || ns == '?')
  | _ => false

/-- `parse_windows_path`, the pattern of a drive root -/
def isDriveRoot : Text → Bool
  | drive :: colon :: separator :: _ =>
    drive.isAlpha && colon == ':' && isWindowsSeparator separator
  | _ => false

def parseWindowsPath : Option PathUri :=
  if usesNamespace path ∨ '\x00' ∈ path then windowsOpaquePathUri path
  else if isDriveRoot path then
    pathUriFromSegments crate .windows none
      (path.take 2 :: (path.drop 3).splitOnP isWindowsSeparator)
  else
    match path with
    | first :: second :: rest =>
      if isWindowsSeparator first ∧ isWindowsSeparator second then
        match rest.splitOnP isWindowsSeparator with
        | host :: share :: components =>
          if host = [] ∨ share = [] then none
          else
            (pathUriFromSegments crate .windows (some host) (share :: components)).or
              (windowsOpaquePathUri path)
        | _ => none
      else none
    | _ => none

def fromAbsoluteNativePath : PathConvention → Option PathUri
  | .posix => parsePosixPath crate path
  | .windows => parseWindowsPath crate path

/-! ### Rendering -/

/-- `LegacyAppPathStringError`, of `from_path_uri` -/
inductive LegacyAppPathStringError where
  | opaqueFallback (path : Text)
  | incompatibleConvention (path : Text) (convention : PathConvention)
  deriving DecidableEq

def decodeNativeSegment (segment : Text) : Text := fromUtf8Lossy (percentDecode segment)

/-- `is_windows_separator` -/
def isWindowsSeparatorUnit (unit : UInt16) : Bool := unit == 0x5C || unit == 0x2F

def renderWindowsOpaqueFallback (pathBytes : Bytes) : Option Text :=
  if pathBytes.length % 2 ≠ 0 then none
  else
    let pathWide := wideUnits pathBytes
    let hasDriveRoot :=
      match pathWide with
      | drive :: colon :: separator :: _ =>
        ((0x41 ≤ drive && drive ≤ 0x5A) || (0x61 ≤ drive && drive ≤ 0x7A)) && colon == 0x3A &&
          isWindowsSeparatorUnit separator
      | _ => false
    let hasNamespaceOrUncRoot :=
      match pathWide with
      | first :: second :: _ => isWindowsSeparatorUnit first && isWindowsSeparatorUnit second
      | _ => false
    if hasDriveRoot || hasNamespaceOrUncRoot then some (fromUtf16Lossy pathWide) else none

variable (uri : PathUri)

def renderOpaqueFallback (pathBytes : Bytes) :
    PathConvention → Except LegacyAppPathStringError Text
  | .posix =>
    if pathBytes.head? = some 0x2F then .ok (fromUtf8Lossy pathBytes)
    else .error (.opaqueFallback uri.url.asStr)
  | .windows =>
    match renderWindowsOpaqueFallback pathBytes with
    | some rendered => .ok rendered
    | none => .error (.opaqueFallback uri.url.asStr)

def renderPosixPath : Except LegacyAppPathStringError Text :=
  if uri.url.host.isSome then .error (.incompatibleConvention uri.url.asStr .posix)
  else .ok (uri.url.path.segments.flatMap fun segment => '/' :: decodeNativeSegment segment)

/-- The end of `render_windows_path` -/
def renderWindowsSegments (anchor : Text) (segments : List Text) : Text :=
  let rendered := anchor ++ segments.flatMap fun segment => '\\' :: decodeNativeSegment segment
  match toBytes rendered with
  | [_, 0x3A] => rendered ++ ['\\']
  | _ => rendered

def renderWindowsPath : Except LegacyAppPathStringError Text :=
  let error := LegacyAppPathStringError.incompatibleConvention uri.url.asStr .windows
  match uri.url.host, uri.url.path.segments with
  | some host, share :: segments =>
    if decodeNativeSegment share = [] then .error error
    else
      .ok (renderWindowsSegments
        (['\\', '\\'] ++ host.text ++ '\\' :: decodeNativeSegment share) segments)
  | none, drive :: segments =>
    if isWindowsDriveUriSegment (decodeNativeSegment drive) then
      .ok (renderWindowsSegments (decodeNativeSegment drive) segments)
    else .error error
  | _, [] => .error error

def fromPathUri (convention : PathConvention) : Except LegacyAppPathStringError Text :=
  match decodeBadPathUri uri.url with
  | some pathBytes => renderOpaqueFallback uri pathBytes convention
  | none =>
    match convention with
    | .posix => renderPosixPath uri
    | .windows => renderWindowsPath uri

/-! ### Texts that are read segment by segment -/

/-- An absolute text, the host that it names and its segments. -/
inductive NativeText : PathConvention → Text → Option Text → List Text → Prop
  | root (rest : Text) : NativeText .posix ('/' :: rest) none (rest.splitOnP (· == '/'))
  | drive {drive separator : Char} (rest : Text) (hdrive : drive.isAlpha = true)
      (hseparator : isWindowsSeparator separator = true) :
      NativeText .windows (drive :: ':' :: separator :: rest) none
        ([drive, ':'] :: rest.splitOnP isWindowsSeparator)
  | share {first second : Char} {rest host share : Text} {components : List Text}
      (hfirst : isWindowsSeparator first = true) (hsecond : isWindowsSeparator second = true)
      (hnamespace : usesNamespace (first :: second :: rest) = false)
      (hsplit : rest.splitOnP isWindowsSeparator = host :: share :: components) (hhost : host ≠ [])
      (hshare : share ≠ []) :
      NativeText .windows (first :: second :: rest) (some host) (share :: components)

section nativeText

variable {crate : UrlCrate} {convention : PathConvention} {text : Text} {host : Option Text}
  {segments : List Text} {uri : PathUri}

lemma usesNamespace_cons_append {first second : Char} {rest : Text} (hrest : 2 ≤ rest.length)
    (more : Text) : usesNamespace (first :: second :: rest ++ more) =
      usesNamespace (first :: second :: rest) := by
  match rest, hrest with
  | third :: fourth :: rest, _ => rfl

lemma length_of_splitOnP_eq {rest first second : Text} {others : List Text}
    (h : rest.splitOnP isWindowsSeparator = first :: second :: others) (hfirst : first ≠ []) :
    2 ≤ rest.length := by
  match rest, h with
  | [], h => cases h
  | [c], h =>
    exfalso
    rw [List.splitOnP_cons_eq_if_modifyHead] at h
    split_ifs at h
    · exact hfirst (List.cons.inj h).1.symm
    · simp at h
  | _ :: _ :: rest, _ => simp

/-- What is put after a separator adds its segments. -/
theorem NativeText.append (h : NativeText convention text host segments) (relative : Text) :
    NativeText convention (text ++ convention.separator :: relative) host
      (segments ++ convention.pathSegments relative) := by
  cases h with
  | root rest =>
    have hsplit : (rest ++ '/' :: relative).splitOnP (· == '/') =
        rest.splitOnP (· == '/') ++ relative.splitOnP (· == '/') :=
      List.splitOnP_append_cons rest relative rfl
    have happend := NativeText.root (rest ++ '/' :: relative)
    rw [hsplit] at happend
    exact happend
  | drive rest hdrive hseparator =>
    have hsplit : (rest ++ '\\' :: relative).splitOnP isWindowsSeparator =
        rest.splitOnP isWindowsSeparator ++ relative.splitOnP isWindowsSeparator :=
      List.splitOnP_append_cons rest relative rfl
    have happend := NativeText.drive (rest ++ '\\' :: relative) hdrive hseparator
    rw [hsplit] at happend
    exact happend
  | @share first second rest host share components hfirst hsecond hnamespace hsplit hhost hshare =>
    have happend : (rest ++ '\\' :: relative).splitOnP isWindowsSeparator =
        rest.splitOnP isWindowsSeparator ++ relative.splitOnP isWindowsSeparator :=
      List.splitOnP_append_cons rest relative rfl
    rw [hsplit, List.cons_append, List.cons_append] at happend
    refine .share hfirst hsecond ?_ happend hhost hshare
    rw [← hnamespace]
    exact usesNamespace_cons_append (length_of_splitOnP_eq hsplit hhost) _

lemma isWindowsSeparator_of_isAlpha {c : Char} (h : c.isAlpha = true) :
    isWindowsSeparator c = false := by
  rw [isWindowsSeparator, Bool.or_eq_false_iff, beq_eq_false_iff_ne, beq_eq_false_iff_ne]
  constructor
  · rintro rfl
    cases h
  · rintro rfl
    cases h

lemma usesNamespace_of_not_separator {first : Char} (h : isWindowsSeparator first = false)
    (rest : Text) : usesNamespace (first :: rest) = false := by
  match rest with
  | [] => rfl
  | [_] => rfl
  | [_, _] => rfl
  | _ :: _ :: _ :: _ => simp [usesNamespace, h]

lemma isDriveRoot_of_separator {first : Char} (h : isWindowsSeparator first = true)
    (rest : Text) : isDriveRoot (first :: rest) = false := by
  have halpha : first.isAlpha = false := by
    by_contra hne
    rw [isWindowsSeparator_of_isAlpha (Bool.not_eq_false _ ▸ hne)] at h
    exact Bool.false_ne_true h
  match rest with
  | [] => rfl
  | [_] => rfl
  | _ :: _ :: _ => simp [isDriveRoot, halpha]

lemma parse_of_nativeText (h : NativeText convention text host segments) (hplain : '\x00' ∉ text)
    (hsome : (pathUriFromSegments crate convention host segments).isSome) :
    fromAbsoluteNativePath crate text convention =
      pathUriFromSegments crate convention host segments := by
  cases h with
  | root rest =>
    have hrest : '\x00' ∉ rest := fun hmem => hplain (List.mem_cons_of_mem _ hmem)
    have hstrip : stripPrefix ['/'] ('/' :: rest) = some rest := stripPrefix_append ['/'] rest
    show parsePosixPath crate ('/' :: rest) = _
    rw [parsePosixPath, hstrip]
    exact if_neg hrest
  | @drive drive separator rest hdrive hseparator =>
    have hnamespace : usesNamespace (drive :: ':' :: separator :: rest) = false :=
      usesNamespace_of_not_separator (isWindowsSeparator_of_isAlpha hdrive) _
    have hroot : isDriveRoot (drive :: ':' :: separator :: rest) = true := by
      simp [isDriveRoot, hdrive, hseparator]
    show parseWindowsPath crate (drive :: ':' :: separator :: rest) = _
    rw [parseWindowsPath, if_neg (by simp [hnamespace, hplain]), if_pos hroot]
    rfl
  | @share first second rest host share components hfirst hsecond hnamespace hsplit hhost hshare =>
    have hroot := isDriveRoot_of_separator hfirst (second :: rest)
    obtain ⟨uri, huri⟩ := Option.isSome_iff_exists.mp hsome
    show parseWindowsPath crate (first :: second :: rest) = _
    rw [parseWindowsPath, if_neg (by simp [hnamespace, hplain]), if_neg (by simp [hroot])]
    simp only [hfirst, hsecond, hsplit, hhost, hshare, huri, and_self, if_true, or_self, if_false]
    rfl

/-- A text with a null character is an opaque fallback. -/
theorem exists_decodeBadPathUri_of_null (hnull : '\x00' ∈ text)
    (hparse : fromAbsoluteNativePath crate text convention = some uri) :
    (decodeBadPathUri uri.url).isSome := by
  cases convention with
  | posix =>
    obtain ⟨rest, hstrip, hrest⟩ := Option.bind_eq_some_iff.mp hparse
    obtain rfl := stripPrefix_eq_some.mp hstrip
    have hmem : '\x00' ∈ rest := by
      rcases List.mem_append.mp hnull with hmem | hmem
      · exact absurd hmem (by decide)
      · exact hmem
    rw [if_pos hmem] at hrest
    exact Option.isSome_of_mem (decodeBadPathUri_of_fromOpaquePathBytes hrest)
  | windows =>
    replace hparse : parseWindowsPath crate text = some uri := hparse
    unfold parseWindowsPath at hparse
    rw [if_pos (.inr hnull)] at hparse
    exact Option.isSome_of_mem (decodeBadPathUri_of_fromOpaquePathBytes hparse)

lemma NativeText.plain (h : NativeText convention text host segments) (hplain : '\x00' ∉ text) :
    ∀ segment ∈ segments, '\x00' ∉ segment := by
  intro segment hsegment hnull
  cases h with
  | root rest => exact hplain (List.mem_cons_of_mem _ (mem_of_mem_splitOnP hsegment hnull))
  | drive rest hdrive hseparator =>
    rcases List.mem_cons.mp hsegment with rfl | hsegment
    · refine hplain ?_
      rcases List.mem_cons.mp hnull with hnull | hnull
      · exact hnull ▸ List.mem_cons_self
      · exact absurd hnull (by decide)
    · have hrest := mem_of_mem_splitOnP hsegment hnull
      exact hplain (List.mem_cons_of_mem _ (List.mem_cons_of_mem _ (List.mem_cons_of_mem _ hrest)))
  | share hfirst hsecond hnamespace hsplit hhost hshare =>
    have hpiece := hsplit ▸ List.mem_cons_of_mem _ hsegment
    have hrest := mem_of_mem_splitOnP hpiece hnull
    exact hplain (List.mem_cons_of_mem _ (List.mem_cons_of_mem _ hrest))

/-- The texts of Windows that are kept as they are: of a namespace, or of a host that no URL has. -/
def IsVerbatim (crate : UrlCrate) (text : Text) : Prop :=
  usesNamespace text = true ∨
    ∃ host segments, NativeText .windows text (some host) segments ∧ crate.setHost host = none

/-- What a text without null characters is read as. -/
theorem parse_cases (hplain : '\x00' ∉ text)
    (hparse : fromAbsoluteNativePath crate text convention = some uri) :
    (∃ host segments, NativeText convention text host segments ∧
      pathUriFromSegments crate convention host segments = some uri) ∨
    (convention = .windows ∧ IsVerbatim crate text ∧ windowsOpaquePathUri text = some uri) := by
  cases convention with
  | posix =>
    obtain ⟨rest, hstrip, hrest⟩ := Option.bind_eq_some_iff.mp hparse
    obtain rfl := stripPrefix_eq_some.mp hstrip
    have hnull : '\x00' ∉ rest := fun hnull => hplain (List.mem_cons_of_mem _ hnull)
    rw [if_neg hnull] at hrest
    exact .inl ⟨none, _, .root rest, hrest⟩
  | windows =>
    replace hparse : parseWindowsPath crate text = some uri := hparse
    unfold parseWindowsPath at hparse
    by_cases hnamespace : usesNamespace text = true
    · rw [if_pos (.inl hnamespace)] at hparse
      exact .inr ⟨rfl, .inl hnamespace, hparse⟩
    rw [if_neg (not_or.mpr ⟨hnamespace, hplain⟩)] at hparse
    by_cases hroot : isDriveRoot text = true
    · rw [if_pos hroot] at hparse
      match text, hroot with
      | drive :: colon :: separator :: rest, hroot =>
        simp only [isDriveRoot, Bool.and_eq_true, beq_iff_eq] at hroot
        obtain ⟨⟨hdrive, rfl⟩, hseparator⟩ := hroot
        exact .inl ⟨none, _, .drive rest hdrive hseparator, hparse⟩
    · rw [if_neg hroot] at hparse
      split at hparse
      next first second rest =>
        split_ifs at hparse with hseparators
        obtain ⟨hfirst, hsecond⟩ := hseparators
        split at hparse
        next host share components hsplit =>
          split_ifs at hparse with hempty
          rw [not_or] at hempty
          have hnative := NativeText.share hfirst hsecond (Bool.eq_false_iff.mpr hnamespace) hsplit
            hempty.1 hempty.2
          rcases Option.or_eq_some_iff.mp hparse with hsome | ⟨hnone, hfall⟩
          · exact .inl ⟨some host, _, hnative, hsome⟩
          · refine .inr ⟨rfl, .inr ⟨host, _, hnative, ?_⟩, hfall⟩
            rw [Option.eq_none_iff_forall_ne_some]
            intro setHost hset
            have hhost : urlHost crate (some host) = some (some setHost) :=
              congrArg (Option.map some) hset
            obtain ⟨other, hother, -⟩ :=
              @exists_pathUriFromSegments crate .windows _ _ _ hhost (hnative.plain hplain)
            cases hnone.symm.trans hother
        next => exact absurd hparse (Option.some_ne_none _).symm
      next => exact absurd hparse (Option.some_ne_none _).symm

lemma exists_nativeText_of_parse (hparse : fromAbsoluteNativePath crate text convention = some uri)
    (hbad : decodeBadPathUri uri.url = none) :
    '\x00' ∉ text ∧ ∃ host segments, NativeText convention text host segments ∧
      pathUriFromSegments crate convention host segments = some uri := by
  have hplain : '\x00' ∉ text := by
    intro hnull
    have hsome := exists_decodeBadPathUri_of_null hnull hparse
    rw [hbad] at hsome
    exact Bool.false_ne_true hsome
  refine ⟨hplain, ?_⟩
  rcases parse_cases hplain hparse with hread | ⟨-, -, hfall⟩
  · exact hread
  · simp [decodeBadPathUri_of_fromOpaquePathBytes hfall] at hbad

lemma IsVerbatim.separators (h : IsVerbatim crate text) :
    ∃ first second rest, text = first :: second :: rest ∧ isWindowsSeparator first = true ∧
      isWindowsSeparator second = true := by
  rcases h with hnamespace | ⟨host, segments, hnative, -⟩
  · match text, hnamespace with
    | first :: second :: ns :: separator :: rest, hnamespace =>
      simp only [usesNamespace, Bool.and_eq_true] at hnamespace
      exact ⟨first, second, _, rfl, hnamespace.1.1.1, hnamespace.1.1.2⟩
  · cases hnative with
    | share hfirst hsecond => exact ⟨_, _, _, rfl, hfirst, hsecond⟩

end nativeText

end Codex.PathUri
