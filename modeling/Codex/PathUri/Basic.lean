import Codex.PathUri.Url

/-!
# Path URIs

`utils/path-uri`: a `PathUri` is a file URL whose path has no null byte, unless it is an opaque
fallback, and whose host is not `localhost`. Its shape says under which convention it is read.

* `zero_notMem_percentDecode_encoded_iff`: a path has a null byte when one of its segments does;
* `inferUrl_badPathUrl`: an opaque fallback is read under the convention of its payload.
-/

namespace Codex.PathUri

open Codex.Lib

inductive PathConvention where
  | posix
  | windows
  deriving DecidableEq

/-- `PathUriParseError`, for what a file URL of the model can meet -/
inductive PathUriParseError where
  | invalidFileUriPath (path : Text)
  deriving DecidableEq

/-! ### Validation -/

def validateFileUrl (url : Url) : Except PathUriParseError Unit :=
  if 0 ∈ percentDecode url.path.encoded ∧ decodeBadPathUri url = none then
    .error (.invalidFileUriPath url.asStr)
  else .ok ()

def withoutLocalhostAuthority (url : Url) : Url :=
  if url.host.map Host.text = some "localhost".toList then { url with host := none } else url

lemma validateFileUrl_eq_ok_iff {url : Url} :
    validateFileUrl url = .ok () ↔
      (0 ∈ percentDecode url.path.encoded → ∃ bytes ≠ [], url = badPathUrl bytes) := by
  have hbad : decodeBadPathUri url = none ↔ ¬∃ bytes ≠ [], url = badPathUrl bytes := by
    rw [Option.eq_none_iff_forall_ne_some]
    constructor
    · rintro h ⟨bytes, hne, hurl⟩
      exact h bytes (decodeBadPathUri_eq_some_iff.mpr ⟨hne, hurl⟩)
    · intro h bytes hsome
      obtain ⟨hne, hurl⟩ := decodeBadPathUri_eq_some_iff.mp hsome
      exact h ⟨bytes, hne, hurl⟩
  rw [validateFileUrl]
  split_ifs with h
  · exact iff_of_false nofun fun himp => hbad.mp h.2 (himp h.1)
  · refine iff_of_true rfl fun hzero => ?_
    by_contra hnone
    exact h ⟨hzero, hbad.mpr hnone⟩

/-- The path is not changed, and what becomes of the host does not depend on it. -/
theorem withoutLocalhostAuthority_mk (host : Option Host) (path other : UrlPath) :
    (withoutLocalhostAuthority ⟨host, path⟩).path = path ∧
      (withoutLocalhostAuthority ⟨host, path⟩).host =
        (withoutLocalhostAuthority ⟨host, other⟩).host := by
  rw [withoutLocalhostAuthority, withoutLocalhostAuthority]
  split_ifs
  · exact ⟨rfl, rfl⟩
  · exact ⟨rfl, rfl⟩

lemma host_withoutLocalhostAuthority_ne (url : Url) :
    (withoutLocalhostAuthority url).host.map Host.text ≠ some "localhost".toList := by
  rw [withoutLocalhostAuthority]
  split_ifs with h
  · exact (Option.some_ne_none _).symm
  · exact h

lemma validateFileUrl_withoutLocalhostAuthority {url : Url} (h : validateFileUrl url = .ok ()) :
    validateFileUrl (withoutLocalhostAuthority url) = .ok () := by
  rw [validateFileUrl_eq_ok_iff] at h ⊢
  rw [withoutLocalhostAuthority]
  split_ifs with hlocal
  · intro hzero
    obtain ⟨bytes, -, rfl⟩ := h hzero
    cases hlocal
  · exact h

end Codex.PathUri

namespace Codex

open Codex.PathUri in
/-- `PathUri` -/
@[ext]
structure PathUri where
  url : Url
  valid : validateFileUrl url = .ok ()
  host_ne : url.host.map Host.text ≠ some "localhost".toList
  deriving DecidableEq

end Codex

namespace Codex.PathUri

open Codex.Lib

/-! ### Construction -/

/-- `PathUri::try_from`, of a file URL -/
def tryFrom (url : Url) : Except PathUriParseError PathUri :=
  match h : validateFileUrl url with
  | .error error => .error error
  | .ok () =>
    .ok
      { url := withoutLocalhostAuthority url
        valid := validateFileUrl_withoutLocalhostAuthority h
        host_ne := host_withoutLocalhostAuthority_ne url }

variable {url : Url} {uri : PathUri}

/-- When a URL is accepted, and what becomes of it. -/
theorem tryFrom_eq_ok :
    tryFrom url = .ok uri ↔
      validateFileUrl url = .ok () ∧ uri.url = withoutLocalhostAuthority url := by
  rw [tryFrom]
  split
  next error h => exact iff_of_false nofun fun hok => absurd (h.symm.trans hok.1) nofun
  next h =>
    rw [Except.ok.injEq, PathUri.ext_iff]
    exact ⟨fun hurl => ⟨h, hurl.symm⟩, fun hurl => hurl.2.symm⟩

lemma exists_tryFrom (h : validateFileUrl url = .ok ()) :
    ∃ uri, tryFrom url = .ok uri ∧ uri.url = withoutLocalhostAuthority url := by
  cases htry : tryFrom url with
  | error error =>
    rw [tryFrom] at htry
    split at htry
    next other hother => exact absurd (hother.symm.trans h) nofun
    next => exact absurd htry nofun
  | ok uri => exact ⟨uri, rfl, (tryFrom_eq_ok.mp htry).2⟩

lemma tryFrom_of_valid (hvalid : validateFileUrl url = .ok ())
    (hhost : url.host.map Host.text ≠ some "localhost".toList) :
    tryFrom url = .ok ⟨url, hvalid, hhost⟩ := by
  rw [tryFrom_eq_ok, withoutLocalhostAuthority, if_neg hhost]
  exact ⟨hvalid, rfl⟩

variable (pathBytes : Bytes)

/-- `from_opaque_path_bytes`; absent where the code does not return -/
def fromOpaquePathBytes : Option PathUri :=
  (tryFrom (badPathUrl pathBytes)).toOption

lemma validateFileUrl_badPathUrl {pathBytes : Bytes} (h : pathBytes ≠ []) :
    validateFileUrl (badPathUrl pathBytes) = .ok () :=
  validateFileUrl_eq_ok_iff.mpr fun _ => ⟨pathBytes, h, rfl⟩

lemma none_ne_localhost : none ≠ some "localhost".toList := (Option.some_ne_none _).symm

/-- The opaque fallback of a path. -/
def opaqueUri (h : pathBytes ≠ []) : PathUri where
  url := badPathUrl pathBytes
  valid := validateFileUrl_badPathUrl h
  host_ne := none_ne_localhost

lemma fromOpaquePathBytes_of_ne_nil {pathBytes : Bytes} (h : pathBytes ≠ []) :
    fromOpaquePathBytes pathBytes = some (opaqueUri pathBytes h) := by
  have hok := tryFrom_of_valid (validateFileUrl_badPathUrl h) (opaqueUri pathBytes h).host_ne
  rw [fromOpaquePathBytes, hok]
  rfl

/-! ### Null bytes -/

lemma percentDecode_flatMap_slash (segments : List Text) :
    percentDecode (segments.flatMap ('/' :: ·)) =
      segments.flatMap fun segment => 0x2F :: percentDecode segment := by
  have hslash : ∀ text : Text, percentDecode ('/' :: text) = 0x2F :: percentDecode text := by
    intro text
    rw [percentDecode_cons_of_ne (by decide)]
    rfl
  induction segments with
  | nil => rfl
  | cons segment segments ih =>
    rw [List.flatMap_cons, List.flatMap_cons, ← ih, List.cons_append, hslash, List.cons_append]
    cases segments with
    | nil => rw [List.flatMap_nil, List.append_nil, percentDecode_nil, List.append_nil]
    | cons next segments =>
      rw [List.flatMap_cons, List.cons_append, percentDecode_append_slash]

/-- A path has a null byte when one of its segments does. -/
theorem zero_mem_percentDecode_encoded_iff {path : UrlPath} :
    0 ∈ percentDecode path.encoded ↔ ∃ segment ∈ path.segments, 0 ∈ percentDecode segment := by
  rw [UrlPath.encoded, percentDecode_flatMap_slash, List.mem_flatMap]
  have hzero : (0 : UInt8) ≠ 0x2F := by decide
  simp only [List.mem_cons, hzero, false_or]

lemma zero_mem_percentDecode_encoded_iff_named {path : UrlPath} :
    0 ∈ percentDecode path.encoded ↔ ∃ segment ∈ path.named, 0 ∈ percentDecode segment := by
  rw [zero_mem_percentDecode_encoded_iff]
  constructor
  · rintro ⟨segment, hmem, hzero⟩
    refine ⟨segment, List.mem_filter.mpr ⟨hmem, decide_eq_true ?_⟩, hzero⟩
    rintro rfl
    cases hzero
  · rintro ⟨segment, hmem, hzero⟩
    exact ⟨segment, (List.mem_filter.mp hmem).1, hzero⟩

lemma zero_mem_percentDecode_badPathUrl : 0 ∈ percentDecode (badPathUrl pathBytes).path.encoded :=
  zero_mem_percentDecode_encoded_iff.mpr ⟨['%', '0', '0'], List.mem_cons_self, by decide⟩

/-- A URI that is not an opaque fallback has no null byte. -/
theorem zero_notMem_of_decodeBadPathUri (h : decodeBadPathUri uri.url = none) :
    0 ∉ percentDecode uri.url.path.encoded := by
  intro hzero
  obtain ⟨bytes, hne, hurl⟩ := validateFileUrl_eq_ok_iff.mp uri.valid hzero
  rw [decodeBadPathUri_eq_some_iff.mpr ⟨hne, hurl⟩] at h
  cases h

lemma decodeBadPathUri_of_zero_notMem (h : 0 ∉ percentDecode url.path.encoded) :
    decodeBadPathUri url = none := by
  rw [Option.eq_none_iff_forall_ne_some]
  intro bytes hsome
  obtain ⟨-, rfl⟩ := decodeBadPathUri_eq_some_iff.mp hsome
  exact h (zero_mem_percentDecode_badPathUrl bytes)

/-- An opaque fallback is one of a path that is not empty. -/
theorem decodeBadPathUri_of_fromOpaquePathBytes {pathBytes : Bytes}
    (h : fromOpaquePathBytes pathBytes = some uri) :
    decodeBadPathUri uri.url = some pathBytes := by
  by_cases hne : pathBytes = []
  · have hreject : validateFileUrl (badPathUrl pathBytes) ≠ .ok () := by
      rw [Ne, validateFileUrl_eq_ok_iff]
      intro hvalid
      obtain ⟨other, hother, hurl⟩ := hvalid (zero_mem_percentDecode_badPathUrl pathBytes)
      have hencode := congrArg (fun url : Url => url.path.segments.getLast?) hurl
      rw [hne] at hencode
      exact hother (Base64.encodeUrlSafe_eq_nil_iff.mp (Option.some.inj hencode).symm)
    rw [fromOpaquePathBytes] at h
    cases htry : tryFrom (badPathUrl pathBytes) with
    | error error =>
      rw [htry] at h
      cases h
    | ok other => exact absurd (tryFrom_eq_ok.mp htry).1 hreject
  · rw [fromOpaquePathBytes_of_ne_nil hne] at h
    cases h
    exact decodeBadPathUri_eq_some_iff.mpr ⟨hne, rfl⟩

/-! ### Conventions -/

def isWindowsDriveUriSegment : Text → Bool
  | [drive, ':'] => drive.isAlpha
  | _ => false

lemma isWindowsDriveUriSegment_iff {segment : Text} :
    isWindowsDriveUriSegment segment = true ↔
      ∃ drive, drive.isAlpha = true ∧ segment = [drive, ':'] := by
  constructor
  · intro h
    unfold isWindowsDriveUriSegment at h
    split at h
    next drive => exact ⟨drive, h, rfl⟩
    next => exact absurd h Bool.false_ne_true
  · rintro ⟨drive, h, rfl⟩
    exact h

/-- The name of a drive is not changed by the encoding, and no other name becomes one. -/
theorem isWindowsDriveUriSegment_encode (crate : UrlCrate) (segment : Text) :
    isWindowsDriveUriSegment (crate.encode segment) = isWindowsDriveUriSegment segment := by
  rw [Bool.eq_iff_iff, isWindowsDriveUriSegment_iff, isWindowsDriveUriSegment_iff]
  constructor
  · rintro ⟨drive, halpha, hencode⟩
    rw [← crate.encode_drive halpha] at hencode
    exact ⟨drive, halpha, crate.encode_injective hencode⟩
  · rintro ⟨drive, halpha, rfl⟩
    exact ⟨drive, halpha, crate.encode_drive halpha⟩

def inferOpaquePathConvention : Option PathConvention :=
  if pathBytes.head? = some 0x2F then some .posix
  else if pathBytes.length % 2 ≠ 0 then none
  else
    match wideUnits pathBytes with
    | first :: second :: _ =>
      if (first.toNat < 256 ∧ (Char.ofNat first.toNat).isAlpha ∧ second = 0x3A) ∨
          (first = 0x5C ∧ second = 0x5C) then
        some .windows
      else none
    | _ => none

/-- `infer_path_convention` -/
def inferUrl (url : Url) : Option PathConvention :=
  match decodeBadPathUri url with
  | some pathBytes => inferOpaquePathConvention pathBytes
  | none =>
    if url.host.isSome then some .windows
    else if (url.path.segments.find? (· ≠ [])).any isWindowsDriveUriSegment then some .windows
    else some .posix

def inferPathConvention (uri : PathUri) : Option PathConvention := inferUrl uri.url

/-- The `anchor_depth` of a convention -/
def PathConvention.anchorDepth : PathConvention → ℕ
  | .posix => 0
  | .windows => 1

lemma inferUrl_of_decodeBadPathUri (hbad : decodeBadPathUri url = none) :
    inferUrl url =
      some (if url.host.isSome ∨ url.path.named.head?.any isWindowsDriveUriSegment then .windows
        else .posix) := by
  rw [inferUrl, hbad, UrlPath.named, List.head?_filter]
  split_ifs <;> simp_all

end Codex.PathUri
