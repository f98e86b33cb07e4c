import Codex.Lib.PercentEncoding
import Codex.Lib.Base64
import Codex.Lib.Splitting

/-!
# File URLs

`utils/path-uri`: what it uses of the `url` crate. A `file:` URL is a host and a path of
percent-encoded segments; it has no credentials, port, query or fragment here, which `PathUri`
rejects. `UrlCrate` holds what the crate decides: which bytes of a segment stand for themselves, and
which host a text names.

* `asStr_injective`: a URL is known from its text;
* `decodeBadPathUri_eq_some_iff`: which URLs are opaque fallbacks.
-/

namespace Codex.PathUri

open Codex.Lib

/-! ### The crate -/

/-- `Host`, by `host_str` -/
structure Host where
  text : Text
  text_ne : text ≠ []
  slash_notMem : '/' ∉ text
  backslash_notMem : '\\' ∉ text
  null_notMem : '\x00' ∉ text
  deriving DecidableEq

/-- What the `url` crate decides. -/
structure UrlCrate where
  /-- the bytes that `PathSegmentsMut::push` leaves as they are -/
  keep : UInt8 → Bool
  /-- `Url::set_host`, the host that a text names -/
  setHost : Text → Option Host
  /-- other bytes than ASCII are encoded -/
  keep_ascii : ∀ b, keep b → b.toNat < 128
  /-- `%` is encoded -/
  keep_percent : keep 0x25 = false
  /-- `/` is encoded -/
  keep_slash : keep 0x2F = false
  /-- letters and the colon are not -/
  keep_drive : ∀ c : Char, c.isAlpha ∨ c = ':' → keep (.ofNat c.toNat)
  /-- a host that was set is normalised -/
  setHost_text : ∀ text host, setHost text = some host → setHost host.text = some host

namespace UrlCrate

variable (crate : UrlCrate) (segment : Text)

/-- The percent-encoding of a segment. -/
def encode : Text := percentEncode crate.keep (toBytes segment)

@[simp] lemma encode_nil : crate.encode [] = [] := rfl

@[simp] lemma encode_eq_nil_iff {segment : Text} : crate.encode segment = [] ↔ segment = [] := by
  rw [encode, percentEncode_eq_nil_iff, toBytes_eq_nil_iff]

/-- **A segment that was encoded is decoded again.** -/
@[simp] theorem decode_encode : percentDecode (crate.encode segment) = toBytes segment :=
  percentDecode_percentEncode crate.keep_ascii crate.keep_percent _

lemma encode_injective : Function.Injective crate.encode := by
  intro a b h
  have hbytes := congrArg (fun segment => fromUtf8Lossy (percentDecode segment)) h
  simpa using hbytes

lemma encode_drive {drive : Char} (h : drive.isAlpha = true) :
    crate.encode [drive, ':'] = [drive, ':'] := by
  have hlt := toNat_lt_of_isAlpha h
  have hbyte : (UInt8.ofNat drive.toNat).toNat = drive.toNat := by
    rw [UInt8.toNat_ofNat', Nat.mod_eq_of_lt (by omega)]
  have hcolon : crate.keep 0x3A = true := crate.keep_drive ':' (.inr rfl)
  rw [encode, toBytes_cons, utf8EncodeChar_of_lt hlt, List.cons_append, percentEncode_cons,
    percentEncodeByte, if_pos (crate.keep_drive drive (.inl h)), hbyte, Char.ofNat_toNat]
  show drive :: (percentEncodeByte crate.keep 0x3A ++ []) = _
  rw [percentEncodeByte, if_pos hcolon]
  rfl

lemma slash_notMem_percentEncode (bytes : Bytes) : '/' ∉ percentEncode crate.keep bytes := by
  intro h
  rcases mem_percentEncode crate.keep_ascii h with ⟨-, hkeep, -⟩ | h | h
  · cases hkeep.symm.trans crate.keep_slash
  · cases h
  · cases h

lemma slash_notMem_encode : '/' ∉ crate.encode segment :=
  crate.slash_notMem_percentEncode _

end UrlCrate

/-! ### Paths -/

/-- The path of a `Url`, by `path_segments` -/
structure UrlPath where
  segments : List Text
  segments_ne : segments ≠ []
  slash_notMem : ∀ segment ∈ segments, '/' ∉ segment
  deriving DecidableEq

namespace UrlPath

@[ext] lemma ext_segments {a b : UrlPath} (h : a.segments = b.segments) : a = b := by
  cases a
  cases b
  cases h
  rfl

/-- The path `/` -/
def root : UrlPath where
  segments := [[]]
  segments_ne := List.cons_ne_nil _ _
  slash_notMem := by decide

variable (path : UrlPath)

/-- `Url::path` -/
def encoded : Text := path.segments.flatMap ('/' :: ·)

def popIfEmpty : UrlPath :=
  if h : 1 < path.segments.length ∧ path.segments.getLast? = some [] then
    { segments := path.segments.dropLast
      segments_ne := by
        intro hnil
        have hlen := congrArg List.length hnil
        rw [List.length_dropLast, List.length_nil] at hlen
        omega
      slash_notMem := fun segment hmem =>
        path.slash_notMem segment (List.mem_of_mem_dropLast hmem) }
  else path

def pop : UrlPath :=
  if h : 1 < path.segments.length then
    { segments := path.segments.dropLast
      segments_ne := by
        intro hnil
        have hlen := congrArg List.length hnil
        rw [List.length_dropLast, List.length_nil] at hlen
        omega
      slash_notMem := fun segment hmem =>
        path.slash_notMem segment (List.mem_of_mem_dropLast hmem) }
  else root

def push (crate : UrlCrate) (path : UrlPath) (segment : Text) : UrlPath :=
  if path.segments = [[]] then
    { segments := [crate.encode segment]
      segments_ne := List.cons_ne_nil _ _
      slash_notMem := by
        rintro _ hmem
        rw [List.mem_singleton.mp hmem]
        exact crate.slash_notMem_encode segment }
  else
    { segments := path.segments ++ [crate.encode segment]
      segments_ne := List.append_ne_nil_of_right_ne_nil _ (List.cons_ne_nil _ _)
      slash_notMem := by
        intro other hmem
        rcases List.mem_append.mp hmem with hmem | hmem
        · exact path.slash_notMem other hmem
        · rw [List.mem_singleton.mp hmem]
          exact crate.slash_notMem_encode segment }

/-- The segments that are not empty. -/
def named : List Text := path.segments.filter (· ≠ [])

lemma named_popIfEmpty : path.popIfEmpty.named = path.named := by
  rw [popIfEmpty]
  split_ifs with h
  · obtain ⟨init, hinit⟩ := List.getLast?_eq_some_iff.mp h.2
    simp only [named, hinit, List.dropLast_concat, List.filter_append]
    simp
  · rfl

/-- Popping a segment takes the last name off, or an empty segment. -/
theorem named_pop : path.pop.named = path.named ∨ path.pop.named = path.named.dropLast := by
  obtain ⟨init, last, hsegments⟩ : ∃ init last, path.segments = init ++ [last] :=
    ⟨_, _, (List.dropLast_append_getLast path.segments_ne).symm⟩
  rw [pop]
  split_ifs with h
  · simp only [named, hsegments, List.dropLast_concat, List.filter_append]
    by_cases hlast : last = []
    · simp [hlast]
    · simp [hlast]
  · have hinit : init = [] := by
      rw [hsegments, List.length_append, List.length_singleton] at h
      exact List.length_eq_zero_iff.mp (by omega)
    refine .inr ?_
    simp only [named, hsegments, hinit, List.nil_append]
    by_cases hlast : last = []
    · rw [hlast]
      rfl
    · simp [hlast, root]

lemma named_push (crate : UrlCrate) (path : UrlPath) {segment : Text} (h : segment ≠ []) :
    (path.push crate segment).named = path.named ++ [crate.encode segment] := by
  have hencode : crate.encode segment ≠ [] := by rwa [Ne, crate.encode_eq_nil_iff]
  rw [push]
  split_ifs with hroot
  · simp [named, hroot, hencode]
  · simp [named, hencode]

lemma splitOn_append_encoded {before : Text} (hbefore : '/' ∉ before) (path : UrlPath) :
    (before ++ path.encoded).splitOn '/' = before :: path.segments := by
  have hplain : ∀ text : Text, '/' ∉ text → ∀ c ∈ text, (c == '/') = false :=
    fun _ h c hc => beq_eq_false_iff_ne.mpr fun heq => h (heq ▸ hc)
  rw [List.splitOn_eq_splitOnP, encoded]
  exact splitOnP_append_flatMap (p := (· == '/')) rfl (hplain _ hbefore) fun segment hmem =>
    hplain segment (path.slash_notMem segment hmem)

end UrlPath

/-! ### URLs -/

/-- `url::Url`, of the scheme `file` -/
structure Url where
  host : Option Host
  path : UrlPath
  deriving DecidableEq

def Url.asStr (url : Url) : Text :=
  "file://".toList ++ (url.host.elim [] Host.text ++ url.path.encoded)

def badPathUriPrefix : Text := "file:///%00/bad/path/".toList

def decodeBadPathUri (url : Url) : Option Bytes := do
  let encodedPath ← stripPrefix badPathUriPrefix url.asStr
  if encodedPath = [] ∨ '/' ∈ encodedPath then none
  else do
    let pathBytes ← Base64.decodeUrlSafe encodedPath
    if Base64.encodeUrlSafe pathBytes = encodedPath then some pathBytes else none

/-- The URL of an opaque fallback. -/
def badPathUrl (pathBytes : Bytes) : Url where
  host := none
  path :=
    { segments := [['%', '0', '0'], ['b', 'a', 'd'], ['p', 'a', 't', 'h'],
        Base64.encodeUrlSafe pathBytes]
      segments_ne := List.cons_ne_nil _ _
      slash_notMem := by
        intro segment hmem
        simp only [List.mem_cons, List.not_mem_nil, or_false] at hmem
        rcases hmem with rfl | rfl | rfl | rfl
        · decide
        · decide
        · decide
        · exact fun h => Base64.notMem_encodeUrlSafe h (by decide) }

lemma scheme_toList : "file://".toList = ['f', 'i', 'l', 'e', ':', '/', '/'] := by
  decide +kernel

lemma badPathUriPrefix_eq :
    badPathUriPrefix = ['f', 'i', 'l', 'e', ':', '/', '/', '/', '%', '0', '0', '/',
      'b', 'a', 'd', '/', 'p', 'a', 't', 'h', '/'] := by
  decide +kernel

lemma asStr_badPathUrl (pathBytes : Bytes) :
    (badPathUrl pathBytes).asStr = badPathUriPrefix ++ Base64.encodeUrlSafe pathBytes := by
  unfold Url.asStr
  rw [badPathUriPrefix_eq, scheme_toList]
  unfold badPathUrl UrlPath.encoded
  simp only [List.flatMap_cons, List.flatMap_nil, Option.elim_none, List.cons_append,
    List.nil_append, List.append_nil]

/-- **A URL is known from its text.** -/
theorem asStr_injective : Function.Injective Url.asStr := by
  intro a b h
  have hhost : ∀ host : Option Host, '/' ∉ host.elim [] Host.text := by
    rintro (_ | host)
    · exact List.not_mem_nil
    · exact host.slash_notMem
  have hsplit := congrArg (List.splitOn '/') (List.append_cancel_left h)
  rw [UrlPath.splitOn_append_encoded (hhost _), UrlPath.splitOn_append_encoded (hhost _)] at hsplit
  obtain ⟨htext, hsegments⟩ := List.cons.inj hsplit
  obtain ⟨hostA, pathA⟩ := a
  obtain ⟨hostB, pathB⟩ := b
  obtain rfl := UrlPath.ext_segments hsegments
  congr 1
  cases hostA with
  | none =>
    cases hostB with
    | none => rfl
    | some host => exact absurd htext.symm host.text_ne
  | some host =>
    cases hostB with
    | none => exact absurd htext host.text_ne
    | some other =>
      cases host
      cases other
      cases htext
      rfl

/-- **Which URLs are opaque fallbacks.** -/
theorem decodeBadPathUri_eq_some_iff {url : Url} {pathBytes : Bytes} :
    decodeBadPathUri url = some pathBytes ↔ pathBytes ≠ [] ∧ url = badPathUrl pathBytes := by
  constructor
  · intro h
    obtain ⟨encodedPath, hstrip, h⟩ := Option.bind_eq_some_iff.mp h
    split_ifs at h with hplain
    obtain ⟨bytes, -, h⟩ := Option.bind_eq_some_iff.mp h
    split_ifs at h with hencode
    cases h
    constructor
    · rintro rfl
      exact hplain (.inl hencode.symm)
    · apply asStr_injective
      rw [asStr_badPathUrl, hencode]
      exact stripPrefix_eq_some.mp hstrip
  · rintro ⟨hne, rfl⟩
    have hencode : Base64.encodeUrlSafe pathBytes ≠ [] := by
      rwa [Ne, Base64.encodeUrlSafe_eq_nil_iff]
    have hslash : '/' ∉ Base64.encodeUrlSafe pathBytes :=
      fun h => Base64.notMem_encodeUrlSafe h (by decide)
    rw [decodeBadPathUri, asStr_badPathUrl, stripPrefix_append]
    simp [hencode, hslash, Base64.decodeUrlSafe_encodeUrlSafe]

/-! ### A crate for plain texts -/

/-- The characters that stand for themselves in a path segment of a file URL. -/
def keepPlain (b : UInt8) : Bool :=
  b.toNat < 128 &&
    ((Char.ofNat b.toNat).isAlphanum || "-._~!$&'()*+,;=:@|[]".toList.contains (Char.ofNat b.toNat))

/-- The characters of a host name. -/
def IsHostChar (c : Char) : Prop := c.isAlphanum = true ∨ c = '-' ∨ c = '.'

instance (c : Char) : Decidable (IsHostChar c) := inferInstanceAs (Decidable (_ ∨ _))

lemma isHostChar_toLower {c : Char} (h : IsHostChar c) :
    IsHostChar c.toLower ∧ c.toLower.toLower = c.toLower ∧ c.toLower ∉ ['/', '\\', '\x00'] := by
  have hall : ∀ n < 128, IsHostChar (Char.ofNat n) →
      IsHostChar (Char.ofNat n).toLower ∧ (Char.ofNat n).toLower.toLower = (Char.ofNat n).toLower ∧
        (Char.ofNat n).toLower ∉ ['/', '\\', '\x00'] := by decide +kernel
  have hlt : c.toNat < 128 := by
    rcases h with h | rfl | rfl
    · exact toNat_lt_of_isAlphanum h
    · decide
    · decide
  have hc := hall c.toNat hlt
  rw [Char.ofNat_toNat] at hc
  exact hc h

lemma notMem_map_toLower {text : Text} (h : ∀ c ∈ text, IsHostChar c) {d : Char}
    (hd : d ∈ ['/', '\\', '\x00']) : d ∉ text.map Char.toLower := by
  intro hmem
  obtain ⟨c, hc, rfl⟩ := List.mem_map.mp hmem
  exact (isHostChar_toLower (h c hc)).2.2 hd

/-- A host name, in lower case. -/
def setHostPlain (text : Text) : Option Host :=
  if h : text ≠ [] ∧ ∀ c ∈ text, IsHostChar c then
    some
      { text := text.map Char.toLower
        text_ne := fun hnil => h.1 (List.map_eq_nil_iff.mp hnil)
        slash_notMem := fun hmem => notMem_map_toLower h.2 (by decide) hmem
        backslash_notMem := fun hmem => notMem_map_toLower h.2 (by decide) hmem
        null_notMem := fun hmem => notMem_map_toLower h.2 (by decide) hmem }
  else none

/-- A crate that knows plain host names. -/
def plainCrate : UrlCrate where
  keep := keepPlain
  setHost := setHostPlain
  keep_ascii := fun b h => of_decide_eq_true (Bool.and_eq_true_iff.mp h).1
  keep_percent := by decide +kernel
  keep_slash := by decide +kernel
  keep_drive := by
    have hall : ∀ n < 128, (Char.ofNat n).isAlpha ∨ Char.ofNat n = ':' → keepPlain (.ofNat n) := by
      decide +kernel
    intro c hc
    have hlt : c.toNat < 128 := by
      rcases hc with hc | rfl
      · exact toNat_lt_of_isAlpha hc
      · decide
    have hkeep := hall c.toNat hlt
    rw [Char.ofNat_toNat] at hkeep
    exact hkeep hc
  setHost_text := by
    intro text host h
    rw [setHostPlain] at h
    split_ifs at h with hplain
    cases h
    have hlower : (text.map Char.toLower).map Char.toLower = text.map Char.toLower := by
      rw [List.map_map]
      exact List.map_congr_left fun c hc => (isHostChar_toLower (hplain.2 c hc)).2.1
    have hagain : text.map Char.toLower ≠ [] ∧ ∀ c ∈ text.map Char.toLower, IsHostChar c := by
      refine ⟨fun hnil => hplain.1 (List.map_eq_nil_iff.mp hnil), ?_⟩
      intro d hd
      obtain ⟨c, hc, rfl⟩ := List.mem_map.mp hd
      exact (isHostChar_toLower (hplain.2 c hc)).1
    simp only [setHostPlain, dif_pos hagain, hlower]

end Codex.PathUri
