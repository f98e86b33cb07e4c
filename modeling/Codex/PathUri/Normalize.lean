import Codex.PathUri.Basic
import Codex.Lib.Resolve

/-!
# Normalising the segments of a path

`path_uri_from_segments`: the segments of a native path are resolved lexically and pushed on the URL
one after the other. What the loop keeps is the resolution, its depth, and whether the text ended in
a separator.
-/

namespace Codex.PathUri

open Codex.Lib

/-! ### The loop -/

/-- The variables of the loop of `path_uri_from_segments` -/
@[ext]
structure Normalizing where
  depth : ℕ
  normalizedSegments : List Text
  hasTrailingSeparator : Bool

variable (anchorDepth : ℕ)

/-- The body of the loop of `path_uri_from_segments` -/
def Normalizing.visit (state : Normalizing) : Text → Normalizing
  | [] => { state with hasTrailingSeparator := true }
  | ['.'] => { state with hasTrailingSeparator := false }
  | ['.', '.'] =>
    if anchorDepth < state.depth then
      { depth := state.depth - 1
        normalizedSegments := state.normalizedSegments.dropLast
        hasTrailingSeparator := false }
    else { state with hasTrailingSeparator := false }
  | segment =>
    { depth := state.depth + 1
      normalizedSegments := state.normalizedSegments ++ [segment]
      hasTrailingSeparator := false }

/-- The segments that `path_uri_from_segments` pushes -/
def normalizedSegments (convention : PathConvention) (hasHost : Bool) (segments : List Text) :
    List Text :=
  let state := segments.foldl (Normalizing.visit convention.anchorDepth) ⟨0, [], false⟩
  if state.hasTrailingSeparator ∨
      (convention = .windows ∧ hasHost = false ∧ state.depth = convention.anchorDepth) then
    state.normalizedSegments ++ [[]]
  else state.normalizedSegments

/-- `set_host`, where `path_uri_from_segments` is given a host -/
def urlHost (crate : UrlCrate) : Option Text → Option (Option Host)
  | none => some none
  | some text => (crate.setHost text).map some

def pathUriFromSegments (crate : UrlCrate) (convention : PathConvention) (host : Option Text)
    (segments : List Text) : Option PathUri := do
  let host' ← urlHost crate host
  let path := (normalizedSegments convention host.isSome segments).foldl (UrlPath.push crate) .root
  (tryFrom ⟨host', path⟩).toOption

variable (names : List Text)

/-- The state of the loop with these names and this last segment. -/
def Normalizing.ofNames (hasTrailingSeparator : Bool) : Normalizing :=
  ⟨names.length, names, hasTrailingSeparator⟩

lemma visit_ofNames (trailing : Bool) (segment : Text) :
    (Normalizing.ofNames names trailing).visit anchorDepth segment =
      .ofNames (visitPart (dotKind '.') anchorDepth names segment) (segment = []) := by
  unfold Normalizing.visit
  split
  next => rfl
  next => rfl
  next =>
    rw [visitPart_of_up rfl]
    by_cases h : anchorDepth < names.length
    · simp [Normalizing.ofNames, h]
    · simp [Normalizing.ofNames, h]
  next hnil hdot hdots =>
    have hname := dotKind_eq_name.mpr ⟨hnil, hdot, hdots⟩
    have hne := decide_eq_false hnil
    rw [visitPart_of_name hname, hne]
    simp [Normalizing.ofNames]

lemma foldl_visit (trailing : Bool) (segments : List Text) :
    segments.foldl (Normalizing.visit anchorDepth) (.ofNames names trailing) =
      .ofNames (resolve (dotKind '.') anchorDepth names segments)
        (segments.getLast?.elim trailing fun last => last = []) := by
  induction segments generalizing names trailing with
  | nil => rfl
  | cons segment segments ih =>
    rw [List.foldl_cons, visit_ofNames, ih, resolve_cons, List.getLast?_cons]
    cases segments.getLast? with
    | none => rfl
    | some last => rfl

/-- The segments that are pushed are the resolution, and a last one that is empty. -/
theorem normalizedSegments_eq (convention : PathConvention) (hasHost : Bool)
    (segments : List Text) :
    let names := resolve (dotKind '.') convention.anchorDepth [] segments
    normalizedSegments convention hasHost segments =
      if segments.getLast? = some [] ∨
          (convention = .windows ∧ hasHost = false ∧ names.length = convention.anchorDepth) then
        names ++ [[]]
      else names := by
  intro names
  have hloop := foldl_visit convention.anchorDepth [] false segments
  have hlast : (segments.getLast?.elim false fun last => last = []) = true ↔
      segments.getLast? = some [] := by
    cases segments.getLast? <;> simp
  have hstart : Normalizing.ofNames [] false = ⟨0, [], false⟩ := rfl
  rw [hstart] at hloop
  simp only [normalizedSegments, hloop, Normalizing.ofNames, hlast]
  rfl

/-! ### Names on a URL -/

section names

variable {crate : UrlCrate} {names : List Text}

/-- The path whose segments are these names. -/
def namedPath (crate : UrlCrate) (names : List Text) : UrlPath :=
  names.foldl (UrlPath.push crate) .root

/-- No name is empty. -/
def AreNames (names : List Text) : Prop := ∀ name ∈ names, name ≠ []

lemma namedPath_concat (names : List Text) (name : Text) :
    namedPath crate (names ++ [name]) = (namedPath crate names).push crate name :=
  List.foldl_concat _ _ _ _

lemma AreNames.concat_inv {name : Text} (h : AreNames (names ++ [name])) :
    AreNames names ∧ name ≠ [] :=
  ⟨fun other hmem => h other (List.mem_append_left _ hmem),
    h name (List.mem_append_right _ (List.mem_singleton_self _))⟩

lemma segments_push (path : UrlPath) (segment : Text) :
    (path.push crate segment).segments =
      if path.segments = [[]] then [crate.encode segment]
      else path.segments ++ [crate.encode segment] := by
  rw [UrlPath.push]
  split_ifs <;> rfl

lemma segments_namedPath (h : AreNames names) :
    (namedPath crate names).segments = if names = [] then [[]] else names.map crate.encode := by
  induction names using List.reverseRecOn with
  | nil => rfl
  | append_singleton names name ih =>
    obtain ⟨hnames, hname⟩ := h.concat_inv
    have hcons : names ++ [name] ≠ [] := List.concat_ne_nil name names
    rw [namedPath_concat, segments_push, ih hnames, if_neg hcons]
    by_cases hnil : names = []
    · rw [if_pos hnil, if_pos rfl, hnil]
      rfl
    · have hne : names.map crate.encode ≠ [[]] := by
        intro hroot
        obtain ⟨other, rfl, hother⟩ := List.map_eq_singleton_iff.mp hroot
        exact hnames other (List.mem_singleton_self _) (crate.encode_eq_nil_iff.mp hother)
      rw [if_neg hnil, if_neg hne, List.map_append]
      rfl

lemma segments_namedPath_ne_root (h : AreNames names) (hnil : names ≠ []) :
    (namedPath crate names).segments ≠ [[]] := by
  intro hroot
  rw [segments_namedPath h, if_neg hnil] at hroot
  obtain ⟨name, rfl, hname⟩ := List.map_eq_singleton_iff.mp hroot
  exact h name (List.mem_singleton_self _) (crate.encode_eq_nil_iff.mp hname)

lemma pop_namedPath_concat {name : Text} (h : AreNames (names ++ [name])) :
    (namedPath crate (names ++ [name])).pop = namedPath crate names := by
  obtain ⟨hnames, hname⟩ := h.concat_inv
  have hsegments := @segments_namedPath crate _ h
  rw [if_neg (List.concat_ne_nil name names)] at hsegments
  apply UrlPath.ext_segments
  rw [segments_namedPath hnames, UrlPath.pop]
  by_cases hnil : names = []
  · rw [dif_neg (by rw [hsegments, hnil]; simp), if_pos hnil]
    rfl
  · have hlen : 1 < (namedPath crate (names ++ [name])).segments.length := by
      have := List.length_pos_iff.mpr hnil
      rw [hsegments, List.length_map, List.length_append, List.length_singleton]
      omega
    rw [dif_pos hlen, if_neg hnil]
    show (namedPath crate (names ++ [name])).segments.dropLast = _
    rw [hsegments, List.map_append, List.map_singleton, List.dropLast_concat]

lemma pop_namedPath (h : AreNames names) :
    (namedPath crate names).pop = namedPath crate names.dropLast := by
  cases names using List.reverseRecOn with
  | nil => rfl
  | append_singleton names name => rw [pop_namedPath_concat h, List.dropLast_concat]

lemma popIfEmpty_namedPath (h : AreNames names) :
    (namedPath crate names).popIfEmpty = namedPath crate names := by
  rw [UrlPath.popIfEmpty, dif_neg]
  rintro ⟨hlen, hlast⟩
  rw [segments_namedPath h] at hlen hlast
  split_ifs at hlen hlast with hnil
  · exact absurd hlen (by simp)
  · rw [List.getLast?_map, Option.map_eq_some_iff] at hlast
    obtain ⟨name, hmem, hname⟩ := hlast
    exact h name (List.mem_of_getLast? hmem) (crate.encode_eq_nil_iff.mp hname)

lemma popIfEmpty_push_nil {path : UrlPath} (h : path.segments ≠ [[]]) :
    (path.push crate []).popIfEmpty = path := by
  have hpush : (path.push crate []).segments = path.segments ++ [[]] := by
    rw [segments_push, if_neg h, UrlCrate.encode_nil]
  have hpos := List.length_pos_iff.mpr path.segments_ne
  have hempty : 1 < (path.push crate []).segments.length ∧
      (path.push crate []).segments.getLast? = some [] := by
    rw [hpush, List.length_append, List.length_singleton, List.getLast?_concat]
    exact ⟨by omega, rfl⟩
  apply UrlPath.ext_segments
  rw [UrlPath.popIfEmpty, dif_pos hempty]
  show (path.push crate []).segments.dropLast = _
  rw [hpush, List.dropLast_concat]

/-- A separator at the end leaves an empty segment, except at the root. -/
theorem popIfEmpty_namedPath_concat_nil (h : AreNames names) :
    (namedPath crate (names ++ [[]])).popIfEmpty = namedPath crate names := by
  rw [namedPath_concat]
  by_cases hnil : names = []
  · rw [hnil]
    rfl
  · exact popIfEmpty_push_nil (segments_namedPath_ne_root h hnil)

lemma length_named_namedPath (h : AreNames names) :
    (namedPath crate names).named.length = names.length := by
  rw [UrlPath.named, segments_namedPath h]
  split_ifs with hnil
  · rw [hnil]
    rfl
  · rw [List.filter_eq_self.mpr, List.length_map]
    intro segment hsegment
    obtain ⟨name, hname, rfl⟩ := List.mem_map.mp hsegment
    exact decide_eq_true fun hnil => h name hname (crate.encode_eq_nil_iff.mp hnil)

lemma mem_segments_namedPath {segment : Text} (h : segment ∈ (namedPath crate names).segments) :
    segment = [] ∨ ∃ name ∈ names, segment = crate.encode name := by
  induction names using List.reverseRecOn with
  | nil => exact .inl (List.mem_singleton.mp h)
  | append_singleton names name ih =>
    have hlast : segment = crate.encode name →
        ∃ other ∈ names ++ [name], segment = crate.encode other :=
      fun heq => ⟨name, List.mem_append_right _ (List.mem_singleton_self _), heq⟩
    rw [namedPath_concat, segments_push] at h
    split_ifs at h
    · exact .inr (hlast (List.mem_singleton.mp h))
    · rcases List.mem_append.mp h with h | h
      · refine (ih h).imp id ?_
        rintro ⟨other, hmem, heq⟩
        exact ⟨other, List.mem_append_left _ hmem, heq⟩
      · exact .inr (hlast (List.mem_singleton.mp h))

/-- Names without null characters make a path without null bytes. -/
theorem zero_notMem_namedPath (h : ∀ name ∈ names, '\x00' ∉ name) :
    0 ∉ percentDecode (namedPath crate names).encoded := by
  rw [zero_mem_percentDecode_encoded_iff]
  rintro ⟨segment, hsegment, hzero⟩
  rcases mem_segments_namedPath hsegment with rfl | ⟨name, hname, rfl⟩
  · cases hzero
  · rw [UrlCrate.decode_encode] at hzero
    exact h name hname ((mem_toBytes_iff (c := '\x00') (by decide)).mp hzero)

end names

/-! ### The URI -/

section uri

variable {crate : UrlCrate} {convention : PathConvention} {host : Option Text}
  {segments : List Text}

lemma pathUriFromSegments_eq_some {uri : PathUri} :
    pathUriFromSegments crate convention host segments = some uri ↔
      ∃ host', urlHost crate host = some host' ∧
        tryFrom ⟨host', namedPath crate (normalizedSegments convention host.isSome segments)⟩ =
          .ok uri := by
  have htoOption : ∀ result : Except PathUriParseError PathUri,
      result.toOption = some uri ↔ result = .ok uri := by
    rintro (error | other)
    · exact iff_of_false nofun nofun
    · exact ⟨fun h => congrArg _ (Option.some.inj h), fun h => congrArg _ (Except.ok.inj h)⟩
  simp only [pathUriFromSegments, Option.bind_eq_bind, Option.bind_eq_some_iff, htoOption]
  rfl

lemma normalizedSegments_mem {hasHost : Bool} {segment : Text}
    (h : segment ∈ normalizedSegments convention hasHost segments) :
    segment = [] ∨ segment ∈ segments := by
  rw [normalizedSegments_eq] at h
  split_ifs at h
  · rcases List.mem_append.mp h with h | h
    · exact .inr (mem_resolve_nil h).1
    · exact .inl (List.mem_singleton.mp h)
  · exact .inr (mem_resolve_nil h).1

lemma null_notMem_normalizedSegments {hasHost : Bool}
    (hplain : ∀ segment ∈ segments, '\x00' ∉ segment) :
    ∀ name ∈ normalizedSegments convention hasHost segments, '\x00' ∉ name := by
  intro name hname
  rcases normalizedSegments_mem hname with rfl | hname
  · exact List.not_mem_nil
  · exact hplain name hname

lemma exists_pathUriFromSegments {host' : Option Host} (hhost : urlHost crate host = some host')
    (hplain : ∀ segment ∈ segments, '\x00' ∉ segment) :
    ∃ uri, pathUriFromSegments crate convention host segments = some uri ∧
      uri.url = withoutLocalhostAuthority
        ⟨host', namedPath crate (normalizedSegments convention host.isSome segments)⟩ := by
  have hvalid : validateFileUrl
      ⟨host', namedPath crate (normalizedSegments convention host.isSome segments)⟩ = .ok () :=
    validateFileUrl_eq_ok_iff.mpr fun h =>
      absurd h (zero_notMem_namedPath (null_notMem_normalizedSegments hplain))
  obtain ⟨uri, htry, hurl⟩ := exists_tryFrom hvalid
  exact ⟨uri, pathUriFromSegments_eq_some.mpr ⟨host', hhost, htry⟩, hurl⟩

lemma decodeBadPathUri_of_pathUriFromSegments {uri : PathUri}
    (hplain : ∀ segment ∈ segments, '\x00' ∉ segment)
    (h : pathUriFromSegments crate convention host segments = some uri) :
    decodeBadPathUri uri.url = none := by
  obtain ⟨host', -, htry⟩ := pathUriFromSegments_eq_some.mp h
  apply decodeBadPathUri_of_zero_notMem
  rw [(tryFrom_eq_ok.mp htry).2, (withoutLocalhostAuthority_mk host' _ .root).1]
  exact zero_notMem_namedPath (null_notMem_normalizedSegments hplain)

end uri

end Codex.PathUri
