import Codex.PathUri.Join

/-!
# Native text and back

The URI of a native text is rendered as the normalised text, and that is read as the same URI.
`lexicalSegments` says what is normalised: the names that are left, and an empty segment after a
separator at the end.

* `fromPathUri_eq`, `nativeText_renderedText`: what is rendered, and how it is read;
* `native_round_trip`: the round trip of native text.
-/

namespace Codex.PathUri

open Codex.Lib

/-! ### Normalised text -/

variable (convention : PathConvention)

/-- The names that are left of the segments, and an empty one after a separator at the end or a
drive. -/
def lexicalSegments (hasHost : Bool) (segments : List Text) : List Text :=
  let names := resolve (dotKind '.') convention.anchorDepth [] segments
  if names = [] then [[]]
  else if segments.getLast? = some [] ∨
      (convention = .windows ∧ hasHost = false ∧ names.length = 1) then
    names ++ [[]]
  else names

/-- The text of a normalised path. -/
def renderedText (host : Option Host) (segments : List Text) : Text :=
  match convention, host, segments with
  | .windows, some host, segments => ['\\', '\\'] ++ host.text ++ segments.flatMap ('\\' :: ·)
  | .windows, none, drive :: segments => drive ++ segments.flatMap ('\\' :: ·)
  | _, _, segments => segments.flatMap ('/' :: ·)

section lexical

variable {crate : UrlCrate} {convention : PathConvention} {hasHost : Bool} {segments : List Text}

lemma areNames_resolve_nil (anchorDepth : ℕ) (segments : List Text) :
    AreNames (resolve (dotKind '.') anchorDepth [] segments) :=
  fun _ h => (dotKind_eq_name.mp (mem_resolve_nil h).2).1

lemma segments_namedPath_concat_nil {names : List Text} (h : AreNames names) (hnil : names ≠ []) :
    (namedPath crate (names ++ [[]])).segments = (names ++ [[]]).map crate.encode := by
  rw [namedPath_concat, segments_push, if_neg (segments_namedPath_ne_root h hnil),
    segments_namedPath h, if_neg hnil, List.map_append]
  rfl

lemma segments_namedPath_normalizedSegments :
    (namedPath crate (normalizedSegments convention hasHost segments)).segments =
      (lexicalSegments convention hasHost segments).map crate.encode := by
  have hnames := areNames_resolve_nil convention.anchorDepth segments
  rw [normalizedSegments_eq]
  simp only [lexicalSegments]
  by_cases hnil : resolve (dotKind '.') convention.anchorDepth [] segments = []
  · rw [hnil, if_pos rfl]
    split_ifs <;> rfl
  · have hanchor : (convention = .windows ∧ hasHost = false ∧
        (resolve (dotKind '.') convention.anchorDepth [] segments).length =
          convention.anchorDepth) ↔
        (convention = .windows ∧ hasHost = false ∧
          (resolve (dotKind '.') convention.anchorDepth [] segments).length = 1) := by
      cases convention with
      | posix =>
        exact iff_of_false (fun h => PathConvention.noConfusion h.1) fun h =>
          PathConvention.noConfusion h.1
      | windows => rfl
    simp only [if_neg hnil, hanchor]
    split_ifs
    · exact segments_namedPath_concat_nil hnames hnil
    · rw [segments_namedPath hnames, if_neg hnil]

lemma resolve_lexicalSegments :
    resolve (dotKind '.') convention.anchorDepth []
        (lexicalSegments convention hasHost segments) =
      resolve (dotKind '.') convention.anchorDepth [] segments := by
  set names := resolve (dotKind '.') convention.anchorDepth [] segments with hnames
  have hresolved : resolve (dotKind '.') convention.anchorDepth [] names = names :=
    resolve_names fun name hname => (mem_resolve_nil hname).2
  simp only [lexicalSegments, ← hnames]
  split_ifs with hnil
  · rw [hnil]
    rfl
  · rw [resolve_append, hresolved, resolve_cons, visitPart_of_skip rfl, resolve_nil]
  · exact hresolved

/-- **What was normalised is normalised.** -/
theorem lexicalSegments_idem :
    lexicalSegments convention hasHost (lexicalSegments convention hasHost segments) =
      lexicalSegments convention hasHost segments := by
  have hnames := areNames_resolve_nil convention.anchorDepth segments
  have hlast : (resolve (dotKind '.') convention.anchorDepth [] segments).getLast? ≠ some [] :=
    fun h => hnames [] (List.mem_of_getLast? h) rfl
  rw [lexicalSegments, resolve_lexicalSegments]
  simp only [lexicalSegments]
  by_cases hnil : resolve (dotKind '.') convention.anchorDepth [] segments = []
  · simp only [if_pos hnil]
  · simp only [if_neg hnil]
    split_ifs with htrailing hagain hagain
    · rfl
    · exact absurd (.inl List.getLast?_concat) hagain
    · exact absurd (hagain.imp_left fun h => absurd h hlast) htrailing
    · rfl

lemma lexicalSegments_ne_nil : lexicalSegments convention hasHost segments ≠ [] := by
  simp only [lexicalSegments]
  split_ifs with hnil
  · exact List.cons_ne_nil _ _
  · exact List.concat_ne_nil _ _
  · exact hnil

lemma mem_lexicalSegments {segment : Text}
    (h : segment ∈ lexicalSegments convention hasHost segments) :
    segment = [] ∨ segment ∈ segments := by
  simp only [lexicalSegments] at h
  split_ifs at h
  · exact .inl (List.mem_singleton.mp h)
  · rcases List.mem_append.mp h with h | h
    · exact .inr (mem_resolve_nil h).1
    · exact .inl (List.mem_singleton.mp h)
  · exact .inr (mem_resolve_nil h).1

end lexical

/-! ### Rendering -/

section render

variable {crate : UrlCrate} {convention : PathConvention} {text : Text} {host : Option Text}
  {host' : Option Host} {segments : List Text} {uri : PathUri}

/-- The host is rendered as it was set, and something is left for the share. A text such as
`\\server\..` is accepted as well, but nothing is left of it for a share, so that it cannot be
rendered as a path again: it is left out here. -/
def HasShare (host' : Option Host) (segments : List Text) : Prop :=
  ∀ host ∈ host', host.text ∉ ["localhost".toList, ['.'], ['?']] ∧
    resolve (dotKind '.') PathConvention.windows.anchorDepth [] segments ≠ []

lemma decodeNativeSegment_encode (segment : Text) :
    decodeNativeSegment (crate.encode segment) = segment := by
  rw [decodeNativeSegment, UrlCrate.decode_encode, fromUtf8Lossy_toBytes]

lemma flatMap_decodeNativeSegment (separator : Char) (segments : List Text) :
    ((segments.map crate.encode).flatMap fun segment =>
      separator :: decodeNativeSegment segment) = segments.flatMap (separator :: ·) := by
  rw [List.flatMap_map]
  simp only [decodeNativeSegment_encode]

lemma length_le_length_toBytes (text : Text) : text.length ≤ (toBytes text).length := by
  induction text with
  | nil => exact le_rfl
  | cons c text ih =>
    have hpos := List.length_pos_iff.mpr (utf8EncodeChar_ne_nil c)
    rw [toBytes_cons, List.length_append, List.length_cons]
    omega

lemma renderWindowsSegments_of_lt {anchor : Text}
    (h : 2 < (anchor ++ segments.flatMap ('\\' :: ·)).length) :
    renderWindowsSegments anchor (segments.map crate.encode) =
      anchor ++ segments.flatMap ('\\' :: ·) := by
  have hlen := h.trans_le (length_le_length_toBytes _)
  rw [renderWindowsSegments]
  simp only [flatMap_decodeNativeSegment]
  split
  next heq =>
    simp [heq] at hlen
  next => rfl

/-- The first name stays the first segment, and a drive does not stay alone. -/
theorem lexicalSegments_eq_cons {hasHost : Bool} {name : Text} {names : List Text}
    (h : resolve (dotKind '.') convention.anchorDepth [] segments = name :: names) :
    ∃ others, lexicalSegments convention hasHost segments = name :: others ∧
      (convention = .windows → hasHost = false → others ≠ []) := by
  simp only [lexicalSegments, h, if_neg (List.cons_ne_nil name names)]
  split_ifs with htrailing
  · exact ⟨names ++ [[]], rfl, fun _ _ => List.concat_ne_nil [] names⟩
  · refine ⟨names, rfl, fun hwindows hhost hnil => htrailing (.inr ⟨hwindows, hhost, ?_⟩)⟩
    rw [hnil, List.length_singleton]

lemma exists_lexicalSegments_drive (drive : Char) (segments : List Text) :
    ∃ next others, lexicalSegments .windows false ([drive, ':'] :: segments) =
      [drive, ':'] :: next :: others := by
  have hname : dotKind '.' [drive, ':'] = .name :=
    dotKind_eq_name.mpr ⟨List.cons_ne_nil _ _, by simp, by simp⟩
  have hprefix : [[drive, ':']] <+: resolve (dotKind '.') PathConvention.windows.anchorDepth []
      ([drive, ':'] :: segments) := by
    rw [resolve_cons, visitPart_of_name hname]
    exact @take_prefix_resolve Text (dotKind '.') 1 [[drive, ':']] segments
  obtain ⟨names, hnames⟩ := hprefix
  obtain ⟨others, hothers, hne⟩ := @lexicalSegments_eq_cons _ _ false _ _ hnames.symm
  obtain ⟨next, others, rfl⟩ := List.exists_cons_of_ne_nil (hne rfl rfl)
  exact ⟨next, others, hothers⟩

lemma exists_lexicalSegments_share
    (h : resolve (dotKind '.') PathConvention.windows.anchorDepth [] segments ≠ []) :
    ∃ share others, share ≠ [] ∧ lexicalSegments .windows true segments = share :: others := by
  obtain ⟨share, names, hnames⟩ := List.exists_cons_of_ne_nil h
  obtain ⟨others, hothers, -⟩ := @lexicalSegments_eq_cons _ _ true _ _ hnames
  refine ⟨share, others, ?_, hothers⟩
  exact areNames_resolve_nil _ segments share (hnames ▸ List.mem_cons_self)

lemma fromPathUri_eq (h : NativeText convention text host segments)
    (hhost : urlHost crate host = some host') (hshare : HasShare host' segments)
    (hbad : decodeBadPathUri uri.url = none)
    (hurl : uri.url =
      ⟨host', namedPath crate (normalizedSegments convention host.isSome segments)⟩) :
    fromPathUri uri convention =
      .ok (renderedText convention host' (lexicalSegments convention host.isSome segments)) := by
  have hsegments : uri.url.path.segments =
      (lexicalSegments convention host.isSome segments).map crate.encode := by
    rw [hurl]
    exact segments_namedPath_normalizedSegments
  have huriHost : uri.url.host = host' := by rw [hurl]
  unfold fromPathUri
  rw [hbad]
  cases h with
  | root rest =>
    cases hhost
    show renderPosixPath uri = _
    rw [renderPosixPath, huriHost, hsegments, flatMap_decodeNativeSegment]
    rfl
  | @drive drive separator rest hdrive hseparator =>
    cases hhost
    obtain ⟨next, others, hlexical⟩ :=
      exists_lexicalSegments_drive drive (rest.splitOnP isWindowsSeparator)
    rw [Option.isSome_none, hlexical] at hsegments ⊢
    have hdrive' : isWindowsDriveUriSegment (decodeNativeSegment (crate.encode [drive, ':'])) := by
      rw [decodeNativeSegment_encode]
      exact hdrive
    show renderWindowsPath uri = _
    unfold renderWindowsPath
    rw [huriHost, hsegments]
    simp only [List.map_cons, if_pos hdrive']
    rw [← List.map_cons, decodeNativeSegment_encode, renderWindowsSegments_of_lt (by simp)]
    rfl
  | share hfirst hsecond hnamespace hsplit hname hshareName =>
    obtain ⟨setHost, hset, rfl⟩ := Option.map_eq_some_iff.mp hhost
    obtain ⟨share, others, hne, hlexical⟩ := exists_lexicalSegments_share (hshare setHost rfl).2
    rw [Option.isSome_some, hlexical] at hsegments ⊢
    have hrendered : 2 < (['\\', '\\'] ++ setHost.text ++ '\\' :: share ++
        others.flatMap ('\\' :: ·)).length := by
      simp only [List.length_append, List.length_cons]
      omega
    show renderWindowsPath uri = _
    unfold renderWindowsPath
    rw [huriHost, hsegments]
    simp only [List.map_cons, decodeNativeSegment_encode, if_neg hne]
    rw [renderWindowsSegments_of_lt hrendered, List.append_assoc]
    rfl

end render

/-! ### Reading what was rendered -/

section read

variable {crate : UrlCrate} {convention : PathConvention} {text : Text} {host : Option Text}
  {host' : Option Host} {segments : List Text} {uri : PathUri}

lemma NativeText.isSeparator_of_mem (h : NativeText convention text host segments) :
    ∀ segment ∈ segments, ∀ c ∈ segment, convention.isSeparator c = false := by
  intro segment hsegment
  cases h with
  | root rest => exact eq_false_of_mem_splitOnP hsegment
  | drive rest hdrive hseparator =>
    rcases List.mem_cons.mp hsegment with rfl | hsegment
    · exact List.forall_mem_cons.mpr
        ⟨isWindowsSeparator_of_isAlpha hdrive, List.forall_mem_singleton.mpr rfl⟩
    · exact eq_false_of_mem_splitOnP hsegment
  | share hfirst hsecond hnamespace hsplit hhost hshare =>
    exact eq_false_of_mem_splitOnP (hsplit ▸ List.mem_cons_of_mem _ hsegment)

lemma isSeparator_of_mem_lexicalSegments (h : NativeText convention text host segments)
    {hasHost : Bool} :
    ∀ segment ∈ lexicalSegments convention hasHost segments, ∀ c ∈ segment,
      convention.isSeparator c = false := by
  intro segment hsegment c hc
  rcases mem_lexicalSegments hsegment with rfl | hsegment
  · cases hc
  · exact h.isSeparator_of_mem segment hsegment c hc

lemma null_notMem_lexicalSegments (hplain : ∀ segment ∈ segments, '\x00' ∉ segment)
    {hasHost : Bool} :
    ∀ segment ∈ lexicalSegments convention hasHost segments, '\x00' ∉ segment := by
  intro segment hsegment
  rcases mem_lexicalSegments hsegment with rfl | hsegment
  · exact List.not_mem_nil
  · exact hplain segment hsegment

lemma null_notMem_flatMap {separator : Char} (hseparator : separator ≠ '\x00')
    (hplain : ∀ segment ∈ segments, '\x00' ∉ segment) :
    '\x00' ∉ segments.flatMap (separator :: ·) := by
  intro hnull
  obtain ⟨segment, hsegment, hnull⟩ := List.mem_flatMap.mp hnull
  rcases List.mem_cons.mp hnull with hnull | hnull
  · exact hseparator hnull.symm
  · exact hplain segment hsegment hnull

lemma isWindowsSeparator_of_mem_host (host : Host) :
    ∀ c ∈ host.text, isWindowsSeparator c = false := by
  intro c hc
  rw [isWindowsSeparator, Bool.or_eq_false_iff, beq_eq_false_iff_ne, beq_eq_false_iff_ne]
  constructor
  · rintro rfl
    exact host.backslash_notMem hc
  · rintro rfl
    exact host.slash_notMem hc

/-- Other hosts than `.` and `?` do not name a namespace. -/
theorem usesNamespace_host {host : Host} (hdot : host.text ≠ ['.']) (hmark : host.text ≠ ['?'])
    (rest : Text) : usesNamespace ('\\' :: '\\' :: (host.text ++ rest)) = false := by
  have hplain := isWindowsSeparator_of_mem_host host
  match htext : host.text with
  | [] => exact absurd htext host.text_ne
  | [c] =>
    have hc : c ≠ '.' ∧ c ≠ '?' := by
      constructor
      · rintro rfl
        exact hdot htext
      · rintro rfl
        exact hmark htext
    match rest with
    | [] => rfl
    | _ :: _ => simp [usesNamespace, hc]
  | _ :: d :: _ =>
    have hd : isWindowsSeparator d = false :=
      hplain d (htext ▸ List.mem_cons_of_mem _ List.mem_cons_self)
    simp [usesNamespace, hd]

lemma nativeText_renderedText (h : NativeText convention text host segments)
    (hhost : urlHost crate host = some host') (hshare : HasShare host' segments) :
    NativeText convention
      (renderedText convention host' (lexicalSegments convention host.isSome segments))
      (host'.map Host.text) (lexicalSegments convention host.isSome segments) := by
  have hseparator := @isSeparator_of_mem_lexicalSegments _ _ _ _ h host.isSome
  cases h with
  | root rest =>
    cases hhost
    obtain ⟨first, others, hlexical⟩ :=
      List.exists_cons_of_ne_nil (@lexicalSegments_ne_nil .posix false (rest.splitOnP (· == '/')))
    rw [Option.isSome_none, hlexical] at hseparator ⊢
    obtain ⟨hfirst, hothers⟩ := List.forall_mem_cons.mp hseparator
    have hsplit : (first ++ others.flatMap ('/' :: ·)).splitOnP (· == '/') = first :: others :=
      splitOnP_append_flatMap rfl hfirst hothers
    have hread := NativeText.root (first ++ others.flatMap ('/' :: ·))
    rw [hsplit] at hread
    exact hread
  | @drive drive separator rest hdrive _ =>
    cases hhost
    obtain ⟨next, others, hlexical⟩ :=
      exists_lexicalSegments_drive drive (rest.splitOnP isWindowsSeparator)
    rw [Option.isSome_none, hlexical] at hseparator ⊢
    obtain ⟨hnext, hothers⟩ := List.forall_mem_cons.mp (List.forall_mem_cons.mp hseparator).2
    have hsplit : (next ++ others.flatMap ('\\' :: ·)).splitOnP isWindowsSeparator =
        next :: others :=
      splitOnP_append_flatMap rfl hnext hothers
    have hread := @NativeText.drive drive '\\' (next ++ others.flatMap ('\\' :: ·)) hdrive rfl
    rw [hsplit] at hread
    exact hread
  | share hfirst hsecond hnamespace hsplit hname hshareName =>
    obtain ⟨setHost, hset, rfl⟩ := Option.map_eq_some_iff.mp hhost
    obtain ⟨hplainHost, hleft⟩ := hshare setHost rfl
    obtain ⟨share, others, hne, hlexical⟩ := exists_lexicalSegments_share hleft
    rw [Option.isSome_some, hlexical] at hseparator ⊢
    have hsplit' : (setHost.text ++ (share :: others).flatMap ('\\' :: ·)).splitOnP
        isWindowsSeparator = setHost.text :: share :: others :=
      splitOnP_append_flatMap rfl (isWindowsSeparator_of_mem_host setHost) hseparator
    have hnamespace' : usesNamespace
        ('\\' :: '\\' :: (setHost.text ++ (share :: others).flatMap ('\\' :: ·))) = false :=
      usesNamespace_host (fun h => hplainHost (by simp [h])) (fun h => hplainHost (by simp [h])) _
    exact .share rfl rfl hnamespace' hsplit' setHost.text_ne hne

lemma null_notMem_renderedText (h : NativeText convention text host segments)
    (hplain : '\x00' ∉ text) :
    '\x00' ∉ renderedText convention host' (lexicalSegments convention host.isSome segments) := by
  have hall := @null_notMem_lexicalSegments convention _ (h.plain hplain) host.isSome
  unfold renderedText
  split
  next setHost =>
    intro hnull
    rcases List.mem_append.mp hnull with hnull | hnull
    · rcases List.mem_append.mp hnull with hnull | hnull
      · exact absurd hnull (by decide)
      · exact setHost.null_notMem hnull
    · exact null_notMem_flatMap (by decide) hall hnull
  next drive others hlexical =>
    rw [hlexical] at hall
    obtain ⟨hdrive, hothers⟩ := List.forall_mem_cons.mp hall
    intro hnull
    rcases List.mem_append.mp hnull with hnull | hnull
    · exact hdrive hnull
    · exact null_notMem_flatMap (by decide) hothers hnull
  next => exact null_notMem_flatMap (by decide) hall

lemma urlHost_text (hhost : urlHost crate host = some host') :
    urlHost crate (host'.map Host.text) = some host' := by
  cases host with
  | none =>
    cases hhost
    rfl
  | some text =>
    obtain ⟨setHost, hset, rfl⟩ := Option.map_eq_some_iff.mp hhost
    show (crate.setHost setHost.text).map some = _
    rw [crate.setHost_text text setHost hset]
    rfl

lemma isSome_of_urlHost (hhost : urlHost crate host = some host') : host'.isSome = host.isSome := by
  cases host with
  | none =>
    cases hhost
    rfl
  | some text =>
    obtain ⟨setHost, -, rfl⟩ := Option.map_eq_some_iff.mp hhost
    rfl

lemma withoutLocalhostAuthority_of_hasShare (hshare : HasShare host' segments) (path : UrlPath) :
    withoutLocalhostAuthority ⟨host', path⟩ = ⟨host', path⟩ := by
  refine if_neg fun hlocal => ?_
  obtain ⟨setHost, rfl, htext⟩ := Option.map_eq_some_iff.mp hlocal
  exact (hshare setHost rfl).1 (by simp [htext])

/-- **What is rendered is read as the same URI.** -/
theorem parse_renderedText (h : NativeText convention text host segments) (hplain : '\x00' ∉ text)
    (hhost : urlHost crate host = some host') (hshare : HasShare host' segments)
    (hurl : uri.url =
      ⟨host', namedPath crate (normalizedSegments convention host.isSome segments)⟩) :
    fromAbsoluteNativePath crate
      (renderedText convention host' (lexicalSegments convention host.isSome segments)) convention =
        some uri := by
  have hread := nativeText_renderedText h hhost hshare
  have hhost' := urlHost_text hhost
  obtain ⟨other, hother, hotherUrl⟩ := @exists_pathUriFromSegments crate convention _ _ _ hhost'
    (null_notMem_lexicalSegments (h.plain hplain))
  have hpath : namedPath crate (normalizedSegments convention (host'.map Host.text).isSome
        (lexicalSegments convention host.isSome segments)) =
      namedPath crate (normalizedSegments convention host.isSome segments) := by
    apply UrlPath.ext_segments
    rw [segments_namedPath_normalizedSegments, segments_namedPath_normalizedSegments,
      Option.isSome_map, isSome_of_urlHost hhost, lexicalSegments_idem]
  rw [parse_of_nativeText hread (null_notMem_renderedText h hplain) (Option.isSome_of_mem hother),
    hother]
  congr 1
  ext1
  rw [hotherUrl, hurl, hpath, withoutLocalhostAuthority_of_hasShare hshare]

end read

/-! ### Opaque fallbacks -/

section fallback

variable {crate : UrlCrate} {convention : PathConvention} {text : Text} {uri : PathUri}

lemma encodeUtf16_cons_of_isWindowsSeparator {c : Char} (h : isWindowsSeparator c = true)
    (rest : Text) :
    ∃ unit, isWindowsSeparatorUnit unit = true ∧
      encodeUtf16 (c :: rest) = unit :: encodeUtf16 rest := by
  rcases Bool.or_eq_true_iff.mp h with h | h
  · obtain rfl := beq_iff_eq.mp h
    exact ⟨0x5C, rfl, rfl⟩
  · obtain rfl := beq_iff_eq.mp h
    exact ⟨0x2F, rfl, rfl⟩

/-- Two separators are rendered as the root of a namespace or of a share. -/
theorem renderWindowsOpaqueFallback_of_separators {first second : Char} {rest : Text}
    (hfirst : isWindowsSeparator first = true) (hsecond : isWindowsSeparator second = true) :
    renderWindowsOpaqueFallback ((encodeUtf16 (first :: second :: rest)).flatMap toLeBytes) =
      some (first :: second :: rest) := by
  obtain ⟨unit, hunit, hencode⟩ := encodeUtf16_cons_of_isWindowsSeparator hfirst (second :: rest)
  obtain ⟨unit', hunit', hencode'⟩ := encodeUtf16_cons_of_isWindowsSeparator hsecond rest
  have hroot : (isWindowsSeparatorUnit unit && isWindowsSeparatorUnit unit') = true := by
    rw [hunit, hunit']
    rfl
  have hwide : encodeUtf16 (first :: second :: rest) = unit :: unit' :: encodeUtf16 rest := by
    rw [hencode, hencode']
  unfold renderWindowsOpaqueFallback
  rw [if_neg (by rw [even_length_flatMap_toLeBytes]; decide)]
  simp only [wideUnits_flatMap_toLeBytes, hwide, hroot, Bool.or_true, if_true]
  rw [← hwide, fromUtf16Lossy_encodeUtf16]

lemma decodeBadPathUri_of_parse (hplain : '\x00' ∉ text)
    (hparse : fromAbsoluteNativePath crate text convention = some uri)
    (hbad : (decodeBadPathUri uri.url).isSome) :
    convention = .windows ∧ IsVerbatim crate text ∧
      decodeBadPathUri uri.url = some ((encodeUtf16 text).flatMap toLeBytes) := by
  rcases parse_cases hplain hparse with ⟨host, segments, hnative, hsegments⟩ | ⟨hwindows, hv, hfall⟩
  · simp [decodeBadPathUri_of_pathUriFromSegments (hnative.plain hplain) hsegments] at hbad
  · exact ⟨hwindows, hv, decodeBadPathUri_of_fromOpaquePathBytes hfall⟩

/-- **Native text comes back.** What is kept as it is is rendered as it was; any other text is
rendered as its normalised text, and that is read as the same URI. -/
theorem native_round_trip (hplain : '\x00' ∉ text)
    (hparse : fromAbsoluteNativePath crate text convention = some uri) :
    ((decodeBadPathUri uri.url).isSome →
      convention = .windows ∧ IsVerbatim crate text ∧ fromPathUri uri convention = .ok text) ∧
    (decodeBadPathUri uri.url = none →
      ∃ host host' segments, NativeText convention text host segments ∧
        urlHost crate host = some host' ∧
        (HasShare host' segments → fromPathUri uri convention = .ok
            (renderedText convention host' (lexicalSegments convention host.isSome segments)) ∧
          fromAbsoluteNativePath crate
            (renderedText convention host' (lexicalSegments convention host.isSome segments))
            convention = some uri)) := by
  refine ⟨fun hbad => ?_, fun hbad => ?_⟩
  · obtain ⟨rfl, hverbatim, hbytes⟩ := decodeBadPathUri_of_parse hplain hparse hbad
    obtain ⟨first, second, rest, rfl, hfirst, hsecond⟩ := hverbatim.separators
    refine ⟨rfl, hverbatim, ?_⟩
    unfold fromPathUri
    rw [hbytes]
    show renderOpaqueFallback uri _ .windows = _
    unfold renderOpaqueFallback
    simp only [renderWindowsOpaqueFallback_of_separators hfirst hsecond]
  · obtain ⟨-, host, segments, hnative, hsegments⟩ := exists_nativeText_of_parse hparse hbad
    obtain ⟨host', hhost, htry⟩ := pathUriFromSegments_eq_some.mp hsegments
    refine ⟨host, host', segments, hnative, hhost, fun hshare => ?_⟩
    have hurl := (tryFrom_eq_ok.mp htry).2
    rw [withoutLocalhostAuthority_of_hasShare hshare] at hurl
    exact ⟨fromPathUri_eq hnative hhost hshare hbad hurl,
      parse_renderedText hnative hplain hhost hshare hurl⟩

end fallback

/-! ### Examples -/

/-- `file:///C:/b/` -/
def driveUri : PathUri := plainUri [['C', ':'], ['b'], []] (by decide) (by decide) (by decide)

theorem native_round_trip_driveUri :
    ((decodeBadPathUri driveUri.url).isSome →
      PathConvention.windows = .windows ∧ IsVerbatim plainCrate "C:/a\\../../b/".toList ∧
        fromPathUri driveUri .windows = .ok "C:/a\\../../b/".toList) ∧
    (decodeBadPathUri driveUri.url = none →
      ∃ host host' segments, NativeText .windows "C:/a\\../../b/".toList host segments ∧
        urlHost plainCrate host = some host' ∧
        (HasShare host' segments → fromPathUri driveUri .windows = .ok
            (renderedText .windows host' (lexicalSegments .windows host.isSome segments)) ∧
          fromAbsoluteNativePath plainCrate
            (renderedText .windows host' (lexicalSegments .windows host.isSome segments))
            .windows = some driveUri)) :=
  native_round_trip (by decide +kernel) (by decide +kernel)

/-- The text of a namespace is rendered as it was, that of a host by name is not rendered. -/
theorem fromPathUri_verbatim_localhost :
    ((fromAbsoluteNativePath plainCrate "//./a/../b".toList .windows).map fun uri =>
        fromPathUri uri .windows) = some (.ok "//./a/../b".toList) ∧
      ((fromAbsoluteNativePath plainCrate "\\\\localhost\\share".toList .windows).map fun uri =>
        (fromPathUri uri .windows).toOption) = some none := by
  constructor
  · have hparse : fromAbsoluteNativePath plainCrate "//./a/../b".toList .windows =
        fromOpaquePathBytes ((encodeUtf16 "//./a/../b".toList).flatMap toLeBytes) := by
      unfold fromAbsoluteNativePath parseWindowsPath
      exact if_pos (.inl (by decide))
    rw [hparse, fromOpaquePathBytes_of_ne_nil (by decide), Option.map_some, fromPathUri,
      decodeBadPathUri_of_fromOpaquePathBytes (fromOpaquePathBytes_of_ne_nil _)]
    decide +kernel
  · decide +kernel

end Codex.PathUri
