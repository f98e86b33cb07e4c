import Codex.PathUri.Native

/-!
# Joining a path to a URI

`join` walks over the components of a path with a depth of its own and pops and pushes segments of
the URL; `starts_with` compares segments.
-/

namespace Codex.PathUri

open Codex.Lib

/-! ### Joining -/

/-- `path_segments_mut` and `depth` in `join` -/
structure Joining where
  path : UrlPath
  depth : ℕ

/-- The loop over the components in `join` -/
def Joining.visit (crate : UrlCrate) (anchorDepth : ℕ) (state : Joining) : Text → Joining
  | [] => state
  | ['.'] => state
  | ['.', '.'] => if anchorDepth < state.depth then ⟨state.path.pop, state.depth - 1⟩ else state
  | component => ⟨state.path.push crate component, state.depth + 1⟩

/-- The loop over the segments below the anchor in `join` -/
def Joining.popToAnchor (anchorDepth : ℕ) (state : Joining) : Joining :=
  ⟨UrlPath.pop^[state.depth - anchorDepth] state.path, min state.depth anchorDepth⟩

/-- The pattern of a drive-relative path in `join` -/
def startsWithDrive : Text → Bool
  | drive :: ':' :: _ => drive.isAlpha
  | _ => false

/-- `windows_root_relative` in `join` -/
def isRootRelative : Text → Bool
  | first :: second :: _ => isWindowsSeparator first && !isWindowsSeparator second
  | [first] => isWindowsSeparator first
  | [] => false

/-- The components that `join` visits -/
def joinComponents (convention : PathConvention) (path : Text) : List Text :=
  let path :=
    match convention with
    | .posix => path
    | .windows => path.map fun c => if c = '\\' then '/' else c
  path.splitOnP (· == '/')

def join (crate : UrlCrate) (base : PathUri) (path : Text) : Except PathUriParseError PathUri :=
  if '\x00' ∈ path then .error (.invalidFileUriPath path)
  else if path = [] then .ok base
  else
    match inferPathConvention base with
    | none => .error (.invalidFileUriPath base.url.asStr)
    | some convention =>
      match fromAbsoluteNativePath crate path convention with
      | some absolute => .ok absolute
      | none =>
        if convention = .windows ∧ startsWithDrive path then
          .error (.invalidFileUriPath path)
        else if (decodeBadPathUri base.url).isSome then
          .error (.invalidFileUriPath base.url.asStr)
        else
          let start : Joining := ⟨base.url.path.popIfEmpty, base.url.path.named.length⟩
          let anchored :=
            if convention = .windows ∧ isRootRelative path then
              start.popToAnchor convention.anchorDepth
            else start
          let joined := (joinComponents convention path).foldl
            (Joining.visit crate convention.anchorDepth) anchored
          tryFrom ⟨base.url.host, joined.path⟩

/-! ### Containment -/

def containmentPathSegments (url : Url) (convention : PathConvention) : Option (List Text) :=
  if ∃ segment ∈ url.path.named, ∃ b ∈ percentDecode segment,
      b = 0x2F ∨ convention = .windows ∧ b = 0x5C then
    none
  else some url.path.named

def startsWith (uri base : PathUri) : Bool :=
  if uri = base then true
  else if (decodeBadPathUri uri.url).isSome || (decodeBadPathUri base.url).isSome then false
  else if uri.url.host ≠ base.url.host then false
  else
    match containmentPathSegments uri.url ((inferPathConvention uri).getD .posix),
      containmentPathSegments base.url ((inferPathConvention base).getD .posix) with
    | some pathSegments, some baseSegments => baseSegments.isPrefixOf pathSegments
    | _, _ => false

/-! ### The components of a path -/

/-- Neither absolute nor relative to a root or a drive. -/
def IsRelative : PathConvention → Text → Prop
  | .posix, path => path.head? ≠ some '/'
  | .windows, path => (∀ c ∈ path.head?, isWindowsSeparator c = false) ∧
      startsWithDrive path = false

instance (convention : PathConvention) (path : Text) : Decidable (IsRelative convention path) :=
  match convention with
  | .posix => inferInstanceAs (Decidable (_ ≠ _))
  | .windows => inferInstanceAs (Decidable (_ ∧ _))

section components

variable {crate : UrlCrate} {convention : PathConvention} {path : Text}

lemma joinComponents_eq (convention : PathConvention) (path : Text) :
    joinComponents convention path = convention.pathSegments path := by
  cases convention with
  | posix => rfl
  | windows =>
    have hwritten : ∀ c : Char, ((if c = '\\' then '/' else c) == '/') = isWindowsSeparator c := by
      intro c
      rw [isWindowsSeparator]
      split_ifs with h
      · rw [h]
        rfl
      · rw [beq_eq_false_iff_ne.mpr h, Bool.false_or]
    show (path.map _).splitOnP (· == '/') = _
    rw [splitOnP_map hwritten]
    refine (List.map_congr_left fun piece hpiece => ?_).trans (List.map_id _)
    refine (List.map_congr_left fun c hc => ?_).trans (List.map_id piece)
    refine if_neg ?_
    rintro rfl
    cases eq_false_of_mem_splitOnP hpiece _ hc

/-- A relative text is not read as an absolute one. -/
theorem parse_eq_none_of_isRelative (h : IsRelative convention path) (hplain : '\x00' ∉ path) :
    fromAbsoluteNativePath crate path convention = none := by
  cases convention with
  | posix =>
    have hstrip : stripPrefix ['/'] path = none := by
      rw [stripPrefix_eq_none]
      rintro ⟨rest, rfl⟩
      exact h rfl
    show parsePosixPath crate path = none
    rw [parsePosixPath, hstrip]
    rfl
  | windows =>
    obtain ⟨hseparator, hdrive⟩ := h
    show parseWindowsPath crate path = none
    cases path with
    | nil => rfl
    | cons first rest =>
      have hfirst : isWindowsSeparator first = false := hseparator first rfl
      have hroot : isDriveRoot (first :: rest) = false := by
        rcases rest with _ | ⟨colon, _ | ⟨separator, rest⟩⟩
        · rfl
        · rfl
        · by_cases hcolon : colon = ':'
          · rw [hcolon] at hdrive
            replace hdrive : first.isAlpha = false := hdrive
            simp [isDriveRoot, hdrive]
          · simp [isDriveRoot, hcolon]
      unfold parseWindowsPath
      rw [if_neg (by simp [usesNamespace_of_not_separator hfirst, hplain]),
        if_neg (by simp [hroot])]
      split
      next second rest heq =>
        rw [(List.cons.inj heq).1] at hfirst
        exact if_neg (by simp [hfirst])
      next => rfl

lemma isSeparator_of_mem_pathSegments {component : Text}
    (h : component ∈ convention.pathSegments path) {c : Char} (hc : c ∈ component) :
    convention.isSeparator c = false :=
  eq_false_of_mem_splitOnP h c hc

end components

/-! ### The walk on names -/

section names

variable {crate : UrlCrate} {names : List Text} (anchorDepth : ℕ)

lemma visit_eq (state : Joining) (component : Text) :
    state.visit crate anchorDepth component =
      match dotKind '.' component with
      | .skip => state
      | .up =>
        if anchorDepth < state.depth then ⟨state.path.pop, state.depth - 1⟩ else state
      | .name => ⟨state.path.push crate component, state.depth + 1⟩ := by
  unfold Joining.visit
  split
  next => rfl
  next => rfl
  next => rfl
  next hnil hdot hdots =>
    have hname := dotKind_eq_name.mpr ⟨hnil, hdot, hdots⟩
    simp only [hname]

lemma AreNames.visitPart (anchorDepth : ℕ) (h : AreNames names) (part : Text) :
    AreNames (visitPart (dotKind '.') anchorDepth names part) := by
  intro name hname
  have hmem : name ∈ resolve (dotKind '.') anchorDepth names [part] := hname
  rcases mem_resolve hmem with hmem | ⟨-, hkind⟩
  · exact h name hmem
  · exact (dotKind_eq_name.mp hkind).1

lemma areNames_resolve (h : AreNames names) (parts : List Text) :
    AreNames (resolve (dotKind '.') anchorDepth names parts) := by
  intro name hname
  rcases mem_resolve hname with hmem | ⟨-, hkind⟩
  · exact h name hmem
  · exact (dotKind_eq_name.mp hkind).1

lemma foldl_visit_namedPath (h : AreNames names) (components : List Text) :
    components.foldl (Joining.visit crate anchorDepth) ⟨namedPath crate names, names.length⟩ =
      ⟨namedPath crate (resolve (dotKind '.') anchorDepth names components),
        (resolve (dotKind '.') anchorDepth names components).length⟩ := by
  induction components generalizing names with
  | nil => rfl
  | cons component components ih =>
    have hstep : Joining.visit crate anchorDepth ⟨namedPath crate names, names.length⟩ component =
        ⟨namedPath crate (Lib.visitPart (dotKind '.') anchorDepth names component),
          (Lib.visitPart (dotKind '.') anchorDepth names component).length⟩ := by
      rw [visit_eq]
      cases hkind : dotKind '.' component with
      | skip => rw [visitPart_of_skip hkind]
      | up =>
        rw [visitPart_of_up hkind]
        simp only
        split_ifs
        · rw [pop_namedPath h, List.length_dropLast]
        · rfl
      | name => rw [visitPart_of_name hkind, namedPath_concat, List.length_append,
          List.length_singleton]
    rw [List.foldl_cons, hstep, ih (h.visitPart anchorDepth component)]
    rfl

end names

/-! ### The walk on any path -/

section walk

variable {crate : UrlCrate} {anchorDepth : ℕ} {kept : List Text} {state : Joining}
  {components : List Text}

/-- The depth counts names that are there, and the first ones are those of the base. -/
structure Keeps (anchorDepth : ℕ) (kept : List Text) (state : Joining) : Prop where
  depth_le : state.depth ≤ state.path.named.length
  prefix_named : kept.take anchorDepth <+: state.path.named

lemma Keeps.visit (h : Keeps anchorDepth kept state) (component : Text) :
    Keeps anchorDepth kept (state.visit crate anchorDepth component) := by
  obtain ⟨hdepth, hkept⟩ := h
  rw [visit_eq]
  cases hkind : dotKind '.' component with
  | skip => exact ⟨hdepth, hkept⟩
  | up =>
    simp only
    split_ifs with hanchor
    · have hdropLast : kept.take anchorDepth <+: state.path.named.dropLast := by
        rw [List.dropLast_eq_take]
        refine List.prefix_take_iff.mpr ⟨hkept, ?_⟩
        have := List.length_take_le anchorDepth kept
        omega
      rcases state.path.named_pop with hpop | hpop
      · exact ⟨by simp only [hpop]; omega, by simp only [hpop]; exact hkept⟩
      · exact ⟨by simp only [hpop, List.length_dropLast]; omega,
          by simp only [hpop]; exact hdropLast⟩
    · exact ⟨hdepth, hkept⟩
  | name =>
    have hpush := state.path.named_push crate (dotKind_eq_name.mp hkind).1
    refine ⟨?_, ?_⟩
    · simp only [hpush, List.length_append, List.length_singleton]
      omega
    · simp only [hpush]
      exact hkept.trans (List.prefix_append _ _)

/-- On any path the walk keeps the drive or the share. -/
theorem Keeps.foldl (h : Keeps anchorDepth kept state) (components : List Text) :
    Keeps anchorDepth kept (components.foldl (Joining.visit crate anchorDepth) state) := by
  induction components generalizing state with
  | nil => exact h
  | cons component components ih => exact ih (h.visit component)

lemma mem_named_foldl_visit {segment : Text}
    (h : segment ∈ (components.foldl (Joining.visit crate anchorDepth) state).path.named) :
    segment ∈ state.path.named ∨ ∃ component ∈ components, segment = crate.encode component := by
  induction components generalizing state with
  | nil => exact .inl h
  | cons component components ih =>
    rcases ih h with hmem | ⟨other, hother, heq⟩
    · rw [visit_eq] at hmem
      cases hkind : dotKind '.' component with
      | skip =>
        rw [hkind] at hmem
        exact .inl hmem
      | up =>
        rw [hkind] at hmem
        simp only at hmem
        split_ifs at hmem
        · rcases state.path.named_pop with hpop | hpop
          · exact .inl (hpop ▸ hmem)
          · exact .inl (List.mem_of_mem_dropLast (hpop ▸ hmem))
        · exact .inl hmem
      | name =>
        rw [hkind] at hmem
        simp only [state.path.named_push crate (dotKind_eq_name.mp hkind).1] at hmem
        rcases List.mem_append.mp hmem with hmem | hmem
        · exact .inl hmem
        · exact .inr ⟨component, List.mem_cons_self, List.mem_singleton.mp hmem⟩
    · exact .inr ⟨other, List.mem_cons_of_mem _ hother, heq⟩

lemma named_foldl_visit (h : ['.', '.'] ∉ components) :
    (components.foldl (Joining.visit crate anchorDepth) state).path.named =
      state.path.named ++ (components.filter (dotKind '.' · = .name)).map crate.encode := by
  induction components generalizing state with
  | nil => simp
  | cons component components ih =>
    rw [List.mem_cons, not_or] at h
    rw [List.foldl_cons, ih h.2, visit_eq]
    cases hkind : dotKind '.' component with
    | skip => simp [hkind]
    | up => exact absurd (dotKind_eq_up.mp hkind).symm h.1
    | name =>
      simp [hkind, state.path.named_push crate (dotKind_eq_name.mp hkind).1]

end walk

/-! ### A relative path -/

section relative

variable {crate : UrlCrate} {convention : PathConvention} {base : PathUri} {relative : Text}

/-- The walk of `join` with a relative path. -/
def joining (crate : UrlCrate) (convention : PathConvention) (base : PathUri) (relative : Text) :
    Joining :=
  (convention.pathSegments relative).foldl (Joining.visit crate convention.anchorDepth)
    ⟨base.url.path.popIfEmpty, base.url.path.named.length⟩

lemma zero_notMem_joining (hbad : decodeBadPathUri base.url = none) (hplain : '\x00' ∉ relative) :
    0 ∉ percentDecode (joining crate convention base relative).path.encoded := by
  have hbase := zero_notMem_of_decodeBadPathUri hbad
  rw [zero_mem_percentDecode_encoded_iff_named] at hbase ⊢
  rintro ⟨segment, hsegment, hzero⟩
  rcases mem_named_foldl_visit hsegment with hmem | ⟨component, hcomponent, rfl⟩
  · rw [UrlPath.named_popIfEmpty] at hmem
    exact hbase ⟨segment, hmem, hzero⟩
  · rw [UrlCrate.decode_encode] at hzero
    have hnull := (mem_toBytes_iff (c := '\x00') (by decide)).mp hzero
    exact hplain (mem_of_mem_splitOnP hcomponent hnull)

/-- A relative path that is not empty is walked over. -/
theorem exists_join (hconvention : inferPathConvention base = some convention)
    (hrelative : IsRelative convention relative) (hplain : '\x00' ∉ relative)
    (hbad : decodeBadPathUri base.url = none) (hne : relative ≠ []) :
    ∃ joined, join crate base relative = .ok joined ∧
      joined.url = ⟨base.url.host, (joining crate convention base relative).path⟩ := by
  have hvalid : validateFileUrl ⟨base.url.host, (joining crate convention base relative).path⟩ =
      .ok () :=
    validateFileUrl_eq_ok_iff.mpr fun h => absurd h (zero_notMem_joining hbad hplain)
  have hdrive : ¬(convention = .windows ∧ startsWithDrive relative = true) := by
    rintro ⟨rfl, hdrive⟩
    rw [hrelative.2] at hdrive
    exact Bool.false_ne_true hdrive
  have hroot : ¬(convention = .windows ∧ isRootRelative relative = true) := by
    rintro ⟨rfl, hroot⟩
    match relative, hne with
    | first :: rest, _ =>
      have hfirst : isWindowsSeparator first = false := hrelative.1 first rfl
      cases rest with
      | nil => exact Bool.false_ne_true (hfirst.symm.trans hroot)
      | cons second rest => simp [isRootRelative, hfirst] at hroot
  refine ⟨⟨_, hvalid, base.host_ne⟩, ?_, rfl⟩
  simp only [join, if_neg hplain, if_neg hne, hconvention,
    parse_eq_none_of_isRelative hrelative hplain, if_neg hdrive, hbad, if_neg hroot,
    joinComponents_eq]
  exact tryFrom_of_valid hvalid base.host_ne

/-- Two URIs are the same but for an empty segment at the end. -/
def SameUpToTrailing (a b : PathUri) : Prop :=
  a.url.host = b.url.host ∧ a.url.path.popIfEmpty = b.url.path.popIfEmpty

instance (a b : PathUri) : Decidable (SameUpToTrailing a b) := inferInstanceAs (Decidable (_ ∧ _))

lemma decodeBadPathUri_of_sameUpToTrailing {uri : PathUri}
    (hbad : decodeBadPathUri base.url = none) (hsame : SameUpToTrailing uri base) :
    decodeBadPathUri uri.url = none := by
  apply decodeBadPathUri_of_zero_notMem
  have hnamed : uri.url.path.named = base.url.path.named := by
    rw [← UrlPath.named_popIfEmpty, hsame.2, UrlPath.named_popIfEmpty]
  rw [zero_mem_percentDecode_encoded_iff_named, hnamed, ← zero_mem_percentDecode_encoded_iff_named]
  exact zero_notMem_of_decodeBadPathUri hbad

/-- The segments that are pushed are names, but for an empty one at the end. -/
theorem popIfEmpty_namedPath_normalizedSegments (hasHost : Bool) (segments : List Text) :
    (namedPath crate (normalizedSegments convention hasHost segments)).popIfEmpty =
      namedPath crate (resolve (dotKind '.') convention.anchorDepth [] segments) := by
  have hnames : AreNames (resolve (dotKind '.') convention.anchorDepth [] segments) :=
    areNames_resolve _ (fun _ h => absurd h List.not_mem_nil) _
  rw [normalizedSegments_eq]
  split_ifs
  · exact popIfEmpty_namedPath_concat_nil hnames
  · exact popIfEmpty_namedPath hnames

/-- **A relative path is joined as the native text that it makes is read.** -/
theorem join_agrees (hconvention : inferPathConvention base = some convention)
    (hrelative : IsRelative convention relative) (hplain : '\x00' ∉ relative)
    (hbad : decodeBadPathUri base.url = none) {text : Text} {uri : PathUri}
    (hparse : fromAbsoluteNativePath crate text convention = some uri)
    (hsame : SameUpToTrailing uri base) :
    ∃ joined parsed, join crate base relative = .ok joined ∧
      fromAbsoluteNativePath crate (text ++ convention.separator :: relative) convention =
        some parsed ∧
      SameUpToTrailing joined parsed := by
  have huri := decodeBadPathUri_of_sameUpToTrailing hbad hsame
  obtain ⟨htext, host, segments, hnative, hsegments⟩ := exists_nativeText_of_parse hparse huri
  obtain ⟨host', hhost, htry⟩ := pathUriFromSegments_eq_some.mp hsegments
  obtain ⟨-, hurl⟩ := tryFrom_eq_ok.mp htry
  -- the names of the base, and those that the relative path leaves
  set names := resolve (dotKind '.') convention.anchorDepth [] segments with hnames
  set joinedNames := resolve (dotKind '.') convention.anchorDepth names
    (convention.pathSegments relative) with hjoinedNames
  have hare : AreNames names := areNames_resolve _ (fun _ h => absurd h List.not_mem_nil) _
  have hbase : base.url.path.popIfEmpty = namedPath crate names := by
    rw [← hsame.2, hurl, (withoutLocalhostAuthority_mk host' _ .root).1,
      popIfEmpty_namedPath_normalizedSegments]
  have hnative' := hnative.append relative
  have hplain' : '\x00' ∉ text ++ convention.separator :: relative := by
    intro hnull
    rcases List.mem_append.mp hnull with hnull | hnull
    · exact htext hnull
    · rcases List.mem_cons.mp hnull with hnull | hnull
      · cases convention <;> exact absurd hnull (by decide)
      · exact hplain hnull
  obtain ⟨parsed, hparsed, hparsedUrl⟩ :=
    @exists_pathUriFromSegments crate convention _ _ _ hhost (hnative'.plain hplain')
  have hjoined : ∃ joined, join crate base relative = .ok joined ∧ joined.url.host = base.url.host ∧
      joined.url.path.popIfEmpty = namedPath crate joinedNames := by
    by_cases hne : relative = []
    · refine ⟨base, ?_, rfl, ?_⟩
      · rw [join, if_neg hplain, if_pos hne]
      · rw [hbase, hjoinedNames, hne]
        rfl
    · obtain ⟨joined, hjoin, hjoinedUrl⟩ :=
        @exists_join crate _ _ _ hconvention hrelative hplain hbad hne
      have hlen : base.url.path.named.length = names.length := by
        rw [← UrlPath.named_popIfEmpty, hbase, length_named_namedPath hare]
      refine ⟨joined, hjoin, by rw [hjoinedUrl], ?_⟩
      rw [hjoinedUrl]
      simp only [joining, hbase, hlen, foldl_visit_namedPath _ hare]
      exact popIfEmpty_namedPath (areNames_resolve _ hare _)
  obtain ⟨joined, hjoin, hjoinedHost, hjoinedPath⟩ := hjoined
  refine ⟨joined, parsed, hjoin, ?_, ?_, ?_⟩
  · rw [parse_of_nativeText hnative' hplain' (Option.isSome_of_mem hparsed), hparsed]
  · rw [hjoinedHost, ← hsame.1, hurl, hparsedUrl]
    exact (withoutLocalhostAuthority_mk host' _ _).2
  · rw [hjoinedPath, hparsedUrl, (withoutLocalhostAuthority_mk host' _ .root).1,
      popIfEmpty_namedPath_normalizedSegments, resolve_append]

lemma keeps_joining :
    Keeps convention.anchorDepth base.url.path.named (joining crate convention base relative) := by
  have hstart : Keeps convention.anchorDepth base.url.path.named
      ⟨base.url.path.popIfEmpty, base.url.path.named.length⟩ := by
    refine ⟨?_, ?_⟩
    · rw [UrlPath.named_popIfEmpty]
    · rw [UrlPath.named_popIfEmpty]
      exact List.take_prefix _ _
  exact hstart.foldl _

/-- The base is the POSIX root, and the relative path leads to what looks like a Windows drive, with
backslashes in its names. -/
def EntersDrive (base : PathUri) (relative : Text) : Prop :=
  base.url.host = none ∧ base.url.path.named = [] ∧
    (((PathConvention.posix.pathSegments relative).find? (dotKind '.' · = .name)).any
      isWindowsDriveUriSegment) = true ∧
    '\\' ∈ relative

instance (base : PathUri) (relative : Text) : Decidable (EntersDrive base relative) :=
  inferInstanceAs (Decidable (_ ∧ _))

lemma containmentPathSegments_eq_some {url : Url} :
    containmentPathSegments url convention = some url.path.named ↔
      ∀ segment ∈ url.path.named, ∀ b ∈ percentDecode segment,
        b ≠ 0x2F ∧ (convention = .windows → b ≠ 0x5C) := by
  rw [containmentPathSegments]
  split_ifs with h
  · refine iff_of_false nofun fun hall => ?_
    obtain ⟨segment, hsegment, b, hb, hslash | ⟨hwindows, hslash⟩⟩ := h
    · exact (hall segment hsegment b hb).1 hslash
    · exact (hall segment hsegment b hb).2 hwindows hslash
  · refine iff_of_true rfl fun segment hsegment b hb =>
      ⟨fun hslash => ?_, fun hwindows hslash => ?_⟩
    · exact h ⟨segment, hsegment, b, hb, .inl hslash⟩
    · exact h ⟨segment, hsegment, b, hb, .inr ⟨hwindows, hslash⟩⟩

/-- **Without going up the result is below the base.** -/
theorem startsWith_of_join (hconvention : inferPathConvention base = some convention)
    (hrelative : IsRelative convention relative) (hplain : '\x00' ∉ relative)
    (hbad : decodeBadPathUri base.url = none) (hup : ['.', '.'] ∉ convention.pathSegments relative)
    (hcontain : (containmentPathSegments base.url convention).isSome)
    (henters : ¬EntersDrive base relative) {joined : PathUri}
    (hjoin : join crate base relative = .ok joined) : startsWith joined base = true := by
  by_cases hne : relative = []
  · rw [join, if_neg hplain, if_pos hne] at hjoin
    rw [startsWith, if_pos (Except.ok.inj hjoin).symm]
  obtain ⟨other, hother, hurl⟩ := @exists_join crate _ _ _ hconvention hrelative hplain hbad hne
  obtain rfl := Except.ok.inj (hjoin.symm.trans hother)
  have hbadJoined : decodeBadPathUri joined.url = none := by
    apply decodeBadPathUri_of_zero_notMem
    rw [hurl]
    exact zero_notMem_joining hbad hplain
  set added := ((convention.pathSegments relative).filter (dotKind '.' · = .name)) with hadded
  have hnamed : joined.url.path.named = base.url.path.named ++ added.map crate.encode := by
    rw [hurl, hadded]
    exact (named_foldl_visit hup).trans (by rw [UrlPath.named_popIfEmpty])
  have hbaseContain : containmentPathSegments base.url convention = some base.url.path.named := by
    rw [containmentPathSegments] at hcontain ⊢
    split_ifs at hcontain ⊢
    · cases hcontain
    · rfl
  have hbaseAll := containmentPathSegments_eq_some.mp hbaseContain
  -- the convention that is inferred for the result
  have hinfer : inferPathConvention joined = some convention ∨
      convention = .posix ∧ base.url.host = none ∧ base.url.path.named = [] ∧
        (added.head?.any isWindowsDriveUriSegment) = true := by
    rw [inferPathConvention, inferUrl_of_decodeBadPathUri hbad] at hconvention
    rw [inferPathConvention, inferUrl_of_decodeBadPathUri hbadJoined, hnamed, hurl, ← hconvention]
    by_cases hempty : base.url.path.named = []
    · have hdrive : ((added.map crate.encode).head?.any isWindowsDriveUriSegment) =
          added.head?.any isWindowsDriveUriSegment := by
        cases added with
        | nil => rfl
        | cons component _ => exact isWindowsDriveUriSegment_encode crate component
      rw [hempty, List.nil_append, hdrive]
      rw [hempty] at hconvention
      by_cases hhost : base.url.host.isSome = true
      · exact .inl (by simp [hhost])
      · by_cases hadded : added.head?.any isWindowsDriveUriSegment = true
        · refine .inr ⟨?_, Option.not_isSome_iff_eq_none.mp hhost, rfl, hadded⟩
          simpa [hhost] using hconvention.symm
        · exact .inl (by simp [hhost, hadded])
    · exact .inl (by rw [List.head?_append_of_ne_nil _ hempty])
  have hjoinedContain : containmentPathSegments joined.url
      ((inferPathConvention joined).getD .posix) = some joined.url.path.named := by
    rw [containmentPathSegments_eq_some, hnamed]
    intro segment hsegment b hb
    rcases List.mem_append.mp hsegment with hsegment | hsegment
    · refine ⟨(hbaseAll segment hsegment b hb).1, fun hwindows => ?_⟩
      rcases hinfer with hinfer | ⟨-, -, hempty, -⟩
      · rw [hinfer] at hwindows
        exact (hbaseAll segment hsegment b hb).2 hwindows
      · simp [hempty] at hsegment
    · obtain ⟨component, hadd, rfl⟩ := List.mem_map.mp hsegment
      have hcomponent := (List.mem_filter.mp hadd).1
      rw [UrlCrate.decode_encode] at hb
      constructor
      · rintro rfl
        have hslash := (mem_toBytes_iff (c := '/') (by decide)).mp hb
        have := isSeparator_of_mem_pathSegments hcomponent hslash
        cases convention <;> exact absurd this (by decide)
      · rintro hwindows rfl
        have hslash := (mem_toBytes_iff (c := '\\') (by decide)).mp hb
        have hseparator := isSeparator_of_mem_pathSegments hcomponent hslash
        rcases hinfer with hinfer | ⟨rfl, hhost, hempty, hdrive⟩
        · rw [hinfer] at hwindows
          obtain rfl : convention = .windows := hwindows
          cases hseparator
        · rw [hadded, List.head?_filter] at hdrive
          exact henters ⟨hhost, hempty, hdrive, mem_of_mem_splitOnP hcomponent hslash⟩
  have hhost : joined.url.host = base.url.host := by rw [hurl]
  have hbelow : base.url.path.named.isPrefixOf joined.url.path.named = true := by
    rw [hnamed]
    exact List.isPrefixOf_iff_prefix.mpr (List.prefix_append _ _)
  rw [startsWith, hbadJoined, hbad, hconvention, Option.getD_some, hbaseContain, hjoinedContain]
  split_ifs with hsame hdecode hne'
  · rfl
  · cases hdecode
  · exact absurd hhost hne'
  · exact hbelow

/-- **A relative path is joined as the native text that it makes would be read, it does not climb
above the root, drive or share, and without going up the result is below the base.** -/
theorem join_resolves (hconvention : inferPathConvention base = some convention)
    (hrelative : IsRelative convention relative) (hplain : '\x00' ∉ relative)
    (hbad : decodeBadPathUri base.url = none) :
    ∃ joined, join crate base relative = .ok joined ∧
      (∀ text uri, fromPathUri base convention = .ok text →
        fromAbsoluteNativePath crate text convention = some uri → SameUpToTrailing uri base →
          ∃ parsed, fromAbsoluteNativePath crate (text ++ convention.separator :: relative)
            convention = some parsed ∧ SameUpToTrailing joined parsed) ∧
      (joined.url.host = base.url.host ∧
        base.url.path.named.take convention.anchorDepth <+: joined.url.path.named) ∧
      (['.', '.'] ∉ convention.pathSegments relative →
        (containmentPathSegments base.url convention).isSome → ¬EntersDrive base relative →
          startsWith joined base = true) := by
  have hjoined : ∃ joined, join crate base relative = .ok joined ∧ joined.url.host = base.url.host ∧
        base.url.path.named.take convention.anchorDepth <+: joined.url.path.named := by
    by_cases hne : relative = []
    · refine ⟨base, ?_, rfl, List.take_prefix _ _⟩
      rw [join, if_neg hplain, if_pos hne]
    · obtain ⟨joined, hjoin, hurl⟩ :=
        @exists_join crate _ _ _ hconvention hrelative hplain hbad hne
      refine ⟨joined, hjoin, by rw [hurl], ?_⟩
      rw [hurl]
      exact keeps_joining.prefix_named
  obtain ⟨joined, hjoin, hkept⟩ := hjoined
  refine ⟨joined, hjoin, ?_, hkept, ?_⟩
  · intro text uri _ hparse hsame
    obtain ⟨other, parsed, hother, hparsed, hagrees⟩ :=
      join_agrees hconvention hrelative hplain hbad hparse hsame
    obtain rfl := Except.ok.inj (hjoin.symm.trans hother)
    exact ⟨parsed, hparsed, hagrees⟩
  · intro hup hcontain henters
    exact startsWith_of_join hconvention hrelative hplain hbad hup hcontain henters hjoin

end relative

/-! ### Examples -/

/-- A URI without a host, of segments without null bytes. -/
def plainUri (segments : List Text) (hne : segments ≠ [])
    (hslash : ∀ segment ∈ segments, '/' ∉ segment)
    (hzero : 0 ∉ percentDecode (UrlPath.mk segments hne hslash).encoded) : PathUri where
  url := ⟨none, ⟨segments, hne, hslash⟩⟩
  valid := validateFileUrl_eq_ok_iff.mpr fun h => absurd h hzero
  host_ne := none_ne_localhost

/-- `file:///a/b/` -/
def abUri : PathUri := plainUri [['a'], ['b'], []] (by decide) (by decide) (by decide)

theorem join_resolves_abUri :
    ∃ joined, join plainCrate abUri "../../../c/./d".toList = .ok joined ∧
      (∀ text uri, fromPathUri abUri .posix = .ok text →
        fromAbsoluteNativePath plainCrate text .posix = some uri → SameUpToTrailing uri abUri →
          ∃ parsed, fromAbsoluteNativePath plainCrate (text ++ '/' :: "../../../c/./d".toList)
            .posix = some parsed ∧ SameUpToTrailing joined parsed) ∧
      (joined.url.host = none ∧ [] <+: joined.url.path.named) ∧
      (['.', '.'] ∉ PathConvention.posix.pathSegments "../../../c/./d".toList →
        (containmentPathSegments abUri.url .posix).isSome →
          ¬EntersDrive abUri "../../../c/./d".toList → startsWith joined abUri = true) :=
  join_resolves (by decide +kernel) (by decide +kernel) (by decide +kernel) (by decide +kernel)

/-- `file:///a%2Fb` -/
def encodedSlashUri : PathUri :=
  plainUri [['a', '%', '2', 'F', 'b']] (by decide) (by decide) (by decide)

/-- The separator of a segment is one of the native text, not of the URI. -/
theorem join_encodedSlashUri :
    inferPathConvention encodedSlashUri = some .posix ∧
      fromPathUri encodedSlashUri .posix = .ok ['/', 'a', '/', 'b'] ∧
      join plainCrate encodedSlashUri ['c'] =
        .ok (plainUri [['a', '%', '2', 'F', 'b'], ['c']] (by decide) (by decide) (by decide)) ∧
      fromAbsoluteNativePath plainCrate ['/', 'a', '/', 'b', '/', 'c'] .posix =
        some (plainUri [['a'], ['b'], ['c']] (by decide) (by decide) (by decide)) ∧
      ¬SameUpToTrailing
        (plainUri [['a', '%', '2', 'F', 'b'], ['c']] (by decide) (by decide) (by decide))
        (plainUri [['a'], ['b'], ['c']] (by decide) (by decide) (by decide)) := by
  decide +kernel

end Codex.PathUri
