import Codex.Lib.Text
import Mathlib.Data.List.Infix

/-!
# Paths of permissions

`utils/absolute-path`: a path is the list of its components, an `AbsolutePathBuf` is normalised and
is the list of the names below the root. The model is that of Unix paths, without drive prefixes.
`Environment` holds what the code asks the process and the disk for.
-/

namespace Codex.Permissions

open Codex.Lib

inductive Component where
  | rootDir
  | curDir
  | parentDir
  | normal (name : Text)
  deriving DecidableEq

/-- `PathBuf`, by `Path::components` -/
abbrev PathBuf := List Component

/-- `AbsolutePathBuf`, by the names below the root -/
abbrev AbsolutePathBuf := List Text

/-- `Path::components`, of a path written as a text -/
def components (text : Text) : PathBuf :=
  let parts := text.splitOn '/'
  (if text.head? = some '/' then [.rootDir]
    else if parts.head? = some ['.'] then [.curDir] else []) ++
  parts.filterMap fun
    | [] => none
    | ['.'] => none
    | ['.', '.'] => some .parentDir
    | name => some (.normal name)

def toStringLossy (path : AbsolutePathBuf) : Text :=
  if path = [] then ['/'] else path.flatMap fun name => '/' :: name

def asPath (path : AbsolutePathBuf) : PathBuf := .rootDir :: path.map .normal

def isAbsolute (path : PathBuf) : Bool := path.head? = some .rootDir

/-- What the code asks the process environment and the disk for. -/
structure Environment where
  /-- `dirs::home_dir` -/
  homeDir : Option PathBuf
  /-- `std::env::current_dir`, absent when it fails -/
  currentDir : Option AbsolutePathBuf
  /-- the variable `TMPDIR` -/
  tmpdir : Option PathBuf
  /-- `Path::is_dir` -/
  isDir : AbsolutePathBuf → Bool
  /-- `Path::is_file` -/
  isFile : AbsolutePathBuf → Bool
  /-- whether `symlink_metadata` succeeds -/
  exists? : AbsolutePathBuf → Bool
  /-- `canonicalize_preserving_symlinks` -/
  canonicalizePreservingSymlinks : AbsolutePathBuf → AbsolutePathBuf
  /-- `resolve_gitdir_from_file` -/
  resolveGitdirFromFile : AbsolutePathBuf → Option AbsolutePathBuf
  /-- `Path::canonicalize`, absent when it fails -/
  canonicalize : AbsolutePathBuf → Option AbsolutePathBuf
  /-- `build_glob_matcher`, absent for a pattern that does not compile -/
  buildGlobMatcher : Text → Option (AbsolutePathBuf → Bool)

/-- A disk without anything on it, and no home, current or temporary directory. -/
def emptyEnvironment : Environment where
  homeDir := none
  currentDir := none
  tmpdir := none
  isDir := fun _ => false
  isFile := fun _ => false
  exists? := fun _ => false
  canonicalizePreservingSymlinks := fun path => path
  resolveGitdirFromFile := fun _ => none
  canonicalize := fun _ => none
  buildGlobMatcher := fun _ => none

/-- The body of the loop of `normalize_path` -/
def pushComponent (normalized : AbsolutePathBuf) : Component → AbsolutePathBuf
  | .rootDir => []
  | .curDir => normalized
  | .parentDir => normalized.dropLast
  | .normal name => normalized ++ [name]

def normalizePath (path : PathBuf) : AbsolutePathBuf := path.foldl pushComponent []

def absolutizeFrom (path basePath : PathBuf) : AbsolutePathBuf :=
  normalizePath (if isAbsolute path then path else basePath ++ path)

variable (env : Environment)

def absolutize (path : PathBuf) : Option AbsolutePathBuf :=
  if isAbsolute path then some (normalizePath path)
  else env.currentDir.map fun cwd => absolutizeFrom path (asPath cwd)

def maybeExpandHomeDirectory : PathBuf → PathBuf
  | .normal ['~'] :: rest =>
    match env.homeDir with
    | some home => home ++ rest
    | none => .normal ['~'] :: rest
  | path => path

def fromAbsolutePath (path : PathBuf) : Option AbsolutePathBuf :=
  absolutize env (maybeExpandHomeDirectory env path)

def resolvePathAgainstBase (path basePath : PathBuf) : AbsolutePathBuf :=
  absolutizeFrom (maybeExpandHomeDirectory env path) basePath

variable (path : AbsolutePathBuf)

/-- `AbsolutePathBuf::join`, of a name without special meaning -/
def join (name : Text) : AbsolutePathBuf := path ++ [name]

theorem join_prefix_unique {path target : AbsolutePathBuf} {name name' : Text}
    (h : join path name <+: target) (h' : join path name' <+: target) : name = name' := by
  have heq : join path name = join path name' :=
    (List.prefix_of_prefix_length_le h h' (by simp [join])).eq_of_length (by simp [join])
  exact List.singleton_inj.mp (List.append_cancel_left heq)

private theorem foldl_pushComponent_normal (names acc : AbsolutePathBuf) :
    (names.map Component.normal).foldl pushComponent acc = acc ++ names := by
  induction names generalizing acc with
  | nil => simp
  | cons name names ih =>
    rw [List.map_cons, List.foldl_cons, ih]
    simp [pushComponent]

@[simp] lemma normalizePath_asPath : normalizePath (asPath path) = path := by
  unfold normalizePath asPath
  rw [List.foldl_cons, foldl_pushComponent_normal]
  rfl

@[simp] lemma fromAbsolutePath_asPath : fromAbsolutePath env (asPath path) = some path := by
  have hhome : maybeExpandHomeDirectory env (asPath path) = asPath path := rfl
  have habs : isAbsolute (asPath path) = true := rfl
  rw [fromAbsolutePath, hhome, absolutize, if_pos habs, normalizePath_asPath]

theorem fromAbsolutePath_of_isAbsolute {path : PathBuf}
    (h : isAbsolute path = true) : fromAbsolutePath env path = some (normalizePath path) := by
  have hhome : maybeExpandHomeDirectory env path = path := by
    unfold maybeExpandHomeDirectory
    split
    · simp [isAbsolute] at h
    · rfl
  rw [fromAbsolutePath, hhome, absolutize, if_pos h]

end Codex.Permissions
