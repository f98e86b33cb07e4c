import Codex.Lib.Text

/-!
# File systems and committed changes

`ExecutorFileSystem` is the trait `apply_patch` works against, with the operations it uses. A file
system has states of its own; `contents` is what a state amounts to for text files, a map from path
to content, and the fields after it say how each operation acts on that map:

* a read that succeeds returns the content, a read that reports `NotFound` means there is none;
* a write or a removal that succeeds does exactly that, one that fails may have done anything to its
  own path (a write can truncate before it fails) and nothing to any other;
* directories are no content.

Files that are no text, directories and symbolic links have no content in this sense; how they fail
is up to the file system. `mapFileSystem` is the plain in-memory map.

The second half is the record of what was committed: `AppliedPatchChange`, its replay on a map, and
`Replays`: every recorded content was right when its change was made, and the changes lead from one
map to the other.
-/

namespace Codex.ApplyPatch

open Codex.Lib

/-! ### Paths and files -/

/-- Path URIs `U`, with the native paths `P` they stand for and the errors `ε` of joining.
Source: `codex_utils_path_uri::PathUri`, the methods `apply_patch` uses -/
class PathUri (U : Type) (P ε : outParam Type) where
  join : U → Text → Except ε U
  parent : U → Option U
  toPathBuf : U → P
  inferredNativePathString : U → Text

/-- Absolute paths as their own URIs: joining an absolute path replaces the base. -/
instance absolutePathUri : PathUri Text Text Empty where
  join _ path := .ok path
  parent _ := none
  toPathBuf path := path
  inferredNativePathString path := path

/-- `io::ErrorKind`, the kinds `apply_patch` tells apart -/
inductive ErrorKind where
  | notFound
  | invalidInput
  | other
  deriving DecidableEq

/-- `io::Error` -/
structure IoError where
  kind : ErrorKind
  message : Text

/-- `codex_file_system::FileMetadata`, the fields `apply_patch` reads -/
structure FileMetadata where
  isDirectory : Bool
  isFile : Bool
  isSymlink : Bool

/-- What text files hold: a map from path to content. -/
abbrev Contents (P : Type) := P → Option Text

open PathUri (toPathBuf)

/-- `ExecutorFileSystem`; the sandbox context is passed through unchanged and left out -/
structure ExecutorFileSystem (U : Type) {P ε : Type} [PathUri U P ε] [DecidableEq P] where
  State : Type
  getMetadata : State → U → Except IoError FileMetadata
  readFileText : State → U → Except IoError Text
  writeFile : State → U → Text → Except IoError Unit × State
  /-- `recursive: false, force: false` -/
  remove : State → U → Except IoError Unit × State
  /-- `recursive: true` -/
  createDirectory : State → U → Except IoError Unit × State
  contents : State → Contents P
  readFileText_ok : ∀ {s u t}, readFileText s u = .ok t → contents s (toPathBuf u) = some t
  readFileText_notFound : ∀ {s u e}, readFileText s u = .error e → e.kind = .notFound →
    contents s (toPathBuf u) = none
  writeFile_ok : ∀ {s u t}, (writeFile s u t).1 = .ok () →
    contents (writeFile s u t).2 = Function.update (contents s) (toPathBuf u) (some t)
  writeFile_frame : ∀ {s u t p}, p ≠ toPathBuf u → contents (writeFile s u t).2 p = contents s p
  remove_ok : ∀ {s u}, (remove s u).1 = .ok () →
    contents (remove s u).2 = Function.update (contents s) (toPathBuf u) none
  remove_frame : ∀ {s u p}, p ≠ toPathBuf u → contents (remove s u).2 p = contents s p
  createDirectory_frame : ∀ {s u}, contents (createDirectory s u).2 = contents s

/-- The plain in-memory file system: a map from path to content. -/
def mapFileSystem (U : Type) {P ε : Type} [PathUri U P ε] [DecidableEq P] :
    ExecutorFileSystem U where
  State := Contents P
  getMetadata s u :=
    match s (toPathBuf u) with
    | some _ => .ok { isDirectory := false, isFile := true, isSymlink := false }
    | none => .error { kind := .notFound, message := "entity not found".toList }
  readFileText s u :=
    match s (toPathBuf u) with
    | some content => .ok content
    | none => .error { kind := .notFound, message := "entity not found".toList }
  writeFile s u content := (.ok (), Function.update s (toPathBuf u) (some content))
  remove s u :=
    match s (toPathBuf u) with
    | some _ => (.ok (), Function.update s (toPathBuf u) none)
    | none => (.error { kind := .notFound, message := "entity not found".toList }, s)
  createDirectory s _ := (.ok (), s)
  contents s := s
  readFileText_ok {s u t} h := by
    split at h
    · rename_i content hc
      rw [hc, ← Except.ok.inj h]
    · cases h
  readFileText_notFound {s u e} h _ := by
    split at h
    · cases h
    · assumption
  writeFile_ok _ := rfl
  writeFile_frame hp := Function.update_of_ne hp _ _
  remove_ok {s u} h := by
    split at h
    · rfl
    · cases h
  remove_frame {s u p} hp := by
    split
    · exact Function.update_of_ne hp _ _
    · rfl
  createDirectory_frame := rfl

/-! ### Committed changes -/

inductive AppliedPatchFileChange (P : Type) where
  | add (content : Text) (overwrittenContent : Option Text)
  | delete (content : Text)
  | update (movePath : Option P) (oldContent : Text) (overwrittenMoveContent : Option Text)
      (newContent : Text)

structure AppliedPatchChange (P : Type) where
  path : P
  change : AppliedPatchFileChange P

/-- `AppliedPatchDelta`; `{}` is `AppliedPatchDelta::empty()` -/
structure AppliedPatchDelta (P : Type) where
  changes : List (AppliedPatchChange P) := []
  exact : Bool := true

variable {P : Type} [DecidableEq P] (c : AppliedPatchChange P)

/-- Carry out a change again: an add or an update writes, a delete removes, a move removes its
source and writes its destination. -/
def AppliedPatchChange.replay (m : Contents P) : Contents P :=
  match c.change with
  | .add content _ => Function.update m c.path (some content)
  | .delete _ => Function.update m c.path none
  | .update none _ _ newContent => Function.update m c.path (some newContent)
  | .update (some dest) _ _ newContent =>
    Function.update (Function.update m c.path none) dest (some newContent)

/-- The recorded old and overwritten contents are what the map holds. -/
def AppliedPatchChange.RecordedIn (m : Contents P) : Prop :=
  match c.change with
  | .add _ overwritten => m c.path = overwritten
  | .delete content => m c.path = some content
  | .update none oldContent _ _ => m c.path = some oldContent
  | .update (some dest) oldContent overwritten _ =>
    m c.path = some oldContent ∧ m dest = overwritten

/-- Replay changes in order. -/
def replay (cs : List (AppliedPatchChange P)) (m : Contents P) : Contents P :=
  cs.foldl (fun m c => c.replay m) m

/-- The changes lead from `m` to `m'`, and each recorded content is the one its path held just
before that change. -/
def Replays : List (AppliedPatchChange P) → Contents P → Contents P → Prop
  | [], m, m' => m = m'
  | c :: cs, m, m' => c.RecordedIn m ∧ Replays cs (c.replay m) m'

variable {cs : List (AppliedPatchChange P)}

lemma Replays.replay_eq {m m' : Contents P} (h : Replays cs m m') : replay cs m = m' := by
  induction cs generalizing m with
  | nil => exact h
  | cons c cs ih => exact ih h.2

lemma replays_append {cs ds : List (AppliedPatchChange P)} {m₁ m₃ : Contents P} :
    Replays (cs ++ ds) m₁ m₃ ↔ ∃ m₂, Replays cs m₁ m₂ ∧ Replays ds m₂ m₃ := by
  induction cs generalizing m₁ with
  | nil => exact ⟨fun h => ⟨m₁, rfl, h⟩, fun ⟨_, h₁, h₂⟩ => (show m₁ = _ from h₁) ▸ h₂⟩
  | cons c cs ih =>
    constructor
    · rintro ⟨hrecorded, hrest⟩
      obtain ⟨m₂, h₁, h₂⟩ := ih.mp hrest
      exact ⟨m₂, ⟨hrecorded, h₁⟩, h₂⟩
    · rintro ⟨m₂, ⟨hrecorded, h₁⟩, h₂⟩
      exact ⟨hrecorded, ih.mpr ⟨m₂, h₁, h₂⟩⟩

variable {c : AppliedPatchChange P} {m n : Contents P} {p : P}

/-- A change that is right on both of two maps leaves alone the paths on which they differ. -/
lemma AppliedPatchChange.RecordedIn.replay_of_ne (hm : c.RecordedIn m) (hn : c.RecordedIn n)
    (hp : m p ≠ n p) : c.replay m p = m p ∧ c.replay n p = n p := by
  have hother : ∀ {q : P} {content : Option Text}, m q = content → n q = content → p ≠ q := by
    rintro q _ hq hq' rfl
    exact hp (hq.trans hq'.symm)
  obtain ⟨path, change⟩ := c
  cases change with
  | add _ _ =>
    have hne := hother hm hn
    simp [AppliedPatchChange.replay, hne]
  | delete _ =>
    have hne := hother hm hn
    simp [AppliedPatchChange.replay, hne]
  | update movePath _ _ _ =>
    cases movePath with
    | none =>
      have hne := hother hm hn
      simp [AppliedPatchChange.replay, hne]
    | some dest =>
      have hne := hother hm.1 hn.1
      have hdest := hother hm.2 hn.2
      simp [AppliedPatchChange.replay, hne, hdest]

/-- Where two maps differ they still do after changes that are right on both. -/
theorem Replays.ne_of_ne {m' n' : Contents P}
    (hm : Replays cs m m') (hn : Replays cs n n') (hp : m p ≠ n p) : m' p ≠ n' p := by
  induction cs generalizing m n with
  | nil =>
    obtain rfl : m = m' := hm
    obtain rfl : n = n' := hn
    exact hp
  | cons c cs ih =>
    obtain ⟨hkept, hkept'⟩ := hm.1.replay_of_ne hn.1 hp
    exact ih hm.2 hn.2 (by rwa [hkept, hkept'])

end Codex.ApplyPatch
