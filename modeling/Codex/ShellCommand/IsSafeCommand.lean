import Codex.ShellCommand.Bash

/-!
# Commands that are known to be safe

`shell-command/src/command_safety`: a command is run without asking when its name and its options
are on a list; a script for bash is, when every command that is read off its syntax tree is. Bash
reads the script itself: it removes the backslashes that the parser keeps, and expands the patterns
that the parser takes for words.

The main result is `ShellReader.faithful_iff`: the two agree, and the approval is one of the
commands that are run, exactly when every word is run as it is written. The proof compares the words
one by one (`Argument.expand_eq_iff`); `faithful_fails` and `pattern_fails` show an option that
passes the list behind a backslash and behind a pattern.

The platform is not Windows. The parser of tree-sitter, the reading of bash and its expansions are
the functions of a `ShellReader`.
-/

namespace Codex.ShellCommand

open Codex.Lib

/-! ### Names and options -/

/-- `executable_name_lookup_key`, which is `Path::file_name` -/
def executableNameLookupKey (raw : Text) : Option Text :=
  let components := (raw.splitOn '/').filter fun part => !part.isEmpty && part != ['.']
  match components.getLast? with
  | none => none
  | some name => if name = ['.', '.'] then none else some name

/-- A `matches!` or `contains` with string literals -/
def oneOf (options : List String) (arg : Text) : Bool := (options.map String.toList).contains arg

def startsWith (s : String) (arg : Text) : Bool := s.toList.isPrefixOf arg

variable (arg : Text)

def isGitGlobalOptionWithValue : Bool :=
  oneOf ["-C", "-c", "--config-env", "--exec-path", "--git-dir", "--namespace", "--super-prefix",
    "--work-tree"] arg

def isGitGlobalOptionWithInlineValue : Bool :=
  startsWith "--config-env=" arg || startsWith "--exec-path=" arg || startsWith "--git-dir=" arg ||
    startsWith "--namespace=" arg || startsWith "--super-prefix=" arg ||
    startsWith "--work-tree=" arg ||
    ((startsWith "-C" arg || startsWith "-c" arg) && decide (arg.length > 2))

/-- The loop of `find_git_subcommand`, with `skip_next` and the index -/
def findSubcommand (subcommands : List String) : Bool → ℕ → List Text → Option (ℕ × Text)
  | _, _, [] => none
  | true, idx, _ :: args => findSubcommand subcommands false (idx + 1) args
  | false, idx, arg :: args =>
    if isGitGlobalOptionWithInlineValue arg then findSubcommand subcommands false (idx + 1) args
    else if isGitGlobalOptionWithValue arg then findSubcommand subcommands true (idx + 1) args
    else if startsWith "-" arg then findSubcommand subcommands false (idx + 1) args
    else if oneOf subcommands arg then some (idx, arg)
    else none

def findGitSubcommand (command : List Text) (subcommands : List String) : Option (ℕ × Text) := do
  let cmd0 ← command.head?
  if executableNameLookupKey cmd0 ≠ some "git".toList then none
  findSubcommand subcommands false 1 command.tail

inductive GitOptionPattern where
  | exact (option : String)
  | shortWithInlineValue (option : String)
  | startOf (option : String)

def GitOptionPattern.matches : GitOptionPattern → Bool
  | .exact option => arg == option.toList
  | .shortWithInlineValue option =>
    startsWith option arg && decide (arg.length > option.toList.length)
  | .startOf option => startsWith option arg

def unsafeGitGlobalOptions : List GitOptionPattern :=
  [.exact "-C", .shortWithInlineValue "-C", .exact "-c", .shortWithInlineValue "-c", .exact "-p",
    .exact "--config-env", .startOf "--config-env=", .exact "--exec-path", .startOf "--exec-path=",
    .exact "--git-dir", .startOf "--git-dir=", .exact "--namespace", .startOf "--namespace=",
    .exact "--paginate", .exact "--super-prefix", .startOf "--super-prefix=", .exact "--work-tree",
    .startOf "--work-tree="]

def unsafeGitSubcommandOptions : List GitOptionPattern :=
  [.exact "--output", .startOf "--output=", .exact "--ext-diff", .exact "--textconv",
    .exact "--exec", .startOf "--exec="]

def gitMatchesOptionPattern (patterns : List GitOptionPattern) : Bool :=
  patterns.any (GitOptionPattern.matches arg)

def gitHasUnsafeGlobalOption (globalArgs : List Text) : Bool :=
  globalArgs.any fun arg => gitMatchesOptionPattern arg unsafeGitGlobalOptions

def gitSubcommandArgsAreReadOnly (args : List Text) : Bool :=
  !args.any fun arg => gitMatchesOptionPattern arg unsafeGitSubcommandOptions

/-- The flags of `git_branch_is_read_only` -/
def isReadOnlyBranchFlag : Bool :=
  oneOf ["--list", "-l", "--show-current", "-a", "--all", "-r", "--remotes", "-v", "-vv",
    "--verbose"] arg || startsWith "--format=" arg

/-- `git_branch_is_read_only`: no argument, or only flags that read -/
def gitBranchIsReadOnly (branchArgs : List Text) : Bool := branchArgs.all isReadOnlyBranchFlag

def isSafeGitCommand (command : List Text) : Bool :=
  match findGitSubcommand command ["status", "log", "diff", "show", "branch"] with
  | none => false
  | some (subcommandIdx, subcommand) =>
    if gitHasUnsafeGlobalOption ((command.take subcommandIdx).drop 1) then false
    else
      let subcommandArgs := command.drop (subcommandIdx + 1)
      if oneOf ["status", "log", "diff", "show"] subcommand then
        gitSubcommandArgsAreReadOnly subcommandArgs
      else if oneOf ["branch"] subcommand then
        gitSubcommandArgsAreReadOnly subcommandArgs && gitBranchIsReadOnly subcommandArgs
      else false

/-- The parts of the argument in `is_valid_sed_n_arg` -/
def isNumber (part : Text) : Bool := !part.isEmpty && part.all Char.isDigit

def isValidSedNArg : Option Text → Bool
  | none => false
  | some s =>
    if s.getLast? = some 'p' then
      match s.dropLast.splitOn ',' with
      | [num] => isNumber num
      | [a, b] => isNumber a && isNumber b
      | _ => false
    else false

/-- `UNSAFE_BASE64_OPTIONS` and the check of `base64` -/
def isUnsafeBase64Option : Bool :=
  oneOf ["-o", "--output"] arg || startsWith "--output=" arg ||
    (startsWith "-o" arg && arg != "-o".toList)

/-- `UNSAFE_FIND_OPTIONS` -/
def isUnsafeFindOption : Bool :=
  oneOf ["-exec", "-execdir", "-ok", "-okdir", "-delete", "-fls", "-fprint", "-fprint0",
    "-fprintf"] arg

/-- `UNSAFE_RIPGREP_OPTIONS_WITH_ARGS` and `UNSAFE_RIPGREP_OPTIONS_WITHOUT_ARGS` -/
def isUnsafeRipgrepOption : Bool :=
  oneOf ["--search-zip", "-z"] arg || oneOf ["--pre", "--hostname-bin"] arg ||
    startsWith "--pre=" arg || startsWith "--hostname-bin=" arg

variable (linux : Bool)

/-- The names of `is_safe_to_call_with_exec` that are safe with any argument -/
def isSafeName (cmd : Text) : Bool :=
  (linux && oneOf ["numfmt", "tac"] cmd) ||
    oneOf ["cat", "cd", "cut", "echo", "expr", "false", "grep", "head", "id", "ls", "nl", "paste",
      "pwd", "rev", "seq", "stat", "tail", "tr", "true", "uname", "uniq", "wc", "which",
      "whoami"] cmd

def isSafeToCallWithExec (command : List Text) : Bool :=
  match command.head?.bind executableNameLookupKey with
  | none => false
  | some cmd =>
    if isSafeName linux cmd then true
    else if cmd = "base64".toList then !(command.drop 1).any isUnsafeBase64Option
    else if cmd = "find".toList then !command.any isUnsafeFindOption
    else if cmd = "rg".toList then !command.any isUnsafeRipgrepOption
    else if cmd = "git".toList then isSafeGitCommand command
    else if cmd = "sed".toList then
      decide (command.length ≤ 4) && command[1]? == some "-n".toList &&
        isValidSedNArg command[2]?
    else false

/-! ### Scripts -/

inductive ShellType where
  | zsh
  | bash
  | powerShell
  | sh
  | cmd
  deriving DecidableEq

/-- The names of `detect_shell_type` -/
def shellTypeOf (name : Text) : Option ShellType :=
  if name = "zsh".toList then some .zsh
  else if name = "sh".toList then some .sh
  else if name = "cmd".toList then some .cmd
  else if name = "bash".toList then some .bash
  else if name = "pwsh".toList ∨ name = "powershell".toList then some .powerShell
  else none

/-- `Path::file_stem`: the file name without its last extension -/
def fileStem (path : Text) : Option Text := do
  let name ← executableNameLookupKey path
  let extension := name.reverse.takeWhile (· ≠ '.')
  let stem := name.take (name.length - extension.length - 1)
  if extension.length = name.length ∨ stem.isEmpty then name else stem

/-- `detect_shell_type`; every round has a shorter path -/
def detectShellTypeRounds : ℕ → Text → Option ShellType
  | 0, path => shellTypeOf path
  | rounds + 1, path =>
    match shellTypeOf path with
    | some shellType => some shellType
    | none => do
        let stem ← fileStem path
        if stem = path then none else detectShellTypeRounds rounds stem

def detectShellType (path : Text) : Option ShellType := detectShellTypeRounds path.length path

def extractBashCommand : List Text → Option (Text × Text)
  | [shell, flag, script] =>
    if oneOf ["-lc", "-c"] flag &&
        [some .zsh, some .bash, some .sh].contains (detectShellType shell) then
      some (shell, script)
    else none
  | _ => none

/-- What stands outside the repository: the parser of tree-sitter (`try_parse_shell`), the commands
that bash reads in a script, and the texts to which bash expands a word (braces, tildes, pathnames,
and the removal of quotes) where the script is run. -/
structure ShellReader where
  tryParseShell : Text → Option Tree
  read : Text → Script
  expand : Argument → List Text

def ShellReader.parseShellLcPlainCommands (reader : ShellReader) (command : List Text) :
    Option (List (List Text)) := do
  let (_, script) ← extractBashCommand command
  let tree ← reader.tryParseShell script
  tryParseWordOnlyCommandsSequence tree

def ShellReader.isKnownSafeCommand (reader : ShellReader) (linux : Bool) (command : List Text) :
    Bool :=
  let command := command.map fun s => if s = "zsh".toList then "bash".toList else s
  isSafeToCallWithExec linux command ||
    (reader.parseShellLcPlainCommands command).any fun allCommands =>
      !allCommands.isEmpty && allCommands.all (isSafeToCallWithExec linux)

/-! ### What is approved and what is run -/

/-- The one command that has a single word. -/
def Script.ofWord (word : Text) : Script :=
  .group .program [.command { name := .piece (.word word), arguments := [] }]

/-- What is relied on of tree-sitter and bash: the tree of a script that is accepted is the tree of
what bash reads, its commands stand in the order of the source, a word of letters is a command, and
from a word without an active character bash only removes quotes and backslashes. -/
structure ShellReader.Lawful (reader : ShellReader) : Prop where
  parses : ∀ script tree commands, reader.tryParseShell script = some tree →
    tryParseWordOnlyCommandsSequence tree = some commands → (reader.read script).Parses tree.root
  ordered : ∀ script tree, reader.tryParseShell script = some tree → tree.hasError = false →
    tree.root.commandNodes.Pairwise fun a b => a.startByte < b.startByte
  word : ∀ word tree, word ≠ [] → word.all Char.isLower = true →
    reader.tryParseShell word = some tree → tree.hasError = false →
    reader.read word = Script.ofWord word
  plain : ∀ script, ∀ argument ∈ (reader.read script).words, argument.hasActive = false →
    reader.expand argument = [argument.value]

lemma hasError_of_accepted {tree : Tree} {commands : List (List Text)}
    (h : tryParseWordOnlyCommandsSequence tree = some commands) : tree.hasError = false := by
  by_contra herror
  rw [Bool.not_eq_false] at herror
  rw [tryParseWordOnlyCommandsSequence, if_pos herror] at h
  cases h

lemma isSafeToCallWithExec_bash (args : List Text) :
    isSafeToCallWithExec linux ("bash".toList :: args) = false := by
  have hname : executableNameLookupKey "bash".toList = some "bash".toList := by decide +kernel
  have hsafe : ∀ linux, isSafeName linux "bash".toList = false := by decide +kernel
  have hcommands : ∀ name ∈ ["base64", "find", "rg", "git", "sed"],
      "bash".toList ≠ name.toList := by decide +kernel
  rw [isSafeToCallWithExec, List.head?_cons, Option.bind_some, hname]
  simp only [hsafe, Bool.false_eq_true, if_false]
  rw [if_neg (hcommands "base64" (by simp)), if_neg (hcommands "find" (by simp)),
    if_neg (hcommands "rg" (by simp)), if_neg (hcommands "git" (by simp)),
    if_neg (hcommands "sed" (by simp))]

lemma extractBashCommand_bash (script : Text) :
    extractBashCommand ["bash".toList, "-lc".toList, script] = some ("bash".toList, script) := by
  have hflag : (oneOf ["-lc", "-c"] "-lc".toList &&
      [some .zsh, some .bash, some .sh].contains (detectShellType "bash".toList)) = true := by
    decide +kernel
  rw [extractBashCommand, if_pos hflag]

namespace ShellReader

variable {reader : ShellReader} {script : Text} {tree : Tree} {commands : List (List Text)}

lemma Lawful.commands_eq (hreader : reader.Lawful) (htree : reader.tryParseShell script = some tree)
    (hcommands : tryParseWordOnlyCommandsSequence tree = some commands) :
    commands = (reader.read script).unquoted :=
  tryParse_eq_source (hreader.parses script tree commands htree hcommands)
    (hreader.ordered script tree htree (hasError_of_accepted hcommands)) hcommands

/-- An approval of a script for bash is one of the commands that the parser reads. -/
theorem safe_of_isKnownSafeCommand (hreader : reader.Lawful) (linux : Bool)
    (htree : reader.tryParseShell script = some tree)
    (hcommands : tryParseWordOnlyCommandsSequence tree = some commands)
    (hsafe : reader.isKnownSafeCommand linux ["bash".toList, "-lc".toList, script] = true) :
    ∀ command ∈ commands, isSafeToCallWithExec linux command = true := by
  have hbash : ("bash".toList : Text) ≠ "zsh".toList := by decide +kernel
  have hflag : ("-lc".toList : Text) ≠ "zsh".toList := by decide +kernel
  rw [isKnownSafeCommand] at hsafe
  simp only [List.map_cons, List.map_nil, if_neg hbash, if_neg hflag,
    isSafeToCallWithExec_bash, Bool.false_or, parseShellLcPlainCommands,
    extractBashCommand_bash] at hsafe
  obtain ⟨read, hread, hall⟩ := (Option.any_eq_true _ _).mp hsafe
  rw [Option.bind_eq_bind, Option.bind_some] at hread
  obtain ⟨tree', htree', hcommands'⟩ := Option.bind_eq_some_iff.mp hread
  rw [Bool.and_eq_true, List.all_eq_true] at hall
  by_cases hzsh : script = "zsh".toList
  · -- the script is taken for `bash`, which is no safe command
    rw [if_pos hzsh] at htree'
    have hword := hreader.word _ _ (by decide +kernel) (by decide +kernel) htree'
      (hasError_of_accepted hcommands')
    have hmem : ["bash".toList] ∈ read := by
      rw [hreader.commands_eq htree' hcommands', hword]
      simp [Script.ofWord, Script.unquoted, Script.commands, Script.commandsOf, Command.words,
        Argument.unquoted, Argument.pieces, Piece.unquoted]
    have hbash' := hall.2 _ hmem
    rw [isSafeToCallWithExec_bash] at hbash'
    cases hbash'
  · rw [if_neg hzsh, htree] at htree'
    cases htree'
    rw [hcommands] at hcommands'
    cases hcommands'
    exact hall.2

/-- Every word of the script is run as it is written. -/
def Keeps (reader : ShellReader) (script : Script) : Prop :=
  ∀ argument ∈ script.words, argument.KeptBy reader.expand

lemma Lawful.keeps_iff (hreader : reader.Lawful) : reader.Keeps (reader.read script) ↔
    ∀ argument ∈ (reader.read script).words, reader.expand argument = [argument.unquoted] := by
  apply forall₂_congr
  intro argument hargument
  exact (Argument.expand_eq_iff (hreader.plain script argument hargument)).symm

/-- **The parser is faithful exactly when every word is kept**: then it reads the argument vectors
that bash forms, and a script that is approved runs safe commands only. That the words are kept is
enough for every script; it is necessary where no word vanishes, as `{,}` does. -/
theorem faithful_iff (hreader : reader.Lawful) (linux : Bool)
    (htree : reader.tryParseShell script = some tree)
    (hcommands : tryParseWordOnlyCommandsSequence tree = some commands) :
    let faithful := commands = (reader.read script).argvs reader.expand ∧
      (reader.isKnownSafeCommand linux ["bash".toList, "-lc".toList, script] = true →
        ∀ argv ∈ (reader.read script).argvs reader.expand, isSafeToCallWithExec linux argv = true)
    (reader.Keeps (reader.read script) → faithful) ∧
      ((∀ argument ∈ (reader.read script).words, reader.expand argument ≠ []) → faithful →
        reader.Keeps (reader.read script)) := by
  have hsource := hreader.commands_eq htree hcommands
  constructor
  · intro hkeeps
    have hwords := hreader.keeps_iff.mp hkeeps
    have hstays : ∀ argument ∈ (reader.read script).words, reader.expand argument ≠ [] := by
      intro argument hargument
      rw [hwords argument hargument]
      exact List.cons_ne_nil _ _
    have heq : commands = (reader.read script).argvs reader.expand :=
      hsource.trans ((source_eq_argvs_iff hstays).mpr hwords)
    refine ⟨heq, fun hsafe => ?_⟩
    rw [← heq]
    exact safe_of_isKnownSafeCommand hreader linux htree hcommands hsafe
  · rintro hstays ⟨heq, -⟩
    exact hreader.keeps_iff.mpr ((source_eq_argvs_iff hstays).mp (hsource.symm.trans heq))

/-- A reader of one script, in a directory where the only name that a pattern of it matches, if
any, is `expanded`. -/
def only (text : Text) (tree : Tree) (script : Script) (expanded : Option Text) : ShellReader where
  tryParseShell s := if s = text then some tree else none
  read _ := script
  expand argument :=
    if argument.hasActive then [expanded.getD argument.value] else [argument.value]

lemma only_lawful {text : Text} {tree : Tree} {script : Script} (expanded : Option Text)
    (htext : text.all Char.isLower = false) (hparses : script.Parses tree.root)
    (hordered : tree.root.commandNodes.Pairwise fun a b => a.startByte < b.startByte) :
    (only text tree script expanded).Lawful where
  parses s tree' _ htree _ := by
    obtain ⟨-, htree'⟩ := Option.ite_none_right_eq_some.mp htree
    rw [← Option.some.inj htree']
    exact hparses
  ordered s tree' htree _ := by
    obtain ⟨-, htree'⟩ := Option.ite_none_right_eq_some.mp htree
    rw [← Option.some.inj htree']
    exact hordered
  word word tree' _ hlower htree _ := by
    obtain ⟨rfl, -⟩ := Option.ite_none_right_eq_some.mp htree
    rw [htext] at hlower
    cases hlower
  plain s argument _ hactive := by
    have hinactive : ¬ argument.hasActive = true := (Bool.not_eq_true _).mpr hactive
    exact if_neg hinactive

end ShellReader

/-! ### A script of one command -/

/-- A word and its position. -/
def wordNode (word : ℕ × String) : Node := .mk "word".toList true word.1 word.2.toList []

/-- The tree of a command of words. -/
def wordsTree (text name : String) (arguments : List (ℕ × String)) : Tree where
  root := .mk "program".toList true 0 text.toList
    [.mk "command".toList true 0 text.toList
      (.mk "command_name".toList true 0 name.toList [wordNode (0, name)] ::
        arguments.map wordNode)]
  hasError := false

/-- The command of words. -/
def wordsScript (name : String) (arguments : List (ℕ × String)) : Script :=
  .group .program [.command
    { name := .piece (.word name.toList)
      arguments := arguments.map fun word => .piece (.word word.2.toList) }]

lemma wordNode_parses (word : ℕ × String) :
    (Argument.piece (.word word.2.toList)).Parses (wordNode word) :=
  ⟨rfl, rfl, rfl, nofun⟩

lemma wordsScript_parses (text name : String) (arguments : List (ℕ × String)) :
    (wordsScript name arguments).Parses (wordsTree text name arguments).root := by
  have harguments : List.Forall₂ Argument.Parses
      (arguments.map fun word => .piece (.word word.2.toList)) (arguments.map wordNode) := by
    rw [List.forall₂_map_left_iff, List.forall₂_map_right_iff]
    exact List.forall₂_same.mpr fun word _ => wordNode_parses word
  refine ⟨rfl, rfl, ⟨_, _, rfl, ?_, rfl⟩, ?_⟩
  · exact ⟨rfl, rfl, _, _, _, rfl, rfl, rfl, rfl, wordNode_parses (0, name), harguments⟩
  · intro child hchild hnamed
    rw [List.mem_singleton.mp hchild] at hnamed
    cases hnamed

lemma wordsTree_ordered (text name : String) (arguments : List (ℕ × String)) :
    (wordsTree text name arguments).root.commandNodes.Pairwise
      fun a b => a.startByte < b.startByte := by
  have hnodes := Script.Parses.commandNodes _ (wordsScript_parses text name arguments)
  rw [wordsScript, Script.commands, Script.commandsOf, Script.commands, Script.commandsOf,
    List.append_nil] at hnodes
  obtain ⟨node, _, -, hrest, hall⟩ := List.forall₂_cons_left_iff.mp hnodes
  rw [hall, List.forall₂_nil_left_iff.mp hrest]
  exact List.pairwise_singleton _ _

/-- The reader of a command of words. -/
def wordsReader (text name : String) (arguments : List (ℕ × String)) (expanded : Option Text) :
    ShellReader :=
  .only text.toList (wordsTree text name arguments) (wordsScript name arguments) expanded

lemma wordsReader_lawful {text : String} (name : String) (arguments : List (ℕ × String))
    (expanded : Option Text) (htext : text.toList.all Char.isLower = false) :
    (wordsReader text name arguments expanded).Lawful :=
  ShellReader.only_lawful expanded htext (wordsScript_parses _ _ _) (wordsTree_ordered _ _ _)

/-- Where the pattern matches no name, `git status *.rs` is read as it is run. -/
theorem faithful_git_status :
    let reader := wordsReader "git status *.rs" "git" [(4, "status"), (11, "*.rs")] none
    let script := "git status *.rs".toList
    ([["git".toList, "status".toList, "*.rs".toList]] = (reader.read script).argvs reader.expand ∧
      (reader.isKnownSafeCommand true ["bash".toList, "-lc".toList, script] = true →
        ∀ argv ∈ (reader.read script).argvs reader.expand,
          isSafeToCallWithExec true argv = true)) ∧ reader.Keeps (reader.read script) := by
  intro reader script
  have hreader : reader.Lawful := wordsReader_lawful _ _ _ (by decide +kernel)
  have htree : reader.tryParseShell script =
      some (wordsTree "git status *.rs" "git" [(4, "status"), (11, "*.rs")]) := by
    rw [show reader.tryParseShell = fun s => if s = script then some _ else none from rfl]
    exact if_pos rfl
  have hcommands : tryParseWordOnlyCommandsSequence
      (wordsTree "git status *.rs" "git" [(4, "status"), (11, "*.rs")]) =
        some [["git".toList, "status".toList, "*.rs".toList]] := by decide +kernel
  obtain ⟨henough, hnecessary⟩ := ShellReader.faithful_iff hreader true htree hcommands
  have hfaithful := henough (hreader.keeps_iff.mpr (by decide +kernel))
  exact ⟨hfaithful, hnecessary (by decide +kernel) hfaithful⟩

/-- **An option behind a backslash passes the list**: `find . -\delete` is approved, and bash runs
`find . -delete`. -/
theorem faithful_fails :
    let reader := wordsReader "find . -\\delete" "find" [(5, "."), (7, "-\\delete")] none
    let script := "find . -\\delete".toList
    reader.Lawful ∧ (reader.tryParseShell script).bind tryParseWordOnlyCommandsSequence =
        some [["find".toList, ".".toList, "-\\delete".toList]] ∧
      (reader.read script).argvs reader.expand =
        [["find".toList, ".".toList, "-delete".toList]] ∧
      reader.isKnownSafeCommand true ["bash".toList, "-lc".toList, script] = true ∧
      isSafeToCallWithExec true ["find".toList, ".".toList, "-delete".toList] = false := by
  refine ⟨wordsReader_lawful _ _ _ (by decide +kernel), ?_, ?_, ?_, ?_⟩
  · decide +kernel
  · decide +kernel
  · decide +kernel
  · decide +kernel

/-- **An option behind a pattern passes the list** where a file bears its name: `find . -delet?` is
approved, and beside a file named `-delete` bash runs `find . -delete`. -/
theorem pattern_fails :
    let reader := wordsReader "find . -delet?" "find" [(5, "."), (7, "-delet?")]
      (some "-delete".toList)
    let script := "find . -delet?".toList
    reader.Lawful ∧ (reader.tryParseShell script).bind tryParseWordOnlyCommandsSequence =
        some [["find".toList, ".".toList, "-delet?".toList]] ∧
      (reader.read script).argvs reader.expand =
        [["find".toList, ".".toList, "-delete".toList]] ∧
      reader.isKnownSafeCommand true ["bash".toList, "-lc".toList, script] = true := by
  refine ⟨wordsReader_lawful _ _ _ (by decide +kernel), ?_, ?_, ?_⟩
  · decide +kernel
  · decide +kernel
  · decide +kernel

end Codex.ShellCommand
