import Codex.Lib.MapM
import Codex.Lib.Text
import Mathlib.Algebra.Order.BigOperators.Group.List
import Mathlib.Algebra.Order.Group.Nat
import Mathlib.Data.List.Sort

/-!
# Word-only shell scripts

`shell-command/src/bash.rs`: the commands of a script, read off the syntax tree of tree-sitter. The
tree is walked with a stack; every node must be of an allowed kind; the words of a command are the
texts of its nodes, with the quotes of a string taken off.

A `Script` is what bash reads: commands in lists and pipelines. Bash removes the quotes and the
backslashes of a word (`Argument.value`), but first it expands braces, tildes and patterns, which
depends on the file system: the expansion of a word is the parameter `expand`.
`Script.Parses` says that a tree is the tree of a script.

The main results: what is accepted is read as its source without the quotes
(`tryParse_eq_source`), and that is what bash makes of it exactly when every word is kept
(`source_eq_argvs_iff`, `expand_eq_iff`).
-/

namespace Codex.ShellCommand

open Codex.Lib

/-! ### Syntax trees -/

/-- A node of tree-sitter: its kind, `is_named`, `start_byte`, `utf8_text` and `children`. -/
inductive Node where
  | mk (kind : Text) (isNamed : Bool) (startByte : ℕ) (text : Text) (children : List Node)

namespace Node

def kind : Node → Text
  | mk kind _ _ _ _ => kind

def isNamed : Node → Bool
  | mk _ isNamed _ _ _ => isNamed

def startByte : Node → ℕ
  | mk _ _ startByte _ _ => startByte

def text : Node → Text
  | mk _ _ _ text _ => text

def children : Node → List Node
  | mk _ _ _ _ children => children

def namedChildren (node : Node) : List Node := node.children.filter (·.isNamed)

mutual

/-- The number of nodes of a tree. -/
def size : Node → ℕ
  | mk _ _ _ _ children => 1 + sizes children

/-- The number of nodes of some trees. -/
def sizes : List Node → ℕ
  | [] => 0
  | node :: nodes => size node + sizes nodes

end

end Node

/-- A `Tree`: its root and `has_error` of it -/
structure Tree where
  root : Node
  hasError : Bool

/-! ### The parser -/

def allowedKinds : List Text :=
  ["program", "list", "pipeline", "command", "command_name", "word", "string", "string_content",
    "raw_string", "number", "concatenation"].map String.toList

def allowedPunctTokens : List Text := ["&&", "||", ";", "|", "\"", "'"].map String.toList

variable (node : Node)

/-- `kind == "command"` for a named node -/
def Node.isCommand : Bool := node.isNamed && node.kind == "command".toList

/-- The checks of the loop of `try_parse_word_only_commands_sequence` -/
def Node.isAllowed : Bool :=
  if node.isNamed then allowedKinds.contains node.kind
  else
    !(node.kind.any (fun c => "&;|".toList.contains c) && !allowedPunctTokens.contains node.kind) &&
      (allowedPunctTokens.contains node.kind || (trim node.kind).isEmpty)

/-- The loop of `try_parse_word_only_commands_sequence`; the top of the stack is its head,
and every round takes a node -/
def walkRounds : ℕ → List Node → List Node → Option (List Node)
  | _, [], commandNodes => some commandNodes
  | 0, _ :: _, commandNodes => some commandNodes
  | rounds + 1, node :: stack, commandNodes =>
    if node.isAllowed then
      walkRounds rounds (node.children.reverse ++ stack)
        (if node.isCommand then commandNodes ++ [node] else commandNodes)
    else none

/-- `strip_prefix` and `strip_suffix` with a quote -/
def stripQuotes (quote : Char) (raw : Text) : Option Text := do
  let text ← stripPrefix [quote] raw
  if text.getLast? = some quote then some text.dropLast else none

def parseDoubleQuotedString : Option Text :=
  if node.kind ≠ "string".toList then none
  else if node.namedChildren.any fun part => part.kind ≠ "string_content".toList then none
  else stripQuotes '"' node.text

def parseRawString : Option Text :=
  if node.kind ≠ "raw_string".toList then none else stripQuotes '\'' node.text

/-- The parts of a `concatenation` in `parse_plain_command_from_node` -/
def parsePart (part : Node) : Option Text :=
  if part.kind = "word".toList ∨ part.kind = "number".toList then some part.text
  else if part.kind = "string".toList then parseDoubleQuotedString part
  else if part.kind = "raw_string".toList then parseRawString part
  else none

/-- The loop over the parts of a `concatenation` -/
def parseConcatenation : Option Text := do
  let parts ← node.namedChildren.mapM parsePart
  let concatenated := parts.flatten
  if concatenated.isEmpty then none else some concatenated

/-- The body of the loop of `parse_plain_command_from_node` -/
def parseChild (child : Node) : Option Text :=
  if child.kind = "command_name".toList then do
    let wordNode ← child.namedChildren.head?
    if wordNode.kind ≠ "word".toList then none else some wordNode.text
  else if child.kind = "concatenation".toList then parseConcatenation child
  else parsePart child

def parsePlainCommandFromNode (cmd : Node) : Option (List Text) :=
  if cmd.kind ≠ "command".toList then none else cmd.namedChildren.mapM parseChild

def tryParseWordOnlyCommandsSequence (tree : Tree) : Option (List (List Text)) := do
  if tree.hasError then none
  let commandNodes ← walkRounds tree.root.size [tree.root] []
  let commandNodes := commandNodes.mergeSort fun a b => a.startByte ≤ b.startByte
  commandNodes.mapM parsePlainCommandFromNode

/-! ### What bash reads -/

/-- Removal of backslashes outside quotes: a newline goes with its backslash. -/
def unescape : Text → Text
  | '\\' :: '\n' :: s => unescape s
  | '\\' :: c :: s => c :: unescape s
  | c :: s => c :: unescape s
  | [] => []

/-- A backslash is special before these in double quotes. -/
def isEscapable (c : Char) : Bool := ['$', '`', '"', '\\', '\n'].contains c

/-- Removal of backslashes in double quotes. -/
def unescapeQuoted : Text → Text
  | '\\' :: c :: s =>
    if c = '\n' then unescapeQuoted s
    else if isEscapable c then c :: unescapeQuoted s
    else '\\' :: c :: unescapeQuoted s
  | c :: s => c :: unescapeQuoted s
  | [] => []

/-- A part of a word, with what stands between its quotes. -/
inductive Piece where
  | word (source : Text)
  | number (source : Text)
  | string (content : Text)
  | rawString (content : Text)

namespace Piece

/-- The text of the piece in the script. -/
def source : Piece → Text
  | word source => source
  | number source => source
  | string content => '"' :: content ++ ['"']
  | rawString content => '\'' :: content ++ ['\'']

/-- The text without its quotes. -/
def unquoted : Piece → Text
  | word source => source
  | number source => source
  | string content => content
  | rawString content => content

/-- The text that is left when quotes and backslashes are removed. -/
def value : Piece → Text
  | word source => unescape source
  | number source => unescape source
  | string content => unescapeQuoted content
  | rawString content => content

def nodeKind : Piece → Text
  | word _ => "word".toList
  | number _ => "number".toList
  | string _ => "string".toList
  | rawString _ => "raw_string".toList

end Piece

/-- A word of a command. -/
inductive Argument where
  | piece (piece : Piece)
  | concatenation (parts : List Piece)

namespace Argument

/-- The pieces of a word. -/
def pieces : Argument → List Piece
  | .piece part => [part]
  | .concatenation parts => parts

/-- The word without its quotes. -/
def unquoted (argument : Argument) : Text := argument.pieces.flatMap Piece.unquoted

/-- The word after the removal of quotes and backslashes. -/
def value (argument : Argument) : Text := argument.pieces.flatMap Piece.value

end Argument

/-- A simple command: its name and its arguments. -/
structure Command where
  name : Argument
  arguments : List Argument

/-- The containers of commands. -/
inductive GroupKind where
  | program
  | list
  | pipeline

def GroupKind.nodeKind : GroupKind → Text
  | program => "program".toList
  | list => "list".toList
  | pipeline => "pipeline".toList

/-- A script: commands, joined by operators in lists, in pipelines and in the program. -/
inductive Script where
  | command (command : Command)
  | group (kind : GroupKind) (parts : List Script)

/-- The words of a command. -/
def Command.words (command : Command) : List Argument := command.name :: command.arguments

namespace Script

mutual

/-- The commands of a script, in the order of the source. -/
def commands : Script → List Command
  | .command simple => [simple]
  | .group _ parts => commandsOf parts

/-- The commands of some parts of a script. -/
def commandsOf : List Script → List Command
  | [] => []
  | part :: parts => commands part ++ commandsOf parts

end

/-- The words of a script. -/
def words (script : Script) : List Argument := script.commands.flatMap Command.words

/-- The words of the commands as they are written, without the quotes. -/
def unquoted (script : Script) : List (List Text) :=
  script.commands.map fun command => command.words.map Argument.unquoted

/-- The argument vectors that bash forms, one for each command that may be run: a word may be
expanded to several, or to none. -/
def argvs (expand : Argument → List Text) (script : Script) : List (List Text) :=
  script.commands.map fun command => command.words.flatMap expand

end Script

/-! ### The tree of a script -/

namespace Node

mutual

/-- The command nodes of a tree, in the order of the source. -/
def commandNodes : Node → List Node
  | node@(mk _ _ _ _ children) =>
    (if node.isCommand then [node] else []) ++ commandNodesOf children

/-- The command nodes of some trees. -/
def commandNodesOf : List Node → List Node
  | [] => []
  | node :: nodes => commandNodes node ++ commandNodesOf nodes

end

end Node

/-- The node of a piece of a word: its text is the source. -/
def Piece.Parses (piece : Piece) (node : Node) : Prop :=
  node.kind = piece.nodeKind ∧ node.isNamed = true ∧ node.text = piece.source ∧
    ∀ child ∈ node.children, child.isCommand = false ∧ child.children = []

def Argument.Parses : Argument → Node → Prop
  | .piece part, node => part.Parses node
  | .concatenation parts, node => node.kind = "concatenation".toList ∧ node.isNamed = true ∧
      List.Forall₂ Piece.Parses parts node.children

def Command.Parses (command : Command) (node : Node) : Prop :=
  node.kind = "command".toList ∧ node.isNamed = true ∧ ∃ nameNode argumentNodes nameChild,
    node.children = nameNode :: argumentNodes ∧ nameNode.kind = "command_name".toList ∧
    nameNode.isNamed = true ∧ nameNode.children = [nameChild] ∧ command.name.Parses nameChild ∧
    List.Forall₂ Argument.Parses command.arguments argumentNodes

namespace Script

mutual

/-- The tree is the tree of the script: operators and other tokens have no children. -/
def Parses : Script → Node → Prop
  | .command simple, node => simple.Parses node
  | .group kind parts, node => node.kind = kind.nodeKind ∧ node.isNamed = true ∧
      PartsParse parts node.namedChildren ∧
      ∀ child ∈ node.children, child.isNamed = false → child.children = []

/-- The trees are the trees of the parts. -/
def PartsParse : List Script → List Node → Prop
  | [], nodes => nodes = []
  | part :: parts, nodes => ∃ node rest, nodes = node :: rest ∧ Parses part node ∧
      PartsParse parts rest

end

end Script

namespace Node

lemma commandNodes_eq (node : Node) : node.commandNodes =
    (if node.isCommand then [node] else []) ++ commandNodesOf node.children := by
  rcases node with ⟨kind, isNamed, startByte, text, children⟩
  rw [commandNodes]
  rfl

lemma size_eq (node : Node) : node.size = 1 + sizes node.children := by
  rcases node with ⟨kind, isNamed, startByte, text, children⟩
  rw [size]
  rfl

lemma sizes_eq_sum (nodes : List Node) : sizes nodes = (nodes.map size).sum := by
  induction nodes with
  | nil => rw [sizes, List.map_nil, List.sum_nil]
  | cons node nodes ih => rw [sizes, List.map_cons, List.sum_cons, ih]

lemma commandNodesOf_eq_flatMap (nodes : List Node) :
    commandNodesOf nodes = nodes.flatMap commandNodes := by
  induction nodes with
  | nil => rw [commandNodesOf, List.flatMap_nil]
  | cons node nodes ih => rw [commandNodesOf, List.flatMap_cons, ih]

lemma commandNodesOf_eq_nil {nodes : List Node} (h : ∀ node ∈ nodes, node.commandNodes = []) :
    commandNodesOf nodes = [] := by
  rw [commandNodesOf_eq_flatMap, List.flatMap_eq_nil_iff]
  exact h

lemma commandNodes_of_leaf {node : Node} (hcommand : node.isCommand = false)
    (hchildren : node.children = []) : node.commandNodes = [] := by
  rw [commandNodes_eq, hcommand, hchildren, commandNodesOf]
  rfl

lemma commandNodesOf_namedChildren {node : Node}
    (h : ∀ child ∈ node.children, child.isNamed = false → child.children = []) :
    commandNodesOf node.children = commandNodesOf node.namedChildren := by
  rw [namedChildren, commandNodesOf_eq_flatMap, commandNodesOf_eq_flatMap]
  generalize node.children = children at h
  induction children with
  | nil => rfl
  | cons child children ih =>
    have hrest := ih fun c hc => h c (List.mem_cons_of_mem _ hc)
    by_cases hnamed : child.isNamed
    · rw [List.filter_cons_of_pos hnamed, List.flatMap_cons, List.flatMap_cons, hrest]
    · rw [Bool.not_eq_true] at hnamed
      have hcommand : child.isCommand = false := by rw [isCommand, hnamed, Bool.false_and]
      rw [List.filter_cons_of_neg (by rw [hnamed]; exact Bool.false_ne_true), List.flatMap_cons,
        commandNodes_of_leaf hcommand (h child List.mem_cons_self hnamed), hrest]
      rfl

end Node

/-! ### The walk -/

/-- **The walk finds every command.** -/
theorem walk_perm (rounds : ℕ) (stack found result : List Node)
    (hrounds : Node.sizes stack ≤ rounds) (h : walkRounds rounds stack found = some result) :
    result.Perm (found ++ Node.commandNodesOf stack) := by
  induction rounds generalizing stack found with
  | zero =>
    rcases stack with _ | ⟨node, stack⟩
    · cases h
      rw [Node.commandNodesOf, List.append_nil]
    · rw [Node.sizes, Node.size_eq] at hrounds
      omega
  | succ rounds ih =>
    rcases stack with _ | ⟨node, stack⟩
    · cases h
      rw [Node.commandNodesOf, List.append_nil]
    · rw [walkRounds] at h
      by_cases hallowed : node.isAllowed
      · rw [if_pos hallowed] at h
        have hsize : Node.sizes (node.children.reverse ++ stack) ≤ rounds := by
          rw [Node.sizes, Node.size_eq] at hrounds
          rw [Node.sizes_eq_sum, List.map_append, List.sum_append, List.map_reverse,
            List.sum_reverse, ← Node.sizes_eq_sum, ← Node.sizes_eq_sum]
          omega
        have hfound : (if node.isCommand then found ++ [node] else found) =
            found ++ if node.isCommand then [node] else [] := by
          split_ifs with hcommand
          · rfl
          · rw [List.append_nil]
        apply (ih _ _ hsize h).trans
        rw [hfound, Node.commandNodesOf, Node.commandNodes_eq, List.append_assoc,
          List.append_assoc, Node.commandNodesOf_eq_flatMap, Node.commandNodesOf_eq_flatMap,
          Node.commandNodesOf_eq_flatMap, List.flatMap_append]
        refine ((List.Perm.append_right _ ?_).append_left _).append_left _
        exact (List.reverse_perm node.children).flatMap_right _
      · simp [if_neg hallowed] at h

/-- Sorted by their positions, the commands stand in the order of the source. -/
theorem mergeSort_eq_of_perm {nodes sorted : List Node} (hperm : nodes.Perm sorted)
    (hsorted : sorted.Pairwise fun a b => a.startByte < b.startByte) :
    (nodes.mergeSort fun a b => a.startByte ≤ b.startByte) = sorted := by
  have hle : sorted.Pairwise fun a b => a.startByte ≤ b.startByte := hsorted.imp Nat.le_of_lt
  have hmerge : (nodes.mergeSort fun a b => a.startByte ≤ b.startByte).Pairwise
      fun a b => decide (a.startByte ≤ b.startByte) = true := by
    apply List.pairwise_mergeSort
    · intro a b c hab hbc
      rw [decide_eq_true_iff] at *
      exact hab.trans hbc
    · intro a b
      rw [Bool.or_eq_true, decide_eq_true_iff, decide_eq_true_iff]
      exact Nat.le_total _ _
  simp only [decide_eq_true_iff] at hmerge
  have hperm' := (List.mergeSort_perm nodes fun a b => a.startByte ≤ b.startByte).trans hperm
  refine List.Perm.eq_of_pairwise ?_ hmerge hle hperm'
  intro a b ha hb hab hba
  have hnodup : (sorted.map Node.startByte).Nodup :=
    List.pairwise_map.mpr (hsorted.imp Nat.ne_of_lt)
  exact List.inj_on_of_nodup_map hnodup (hperm'.mem_iff.mp ha) hb (Nat.le_antisymm hab hba)

/-! ### The commands of a script -/

lemma exists_of_forall₂_right {α β : Type} {R : α → β → Prop} {as : List α} {bs : List β}
    (h : List.Forall₂ R as bs) {b : β} (hb : b ∈ bs) : ∃ a ∈ as, R a b := by
  induction h with
  | nil => cases hb
  | cons hab _ ih =>
    rcases List.mem_cons.mp hb with rfl | hb
    · exact ⟨_, List.mem_cons_self, hab⟩
    · obtain ⟨a, ha, hr⟩ := ih hb
      exact ⟨a, List.mem_cons_of_mem _ ha, hr⟩

section parses

variable {node : Node}

lemma Node.isCommand_of_kind (h : node.kind ≠ "command".toList) : node.isCommand = false := by
  rw [Node.isCommand, Bool.and_eq_false_iff, beq_eq_false_iff_ne]
  exact .inr h

lemma Piece.nodeKind_ne (piece : Piece) {kind : Text}
    (h : kind ∉ ["word", "number", "string", "raw_string"].map String.toList) :
    piece.nodeKind ≠ kind := by
  rintro rfl
  apply h
  rcases piece with _ | _ | _ | _
  · exact List.mem_cons_self
  · exact List.mem_cons_of_mem _ List.mem_cons_self
  · exact List.mem_cons_of_mem _ (List.mem_cons_of_mem _ List.mem_cons_self)
  · exact List.mem_cons_of_mem _ (List.mem_cons_of_mem _ (List.mem_cons_of_mem _
      List.mem_cons_self))

lemma GroupKind.nodeKind_ne_command : (kind : GroupKind) → kind.nodeKind ≠ "command".toList
  | .program => (by simp : "program".toList ≠ "command".toList)
  | .list => (by simp : "list".toList ≠ "command".toList)
  | .pipeline => (by simp : "pipeline".toList ≠ "command".toList)

lemma Piece.Parses.commandNodes {piece : Piece} (h : piece.Parses node) :
    node.commandNodes = [] := by
  obtain ⟨hkind, -, -, hchildren⟩ := h
  have hcommand : node.isCommand = false := by
    apply Node.isCommand_of_kind
    rw [hkind]
    exact piece.nodeKind_ne (by simp)
  rw [Node.commandNodes_eq, hcommand, Node.commandNodesOf_eq_nil]
  · rfl
  · intro child hchild
    exact Node.commandNodes_of_leaf (hchildren child hchild).1 (hchildren child hchild).2

lemma Argument.Parses.isNamed {argument : Argument} (h : argument.Parses node) :
    node.isNamed = true := by
  rcases argument with part | parts
  · exact h.2.1
  · exact h.2.1

lemma Argument.Parses.commandNodes {argument : Argument} (h : argument.Parses node) :
    node.commandNodes = [] := by
  rcases argument with part | parts
  · exact Piece.Parses.commandNodes h
  · obtain ⟨hkind, -, hparts⟩ := h
    have hcommand : node.isCommand = false := by
      apply Node.isCommand_of_kind
      rw [hkind]
      simp
    rw [Node.commandNodes_eq, hcommand, Node.commandNodesOf_eq_nil]
    · rfl
    · intro child hchild
      obtain ⟨part, -, hpart⟩ := exists_of_forall₂_right hparts hchild
      exact hpart.commandNodes

lemma Command.Parses.commandNodes {command : Command} (h : command.Parses node) :
    node.commandNodes = [node] := by
  obtain ⟨hkind, hnamed, nameNode, argumentNodes, nameChild, hchildren, hname, -, hnameChild,
    hparsed, harguments⟩ := h
  have hcommand : node.isCommand = true := by
    rw [Node.isCommand, hnamed, hkind]
    simp
  have hnameCommand : nameNode.isCommand = false := by
    apply Node.isCommand_of_kind
    rw [hname]
    simp
  rw [Node.commandNodes_eq, hcommand, Node.commandNodesOf_eq_nil]
  · rfl
  · intro child hchild
    rw [hchildren] at hchild
    rcases List.mem_cons.mp hchild with rfl | hchild
    · rw [Node.commandNodes_eq, hnameCommand, hnameChild, Node.commandNodesOf_eq_nil]
      · rfl
      · intro inner hinner
        rw [List.mem_singleton.mp hinner]
        exact hparsed.commandNodes
    · obtain ⟨argument, -, hargument⟩ := exists_of_forall₂_right harguments hchild
      exact hargument.commandNodes

mutual

/-- The command nodes of the tree of a script are the nodes of its commands. -/
theorem Script.Parses.commandNodes : (script : Script) → ∀ {node : Node}, script.Parses node →
    List.Forall₂ Command.Parses script.commands node.commandNodes
  | .command simple, node, h => by
    rw [Script.Parses] at h
    rw [Script.commands, h.commandNodes]
    exact .cons h .nil
  | .group kind parts, node, h => by
    rw [Script.Parses] at h
    obtain ⟨hkind, hnamed, hparts, htokens⟩ := h
    have hcommand : node.isCommand = false := by
      apply Node.isCommand_of_kind
      rw [hkind]
      exact kind.nodeKind_ne_command
    have hchildren : Node.commandNodesOf node.children = Node.commandNodesOf node.namedChildren :=
      Node.commandNodesOf_namedChildren htokens
    rw [Script.commands, Node.commandNodes_eq, hcommand, hchildren]
    exact Script.PartsParse.commandNodes parts hparts

lemma Script.PartsParse.commandNodes : (parts : List Script) → ∀ {nodes : List Node},
    Script.PartsParse parts nodes →
      List.Forall₂ Command.Parses (Script.commandsOf parts) (Node.commandNodesOf nodes)
  | [], nodes, h => by
    rw [Script.PartsParse] at h
    rw [h, Script.commandsOf, Node.commandNodesOf]
    exact .nil
  | part :: parts, nodes, h => by
    rw [Script.PartsParse] at h
    obtain ⟨node, rest, rfl, hpart, hrest⟩ := h
    rw [Script.commandsOf, Node.commandNodesOf]
    exact List.rel_append (Script.Parses.commandNodes part hpart)
      (Script.PartsParse.commandNodes parts hrest)

end

end parses

/-! ### The words of a command -/

lemma stripQuotes_quoted (quote : Char) (content : Text) :
    stripQuotes quote (quote :: content ++ [quote]) = some content := by
  have hstrip : stripPrefix [quote] (quote :: content ++ [quote]) = some (content ++ [quote]) :=
    stripPrefix_append [quote] (content ++ [quote])
  rw [stripQuotes, hstrip]
  simp

section words

variable {node : Node} {word : Text}

lemma parsePart_eq {piece : Piece} (h : piece.Parses node) (hread : parsePart node = some word) :
    word = piece.unquoted := by
  obtain ⟨hkind, -, htext, -⟩ := h
  rw [parsePart] at hread
  rcases piece with source | source | content | content
  · rw [if_pos (.inl hkind), htext] at hread
    exact (Option.some.inj hread).symm
  · rw [if_pos (.inr hkind), htext] at hread
    exact (Option.some.inj hread).symm
  · have hword : ¬ (node.kind = "word".toList ∨ node.kind = "number".toList) := by
      rw [hkind]
      exact (by simp : ¬ ("string".toList = "word".toList ∨
        "string".toList = "number".toList))
    have hstring : node.kind = "string".toList := hkind
    rw [if_neg hword, if_pos hstring, parseDoubleQuotedString,
      if_neg (not_not.mpr hstring)] at hread
    split_ifs at hread
    rw [htext, Piece.source, stripQuotes_quoted] at hread
    exact (Option.some.inj hread).symm
  · have hraw : node.kind = "raw_string".toList := hkind
    have hword : ¬ (node.kind = "word".toList ∨ node.kind = "number".toList) := by
      rw [hraw]
      simp
    have hstring : ¬ node.kind = "string".toList := by
      rw [hraw]
      simp
    rw [if_neg hword, if_neg hstring, if_pos hraw, parseRawString, if_neg (not_not.mpr hraw), htext,
      Piece.source, stripQuotes_quoted] at hread
    exact (Option.some.inj hread).symm

lemma parseChild_eq {argument : Argument} (h : argument.Parses node)
    (hread : parseChild node = some word) : word = argument.unquoted := by
  rcases argument with part | parts
  · have hkind : node.kind = part.nodeKind := h.1
    have hname : ¬ node.kind = "command_name".toList := by
      rw [hkind]
      exact part.nodeKind_ne (by simp)
    have hconcatenation : ¬ node.kind = "concatenation".toList := by
      rw [hkind]
      exact part.nodeKind_ne (by simp)
    rw [parseChild, if_neg hname, if_neg hconcatenation] at hread
    rw [parsePart_eq h hread, Argument.unquoted, Argument.pieces, List.flatMap_singleton]
  · obtain ⟨hkind, -, hparts⟩ := h
    have hname : ¬ node.kind = "command_name".toList := by
      rw [hkind]
      simp
    rw [parseChild, if_neg hname, if_pos hkind, parseConcatenation] at hread
    obtain ⟨texts, htexts, hjoined⟩ := Option.bind_eq_some_iff.mp hread
    have hnamed : node.namedChildren = node.children := by
      apply List.filter_eq_self.mpr
      intro child hchild
      obtain ⟨part, -, hpart⟩ := exists_of_forall₂_right hparts hchild
      exact hpart.2.1
    rw [hnamed] at htexts
    have hmap := map_eq_of_forall₂ hparts (forall₂_of_mapM htexts)
      fun _ _ _ hpart hword => parsePart_eq hpart hword
    simp only at hjoined
    split_ifs at hjoined
    rw [← Option.some.inj hjoined, hmap, Argument.unquoted, Argument.pieces, List.flatMap_def]

lemma parseName_eq {argument : Argument} {child : Node}
    (hkind : node.kind = "command_name".toList) (hchild : node.children = [child])
    (h : argument.Parses child) (hread : parseChild node = some word) :
    word = argument.unquoted := by
  have hnamed : node.namedChildren = [child] := by
    rw [Node.namedChildren, hchild, List.filter_cons_of_pos h.isNamed, List.filter_nil]
  rw [parseChild, if_pos hkind, hnamed, List.head?_cons, Option.bind_eq_bind,
    Option.bind_some] at hread
  split_ifs at hread with hword
  rcases argument with part | parts
  · obtain ⟨hpartKind, -, htext, -⟩ := h
    rw [← Option.some.inj hread, htext, Argument.unquoted, Argument.pieces, List.flatMap_singleton]
    rcases part with source | source | content | content
    · rfl
    · rfl
    · exact absurd hpartKind (by rw [not_not.mp hword]; exact
        (by simp : "word".toList ≠ "string".toList))
    · exact absurd hpartKind (by rw [not_not.mp hword]; exact
        (by simp : "word".toList ≠ "raw_string".toList))
  · have hconcatenation : child.kind = "concatenation".toList := h.1
    exact absurd hconcatenation (by rw [not_not.mp hword]; decide +kernel)

/-- A command that is accepted is read as its source, without the quotes. -/
theorem parsePlainCommandFromNode_eq {command : Command} {words : List Text}
    (h : command.Parses node) (hread : parsePlainCommandFromNode node = some words) :
    words = command.words.map Argument.unquoted := by
  obtain ⟨hkind, -, nameNode, argumentNodes, nameChild, hchildren, hname, hnamed, hnameChild,
    hparsed, harguments⟩ := h
  have hnamedChildren : node.namedChildren = nameNode :: argumentNodes := by
    rw [Node.namedChildren, hchildren]
    apply List.filter_eq_self.mpr
    intro child hchild
    rcases List.mem_cons.mp hchild with rfl | hchild
    · exact hnamed
    · obtain ⟨argument, -, hargument⟩ := exists_of_forall₂_right harguments hchild
      exact hargument.isNamed
  rw [parsePlainCommandFromNode, if_neg (not_not.mpr hkind), hnamedChildren] at hread
  obtain _ | ⟨hfirst, hrest⟩ := forall₂_of_mapM hread
  rw [Command.words, List.map_cons, parseName_eq hname hnameChild hparsed hfirst,
    map_eq_of_forall₂ harguments hrest fun _ _ _ hargument hword => parseChild_eq hargument hword]

end words

/-- **What is accepted is read as its source**, without the quotes: the commands of the script in
their order. -/
theorem tryParse_eq_source {tree : Tree} {script : Script} {commands : List (List Text)}
    (hparses : script.Parses tree.root)
    (horder : tree.root.commandNodes.Pairwise fun a b => a.startByte < b.startByte)
    (h : tryParseWordOnlyCommandsSequence tree = some commands) :
    commands = script.unquoted := by
  rw [tryParseWordOnlyCommandsSequence] at h
  by_cases herror : tree.hasError
  · simp [if_pos herror] at h
  rw [if_neg herror] at h
  obtain ⟨nodes, hnodes, hread⟩ := Option.bind_eq_some_iff.mp h
  have hperm := walk_perm _ _ _ _ (by rw [Node.sizes, Node.sizes, Nat.add_zero]) hnodes
  rw [List.nil_append, Node.commandNodesOf, Node.commandNodesOf, List.append_nil] at hperm
  simp only [mergeSort_eq_of_perm hperm horder] at hread
  exact map_eq_of_forall₂ (Script.Parses.commandNodes script hparses) (forall₂_of_mapM hread)
    fun _ _ _ hcommand hwords => parsePlainCommandFromNode_eq hcommand hwords

/-! ### Backslashes -/

variable (s : Text)

/-- A backslash outside quotes with a character after it. -/
def HasEscape : Prop := ∃ before c after, s = before ++ '\\' :: c :: after

/-- A backslash in double quotes with a character after it that it escapes. -/
def HasQuotedEscape : Prop :=
  ∃ before c after, s = before ++ '\\' :: c :: after ∧ isEscapable c = true

lemma length_unescape_le : (unescape s).length ≤ s.length := by
  fun_induction unescape s with
  | case1 s ih => simp only [List.length_cons]; omega
  | case2 c s _ ih => simp only [List.length_cons]; omega
  | case3 c s _ _ ih => simp only [List.length_cons]; omega
  | case4 => exact le_rfl

lemma hasEscape_cons_iff {c : Char} {s : Text}
    (h : ∀ c' s', c = '\\' → s = c' :: s' → False) : HasEscape (c :: s) ↔ HasEscape s := by
  constructor
  · rintro ⟨_ | ⟨first, before⟩, c', after, heq⟩
    · obtain ⟨hc, hs⟩ := List.cons.inj heq
      exact absurd hs (h c' after hc)
    · exact ⟨before, c', after, (List.cons.inj heq).2⟩
  · rintro ⟨before, c', after, rfl⟩
    exact ⟨c :: before, c', after, rfl⟩

lemma unescape_eq_self_iff : unescape s = s ↔ ¬ HasEscape s := by
  fun_induction unescape s with
  | case1 s ih =>
    refine iff_of_false (fun h => ?_) (not_not.mpr ⟨[], '\n', s, rfl⟩)
    have hle := length_unescape_le s
    have hlen := congrArg List.length h
    simp only [List.length_cons] at hlen
    omega
  | case2 c s _ ih =>
    refine iff_of_false (fun h => ?_) (not_not.mpr ⟨[], c, s, rfl⟩)
    have hle := length_unescape_le s
    have hlen := congrArg List.length h
    simp only [List.length_cons] at hlen
    omega
  | case3 c s _ hnone ih =>
    rw [hasEscape_cons_iff hnone, ← ih]
    exact ⟨fun h => (List.cons.inj h).2, fun h => by rw [h]⟩
  | case4 =>
    refine iff_of_true rfl ?_
    rintro ⟨before, c, after, h⟩
    exact absurd h.symm (List.append_ne_nil_of_right_ne_nil _ (List.cons_ne_nil _ _))

lemma length_unescapeQuoted_le : (unescapeQuoted s).length ≤ s.length := by
  fun_induction unescapeQuoted s with
  | case1 s ih => simp only [List.length_cons]; omega
  | case2 c s _ _ ih => simp only [List.length_cons]; omega
  | case3 c s _ _ ih => simp only [List.length_cons]; omega
  | case4 c s _ ih => simp only [List.length_cons]; omega
  | case5 => exact le_rfl

lemma hasQuotedEscape_cons_iff {c : Char} {s : Text}
    (h : ∀ c' s', c = '\\' → s = c' :: s' → isEscapable c' = false) :
    HasQuotedEscape (c :: s) ↔ HasQuotedEscape s := by
  constructor
  · rintro ⟨_ | ⟨first, before⟩, c', after, heq, hescapable⟩
    · obtain ⟨hc, hs⟩ := List.cons.inj heq
      simp [h c' after hc hs] at hescapable
    · exact ⟨before, c', after, (List.cons.inj heq).2, hescapable⟩
  · rintro ⟨before, c', after, rfl, hescapable⟩
    exact ⟨c :: before, c', after, rfl, hescapable⟩

lemma unescapeQuoted_eq_self_iff : unescapeQuoted s = s ↔ ¬ HasQuotedEscape s := by
  fun_induction unescapeQuoted s with
  | case1 s ih =>
    refine iff_of_false (fun h => ?_) (not_not.mpr ⟨[], '\n', s, rfl, by decide⟩)
    have hle := length_unescapeQuoted_le s
    have hlen := congrArg List.length h
    simp only [List.length_cons] at hlen
    omega
  | case2 c s _ hescapable ih =>
    refine iff_of_false (fun h => ?_) (not_not.mpr ⟨[], c, s, rfl, hescapable⟩)
    have hle := length_unescapeQuoted_le s
    have hlen := congrArg List.length h
    simp only [List.length_cons] at hlen
    omega
  | case3 c s _ hescapable ih =>
    rw [Bool.not_eq_true] at hescapable
    have hc : c ≠ '\\' := by
      rintro rfl
      cases hescapable
    have hfirst : ∀ c' s', '\\' = '\\' → c :: s = c' :: s' → isEscapable c' = false := by
      intro c' s' _ heq
      rw [← (List.cons.inj heq).1]
      exact hescapable
    rw [hasQuotedEscape_cons_iff hfirst,
      hasQuotedEscape_cons_iff fun _ _ hbackslash => absurd hbackslash hc, ← ih]
    exact ⟨fun h => (List.cons.inj (List.cons.inj h).2).2, fun h => by rw [h]⟩
  | case4 c s hnone ih =>
    rw [hasQuotedEscape_cons_iff fun c' s' hc hs => (hnone c' s' hc hs).elim, ← ih]
    exact ⟨fun h => (List.cons.inj h).2, fun h => by rw [h]⟩
  | case5 =>
    refine iff_of_true rfl ?_
    rintro ⟨before, c, after, h, -⟩
    exact absurd h.symm (List.append_ne_nil_of_right_ne_nil _ (List.cons_ne_nil _ _))

/-- No backslash of the piece is removed. -/
def Piece.Unescaped : Piece → Prop
  | .word source => ¬ HasEscape source
  | .number source => ¬ HasEscape source
  | .string content => ¬ HasQuotedEscape content
  | .rawString _ => True

lemma Piece.value_eq_unquoted_iff (piece : Piece) : piece.value = piece.unquoted ↔
    piece.Unescaped := by
  rcases piece with source | source | content | content
  · exact unescape_eq_self_iff source
  · exact unescape_eq_self_iff source
  · exact unescapeQuoted_eq_self_iff content
  · exact iff_of_true rfl trivial

lemma Piece.length_value_le (piece : Piece) : piece.value.length ≤ piece.unquoted.length := by
  rcases piece with source | source | content | content
  · exact length_unescape_le source
  · exact length_unescape_le source
  · exact length_unescapeQuoted_le content
  · exact le_rfl

/-- Texts that are at most as long each are equal together only if each is. -/
theorem flatMap_eq_flatMap_iff {α β : Type} {f g : α → List β} (l : List α)
    (h : ∀ a ∈ l, (f a).length ≤ (g a).length) :
    l.flatMap g = l.flatMap f ↔ ∀ a ∈ l, g a = f a := by
  constructor
  · intro heq
    induction l with
    | nil => exact fun _ ha => absurd ha List.not_mem_nil
    | cons a l ih =>
      rw [List.flatMap_cons, List.flatMap_cons] at heq
      have htail : ∀ a ∈ l, (f a).length ≤ (g a).length := fun a ha =>
        h a (List.mem_cons_of_mem _ ha)
      have hle : (l.flatMap f).length ≤ (l.flatMap g).length := by
        rw [List.length_flatMap, List.length_flatMap]
        exact List.sum_le_sum htail
      have hlen := congrArg List.length heq
      rw [List.length_append, List.length_append] at hlen
      have ha := h a List.mem_cons_self
      obtain ⟨hfirst, hrest⟩ := List.append_inj heq (by omega)
      intro b hb
      rcases List.mem_cons.mp hb with rfl | hb
      · exact hfirst
      · exact ih htail hrest b hb
  · intro hall
    rw [List.flatMap_def, List.flatMap_def, List.map_congr_left hall]

/-! ### Expansions -/

/-- Outside quotes bash may expand a word at these characters: `*`, `?` and `[` of a pattern, a
brace and a tilde. -/
def isActive (c : Char) : Bool := ['*', '?', '[', '{', '~'].contains c

/-- Whether an active character stands without a backslash before it. -/
def hasActive : Text → Bool
  | '\\' :: _ :: s => hasActive s
  | c :: s => isActive c || hasActive s
  | [] => false

def Piece.hasActive : Piece → Bool
  | .word source => ShellCommand.hasActive source
  | .number source => ShellCommand.hasActive source
  | .string _ => false
  | .rawString _ => false

namespace Argument

/-- Whether the word may be expanded. -/
def hasActive (argument : Argument) : Bool := argument.pieces.any Piece.hasActive

/-- The word is run as it is written: one that may be expanded is expanded to its own text, as where
a pattern matches no other name, and no backslash of another one is removed. -/
def KeptBy (expand : Argument → List Text) (argument : Argument) : Prop :=
  if argument.hasActive then expand argument = [argument.unquoted]
  else ∀ piece ∈ argument.pieces, piece.Unescaped

lemma value_eq_unquoted_iff (argument : Argument) :
    argument.value = argument.unquoted ↔ ∀ piece ∈ argument.pieces, piece.Unescaped := by
  have hpieces := flatMap_eq_flatMap_iff (f := Piece.value) (g := Piece.unquoted) argument.pieces
    fun piece _ => piece.length_value_le
  rw [eq_comm, unquoted, value, hpieces]
  apply forall₂_congr
  intro piece _
  rw [eq_comm]
  exact piece.value_eq_unquoted_iff

/-- The words that are not expanded give their values: then a word is kept exactly when it is run as
it is written. -/
theorem expand_eq_iff {expand : Argument → List Text} {argument : Argument}
    (hplain : argument.hasActive = false → expand argument = [argument.value]) :
    expand argument = [argument.unquoted] ↔ argument.KeptBy expand := by
  rw [KeptBy]
  by_cases hactive : argument.hasActive
  · rw [if_pos hactive]
  · rw [if_neg hactive, hplain ((Bool.not_eq_true _).mp hactive), List.singleton_inj,
      value_eq_unquoted_iff]

end Argument

/-- **What the parser reads is what bash forms** exactly when each word gives its text, where no
word vanishes. -/
theorem source_eq_argvs_iff {expand : Argument → List Text} {script : Script}
    (hstays : ∀ argument ∈ script.words, expand argument ≠ []) :
    script.unquoted = script.argvs expand ↔
      ∀ argument ∈ script.words, expand argument = [argument.unquoted] := by
  rw [Script.words, List.forall_mem_flatMap] at hstays
  rw [Script.unquoted, Script.argvs, List.map_inj_left, Script.words, List.forall_mem_flatMap]
  apply forall₂_congr
  intro command hcommand
  have hwords := flatMap_eq_flatMap_iff (f := fun argument => [Argument.unquoted argument])
    (g := expand) command.words fun argument hargument =>
      List.length_pos_of_ne_nil (hstays command hcommand argument hargument)
  rw [← hwords, eq_comm, List.map_eq_flatMap]

end Codex.ShellCommand
