import Codex.Lib.Unicode
import Codex.StreamParser.InlineHiddenTag

/-!
# Streamed bytes

`utils/stream-parser/src/utf8_stream.rs`: a parser of streamed text is fed bytes, and a character
whose bytes have not all come is held back.

* `pushBytes_cases`: a push changes nothing or takes all of its chunk;
* `pushBytes_rollsBack_and_pushAll_eq`: the inner parser has received the longest text of the bytes.
-/

namespace Codex.StreamParser

open Codex.Lib

structure StreamTextParser (P α : Type) where
  pushStr : P → Text → P × StreamTextChunk α
  finish : P → P × StreamTextChunk α

inductive Utf8StreamParserError where
  | invalidUtf8 (validUpTo errorLen : ℕ)
  | incompleteUtf8AtEof

structure Utf8StreamParser (P : Type) where
  inner : P
  pendingUtf8 : Bytes

namespace Utf8StreamParser

variable {P α : Type} (parser : StreamTextParser P α)

def new (inner : P) : Utf8StreamParser P := ⟨inner, []⟩

variable (self : Utf8StreamParser P)

def pushBytes (chunk : Bytes) :
    Utf8StreamParser P × Except Utf8StreamParserError (StreamTextChunk α) :=
  let oldLen := self.pendingUtf8.length
  let pending := self.pendingUtf8 ++ chunk
  match checkUtf8 pending with
  | .ok text =>
    let (inner, out) := parser.pushStr self.inner text
    (⟨inner, []⟩, .ok out)
  | .error ⟨validUpTo, some errorLen⟩ =>
    (⟨self.inner, pending.take oldLen⟩, .error (.invalidUtf8 validUpTo errorLen))
  | .error ⟨validUpTo, none⟩ =>
    if validUpTo = 0 then (⟨self.inner, pending⟩, .ok {})
    else
      match checkUtf8 (pending.take validUpTo) with
      | .ok text =>
        let (inner, out) := parser.pushStr self.inner text
        (⟨inner, pending.drop validUpTo⟩, .ok out)
      | .error prefixErr =>
        (⟨self.inner, pending.take oldLen⟩,
          .error (.invalidUtf8 prefixErr.validUpTo (prefixErr.errorLen.getD 0)))

def finish (self : Utf8StreamParser P) :
    Utf8StreamParser P × Except Utf8StreamParserError (StreamTextChunk α) :=
  -- the source reads the same bytes twice, and not at all when there are none
  match checkUtf8 self.pendingUtf8 with
  | .error ⟨validUpTo, some errorLen⟩ => (self, .error (.invalidUtf8 validUpTo errorLen))
  | .error ⟨_, none⟩ => (self, .error .incompleteUtf8AtEof)
  | .ok text =>
    let (inner, out) :=
      if self.pendingUtf8.isEmpty then (self.inner, {}) else parser.pushStr self.inner text
    let (inner, tail) := parser.finish inner
    (⟨inner, []⟩, .ok (out.append tail))

/-! ### Runs -/

/-- Chunks pushed one after the other, with the bytes of the accepted ones. -/
def pushAll (chunks : List Bytes) : Utf8StreamParser P × Bytes :=
  chunks.foldl (fun (self, accepted) chunk =>
    match self.pushBytes parser chunk with
    | (self, .ok _) => (self, accepted ++ chunk)
    | (self, .error _) => (self, accepted)) (self, [])

/-- The parser has been pushed the text, in pieces. -/
def Received (start : P) (text : Text) (inner : P) : Prop :=
  ∃ pieces : List Text, pieces.flatten = text ∧
    inner = pieces.foldl (fun inner piece => (parser.pushStr inner piece).1) start

variable {parser}

lemma Received.push {start inner : P} {text : Text} (h : Received parser start text inner)
    (piece : Text) : Received parser start (text ++ piece) (parser.pushStr inner piece).1 := by
  obtain ⟨pieces, rfl, rfl⟩ := h
  exact ⟨pieces ++ [piece], by simp, by rw [List.foldl_append]; rfl⟩

variable (parser) in
/-- A push fails and changes nothing, or its bytes are pending but for the text passed on. -/
theorem pushBytes_cases (self : Utf8StreamParser P) (chunk : Bytes) :
    (∃ error, self.pushBytes parser chunk = (self, .error error)) ∨
    ∃ inner pending out text, self.pushBytes parser chunk = (⟨inner, pending⟩, .ok out) ∧
      (inner = (parser.pushStr self.inner text).1 ∨ inner = self.inner ∧ text = []) ∧
      toBytes text ++ pending = self.pendingUtf8 ++ chunk ∧ PartialChar pending := by
  rw [pushBytes]
  dsimp only
  rcases checkUtf8_cases (self.pendingUtf8 ++ chunk) with
    ⟨text, hbytes, hcheck⟩ | ⟨text, rest, hbytes, hpartial, hcheck⟩ | ⟨validUpTo, errorLen, hcheck⟩
  · rw [hcheck]
    exact .inr ⟨_, [], _, text, rfl, .inl rfl, by rw [List.append_nil, hbytes], .inl rfl⟩
  · rw [hcheck]
    dsimp only
    right
    split_ifs with hzero
    · obtain rfl := toBytes_eq_nil_iff.mp (List.length_eq_zero_iff.mp hzero)
      rw [toBytes_nil, List.nil_append] at hbytes
      exact ⟨_, _, _, [], rfl, .inr ⟨rfl, rfl⟩, rfl, hbytes ▸ hpartial⟩
    · rw [hbytes, List.take_left, checkUtf8_toBytes, List.drop_left]
      exact ⟨_, rest, _, text, rfl, .inl rfl, rfl, hpartial⟩
  · rw [hcheck]
    dsimp only
    rw [List.take_left]
    exact .inl ⟨_, rfl⟩

variable (parser) in
/-- What holds of the parser and the bytes that it has accepted. -/
structure Fed (start : P) (stream : Utf8StreamParser P) (accepted : Bytes) : Prop where
  received : Received parser start (validPrefix accepted).1 stream.inner
  pending_eq : stream.pendingUtf8 = (validPrefix accepted).2
  partialChar : PartialChar stream.pendingUtf8
  accepted_eq : toBytes (validPrefix accepted).1 ++ stream.pendingUtf8 = accepted

lemma Fed.pushBytes {start inner : P} {self : Utf8StreamParser P} {accepted pending chunk : Bytes}
    {text : Text} (h : Fed parser start self accepted)
    (hinner : inner = (parser.pushStr self.inner text).1 ∨ inner = self.inner ∧ text = [])
    (hbytes : toBytes text ++ pending = self.pendingUtf8 ++ chunk)
    (hpending : PartialChar pending) :
    Fed parser start ⟨inner, pending⟩ (accepted ++ chunk) := by
  obtain ⟨hreceived, -, -, haccepted⟩ := h
  have hjoin : toBytes ((validPrefix accepted).1 ++ text) ++ pending = accepted ++ chunk := by
    rw [toBytes_append, List.append_assoc, hbytes, ← List.append_assoc, haccepted]
  have hvalid := @validPrefix_eq ((validPrefix accepted).1 ++ text) pending
    (decodeUtf8Char_eq_none pending hpending)
  rw [hjoin] at hvalid
  refine ⟨?_, by rw [hvalid], hpending, by rw [hvalid, hjoin]⟩
  rw [hvalid]
  obtain rfl | ⟨rfl, rfl⟩ := hinner
  · exact hreceived.push text
  · rwa [List.append_nil]

lemma Fed.longest {start : P} {self : Utf8StreamParser P} {accepted : Bytes} {longer : Text}
    (h : Fed parser start self accepted) (hlonger : toBytes longer <+: accepted) :
    longer <+: (validPrefix accepted).1 := by
  rw [← h.accepted_eq] at hlonger
  exact prefix_of_toBytes_prefix (decodeUtf8Char_eq_none _ h.partialChar) hlonger

variable (parser) in
/-- **No bytes are lost or half applied.** A push that fails changes nothing. After any pushes the
inner parser has received the longest text that the accepted bytes start with, and the bytes after
it are pending: at most three, of a character that has begun. -/
theorem pushBytes_rollsBack_and_pushAll_eq :
    (∀ (self : Utf8StreamParser P) chunk error, (self.pushBytes parser chunk).2 = .error error →
      (self.pushBytes parser chunk).1 = self) ∧
    ∀ (inner : P) (chunks : List Bytes),
      let (self, accepted) := (new inner).pushAll parser chunks
      let (text, pending) := validPrefix accepted
      Received parser inner text self.inner ∧ self.pendingUtf8 = pending ∧
        toBytes text ++ pending = accepted ∧
        (∀ longer, toBytes longer <+: accepted → longer <+: text) ∧
        PartialChar pending ∧ pending.length ≤ 3 := by
  constructor
  · intro self chunk error herror
    rcases pushBytes_cases parser self chunk with
      ⟨_, heq⟩ | ⟨inner, pending, out, text, heq, -⟩
    · rw [heq]
    · simp [heq] at herror
  · intro inner chunks
    have hfed : Fed parser inner ((new inner).pushAll parser chunks).1
        ((new inner).pushAll parser chunks).2 := by
      rw [pushAll]
      refine List.foldlRecOn (motive := fun run : Utf8StreamParser P × Bytes =>
        Fed parser inner run.1 run.2) chunks _ ⟨⟨[], rfl, rfl⟩, rfl, .inl rfl, rfl⟩ ?_
      rintro ⟨self, accepted⟩ hfed chunk -
      dsimp only at hfed ⊢
      rcases pushBytes_cases parser self chunk with
        ⟨_, heq⟩ | ⟨inner', pending, out, text, heq, hinner, hbytes, hpending⟩
      · rw [heq]
        exact hfed
      · rw [heq]
        exact hfed.pushBytes hinner hbytes hpending
    have hpartial := hfed.partialChar
    have haccepted := hfed.accepted_eq
    rw [hfed.pending_eq] at hpartial haccepted
    exact ⟨hfed.received, hfed.pending_eq, haccepted, fun longer => hfed.longest, hpartial,
      hpartial.length_le⟩

end Utf8StreamParser

end Codex.StreamParser
