import Codex.ExecServer.SessionEvents

/-!
# Streamed bodies of HTTP responses

`exec-server/src/client/http_response_body_stream.rs`: a request of a stream gets an id of its own
and a bounded channel; notifications are routed to the channel by the id, and the consumer takes
them out in order. Tasks that route, tasks that fail all streams, requests and consumers run side by
side. They wait for the lock of the two maps, and nothing else is atomic.

The maps are kept by request here: `routed` says that `http_body_streams` has the id, `failing` that
the copy of the map in `fail_all_http_body_streams` has it, and `failure` is the entry of
`http_body_stream_failures`. A call of `recv` is run to its end, or dropped with its stream.

* `Streamed.step`: what a request keeps;
* `complete_of_end`: **a stream that ends without an error was received completely**.
-/

namespace Codex.ExecServer

open Codex.Lib

/-! ### Deltas -/

/-- What a server sends under one number. -/
structure HttpBodyDelta where
  delta : List UInt8
  done : Bool
  error : Option Text
  deriving DecidableEq

/-- `HttpRequestBodyDeltaNotification`, for a known request -/
structure HttpRequestBodyDeltaNotification extends HttpBodyDelta where
  seq : ℕ
  deriving DecidableEq

/-- `let terminal_delta = params.done || params.error.is_some()` -/
def HttpBodyDelta.terminal (params : HttpBodyDelta) : Bool := params.done || params.error.isSome

def httpBodyDeltaChannelCapacity : ℕ := 256

/-- `next_http_body_stream_request_id`, the text of an id -/
def httpRequestId (id : ℕ) : Text := "http-".toList ++ numberText id

/-- `recv`, a delta with an error, or a failure that was recorded -/
def streamFailed (id : ℕ) (error : Text) : ExecServerError :=
  .protocol ("http response stream `".toList ++ httpRequestId id ++ "` failed: ".toList ++ error)

/-- `recv`, a delta out of order -/
def receivedSeq (id seq nextSeq : ℕ) : ExecServerError :=
  .protocol ("http response stream `".toList ++ httpRequestId id ++ "` received seq ".toList ++
    numberText seq ++ ", expected ".toList ++ numberText nextSeq)

/-! ### One request -/

/-- Where the receiver of a request is: not yet registered, with the request, with the stream, or
gone. -/
inductive ReceiverStage where
  | allocated
  | requesting
  | streaming
  | dropped
  deriving DecidableEq

/-- What a task of `handle_http_body_delta_notification` does next. -/
inductive DeltaHandler where
  | send (params : HttpRequestBodyDeltaNotification)
  | record
  | remove
  | done
  deriving DecidableEq

/-- What `recv` does after `finish_remote_stream`. -/
inductive RecvAfter where
  | eof
  | disconnected
  | failed (error : ExecServerError)
  | last (chunk : List UInt8)
  deriving DecidableEq

/-- What a call of `recv` waits for. -/
inductive RecvStage where
  | idle
  | finish (after : RecvAfter)
  | takeFailure
  deriving DecidableEq

/-- A request: its entries in the maps, the tasks that handle it, its channel, and its stream with
the results of `recv` so far. -/
structure HttpBodyRequest where
  stage : ReceiverStage
  routed : Bool
  failing : Bool
  failure : Option Text
  handlers : List DeltaHandler
  removals : ℕ
  queue : List HttpRequestBodyDeltaNotification
  nextSeq : ℕ
  pendingEof : Bool
  closed : Bool
  recv : RecvStage
  results : List (Except ExecServerError (Option (List UInt8)))

/-- What happens to a request. -/
inductive HttpBodyEvent where
  | insert
  | respond
  | failRequest
  | cancel
  | removeSpawned
  | notification (seq : ℕ)
  | handle (i : ℕ)
  | fail
  | poll
  | proceed
  | drop

namespace HttpBodyRequest

/-- A request that has its id, with the fields that its stream will begin with. -/
def new : HttpBodyRequest := ⟨.allocated, false, false, none, [], 0, [], 1, false, false, .idle, []⟩

variable (request : HttpBodyRequest)

/-- A task holds its clone of the sender to its end. -/
def hasSender : Bool :=
  request.routed || request.failing || request.handlers.any fun handler => handler != .done

/-- `remove_http_body_stream`, the section under the lock -/
def removeStream : HttpBodyRequest := { request with routed := false }

/-- `insert_http_body_stream`, the section under the lock -/
def insert : HttpBodyRequest :=
  if request.routed then { request with stage := .dropped }
  else { request with routed := true, failure := none, stage := .requesting }

/-! #### Routing -/

def setHandler (i : ℕ) (handler : DeltaHandler) : HttpBodyRequest :=
  { request with handlers := request.handlers.set i handler }

/-- The channel takes another delta. -/
def hasRoom : Bool :=
  request.queue.length < httpBodyDeltaChannelCapacity

/-- `handle_http_body_delta_notification`, `try_send` and the branch after it -/
def send (i : ℕ) (params : HttpRequestBodyDeltaNotification) : HttpBodyRequest :=
  if request.stage = .dropped then request.setHandler i .remove
  else if request.hasRoom then
    { request with queue := request.queue ++ [params] }.setHandler i
      (if params.terminal then .remove else .done)
  else request.setHandler i .record

/-- `"body delta channel filled before delivery"` -/
def channelFilled : Text := "body delta channel filled before delivery".toList

/-- `handle_http_body_delta_notification`, from one wait to the next -/
def handle (locked : Bool) (i : ℕ) : HttpBodyRequest :=
  match request.handlers[i]? with
  | some (.send params) => request.send i params
  | some .record =>
    if locked then request
    else { request with failure := some channelFilled }.setHandler i .remove
  | some .remove => if locked then request else request.removeStream.setHandler i .done
  | some .done => request
  | none => request

/-- `fail_all_http_body_streams`, the body of the loop -/
def fail (message : Text) : HttpBodyRequest :=
  if request.stage ≠ .dropped ∧ request.hasRoom then
    { request with
      failing := false
      queue := request.queue ++ [⟨⟨[], true, some message⟩, 1⟩] }
  else { request with failing := false, failure := some message }

/-! #### Receiving -/

/-- A call of `recv` returns. -/
def settle (result : Except ExecServerError (Option (List UInt8))) : HttpBodyRequest :=
  { request with recv := .idle, results := request.results ++ [result] }

/-- `recv`, what follows `finish_remote_stream` -/
def resume : RecvAfter → HttpBodyRequest
  | .eof => request.settle (.ok none)
  | .disconnected => { request with recv := .takeFailure }
  | .failed error => request.settle (.error error)
  | .last chunk =>
    if chunk = [] then request.settle (.ok none)
    else { request with pendingEof := true }.settle (.ok (some chunk))

/-- `finish_remote_stream`, up to the lock -/
def finish (request : HttpBodyRequest) (after : RecvAfter) : HttpBodyRequest :=
  if request.closed then request.resume after
  else { request with closed := true, recv := .finish after }

variable (id : ℕ)

/-- `recv`, what it does with a delta -/
def receive (delta : HttpRequestBodyDeltaNotification) : HttpBodyRequest :=
  if delta.seq ≠ request.nextSeq then
    request.finish (.failed (receivedSeq id delta.seq request.nextSeq))
  else
    let request := { request with nextSeq := request.nextSeq + 1 }
    match delta.error with
    | some error => request.finish (.failed (streamFailed id error))
    | none =>
      if delta.done then request.finish (.last delta.delta)
      else request.settle (.ok (some delta.delta))

/-- `recv`, up to its first lock; without a delta it waits while there is a sender -/
def poll : HttpBodyRequest :=
  if request.pendingEof then { request with pendingEof := false }.finish .eof
  else
    match request.queue with
    | delta :: queue => { request with queue := queue }.receive id delta
    | [] => if request.hasSender then request else request.finish .disconnected

/-- `recv`, from a lock to its end or the next lock -/
def proceed : HttpBodyRequest :=
  match request.recv with
  | .idle => request
  | .finish after => request.removeStream.resume after
  | .takeFailure =>
    match request.failure with
    | some error => { request with failure := none }.settle (.error (streamFailed id error))
    | none => request.settle (.ok none)

/-- `Drop for HttpResponseBodyStream` -/
def drop : HttpBodyRequest :=
  if request.closed then { request with stage := .dropped }
  else
    { request with
      stage := .dropped
      closed := true
      removals := request.removals + 1 }

/-! #### Steps -/

/-- What an event does to a request with this id, for what its server sent and the lock: it is held
by a task that fails all streams with a message, or free. Other sections under the lock are steps of
their own. -/
def step (sent : ℕ → Option HttpBodyDelta)
    (lock : Option Text) : HttpBodyEvent → HttpBodyRequest
  | .insert =>
    if request.stage = .allocated ∧ lock = none then request.insert else request
  | .respond =>
    if request.stage = .requesting then { request with stage := .streaming } else request
  | .failRequest =>
    if request.stage = .requesting ∧ lock = none then
      { request.removeStream with stage := .dropped }
    else request
  | .cancel =>
    match request.stage with
    | .allocated => { request with stage := .dropped }
    | .requesting => { request with stage := .dropped, removals := request.removals + 1 }
    | _ => request
  | .removeSpawned =>
    if 0 < request.removals ∧ lock = none then
      { request.removeStream with removals := request.removals - 1 }
    else request
  | .notification seq =>
    match sent seq with
    | some delta =>
      -- an id that is not registered is ignored
      if request.routed then
        { request with handlers := request.handlers ++ [.send ⟨delta, seq⟩] }
      else request
    | none => request
  | .handle i => request.handle lock.isSome i
  | .fail =>
    match lock with
    | some message => if request.failing then request.fail message else request
    | none => request
  | .poll =>
    if request.stage = .streaming ∧ request.recv = .idle then request.poll id else request
  | .proceed =>
    if request.stage = .streaming ∧ lock = none then request.proceed id else request
  | .drop => if request.stage = .streaming then request.drop else request

end HttpBodyRequest

/-! ### All requests -/

/-- The streams of a client. The ids are given in order from 1, so that a request is in the list at
the place before its id. -/
structure HttpStreams where
  requests : List HttpBodyRequest
  lock : Option Text

/-- What happens to the streams of a client. -/
inductive HttpStreamsEvent where
  | request
  | on (i : ℕ) (event : HttpBodyEvent)
  | failAll (message : Text)
  | failAllDone

namespace HttpStreams

def new : HttpStreams := ⟨[], none⟩

/-- For what the server sends for each id under each number. -/
def step (server : ℕ → ℕ → Option HttpBodyDelta) (streams : HttpStreams) :
    HttpStreamsEvent → HttpStreams
  | .request => { streams with requests := streams.requests ++ [.new] }
  | .on i event =>
    { streams with
      requests := streams.requests.modify i fun request =>
        request.step (i + 1) (server (i + 1)) streams.lock event }
  | .failAll message =>
    -- the map is empty from here on, and the loop goes over its copy
    if streams.lock = none then
      ⟨streams.requests.map fun request =>
        { request with routed := false, failing := request.routed }, some message⟩
    else streams
  | .failAllDone =>
    if streams.requests.any HttpBodyRequest.failing then streams
    else { streams with lock := none }

def run (server : ℕ → ℕ → Option HttpBodyDelta) (events : List HttpStreamsEvent) : HttpStreams :=
  events.foldl (step server) new

end HttpStreams

/-! ### A complete body -/

variable (sent : ℕ → Option HttpBodyDelta)

/-- The first deltas of a body that goes on after them. -/
def BodyPrefix (deltas : List HttpBodyDelta) : Prop :=
  ∀ i delta, deltas[i]? = some delta →
    sent (i + 1) = some delta ∧ delta.done = false ∧ delta.error = none

/-- A last delta without content is the end only, and no chunk. -/
def lastChunk (chunk : List UInt8) : List (List UInt8) := if chunk = [] then [] else [chunk]

/-- The chunks are those of the deltas from 1 to the terminal one, in order. -/
def CompleteBody (chunks : List (List UInt8)) : Prop :=
  ∃ deltas last, BodyPrefix sent deltas ∧ sent (deltas.length + 1) = some last ∧
    last.done = true ∧ last.error = none ∧
    chunks = deltas.map HttpBodyDelta.delta ++ lastChunk last.delta

/-- What `recv` returns with a chunk. -/
def received (chunk : List UInt8) : Except ExecServerError (Option (List UInt8)) := .ok (some chunk)

/-- If the first result without a chunk is the end, the body was complete. -/
def EndsComplete (results : List (Except ExecServerError (Option (List UInt8)))) : Prop :=
  ∀ chunks rest, results = chunks.map received ++ .ok none :: rest → CompleteBody sent chunks

section body

variable {sent : ℕ → Option HttpBodyDelta} {deltas : List HttpBodyDelta} {delta : HttpBodyDelta}
  {results : List (Except ExecServerError (Option (List UInt8)))}
  {result : Except ExecServerError (Option (List UInt8))} {chunks : List (List UInt8)}
  {chunk : List UInt8}

lemma BodyPrefix.nil (sent : ℕ → Option HttpBodyDelta) : BodyPrefix sent [] := by
  intro i delta hget
  simp at hget

lemma BodyPrefix.concat (h : BodyPrefix sent deltas)
    (hsent : sent (deltas.length + 1) = some delta) (hdone : delta.done = false)
    (herror : delta.error = none) :
    BodyPrefix sent (deltas ++ [delta]) := by
  intro i other hget
  rcases Nat.lt_trichotomy i deltas.length with hlt | rfl | hgt
  · rw [List.getElem?_append_left hlt] at hget
    exact h i other hget
  · rw [List.getElem?_concat_length] at hget
    cases hget
    exact ⟨hsent, hdone, herror⟩
  · rw [List.getElem?_eq_none (by rw [List.length_append, List.length_singleton]; omega)] at hget
    cases hget

lemma EndsComplete.nil (sent : ℕ → Option HttpBodyDelta) : EndsComplete sent [] := by
  intro chunks rest hresults
  simp at hresults

lemma EndsComplete.concat (h : EndsComplete sent results)
    (hlast : result = .ok none → ∀ chunks, results = chunks.map received →
      CompleteBody sent chunks) : EndsComplete sent (results ++ [result]) := by
  intro chunks rest hresults
  rcases List.eq_nil_or_concat rest with rfl | ⟨init, last, rfl⟩
  · obtain ⟨heq, hend⟩ := List.append_inj' hresults rfl
    exact hlast (List.singleton_inj.mp hend) chunks heq
  · rw [List.concat_eq_append, ← List.cons_append, ← List.append_assoc] at hresults
    exact h chunks init (List.append_inj' hresults rfl).1

/-- A result after chunks alone is a chunk, if all are chunks. -/
theorem eq_received_of_concat (h : results ++ [result] = chunks.map received) :
    ∃ init chunk, chunks = init ++ [chunk] ∧ results = init.map received ∧
      result = received chunk := by
  rcases List.eq_nil_or_concat chunks with rfl | ⟨init, chunk, rfl⟩
  · simp at h
  · rw [List.concat_eq_append, List.map_append, List.map_singleton] at h
    obtain ⟨heq, hlast⟩ := List.append_inj' h rfl
    exact ⟨init, chunk, List.concat_eq_append, heq, List.singleton_inj.mp hlast⟩

end body

/-! ### What a request keeps -/

/-- A receiver that finds no sender and nothing in its channel has lost nothing silently: it is
gone, or has released its route itself, or has a terminal delta to come, or a failure is
recorded. -/
def Accounted (request : HttpBodyRequest) : Prop :=
  request.stage = .dropped ∨ request.closed = true ∨
    (∃ params ∈ request.queue, params.terminal = true) ∨ request.failure.isSome = true

/-- What `recv` owes after chunks alone. -/
def Due (sent : ℕ → Option HttpBodyDelta) (request : HttpBodyRequest)
    (chunks : List (List UInt8)) : RecvAfter → Prop
  | .eof => CompleteBody sent chunks
  | .disconnected => request.failure.isSome = true
  | .failed _ => True
  | .last chunk => CompleteBody sent (chunks ++ lastChunk chunk) ∧ request.pendingEof = false

/-- Where a stream is that has returned chunks alone. -/
def Progress (sent : ℕ → Option HttpBodyDelta) (request : HttpBodyRequest)
    (chunks : List (List UInt8)) : Prop :=
  match request.recv with
  | .finish after => Due sent request chunks after
  | .takeFailure => request.failure.isSome = true
  | .idle =>
    if request.pendingEof then CompleteBody sent chunks
    else
      request.closed = false ∧ ∃ deltas, BodyPrefix sent deltas ∧
        chunks = deltas.map HttpBodyDelta.delta ∧ request.nextSeq = deltas.length + 1

/-- The deltas of a request are of its server, or say that the stream failed. -/
structure Fed (sent : ℕ → Option HttpBodyDelta) (request : HttpBodyRequest) : Prop where
  queued : ∀ params ∈ request.queue,
    sent params.seq = some params.toHttpBodyDelta ∨ params.error ≠ none
  sending : ∀ params, .send params ∈ request.handlers →
    sent params.seq = some params.toHttpBodyDelta

/-- A route is removed only when the stream is accounted for. -/
structure Accounts (request : HttpBodyRequest) : Prop where
  removing : .remove ∈ request.handlers → Accounted request
  spawned : 0 < request.removals → request.stage = .dropped
  unused : request.stage = .allocated → request.routed = false ∧ request.failing = false ∧
    request.handlers = [] ∧ request.recv = .idle
  alive : request.stage ≠ .allocated →
    request.routed = true ∨ request.failing = true ∨ Accounted request

/-- The results of `recv`. -/
structure Returns (sent : ℕ → Option HttpBodyDelta) (request : HttpBodyRequest) : Prop where
  released : request.recv ≠ .idle → request.closed = true
  ends : EndsComplete sent request.results
  progress : request.stage ≠ .dropped → ∀ chunks, request.results = chunks.map received →
    Progress sent request chunks

/-- What a request keeps. -/
structure Streamed (sent : ℕ → Option HttpBodyDelta) (request : HttpBodyRequest) : Prop where
  fed : Fed sent request
  accounts : Accounts request
  returns : Returns sent request

section request

variable {sent : ℕ → Option HttpBodyDelta} {request request' : HttpBodyRequest}
  {lock : Option Text} {id : ℕ} {chunks : List (List UInt8)} {after : RecvAfter}

lemma Streamed.new (sent : ℕ → Option HttpBodyDelta) : Streamed sent .new where
  fed := ⟨fun _ h => absurd h List.not_mem_nil, fun _ h => absurd h List.not_mem_nil⟩
  accounts := by
    refine ⟨fun h => absurd h List.not_mem_nil, fun h => absurd h (lt_irrefl _), ?_, ?_⟩
    · intro _
      exact ⟨rfl, rfl, rfl, rfl⟩
    · intro hstage
      exact absurd rfl hstage
  returns := by
    refine ⟨fun hrecv => absurd rfl hrecv, EndsComplete.nil sent, ?_⟩
    intro _ chunks hchunks
    have hnil : chunks = [] := List.map_eq_nil_iff.mp hchunks.symm
    exact ⟨rfl, [], BodyPrefix.nil sent, hnil, rfl⟩

/-! #### What stays -/

lemma Accounted.mono (h : Accounted request)
    (hstage : request.stage = .dropped → request'.stage = .dropped)
    (hclosed : request.closed = true → request'.closed = true)
    (hqueue : ∀ params ∈ request.queue, params.terminal = true →
      params ∈ request'.queue ∨ request'.closed = true)
    (hfailure : request.failure.isSome = true →
      request'.failure.isSome = true ∨ request'.closed = true) : Accounted request' := by
  rcases h with hdropped | hclose | ⟨params, hparams, hterminal⟩ | hfail
  · exact .inl (hstage hdropped)
  · exact .inr (.inl (hclosed hclose))
  · rcases hqueue params hparams hterminal with hmem | hclose
    · exact .inr (.inr (.inl ⟨params, hmem, hterminal⟩))
    · exact .inr (.inl hclose)
  · rcases hfailure hfail with hsome | hclose
    · exact .inr (.inr (.inr hsome))
    · exact .inr (.inl hclose)

/-- What does not touch the stream, and forgets a failure only before there is one. -/
theorem Returns.of_eq (h : Returns sent request) (hresults : request'.results = request.results)
    (hnextSeq : request'.nextSeq = request.nextSeq)
    (hpendingEof : request'.pendingEof = request.pendingEof)
    (hclosed : request'.closed = request.closed) (hrecv : request'.recv = request.recv)
    (hstage : request.stage = .dropped → request'.stage = .dropped)
    (hfailure : request.recv = .idle ∨
      (request.failure.isSome = true → request'.failure.isSome = true)) :
    Returns sent request' := by
  refine ⟨hrecv ▸ hclosed ▸ h.released, hresults ▸ h.ends, ?_⟩
  intro hnot chunks hchunks
  have hprogress := h.progress (fun hdropped => hnot (hstage hdropped)) chunks (hresults ▸ hchunks)
  unfold Progress at hprogress ⊢
  rw [hrecv]
  cases hcase : request.recv with
  | idle =>
    rw [hcase] at hprogress
    simpa only [hpendingEof, hclosed, hnextSeq] using hprogress
  | takeFailure =>
    rw [hcase] at hprogress hfailure
    exact hfailure.resolve_left (by simp) hprogress
  | finish after =>
    rw [hcase] at hprogress hfailure
    have hkeep := hfailure.resolve_left (by simp)
    cases after with
    | eof => exact hprogress
    | disconnected => exact hkeep hprogress
    | failed error => trivial
    | last chunk => exact ⟨hprogress.1, hpendingEof.trans hprogress.2⟩

/-- Receiving leaves all of this as it is, apart from what it says it changes. -/
structure Untouched (request request' : HttpBodyRequest) : Prop where
  stage : request'.stage = request.stage
  routed : request'.routed = request.routed
  failing : request'.failing = request.failing
  failure : request'.failure = request.failure
  handlers : request'.handlers = request.handlers
  removals : request'.removals = request.removals
  queue : request'.queue = request.queue

variable (request)

lemma Untouched.settle (result : Except ExecServerError (Option (List UInt8))) :
    Untouched request (request.settle result) := ⟨rfl, rfl, rfl, rfl, rfl, rfl, rfl⟩

lemma Untouched.resume (after : RecvAfter) : Untouched request (request.resume after) := by
  cases after with
  | eof => exact .settle request _
  | disconnected => exact ⟨rfl, rfl, rfl, rfl, rfl, rfl, rfl⟩
  | failed error => exact .settle request _
  | last chunk =>
    simp only [HttpBodyRequest.resume]
    split_ifs
    · exact .settle request _
    · exact ⟨rfl, rfl, rfl, rfl, rfl, rfl, rfl⟩

lemma Untouched.finish (after : RecvAfter) : Untouched request (request.finish after) := by
  unfold HttpBodyRequest.finish
  split_ifs
  · exact .resume request after
  · exact ⟨rfl, rfl, rfl, rfl, rfl, rfl, rfl⟩

lemma closed_resume (after : RecvAfter) : (request.resume after).closed = request.closed := by
  cases after with
  | eof => rfl
  | disconnected => rfl
  | failed error => rfl
  | last chunk =>
    simp only [HttpBodyRequest.resume]
    split_ifs <;> rfl

lemma closed_finish (after : RecvAfter) : (request.finish after).closed = true := by
  unfold HttpBodyRequest.finish
  split_ifs with hclosed
  · rw [closed_resume, hclosed]
  · rfl

variable {request}

/-! #### Routing -/

variable (h : Streamed sent request)
include h

lemma Streamed.of_dropped (hstage : request'.stage = .dropped)
    (hresults : request'.results = request.results) (hqueue : request'.queue = request.queue)
    (hhandlers : request'.handlers = request.handlers) (hrecv : request'.recv = request.recv)
    (hclosed : request.closed = true → request'.closed = true) : Streamed sent request' where
  fed := ⟨hqueue ▸ h.fed.queued, hhandlers ▸ h.fed.sending⟩
  accounts := by
    refine ⟨fun _ => .inl hstage, fun _ => hstage, ?_, fun _ => .inr (.inr (.inl hstage))⟩
    intro hallocated
    simp [hstage] at hallocated
  returns := by
    refine ⟨?_, hresults ▸ h.returns.ends, fun hnot => absurd hstage hnot⟩
    intro hne
    rw [hrecv] at hne
    exact hclosed (h.returns.released hne)

lemma Streamed.insert (hstage : request.stage = .allocated) : Streamed sent request.insert := by
  obtain ⟨hrouted, -, hhandlers, hrecv⟩ := h.accounts.unused hstage
  have hinsert : request.insert =
      { request with routed := true, failure := none, stage := .requesting } := by
    rw [HttpBodyRequest.insert, if_neg (by simp [hrouted])]
  rw [hinsert]
  refine ⟨⟨h.fed.queued, h.fed.sending⟩, ⟨?_, ?_, ?_, fun _ => .inl rfl⟩, ?_⟩
  · intro hremove
    simp [show _ = _ from hhandlers] at hremove
  · intro hspawned
    have hdropped := h.accounts.spawned hspawned
    simp [hstage] at hdropped
  · intro hallocated
    cases hallocated
  · refine h.returns.of_eq rfl rfl rfl rfl rfl ?_ (.inl hrecv)
    intro hdropped
    simp [hstage] at hdropped

lemma Streamed.respond (hstage : request.stage = .requesting) :
    Streamed sent { request with stage := .streaming } := by
  have hmono : Accounted request → Accounted { request with stage := .streaming } := by
    intro haccounted
    refine haccounted.mono ?_ id (fun params hparams _ => .inl hparams) .inl
    intro hdropped
    simp [hstage] at hdropped
  refine ⟨⟨h.fed.queued, h.fed.sending⟩, ⟨?_, ?_, ?_, ?_⟩, ?_⟩
  · intro hremove
    exact hmono (h.accounts.removing hremove)
  · intro hspawned
    have hdropped := h.accounts.spawned hspawned
    simp [hstage] at hdropped
  · intro hallocated
    cases hallocated
  · intro _
    have halive := h.accounts.alive (by simp [hstage])
    exact halive.imp_right fun hor => hor.imp_right hmono
  · refine h.returns.of_eq rfl rfl rfl rfl rfl ?_ (.inr id)
    intro hdropped
    simp [hstage] at hdropped

omit h

/-- A task may do this next. -/
def DeltaHandler.Allowed (sent : ℕ → Option HttpBodyDelta) (request : HttpBodyRequest) :
    DeltaHandler → Prop
  | .send params => sent params.seq = some params.toHttpBodyDelta
  | .remove => Accounted request
  | _ => True

/-- What tasks do that route and fail: a route goes, and a task is to remove it, only when the
stream is accounted for. -/
theorem Streamed.route (h : Streamed sent request) (hstage : request.stage ≠ .allocated)
    (hsame : request'.stage = request.stage) (hremovals : request'.removals = request.removals)
    (hreturns : Returns sent request')
    (hqueued : ∀ params ∈ request'.queue,
      sent params.seq = some params.toHttpBodyDelta ∨ params.error ≠ none)
    (hmono : Accounted request → Accounted request')
    (hhandlers : ∀ handler ∈ request'.handlers,
      handler ∈ request.handlers ∨ handler.Allowed sent request')
    (hrouted : request.routed = true ∨ request.failing = true →
      request'.routed = true ∨ request'.failing = true ∨ Accounted request') :
    Streamed sent request' where
  fed := by
    refine ⟨hqueued, ?_⟩
    intro params hparams
    rcases hhandlers _ hparams with hold | hnew
    · exact h.fed.sending params hold
    · exact hnew
  accounts := by
    refine ⟨?_, ?_, fun hallocated => absurd (hsame.symm.trans hallocated) hstage, ?_⟩
    · intro hremove
      rcases hhandlers _ hremove with hold | hnew
      · exact hmono (h.accounts.removing hold)
      · exact hnew
    · intro hspawned
      rw [hsame]
      exact h.accounts.spawned (hremovals ▸ hspawned)
    · intro _
      rcases h.accounts.alive hstage with hold | hold | haccounted
      · exact hrouted (.inl hold)
      · exact hrouted (.inr hold)
      · exact .inr (.inr (hmono haccounted))
  returns := hreturns

lemma Streamed.notification (h : Streamed sent request) (hrouted : request.routed = true)
    {params : HttpRequestBodyDeltaNotification}
    (hsent : sent params.seq = some params.toHttpBodyDelta) :
    Streamed sent { request with handlers := request.handlers ++ [.send params] } := by
  have hstage : request.stage ≠ .allocated := by
    intro hallocated
    simp [(h.accounts.unused hallocated).1] at hrouted
  refine h.route hstage rfl rfl (h.returns.of_eq rfl rfl rfl rfl rfl id (.inr id)) h.fed.queued id
    ?_ fun _ => .inl hrouted
  intro handler hhandler
  refine (List.mem_append.mp hhandler).imp_right ?_
  intro hnew
  rw [List.mem_singleton.mp hnew]
  exact hsent

section handle

variable {i : ℕ} {handler other : DeltaHandler} {params : HttpRequestBodyDeltaNotification}
  (h : Streamed sent request)
include h

lemma Streamed.not_allocated
    (hget : request.handlers[i]? = some handler) : request.stage ≠ .allocated := by
  intro hallocated
  simp [(h.accounts.unused hallocated).2.2.1] at hget

lemma Streamed.setHandler
    (hget : request.handlers[i]? = some handler) (hallowed : other.Allowed sent request) :
    Streamed sent (request.setHandler i other) := by
  refine h.route (h.not_allocated hget) rfl rfl
    (h.returns.of_eq rfl rfl rfl rfl rfl id (.inr id)) h.fed.queued id ?_ ?_
  · intro after hafter
    refine (List.mem_or_eq_of_mem_set hafter).imp_right ?_
    rintro rfl
    cases after <;> exact hallowed
  · intro hor
    exact hor.imp_right .inl

variable (hstage : request.stage ≠ .allocated)
include hstage

lemma Streamed.enqueue
    (hparams : sent params.seq = some params.toHttpBodyDelta ∨ params.error ≠ none) :
    Streamed sent { request with queue := request.queue ++ [params] } := by
  have hmono : Accounted request →
      Accounted { request with queue := request.queue ++ [params] } := by
    intro haccounted
    exact haccounted.mono id id (fun other hother _ => .inl (List.mem_append_left _ hother)) .inl
  refine h.route hstage rfl rfl (h.returns.of_eq rfl rfl rfl rfl rfl id (.inr id)) ?_ hmono
    (fun _ hhandler => .inl hhandler) fun hor => hor.imp_right .inl
  exact List.forall_mem_append.mpr ⟨h.fed.queued, List.forall_mem_singleton.mpr hparams⟩

lemma Streamed.record
    (message : Text) : Streamed sent { request with failure := some message } := by
  have hmono : Accounted request → Accounted { request with failure := some message } := by
    intro haccounted
    exact haccounted.mono id id (fun other hother _ => .inl hother) fun _ => .inl rfl
  exact h.route hstage rfl rfl (h.returns.of_eq rfl rfl rfl rfl rfl id (.inr fun _ => rfl))
    h.fed.queued hmono (fun _ hhandler => .inl hhandler) fun hor => hor.imp_right .inl

/-- The entries of an accounted stream go out of the maps. -/
theorem Streamed.unroute (haccounted : Accounted request) (routed failing : Bool) :
    Streamed sent { request with routed := routed, failing := failing } :=
  h.route hstage rfl rfl (h.returns.of_eq rfl rfl rfl rfl rfl id (.inr id)) h.fed.queued id
    (fun _ hhandler => .inl hhandler) fun _ => .inr (.inr haccounted)

omit hstage

lemma Streamed.send (hget : request.handlers[i]? = some (.send params)) :
    Streamed sent (request.send i params) := by
  have hstage := h.not_allocated hget
  have hparams := h.fed.sending params (List.mem_of_getElem? hget)
  unfold HttpBodyRequest.send
  split_ifs with hdropped hroom hterminal
  · exact h.setHandler hget (.inl hdropped)
  · refine (h.enqueue hstage (.inl hparams)).setHandler hget ?_
    exact .inr (.inr (.inl ⟨params, List.mem_append_right _ List.mem_cons_self, hterminal⟩))
  · exact (h.enqueue hstage (.inl hparams)).setHandler hget trivial
  · exact h.setHandler hget trivial

lemma Streamed.handle (locked : Bool) (i : ℕ) : Streamed sent (request.handle locked i) := by
  unfold HttpBodyRequest.handle
  split
  · next hget => exact h.send hget
  · next hget =>
      split_ifs
      · exact h
      · refine (h.record (h.not_allocated hget) _).setHandler hget ?_
        exact .inr (.inr (.inr rfl))
  · next hget =>
      split_ifs
      · exact h
      · have haccounted := h.accounts.removing (List.mem_of_getElem? hget)
        exact (h.unroute (h.not_allocated hget) haccounted false request.failing).setHandler hget
          trivial
  · exact h
  · exact h

end handle

/-- A stream that is failed has the message in its channel or on record. -/
theorem Streamed.fail (h : Streamed sent request) (hfailing : request.failing = true)
    (message : Text) : Streamed sent (request.fail message) := by
  have hstage : request.stage ≠ .allocated := by
    intro hallocated
    simp [(h.accounts.unused hallocated).2.1] at hfailing
  unfold HttpBodyRequest.fail
  split_ifs
  · let params : HttpRequestBodyDeltaNotification := ⟨⟨[], true, some message⟩, 1⟩
    have herror : params.error ≠ none := by simp [params]
    refine (h.enqueue hstage (.inr herror)).unroute hstage ?_ request.routed false
    exact .inr (.inr (.inl ⟨params, List.mem_append_right _ List.mem_cons_self, rfl⟩))
  · exact (h.record hstage message).unroute hstage (.inr (.inr (.inr rfl))) request.routed false

lemma Streamed.failAll (h : Streamed sent request) (hidle : request.failing = false) :
    Streamed sent { request with routed := false, failing := request.routed } := by
  by_cases hstage : request.stage = .allocated
  · obtain ⟨hrouted, -, hhandlers, hrecv⟩ := h.accounts.unused hstage
    refine ⟨⟨h.fed.queued, h.fed.sending⟩, ⟨h.accounts.removing, h.accounts.spawned, ?_, ?_⟩,
      h.returns.of_eq rfl rfl rfl rfl rfl id (.inr id)⟩
    · intro _
      exact ⟨rfl, hrouted, hhandlers, hrecv⟩
    · intro hnot
      exact absurd hstage hnot
  · refine h.route hstage rfl rfl (h.returns.of_eq rfl rfl rfl rfl rfl id (.inr id)) h.fed.queued id
      (fun _ hhandler => .inl hhandler) ?_
    rintro (hrouted | hfailing)
    · exact .inr (.inl hrouted)
    · simp [hidle] at hfailing

/-! #### Receiving -/

lemma Returns.settle {result : Except ExecServerError (Option (List UInt8))}
    (hends : EndsComplete sent request.results)
    (hnone : result = .ok none → ∀ chunks, request.results = chunks.map received →
      CompleteBody sent chunks)
    (hsome : ∀ init chunk, result = received chunk → request.results = init.map received →
      Progress sent (request.settle result) (init ++ [chunk])) :
    Returns sent (request.settle result) := by
  refine ⟨fun hrecv => absurd rfl hrecv, hends.concat hnone, ?_⟩
  intro _ chunks hchunks
  obtain ⟨init, chunk, rfl, hinit, hresult⟩ := eq_received_of_concat hchunks
  exact hsome init chunk hresult hinit

lemma Returns.resume (hends : EndsComplete sent request.results) (hclosed : request.closed = true)
    (hdue : ∀ chunks, request.results = chunks.map received → Due sent request chunks after) :
    Returns sent (request.resume after) := by
  cases after with
  | eof =>
    refine Returns.settle hends (fun _ => hdue) ?_
    intro init chunk hchunk
    cases hchunk
  | disconnected => exact ⟨fun _ => hclosed, hends, fun _ => hdue⟩
  | failed error =>
    refine Returns.settle hends (fun hnone => by cases hnone) ?_
    intro init chunk hchunk
    cases hchunk
  | last chunk =>
    simp only [HttpBodyRequest.resume]
    split_ifs with hempty
    · refine Returns.settle hends ?_ ?_
      · intro _ chunks hchunks
        have hcomplete := (hdue chunks hchunks).1
        rwa [lastChunk, if_pos hempty, List.append_nil] at hcomplete
      · intro init other hother
        cases hother
    · refine Returns.settle hends (fun hnone => by cases hnone) ?_
      intro init other hother hinit
      have hcomplete := (hdue init hinit).1
      rw [lastChunk, if_neg hempty] at hcomplete
      cases hother
      exact hcomplete

lemma Returns.finish (hends : EndsComplete sent request.results)
    (hdue : ∀ chunks, request.results = chunks.map received → Due sent request chunks after) :
    Returns sent (request.finish after) := by
  unfold HttpBodyRequest.finish
  split_ifs with hclosed
  · exact Returns.resume hends hclosed hdue
  · refine ⟨fun _ => rfl, hends, ?_⟩
    intro _ chunks hchunks
    have h := hdue chunks hchunks
    cases after <;> exact h

variable (h : Streamed sent request)
include h

variable (hstage : request.stage = .streaming)
include hstage

/-- What `recv` does to the rest: it takes the first delta out, and a terminal delta, a failure or a
route only when the stream is closed. -/
theorem Streamed.consume (hreturns : Returns sent request') (hsame : request'.stage = .streaming)
    (hfailing : request'.failing = request.failing)
    (hhandlers : request'.handlers = request.handlers)
    (hremovals : request'.removals = request.removals) (hqueue : request'.queue <:+ request.queue)
    (hclosed : request'.closed = true ∨
      request'.routed = request.routed ∧ request'.closed = request.closed ∧
        request'.failure = request.failure ∧
        ∀ params ∈ request.queue, params.terminal = true → params ∈ request'.queue) :
    Streamed sent request' := by
  have hmono : Accounted request → Accounted request' := by
    intro haccounted
    rcases hclosed with hclose | ⟨-, hclose, hfailure, hkeep⟩
    · exact .inr (.inl hclose)
    · refine haccounted.mono ?_ (hclose ▸ id) (fun params hparams hterminal =>
        .inl (hkeep params hparams hterminal)) fun hsome => .inl (hfailure ▸ hsome)
      intro hdropped
      simp [hstage] at hdropped
  refine ⟨⟨?_, hhandlers ▸ h.fed.sending⟩, ⟨?_, ?_, ?_, ?_⟩, hreturns⟩
  · intro params hparams
    exact h.fed.queued params (hqueue.subset hparams)
  · intro hremove
    exact hmono (h.accounts.removing (hhandlers ▸ hremove))
  · intro hspawned
    have hdropped := h.accounts.spawned (hremovals ▸ hspawned)
    simp [hstage] at hdropped
  · intro hallocated
    simp [hsame] at hallocated
  · intro _
    rcases hclosed with hclose | ⟨hrouted, -⟩
    · exact .inr (.inr (.inr (.inl hclose)))
    · rw [hrouted, hfailing]
      have halive := h.accounts.alive (by simp [hstage])
      exact halive.imp_right fun hor => hor.imp_right hmono

lemma Streamed.finish
    (hsame : request'.stage = .streaming) (hfailing : request'.failing = request.failing)
    (hhandlers : request'.handlers = request.handlers)
    (hremovals : request'.removals = request.removals)
    (hqueue : request'.queue <:+ request.queue) (hresults : request'.results = request.results)
    (hdue : ∀ chunks, request.results = chunks.map received → Due sent request' chunks after) :
    Streamed sent (request'.finish after) := by
  have huntouched := Untouched.finish request' after
  refine h.consume hstage ?_ (huntouched.stage.trans hsame) (huntouched.failing.trans hfailing)
    (huntouched.handlers.trans hhandlers) (huntouched.removals.trans hremovals)
    (huntouched.queue ▸ hqueue) (.inl (closed_finish _ _))
  exact Returns.finish (hresults ▸ h.returns.ends) (hresults ▸ hdue)

lemma Streamed.receive (hrecv : request.recv = .idle) (hpending : request.pendingEof = false)
    {delta : HttpRequestBodyDeltaNotification} {queue : List HttpRequestBodyDeltaNotification}
    (hqueue : request.queue = delta :: queue) :
    Streamed sent ({ request with queue := queue }.receive id delta) := by
  have hsuffix : queue <:+ request.queue := hqueue ▸ List.suffix_cons delta queue
  have hprogress : ∀ chunks, request.results = chunks.map received →
      request.closed = false ∧ ∃ deltas, BodyPrefix sent deltas ∧
        chunks = deltas.map HttpBodyDelta.delta ∧ request.nextSeq = deltas.length + 1 := by
    intro chunks hchunks
    have h := h.returns.progress (by simp [hstage]) chunks hchunks
    simpa [Progress, hrecv, hpending] using h
  have hfed : delta.error = none → sent delta.seq = some delta.toHttpBodyDelta := by
    intro herror
    have hmem : delta ∈ request.queue := hqueue ▸ List.mem_cons_self
    exact (h.fed.queued delta hmem).resolve_right fun hne => hne herror
  unfold HttpBodyRequest.receive
  by_cases hseq : delta.seq = request.nextSeq
  swap
  · rw [if_pos hseq]
    exact h.finish hstage hstage rfl rfl rfl hsuffix rfl fun _ _ => trivial
  · rw [if_neg (not_not_intro hseq)]
    cases herror : delta.error with
    | some error =>
      exact h.finish hstage hstage rfl rfl rfl hsuffix rfl fun _ _ => trivial
    | none =>
      have hsent := hfed herror
      simp only
      split_ifs with hdone
      · refine h.finish hstage hstage rfl rfl rfl hsuffix rfl ?_
        intro chunks hchunks
        obtain ⟨-, deltas, hprefix, rfl, hnext⟩ := hprogress chunks hchunks
        refine ⟨⟨deltas, delta.toHttpBodyDelta, hprefix, ?_, hdone, herror, rfl⟩, hpending⟩
        rw [← hnext, ← hsent]
        exact congrArg sent hseq.symm
      · rw [Bool.not_eq_true] at hdone
        refine h.consume hstage ?_ hstage rfl rfl rfl hsuffix (.inr ⟨rfl, rfl, rfl, ?_⟩)
        · refine Returns.settle h.returns.ends (fun hnone => by cases hnone) ?_
          intro init chunk hchunk hinit
          obtain ⟨hclosed, deltas, hprefix, rfl, hnext⟩ := hprogress init hinit
          cases hchunk
          simp only [Progress, HttpBodyRequest.settle, hpending]
          refine ⟨hclosed, deltas ++ [delta.toHttpBodyDelta],
            hprefix.concat ?_ hdone herror, ?_, ?_⟩
          · rw [← hnext, ← hsent]
            exact congrArg sent hseq.symm
          · rw [List.map_append, List.map_singleton]
          · rw [hnext, List.length_append, List.length_singleton]
        · -- the delta that is taken out is not terminal
          intro params hparams hterminal
          rw [hqueue] at hparams
          rcases List.mem_cons.mp hparams with rfl | hrest
          · simp [HttpBodyDelta.terminal, hdone, herror] at hterminal
          · exact hrest

lemma Streamed.poll (hrecv : request.recv = .idle) : Streamed sent (request.poll id) := by
  unfold HttpBodyRequest.poll
  have hnot : request.stage ≠ .dropped := by simp [hstage]
  by_cases hpending : request.pendingEof = true
  · rw [if_pos hpending]
    refine h.finish hstage hstage rfl rfl rfl (List.suffix_refl _) rfl ?_
    intro chunks hchunks
    have hprogress := h.returns.progress hnot chunks hchunks
    simpa [Progress, hrecv, hpending, Due] using hprogress
  · rw [if_neg hpending]
    rw [Bool.not_eq_true] at hpending
    split
    · next hqueue => exact h.receive hstage hrecv hpending hqueue
    · next hqueue =>
        split_ifs with hsender
        · exact h
        · refine h.finish hstage hstage rfl rfl rfl (List.suffix_refl _) rfl ?_
          intro chunks hchunks
          -- without a sender and a delta, and not closed by itself, a failure is on record
          have hprogress := h.returns.progress hnot chunks hchunks
          simp only [Progress, hrecv, hpending] at hprogress
          have hclosed : request.closed = false := hprogress.1
          simp only [HttpBodyRequest.hasSender, Bool.not_eq_true, Bool.or_eq_false_iff] at hsender
          rcases h.accounts.alive (by simp [hstage]) with hrouted | hfailing | haccounted
          · simp [hsender.1.1] at hrouted
          · simp [hsender.1.2] at hfailing
          · rcases haccounted with hdropped | hclose | ⟨params, hparams, -⟩ | hfailure
            · exact absurd hdropped hnot
            · simp [hclosed] at hclose
            · simp [hqueue] at hparams
            · exact hfailure

lemma Streamed.proceed : Streamed sent (request.proceed id) := by
  have hnot : request.stage ≠ .dropped := by simp [hstage]
  unfold HttpBodyRequest.proceed
  split
  · exact h
  · next after hrecv =>
      have hclosed : request.closed = true := h.returns.released (by simp [hrecv])
      have huntouched := Untouched.resume request.removeStream after
      refine h.consume hstage ?_ (huntouched.stage.trans hstage) huntouched.failing
        huntouched.handlers huntouched.removals (huntouched.queue ▸ List.suffix_refl _)
        (.inl ((closed_resume _ _).trans hclosed))
      refine Returns.resume h.returns.ends hclosed ?_
      intro chunks hchunks
      have hprogress := h.returns.progress hnot chunks hchunks
      rw [Progress, hrecv] at hprogress
      cases after <;> exact hprogress
  · next hrecv =>
      have hclosed : request.closed = true := h.returns.released (by simp [hrecv])
      split
      · refine h.consume hstage (Returns.settle h.returns.ends (fun hnone => by cases hnone) ?_)
          hstage rfl rfl rfl (List.suffix_refl _) (.inl hclosed)
        intro init chunk hchunk
        cases hchunk
      · next hfailure =>
          refine h.consume hstage (Returns.settle h.returns.ends ?_ ?_) hstage rfl rfl rfl
            (List.suffix_refl _) (.inl hclosed)
          · intro _ chunks hchunks
            have hprogress := h.returns.progress hnot chunks hchunks
            simp [Progress, hrecv, hfailure] at hprogress
          · intro init chunk hchunk
            cases hchunk

omit hstage

/-! #### Steps -/

lemma Streamed.step (requestId : ℕ) (lock : Option Text)
    (event : HttpBodyEvent) : Streamed sent (request.step requestId sent lock event) := by
  cases event with
  | insert =>
    simp only [HttpBodyRequest.step]
    split_ifs with hguard
    · exact h.insert hguard.1
    · exact h
  | respond =>
    simp only [HttpBodyRequest.step]
    split_ifs with hstage
    · exact h.respond hstage
    · exact h
  | failRequest =>
    simp only [HttpBodyRequest.step]
    split_ifs
    · exact h.of_dropped rfl rfl rfl rfl rfl id
    · exact h
  | cancel =>
    simp only [HttpBodyRequest.step]
    split
    · exact h.of_dropped rfl rfl rfl rfl rfl id
    · exact h.of_dropped rfl rfl rfl rfl rfl id
    · exact h
  | removeSpawned =>
    simp only [HttpBodyRequest.step]
    split_ifs with hguard
    · exact h.of_dropped (h.accounts.spawned hguard.1) rfl rfl rfl rfl id
    · exact h
  | notification seq =>
    simp only [HttpBodyRequest.step]
    split
    · next hsent =>
        split_ifs with hrouted
        · exact h.notification hrouted hsent
        · exact h
    · exact h
  | handle i => exact h.handle lock.isSome i
  | fail =>
    simp only [HttpBodyRequest.step]
    split
    · split_ifs with hfailing
      · exact h.fail hfailing _
      · exact h
    · exact h
  | poll =>
    simp only [HttpBodyRequest.step]
    split_ifs with hguard
    · exact h.poll hguard.1 hguard.2
    · exact h
  | proceed =>
    simp only [HttpBodyRequest.step]
    split_ifs with hguard
    · exact h.proceed hguard.1
    · exact h
  | drop =>
    simp only [HttpBodyRequest.step]
    split_ifs
    · unfold HttpBodyRequest.drop
      split_ifs
      · exact h.of_dropped rfl rfl rfl rfl rfl id
      · exact h.of_dropped rfl rfl rfl rfl rfl fun _ => rfl
    · exact h

omit h

variable (request : HttpBodyRequest)

lemma failing_handle (locked : Bool) (i : ℕ) :
    (request.handle locked i).failing = request.failing := by
  unfold HttpBodyRequest.handle
  split
  · unfold HttpBodyRequest.send
    split_ifs <;> rfl
  · split_ifs <;> rfl
  · split_ifs <;> rfl
  · rfl
  · rfl

lemma failing_receive (id : ℕ) (delta : HttpRequestBodyDeltaNotification) :
    (request.receive id delta).failing = request.failing := by
  simp only [HttpBodyRequest.receive]
  split
  · exact (Untouched.finish _ _).failing
  · split
    · exact (Untouched.finish _ _).failing
    · split
      · exact (Untouched.finish _ _).failing
      · rfl

lemma failing_poll (id : ℕ) : (request.poll id).failing = request.failing := by
  unfold HttpBodyRequest.poll
  split
  · exact (Untouched.finish _ _).failing
  · split
    · exact failing_receive _ _ _
    · split_ifs
      · rfl
      · exact (Untouched.finish _ _).failing

lemma failing_proceed (id : ℕ) : (request.proceed id).failing = request.failing := by
  unfold HttpBodyRequest.proceed
  split
  · rfl
  · exact (Untouched.resume _ _).failing
  · split <;> rfl

/-- Without the lock no stream is failed, and no step of a request makes it one of those. -/
theorem failing_step (id : ℕ) (sent : ℕ → Option HttpBodyDelta) (event : HttpBodyEvent) :
    (request.step id sent none event).failing = request.failing := by
  cases event with
  | insert =>
    simp only [HttpBodyRequest.step, HttpBodyRequest.insert]
    split_ifs <;> rfl
  | respond =>
    simp only [HttpBodyRequest.step]
    split_ifs <;> rfl
  | failRequest =>
    simp only [HttpBodyRequest.step]
    split_ifs <;> rfl
  | cancel =>
    simp only [HttpBodyRequest.step]
    split <;> rfl
  | removeSpawned =>
    simp only [HttpBodyRequest.step]
    split_ifs <;> rfl
  | notification seq =>
    simp only [HttpBodyRequest.step]
    split
    · split_ifs <;> rfl
    · rfl
  | handle i => exact failing_handle request _ i
  | fail => rfl
  | poll =>
    simp only [HttpBodyRequest.step]
    split_ifs
    · exact failing_poll request id
    · rfl
  | proceed =>
    simp only [HttpBodyRequest.step]
    split_ifs
    · exact failing_proceed request id
    · rfl
  | drop =>
    simp only [HttpBodyRequest.step, HttpBodyRequest.drop]
    split_ifs <;> rfl

end request

/-! ### Every run -/

/-- What the streams of a client keep. -/
structure StreamsHold (server : ℕ → ℕ → Option HttpBodyDelta) (streams : HttpStreams) : Prop where
  requests : ∀ i request, streams.requests[i]? = some request → Streamed (server (i + 1)) request
  idle : streams.lock = none → ∀ request ∈ streams.requests, request.failing = false

section streams

variable {server : ℕ → ℕ → Option HttpBodyDelta} {streams : HttpStreams}

lemma StreamsHold.step (h : StreamsHold server streams) (event : HttpStreamsEvent) :
    StreamsHold server (streams.step server event) := by
  cases event with
  | request =>
    refine ⟨?_, ?_⟩
    · intro i request hget
      simp only [HttpStreams.step, List.getElem?_append] at hget
      split_ifs at hget
      · exact h.requests i request hget
      · obtain rfl := List.mem_singleton.mp (List.mem_of_getElem? hget)
        exact Streamed.new _
    · intro hlock request hrequest
      rcases List.mem_append.mp hrequest with hold | hnew
      · exact h.idle hlock request hold
      · obtain rfl := List.mem_singleton.mp hnew
        rfl
  | on i event =>
    refine ⟨?_, ?_⟩
    · intro j request hget
      simp only [HttpStreams.step, List.getElem?_modify, Option.map_eq_map,
        Option.map_eq_some_iff] at hget
      obtain ⟨before, hbefore, rfl⟩ := hget
      split_ifs with hij
      · subst hij
        exact (h.requests i before hbefore).step _ _ _
      · exact h.requests j before hbefore
    · intro hlock request hrequest
      obtain ⟨j, hj⟩ := List.mem_iff_getElem?.mp hrequest
      simp only [HttpStreams.step, List.getElem?_modify, Option.map_eq_map,
        Option.map_eq_some_iff] at hj
      obtain ⟨before, hbefore, rfl⟩ := hj
      have hidle := h.idle hlock before (List.mem_of_getElem? hbefore)
      split_ifs
      · rw [show streams.lock = none from hlock]
        exact (failing_step _ _ _ _).trans hidle
      · exact hidle
  | failAll message =>
    simp only [HttpStreams.step]
    split_ifs with hlock
    · refine ⟨?_, fun hnone => by cases hnone⟩
      intro i request hget
      rw [List.getElem?_map, Option.map_eq_some_iff] at hget
      obtain ⟨before, hbefore, rfl⟩ := hget
      exact (h.requests i before hbefore).failAll
        (h.idle hlock before (List.mem_of_getElem? hbefore))
    · exact h
  | failAllDone =>
    simp only [HttpStreams.step]
    split_ifs with hany
    · exact h
    · refine ⟨h.requests, ?_⟩
      intro _ request hrequest
      rw [Bool.not_eq_true, List.any_eq_false] at hany
      exact Bool.not_eq_true _ ▸ hany request hrequest

lemma StreamsHold.new (server : ℕ → ℕ → Option HttpBodyDelta) : StreamsHold server .new where
  requests i request hget := by simp [HttpStreams.new] at hget
  idle _ _ hmem := absurd hmem List.not_mem_nil

lemma StreamsHold.run (h : StreamsHold server streams) (events : List HttpStreamsEvent) :
    StreamsHold server (events.foldl (.step server) streams) := by
  induction events generalizing streams with
  | nil => exact h
  | cons event events ih => exact ih (h.step event)

/-- **A stream that ends without an error was received completely.** In every run, if the first
result of `recv` that is no chunk is the end of the stream, the chunks before it are those of the
deltas of the server from 1 to its terminal delta, in order, and none of these has an error. -/
theorem complete_of_end {events : List HttpStreamsEvent} {i : ℕ} {request : HttpBodyRequest}
    (hrequest : (HttpStreams.run server events).requests[i]? = some request)
    {chunks : List (List UInt8)} {rest : List (Except ExecServerError (Option (List UInt8)))}
    (hend : request.results = chunks.map received ++ .ok none :: rest) :
    CompleteBody (server (i + 1)) chunks := by
  have h : StreamsHold server (.run server events) := (StreamsHold.new server).run events
  exact (h.requests i request hrequest).returns.ends chunks rest hend

/-- A server that sends one chunk and the end. -/
def oneChunk : ℕ → ℕ → Option HttpBodyDelta
  | 1, 1 => some ⟨[104, 105], false, none⟩
  | 1, 2 => some ⟨[], true, none⟩
  | _, _ => none

theorem complete_of_end_oneChunk : CompleteBody (oneChunk 1) [[104, 105]] :=
  @complete_of_end oneChunk
    [.request, .on 0 .insert, .on 0 (.notification 1), .on 0 (.handle 0), .on 0 .respond,
      .on 0 .poll, .on 0 (.notification 2), .on 0 (.handle 1), .on 0 (.handle 1), .on 0 .poll,
      .on 0 .proceed] 0 _ rfl [[104, 105]] [] rfl

end streams

end Codex.ExecServer
