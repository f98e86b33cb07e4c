import Codex.Lib.Reached
import Mathlib.Data.List.Nodup

/-!
# The readiness flag

`utils/readiness`: an atomic flag, the tokens of its subscribers under a lock, and a watch channel
on which waiters are told. Any number of calls run at the same time; a step of a call is one atomic
operation, one section under the lock or one operation of the channel. `watch::Sender::send` stores
nothing where there is no receiver.

* `Sound.step`: what every step keeps that does not notify past a waiter;
* `wakeup_not_lost`: then no waiter is left asleep.
-/

namespace Codex.Readiness

open Codex.Lib

/-! ### The flag -/

/-- `Token`, an `i32` -/
abbrev Token := BitVec 32

inductive ReadinessError where
  | tokenLockFailed
  | flagAlreadyReady
  deriving DecidableEq

/-- `ReadinessFlag`; `value` and `version` are those of the watch channel -/
structure ReadinessFlag where
  ready : Bool := false
  nextId : Token := 1
  tokens : List Token := []
  value : Bool := false
  version : ℕ := 0

/-- The loop of `subscribe`, which takes the first id that is no token and not zero -/
def nextToken (tokens : List Token) : ℕ → Token → Option (Token × Token)
  | 0, _ => none
  | fuel + 1, id =>
    if id ≠ 0 ∧ id ∉ tokens then some (id, id + 1) else nextToken tokens fuel (id + 1)

/-! ### Calls -/

/-- What a call returned. -/
inductive Outcome where
  | isReady (ready : Bool)
  | subscribe (result : Except ReadinessError Token)
  | markReady (result : Except ReadinessError Bool)
  | waitReady
  | dropped
  deriving DecidableEq

/-- The methods of `Readiness` -/
inductive Call where
  | isReady
  | subscribe
  | markReady (token : Token)
  | waitReady

/-- Where a call stands; `waiting` where `is_ready` was called by `wait_ready`, `seen` the version
that its receiver has seen. -/
inductive Position where
  | subscribeLoad
  | subscribeLock
  | markLoad (token : Token)
  | markLock (token : Token)
  | readyLoad (waiting : Bool)
  | readyTryLock (waiting : Bool)
  | readyReload (waiting : Bool)
  | send (outcome : Outcome)
  | watchSubscribe
  | borrow (seen : ℕ)
  | changed (seen : ℕ)
  | recheck (seen : ℕ)
  | done (outcome : Outcome)
  deriving DecidableEq

def Call.start : Call → Position
  | .isReady => .readyLoad false
  | .subscribe => .subscribeLoad
  | .markReady token => .markLoad token
  | .waitReady => .readyLoad true

namespace Position

/-- What `is_ready` returns, to its caller or to `wait_ready`. -/
def ofReady (waiting : Bool) : Position := .done (if waiting then .waitReady else .isReady true)

def isSend : Position → Bool
  | .send _ => true
  | _ => false

def holdsReceiver : Position → Bool
  | .borrow _ => true
  | .changed _ => true
  | .recheck _ => true
  | _ => false

/-- The call has a receiver, or is about to have one without looking at the flag again. -/
def isWaiter : Position → Bool
  | .watchSubscribe => true
  | position => position.holdsReceiver

/-- The call is at an `.await`, where its future may be dropped. -/
def isAwait : Position → Bool
  | .subscribeLock => true
  | .markLock _ => true
  | .changed _ => true
  | _ => false

end Position

/-- `is_ready`, `subscribe`, `mark_ready` and `wait_ready`, one step each; `acquired` says
whether the lock was had, in time or at all. Absent where the call is blocked or has returned. -/
def stepCall (flag : ReadinessFlag) (hasReceiver acquired : Bool) :
    Position → Option (ReadinessFlag × Position)
  | .subscribeLoad =>
    some (flag,
      if flag.ready then .done (.subscribe (.error .flagAlreadyReady)) else .subscribeLock)
  | .subscribeLock =>
    if acquired = false then some (flag, .done (.subscribe (.error .tokenLockFailed)))
    else if flag.ready then some (flag, .done (.subscribe (.error .flagAlreadyReady)))
    else
      (nextToken flag.tokens (flag.tokens.length + 2) flag.nextId).map fun (token, nextId) =>
        ({ flag with nextId := nextId, tokens := token :: flag.tokens },
          .done (.subscribe (.ok token)))
  | .markLoad token =>
    some (flag, if flag.ready ∨ token = 0 then .done (.markReady (.ok false)) else .markLock token)
  | .markLock token =>
    if acquired = false then some (flag, .done (.markReady (.error .tokenLockFailed)))
    else if token ∈ flag.tokens then
      some ({ flag with ready := true, tokens := [] }, .send (.markReady (.ok true)))
    else some (flag, .done (.markReady (.ok false)))
  | .readyLoad waiting =>
      some (flag, if flag.ready then .ofReady waiting else .readyTryLock waiting)
  | .readyTryLock waiting =>
    if acquired = true ∧ flag.tokens = [] then
      if flag.ready then some (flag, .ofReady waiting)
      else
        some ({ flag with ready := true }, .send (if waiting then .waitReady else .isReady true))
    else some (flag, .readyReload waiting)
  | .readyReload waiting =>
    some (flag, if flag.ready then .ofReady waiting
      else if waiting then .watchSubscribe
      else .done (.isReady false))
  | .send outcome =>
    some (if hasReceiver then { flag with value := true, version := flag.version + 1 } else flag,
      .done outcome)
  | .watchSubscribe => some (flag, .borrow flag.version)
  | .borrow seen => some (flag, if flag.value then .done .waitReady else .changed seen)
  | .changed seen => if flag.version = seen then none else some (flag, .recheck flag.version)
  | .recheck seen => some (flag, if flag.value then .done .waitReady else .changed seen)
  | .done _ => none

/-! ### Runs -/

/-- The flag and the calls so far. -/
structure State where
  flag : ReadinessFlag := {}
  calls : List Position := []

inductive Act where
  | call (call : Call)
  | run (i : ℕ) (acquired : Bool)
  | drop (i : ℕ)

variable (s : State)

def State.hasReceiver : Bool := s.calls.any Position.holdsReceiver

def step : Act → Option State
  | .call call => some { s with calls := s.calls ++ [call.start] }
  | .run i acquired => do
      let position ← s.calls[i]?
      let (flag, position) ← stepCall s.flag s.hasReceiver acquired position
      some { flag := flag, calls := s.calls.set i position }
  | .drop i => do
      let position ← s.calls[i]?
      if position.isAwait then some { s with calls := s.calls.set i (.done .dropped) } else none

/-- `ReadinessFlag::new` -/
def IsNew : Prop := s = {}

/-- The flag is ready, nobody is about to notify, and a waiter sleeps on a channel that says it is
not. -/
def Lost : Prop :=
  s.flag.ready = true ∧ (∀ position ∈ s.calls, position.isSend = false) ∧ s.flag.value = false ∧
    .changed s.flag.version ∈ s.calls

instance (s : State) : Decidable (Lost s) := inferInstanceAs (Decidable (_ ∧ _))

/-- The step does not notify while there is no receiver and a waiter is about to subscribe. -/
def NotifiesWaiters : Act → Prop
  | .run i _ =>
    (s.calls[i]?.any Position.isSend) = true → s.hasReceiver = true ∨ .watchSubscribe ∉ s.calls
  | _ => True

instance (s : State) : (a : Act) → Decidable (NotifiesWaiters s a)
  | .run _ _ => inferInstanceAs (Decidable (_ → _))
  | .call _ => isTrue trivial
  | .drop _ => isTrue trivial

/-! ### What a step can do -/

section cases

variable {flag flag' : ReadinessFlag} {hasReceiver acquired : Bool} {position position' : Position}

/-- **What one step of a call can do.** It leaves the flag and the channel, and gains no receiver
once the flag is ready; it sets the flag and is about to notify; or it notifies. -/
theorem stepCall_cases (h : stepCall flag hasReceiver acquired position = some (flag', position')) :
    (flag'.ready = flag.ready ∧ flag'.value = flag.value ∧
      (flag.ready = true → flag'.tokens = flag.tokens) ∧ position.isSend = false ∧
      position'.isSend = false ∧
      (flag.ready = true → position'.isWaiter = true → position.isWaiter = true)) ∨
    (flag'.ready = true ∧ flag'.value = flag.value ∧ flag'.tokens = [] ∧
      position'.isSend = true ∧ position.isSend = false) ∨
    (∃ outcome, position = .send outcome ∧ position' = .done outcome ∧
      flag' = if hasReceiver then { flag with value := true, version := flag.version + 1 }
        else flag) := by
  cases position with
  | subscribeLoad =>
    cases h
    refine .inl ⟨rfl, rfl, fun _ => rfl, rfl, by split_ifs <;> rfl, fun hready hwaiter => ?_⟩
    rw [if_pos hready] at hwaiter
    exact hwaiter
  | subscribeLock =>
    rw [stepCall] at h
    split_ifs at h with hacquired hready
    · cases h
      exact .inl ⟨rfl, rfl, fun _ => rfl, rfl, rfl, fun _ => id⟩
    · cases h
      exact .inl ⟨rfl, rfl, fun _ => rfl, rfl, rfl, fun _ => id⟩
    · obtain ⟨⟨token, nextId⟩, -, heq⟩ := Option.map_eq_some_iff.mp h
      cases heq
      exact .inl ⟨rfl, rfl, fun h => absurd h hready, rfl, rfl, fun _ => id⟩
  | markLoad token =>
    cases h
    refine .inl ⟨rfl, rfl, fun _ => rfl, rfl, by split_ifs <;> rfl, fun hready hwaiter => ?_⟩
    rw [if_pos (.inl hready)] at hwaiter
    exact hwaiter
  | markLock token =>
    rw [stepCall] at h
    split_ifs at h with hacquired hmem
    · cases h
      exact .inl ⟨rfl, rfl, fun _ => rfl, rfl, rfl, fun _ => id⟩
    · cases h
      exact .inr (.inl ⟨rfl, rfl, rfl, rfl, rfl⟩)
    · cases h
      exact .inl ⟨rfl, rfl, fun _ => rfl, rfl, rfl, fun _ => id⟩
  | readyLoad waiting =>
    cases h
    refine .inl ⟨rfl, rfl, fun _ => rfl, rfl, by split_ifs <;> rfl, fun hready hwaiter => ?_⟩
    rw [if_pos hready] at hwaiter
    exact hwaiter
  | readyTryLock waiting =>
    rw [stepCall] at h
    by_cases hacquired : acquired = true ∧ flag.tokens = []
    · rw [if_pos hacquired] at h
      by_cases hready : flag.ready = true
      · rw [if_pos hready] at h
        cases h
        exact .inl ⟨rfl, rfl, fun _ => rfl, rfl, rfl, fun _ => id⟩
      · rw [if_neg hready] at h
        cases h
        exact .inr (.inl ⟨rfl, rfl, hacquired.2, rfl, rfl⟩)
    · rw [if_neg hacquired] at h
      cases h
      exact .inl ⟨rfl, rfl, fun _ => rfl, rfl, rfl, fun _ => id⟩
  | readyReload waiting =>
    cases h
    refine .inl ⟨rfl, rfl, fun _ => rfl, rfl, by split_ifs <;> rfl, fun hready hwaiter => ?_⟩
    rw [if_pos hready] at hwaiter
    exact hwaiter
  | send outcome =>
    cases h
    exact .inr (.inr ⟨outcome, rfl, rfl, rfl⟩)
  | watchSubscribe =>
    cases h
    exact .inl ⟨rfl, rfl, fun _ => rfl, rfl, rfl, fun _ _ => rfl⟩
  | borrow seen =>
    cases h
    exact .inl ⟨rfl, rfl, fun _ => rfl, rfl, by split_ifs <;> rfl, fun _ _ => rfl⟩
  | changed seen =>
    rw [stepCall] at h
    split_ifs at h
    cases h
    exact .inl ⟨rfl, rfl, fun _ => rfl, rfl, rfl, fun _ _ => rfl⟩
  | recheck seen =>
    cases h
    exact .inl ⟨rfl, rfl, fun _ => rfl, rfl, by split_ifs <;> rfl, fun _ _ => rfl⟩
  | done outcome => cases h

end cases

/-! ### What every step keeps -/

/-- The channel says no more than the flag, a ready flag has no tokens, and while the channel does
not say that the flag is ready somebody is about to notify, or nobody waits. -/
structure Sound (s : State) : Prop where
  ready_of_value : s.flag.value = true → s.flag.ready = true
  ready_of_send : ∀ position ∈ s.calls, position.isSend = true → s.flag.ready = true
  tokens_nil : s.flag.ready = true → s.flag.tokens = []
  notified : s.flag.ready = true → s.flag.value = false →
    (∃ position ∈ s.calls, position.isSend = true) ∨ ∀ position ∈ s.calls, position.isWaiter = false

section sound

variable {s s' : State} {a : Act} {i : ℕ} {position position' : Position}

/-- A call that moved is not about to notify; the others stay. -/
theorem exists_isSend_set (hposition : s.calls[i]? = some position)
    (hmoved : position.isSend = false) (h : ∃ other ∈ s.calls, other.isSend = true) :
    ∃ other ∈ s.calls.set i position', other.isSend = true := by
  obtain ⟨other, hmem, hsend⟩ := h
  obtain ⟨j, hj⟩ := List.getElem?_of_mem hmem
  have hne : i ≠ j := by
    rintro rfl
    obtain rfl := Option.some.inj (hposition.symm.trans hj)
    rw [hmoved] at hsend
    exact Bool.false_ne_true hsend
  refine ⟨other, ?_, hsend⟩
  exact List.mem_of_getElem? ((List.getElem?_set_ne hne).trans hj)

lemma mem_of_mem_set_of_isSend {other : Position} (h : other ∈ s.calls.set i position')
    (hsend : other.isSend = true) (hmoved : position'.isSend = false) : other ∈ s.calls := by
  rcases List.mem_or_eq_of_mem_set h with hmem | rfl
  · exact hmem
  · simp [hmoved] at hsend

lemma forall_isWaiter_set (h : ∀ other ∈ s.calls, other.isWaiter = false)
    (hmoved : position'.isWaiter = false) :
    ∀ other ∈ s.calls.set i position', other.isWaiter = false := by
  intro other hother
  rcases List.mem_or_eq_of_mem_set hother with hmem | rfl
  · exact h other hmem
  · exact hmoved

lemma Sound.new (h : IsNew s) : Sound s := by
  obtain rfl : s = {} := h
  exact ⟨nofun, nofun, nofun, nofun⟩

/-- Nobody waits where there is no receiver and nobody is about to subscribe. -/
theorem isWaiter_eq_false (hreceiver : s.hasReceiver = false)
    (hsubscribe : Position.watchSubscribe ∉ s.calls) :
    ∀ position ∈ s.calls, position.isWaiter = false := by
  intro position hmem
  have hholds : position.holdsReceiver = false := by
    rw [State.hasReceiver, List.any_eq_false] at hreceiver
    exact Bool.eq_false_iff.mpr (hreceiver position hmem)
  cases position with
  | watchSubscribe => exact absurd hmem hsubscribe
  | _ => exact hholds

/-- **What every step keeps that does not notify past a waiter.** -/
theorem Sound.step (h : Sound s) (hc : NotifiesWaiters s a) (hstep : Readiness.step s a = some s') :
    Sound s' := by
  obtain ⟨hvalue, hsends, htokens, hnotified⟩ := h
  cases a with
  | call call =>
    cases hstep
    have hstart : call.start.isSend = false ∧ call.start.isWaiter = false := by
      cases call <;> exact ⟨rfl, rfl⟩
    refine ⟨hvalue, ?_, htokens, fun hready hfalse => (hnotified hready hfalse).imp ?_ ?_⟩
    · intro position hmem hsend
      rcases List.mem_append.mp hmem with hmem | hmem
      · exact hsends position hmem hsend
      · simp [List.mem_singleton.mp hmem, hstart.1] at hsend
    · rintro ⟨position, hmem, hsend⟩
      exact ⟨position, List.mem_append_left _ hmem, hsend⟩
    · intro hall position hmem
      rcases List.mem_append.mp hmem with hmem | hmem
      · exact hall position hmem
      · rw [List.mem_singleton.mp hmem]
        exact hstart.2
  | run i acquired =>
    obtain ⟨position, hposition, hrest⟩ := Option.bind_eq_some_iff.mp hstep
    obtain ⟨⟨flag, position'⟩, hcall, hset⟩ := Option.bind_eq_some_iff.mp hrest
    cases hset
    have hmem := List.mem_of_getElem? hposition
    obtain ⟨hlt, -⟩ := List.getElem?_eq_some_iff.mp hposition
    rcases stepCall_cases hcall with ⟨hready, hval, htok, hsend, hsend', hwaiter⟩ |
      ⟨hready, hval, htok, hsend, -⟩ | ⟨outcome, rfl, rfl, rfl⟩
    · -- the flag and the channel are left as they were
      refine ⟨?_, ?_, ?_, ?_⟩
      · rwa [hval, hready]
      · intro other hother hsend
        rw [hready]
        exact hsends other (mem_of_mem_set_of_isSend hother hsend hsend') hsend
      · intro hr
        rw [hready] at hr
        rw [htok hr]
        exact htokens hr
      · intro hr hfalse
        rw [hready] at hr
        rw [hval] at hfalse
        refine (hnotified hr hfalse).imp (exists_isSend_set hposition hsend) fun hall => ?_
        refine forall_isWaiter_set hall ?_
        by_contra hne
        have := hwaiter hr (Bool.not_eq_false _ ▸ hne)
        rw [hall position hmem] at this
        exact Bool.false_ne_true this
    · -- the flag is set, and this call is about to notify
      exact ⟨fun _ => hready, fun _ _ _ => hready, fun _ => htok,
        fun _ _ => .inl ⟨position', List.mem_set hlt _, hsend⟩⟩
    · -- the waiters are told, or there are none
      have hr : s.flag.ready = true := hsends _ hmem rfl
      have hkept : ∀ other ∈ s.calls.set i (.done outcome), other.isSend = true →
          s.flag.ready = true := fun _ _ _ => hr
      by_cases hreceiver : s.hasReceiver = true
      · rw [if_pos hreceiver]
        exact ⟨fun _ => hr, hkept, htokens, fun _ hfalse => absurd hfalse.symm nofun⟩
      · rw [if_neg hreceiver]
        have hsubscribe := (hc (by rw [hposition]; rfl)).resolve_left hreceiver
        refine ⟨hvalue, hkept, htokens, fun _ _ => .inr (forall_isWaiter_set ?_ rfl)⟩
        exact isWaiter_eq_false (Bool.eq_false_iff.mpr hreceiver) hsubscribe
  | drop i =>
    obtain ⟨position, hposition, hrest⟩ := Option.bind_eq_some_iff.mp hstep
    split_ifs at hrest with hawait
    cases hrest
    have hsend : position.isSend = false := by
      cases position <;> first | rfl | exact absurd hawait Bool.false_ne_true
    refine ⟨hvalue, ?_, htokens, fun hready hfalse => ?_⟩
    · intro other hother hsend
      exact hsends other (mem_of_mem_set_of_isSend hother hsend rfl) hsend
    · exact (hnotified hready hfalse).imp (exists_isSend_set hposition hsend)
        fun hall => forall_isWaiter_set hall rfl

/-- **No waiter is left asleep** in a run that does not notify past one. -/
theorem wakeup_not_lost (h : Reached Readiness.step NotifiesWaiters IsNew s) : ¬Lost s := by
  rintro ⟨hready, hsend, hvalue, hchanged⟩
  have hsound :
      Sound s := h.invariant (fun _ => Sound.new) fun _ _ _ hs hc hstep => hs.step hc hstep
  rcases hsound.notified hready hvalue with ⟨position, hmem, hsending⟩ | hall
  · rw [hsend position hmem] at hsending
    exact Bool.false_ne_true hsending
  · cases hall _ hchanged

end sound

/-! ### Examples -/

/-- A waiter sleeps before the flag is marked, and wakes up. -/
def earlySubscription : List Act :=
  [.call .subscribe, .run 0 true, .run 0 true,
    .call .waitReady, .run 1 true, .run 1 true, .run 1 true, .run 1 true, .run 1 true,
    .call (.markReady 1), .run 2 true, .run 2 true, .run 2 true, .run 1 true, .run 1 true]

theorem wakeup_not_lost_earlySubscription :
    ∃ s, earlySubscription.foldlM (checked step NotifiesWaiters) {} = some s ∧ ¬Lost s := by
  have hsome : (earlySubscription.foldlM (checked step NotifiesWaiters) {}).isSome = true := by
    decide +kernel
  obtain ⟨s, hrun⟩ := Option.isSome_iff_exists.mp hsome
  exact ⟨s, hrun, wakeup_not_lost (reached_of_foldlM (.init rfl) hrun)⟩

/-- A waiter finds the flag not ready; it is marked ready, and nobody is told; then the waiter
subscribes. -/
def lateSubscription : List Act :=
  [.call .subscribe, .run 0 true, .run 0 true,
    .call .waitReady, .run 1 true, .run 1 true, .run 1 true,
    .call (.markReady 1), .run 2 true, .run 2 true, .run 2 true,
    .run 1 true, .run 1 true]

theorem lost_lateSubscription : ∃ s, Reached step (fun _ _ => True) IsNew s ∧ Lost s := by
  have hlost : ((lateSubscription.foldlM (checked step fun _ _ => True) {}).any fun s =>
      decide (Lost s)) = true := by
    decide +kernel
  obtain ⟨s, hrun, hs⟩ := (Option.any_eq_true _ _).mp hlost
  exact ⟨s, reached_of_foldlM (.init rfl) hrun, of_decide_eq_true hs⟩

end Codex.Readiness
