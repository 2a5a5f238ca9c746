import Mathlib.Logic.Function.Basic
import Mathlib.Logic.Relation

namespace basic_data_struct.threadpool

/-- A queued pointer `T*`, which may be NULL, with the number of its `push_back`. The
number tells two calls with the same pointer apart; the program does not have it. -/
structure Request (α : Type) where
  number : Nat
  ptr : Option α

/-- Where a thread stands: in `run`, with the value of its local `request`, or in
`append`, with the argument. A thread in `unlockEmpty` has found the queue empty. -/
inductive Pc (α : Type) where
  | whileTest
  | wait
  | lock
  | emptyTest
  | unlockEmpty
  | front
  | pop (request : Request α)
  | unlock (request : Request α)
  | nullTest (request : Request α)
  | process (request : Request α)
  | stopped
  | idle
  | appendLock (ptr : Option α)
  | sizeTest (ptr : Option α)
  | unlockFull
  | push (ptr : Option α)
  | appendUnlock (request : Request α)
  | post (request : Request α)

/-- What a thread does all the time. -/
inductive Role where
  | worker
  | caller

def Role.start {α : Type} : Role → Pc α
  | .worker => .whileTest
  | .caller => .idle

/-- The members of the pool that its threads share, with the threads. Three records are
kept beside them: `queued` are all requests in the order of their `push_back`,
`returned` those whose `append` has returned true, and `taken` those that a worker has
removed from the queue, in this order and with the worker. -/
structure State (τ α : Type) where
  m_workqueue : List (Request α)
  m_queuelocker : Option τ
  m_queuestat : Nat
  m_stop : Bool
  pc : τ → Pc α
  queued : List (Request α)
  returned : List (Request α)
  taken : List (τ × Request α)

variable {τ α : Type} [DecidableEq τ]

def initial (role : τ → Role) : State τ α where
  m_workqueue := []
  m_queuelocker := none
  m_queuestat := 0
  m_stop := false
  pc t := (role t).start
  queued := []
  returned := []
  taken := []

def State.goto (s : State τ α) (t : τ) (pc : Pc α) : State τ α := { s with pc := Function.update s.pc t pc }

/-- `m_queuelocker.lock()`, which blocks while another thread has the mutex. -/
def State.lockTo (s : State τ α) (t : τ) (pc : Pc α) : Option (State τ α) :=
  if s.m_queuelocker = none then some { s.goto t pc with m_queuelocker := some t } else none

/-- `m_queuelocker.unlock()` -/
def State.unlockTo (s : State τ α) (t : τ) (pc : Pc α) : State τ α := { s.goto t pc with m_queuelocker := none }

/-- The next action of a thread, if it can take one. -/
def step (m_max_requests : Nat) (t : τ) (s : State τ α) : Option (State τ α) :=
  match s.pc t with
  | .whileTest => some (s.goto t (if s.m_stop then .stopped else .wait))
  | .wait =>
    if 0 < s.m_queuestat then some { s.goto t .lock with m_queuestat := s.m_queuestat - 1 } else none
  | .lock => s.lockTo t .emptyTest
  | .emptyTest => some (s.goto t (if s.m_workqueue = [] then .unlockEmpty else .front))
  | .unlockEmpty => some (s.unlockTo t .whileTest)
  | .front => s.m_workqueue.head?.map fun request => s.goto t (.pop request)
  | .pop request =>
    some { s.goto t (.unlock request) with
      m_workqueue := s.m_workqueue.tail
      taken := s.taken ++ [(t, request)] }
  | .unlock request => some (s.unlockTo t (.nullTest request))
  | .nullTest request => some (s.goto t (if request.ptr = none then .whileTest else .process request))
  | .process _ => some (s.goto t .whileTest)
  | .stopped => none
  | .idle => none
  | .appendLock ptr => s.lockTo t (.sizeTest ptr)
  | .sizeTest ptr => some (s.goto t (if s.m_workqueue.length > m_max_requests then .unlockFull else .push ptr))
  | .unlockFull => some (s.unlockTo t .idle)
  | .push ptr =>
    some { s.goto t (.appendUnlock ⟨s.queued.length, ptr⟩) with
      m_workqueue := s.m_workqueue ++ [⟨s.queued.length, ptr⟩]
      queued := s.queued ++ [⟨s.queued.length, ptr⟩] }
  | .appendUnlock request => some (s.unlockTo t (.post request))
  | .post request =>
    some { s.goto t .idle with m_queuestat := s.m_queuestat + 1, returned := s.returned ++ [request] }

/-- A step of the program: an action of a thread, or a call of `append`. -/
inductive Step (m_max_requests : Nat) (s : State τ α) : State τ α → Prop where
  | action (t : τ) {s' : State τ α} (h : step m_max_requests t s = some s') : Step m_max_requests s s'
  | call (t : τ) (ptr : Option α) (h : s.pc t = .idle) : Step m_max_requests s (s.goto t (.appendLock ptr))

/-- The states that the threads can reach, in any interleaving. -/
def Reachable (m_max_requests : Nat) (role : τ → Role) : State τ α → Prop :=
  Relation.ReflTransGen (Step m_max_requests) (initial role)

end basic_data_struct.threadpool
