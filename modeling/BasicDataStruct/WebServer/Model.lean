import BasicDataStruct.Http.Write
import BasicDataStruct.Thread.Threadpool

open basic_data_struct.http (EVENT)

namespace basic_data_struct.web_server

abbrev MAX_FD : Nat := 65536

/-- What the epoll instance has for a descriptor. Every connection is added with `EPOLLONESHOT`: an event that has been
reported disarms it. -/
inductive Interest where
  | absent
  | disarmed
  | armed (ev : EVENT)
deriving DecidableEq

/-- The first of the tests of `main` that the reported events pass. They pass one, since `EPOLLIN` or `EPOLLOUT` is
waited for with `EPOLLRDHUP`. -/
inductive Ready where
  | hup
  | input
  | output
deriving DecidableEq

inductive Event where
  | listenfd
  | sockfd (fd : Nat) (ready : Ready)
deriving DecidableEq

/-- The connections among the events. -/
def sockfds (events : List Event) : List Nat :=
  events.filterMap fun
    | .listenfd => none
    | .sockfd fd _ => some fd

/-- Where a thread stands in `close_conn`. `m_user_count--` is a load and a store. -/
inductive Closing where
  | test
  | epoll_ctl (fd : Nat)
  | close (fd : Nat)
  | clear
  | load
  | store (m_user_count : Int)
deriving DecidableEq

/-- How `http_conn::write` ends: there is nothing to send, the socket takes no more, it fails, or all has been sent and
the connection is kept or not. -/
inductive Written where
  | empty
  | again
  | error
  | kept
  | done
deriving DecidableEq

/-- What `http_conn::process` finds: the request is incomplete, or `process_write` has returned true or false. -/
inductive Processed where
  | NO_REQUEST
  | written
  | failed
deriving DecidableEq

/-- Where the main thread stands. From `read` on, `conn` is the index of the connection in `users`. In `append` it is in
a function of the pool. -/
inductive MainPc where
  | epoll_wait
  | loop
  | accepted (connfd : Nat)
  | show_error (connfd : Nat)
  | init (connfd : Nat)
  | addfd (connfd : Nat)
  | load (connfd : Nat)
  | store (connfd : Nat) (m_user_count : Int)
  | reset (conn : Nat)
  | read (conn : Nat)
  | append (conn : Nat)
  | write (conn : Nat)
  | modfd (conn : Nat) (result : Written)
  | epoll_ctl (conn : Nat) (sockfd : Option Nat) (result : Written)
  | close_conn (conn : Nat) (place : Closing)

/-- Where a worker stands in `http_conn::process`, if it is there. -/
inductive WorkPc where
  | idle
  | process (conn : Nat)
  | modfd (conn : Nat) (ev : EVENT)
  | epoll_ctl (conn : Nat) (sockfd : Option Nat) (ev : EVENT)
  | close_conn (conn : Nat) (place : Closing)

/-- The pool, whose thread `none` is the main thread, the descriptors of the connections, and the threads outside of
the pool's own functions. Of a connection only `m_sockfd` is kept, where `none` is -1; the rest of it concerns the
thread that works on it. The record `refused` has the connections for which `append` has returned false. -/
structure State (ω : Type) where
  pool : threadpool.State (Option ω) Nat
  interest : Nat → Interest
  opened : Nat → Bool
  m_sockfd : Nat → Option Nat
  m_user_count : Int
  events : List Event
  main : MainPc
  work : ω → WorkPc
  refused : List Nat

/-- The constructor of `http_conn` does not initialise `m_sockfd`. -/
def initial (ω : Type) (m_sockfd : Nat → Option Nat) : State ω where
  pool := threadpool.initial fun
    | none => .caller
    | some _ => .worker
  interest _ := .absent
  opened _ := false
  m_sockfd
  m_user_count := 0
  events := []
  main := .epoll_wait
  work _ := .idle
  refused := []

variable {ω : Type} [DecidableEq ω]

/-- `epoll_ctl( m_epollfd, EPOLL_CTL_MOD, sockfd, &event )`, which fails for a descriptor that has not been added. -/
def State.modify (s : State ω) (sockfd : Option Nat) (ev : EVENT) : State ω :=
  match sockfd with
  | none => s
  | some fd =>
    if s.interest fd = .absent then s else { s with interest := Function.update s.interest fd (.armed ev) }

/-- An action of `close_conn`, and the place behind it if it does not return. -/
def State.close_conn (s : State ω) (conn : Nat) : Closing → State ω × Option Closing
  | .test => (s, (s.m_sockfd conn).map .epoll_ctl)
  | .epoll_ctl fd => ({ s with interest := Function.update s.interest fd .absent }, some (.close fd))
  | .close fd => ({ s with opened := Function.update s.opened fd false }, some .clear)
  | .clear => ({ s with m_sockfd := Function.update s.m_sockfd conn none }, some .load)
  | .load => (s, some (.store s.m_user_count))
  | .store n => ({ s with m_user_count := n - 1 }, none)

/-- What `write` waits for. -/
def Written.event : Written → EVENT
  | .again => .EPOLLOUT
  | _ => .EPOLLIN

/-- What the main thread does after `modfd` in `write`. -/
def Written.next (conn : Nat) : Written → MainPc
  | .empty => .reset conn
  | .done => .close_conn conn .test
  | _ => .loop

/-- The actions of the main thread. -/
inductive MainStep (s : State ω) : State ω → Prop where
  | epoll_wait (events : List Event) (hpc : s.main = .epoll_wait) (hnodup : (sockfds events).Nodup)
      (harmed : ∀ fd ∈ sockfds events, ∃ ev, s.interest fd = .armed ev) :
      MainStep s { s with
        interest := fun fd => if fd ∈ sockfds events then .disarmed else s.interest fd
        events := events
        main := .loop }
  | again (hpc : s.main = .loop) (hevents : s.events = []) : MainStep s { s with main := .epoll_wait }
  | accept_failed {events : List Event} (hpc : s.main = .loop) (hevents : s.events = .listenfd :: events) :
      MainStep s { s with events := events }
  | accept {events : List Event} (connfd : Nat) (hpc : s.main = .loop) (hevents : s.events = .listenfd :: events)
      (hlimit : connfd < MAX_FD) (hfree : s.opened connfd = false) :
      MainStep s { s with
        opened := Function.update s.opened connfd true
        events := events
        main := .accepted connfd }
  | accepted {connfd : Nat} (hpc : s.main = .accepted connfd) :
      MainStep s { s with main := if s.m_user_count ≥ MAX_FD then .show_error connfd else .init connfd }
  | show_error {connfd : Nat} (hpc : s.main = .show_error connfd) :
      MainStep s { s with opened := Function.update s.opened connfd false, main := .loop }
  | init {connfd : Nat} (hpc : s.main = .init connfd) :
      MainStep s { s with m_sockfd := Function.update s.m_sockfd connfd (some connfd), main := .addfd connfd }
  | addfd {connfd : Nat} (hpc : s.main = .addfd connfd) :
      MainStep s { s with interest := Function.update s.interest connfd (.armed .EPOLLIN), main := .load connfd }
  | load {connfd : Nat} (hpc : s.main = .load connfd) : MainStep s { s with main := .store connfd s.m_user_count }
  | store {connfd : Nat} {n : Int} (hpc : s.main = .store connfd n) :
      MainStep s { s with m_user_count := n + 1, main := .reset connfd }
  | reset {conn : Nat} (hpc : s.main = .reset conn) : MainStep s { s with main := .loop }
  | event {events : List Event} {fd : Nat} {ready : Ready} (hpc : s.main = .loop)
      (hevents : s.events = .sockfd fd ready :: events) :
      MainStep s { s with
        events := events
        main := match ready with
          | .hup => .close_conn fd .test
          | .input => .read fd
          | .output => .write fd }
  | read {conn : Nat} (hpc : s.main = .read conn) :
      MainStep s { s with pool := s.pool.goto none (.appendLock (some conn)), main := .append conn }
  | read_failed {conn : Nat} (hpc : s.main = .read conn) : MainStep s { s with main := .close_conn conn .test }
  | append {conn : Nat} (hpc : s.main = .append conn) (hreturned : s.pool.pc none = .idle) :
      MainStep s { s with main := .loop }
  | write {conn : Nat} (result : Written) (hpc : s.main = .write conn) :
      MainStep s { s with main := if result = .error then .close_conn conn .test else .modfd conn result }
  | modfd {conn : Nat} {result : Written} (hpc : s.main = .modfd conn result) :
      MainStep s { s with main := .epoll_ctl conn (s.m_sockfd conn) result }
  | epoll_ctl {conn : Nat} {sockfd : Option Nat} {result : Written} (hpc : s.main = .epoll_ctl conn sockfd result) :
      MainStep s { s.modify sockfd result.event with main := result.next conn }
  | close_conn {conn : Nat} {place : Closing} (hpc : s.main = .close_conn conn place) :
      MainStep s { (s.close_conn conn place).1 with
        main := (s.close_conn conn place).2.elim .loop (.close_conn conn) }

/-- The actions of a worker in `http_conn::process`. -/
inductive WorkStep (t : ω) (s : State ω) : State ω → Prop where
  | process {conn : Nat} (result : Processed) (hpc : s.work t = .process conn) :
      WorkStep t s { s with
        work := Function.update s.work t (match result with
          | .NO_REQUEST => .modfd conn .EPOLLIN
          | .written => .modfd conn .EPOLLOUT
          | .failed => .close_conn conn .test) }
  | modfd {conn : Nat} {ev : EVENT} (hpc : s.work t = .modfd conn ev) :
      WorkStep t s { s with work := Function.update s.work t (.epoll_ctl conn (s.m_sockfd conn) ev) }
  | epoll_ctl {conn : Nat} {sockfd : Option Nat} {ev : EVENT} (hpc : s.work t = .epoll_ctl conn sockfd ev) :
      WorkStep t s { s.modify sockfd ev with work := Function.update s.work t .idle }
  | close_conn {conn : Nat} {place : Closing} (hpc : s.work t = .close_conn conn place) :
      WorkStep t s { (s.close_conn conn place).1 with
        work := Function.update s.work t
          ((s.close_conn conn place).2.elim (.modfd conn .EPOLLOUT) (.close_conn conn)) }

/-- The actions of a thread in the functions of the pool. A worker that has a request calls `process`, and goes on
when it has returned. -/
inductive PoolStep (m_max_requests : Nat) (s : State ω) : State ω → Prop where
  | action {t : Option ω} {pool : threadpool.State (Option ω) Nat}
      (h : threadpool.step m_max_requests t s.pool = some pool)
      (hnull : ∀ number conn, s.pool.pc t ≠ .nullTest ⟨number, some conn⟩)
      (hprocess : ∀ request, s.pool.pc t ≠ .process request) (hsize : ∀ conn, s.pool.pc t ≠ .sizeTest (some conn)) :
      PoolStep m_max_requests s { s with pool := pool }
  | sizeTest {t : Option ω} {conn : Nat} {pool : threadpool.State (Option ω) Nat}
      (hpc : s.pool.pc t = .sizeTest (some conn)) (h : threadpool.step m_max_requests t s.pool = some pool) :
      PoolStep m_max_requests s { s with
        pool := pool
        refused := if s.pool.m_workqueue.length > m_max_requests then conn :: s.refused else s.refused }
  | process {t : ω} {number conn : Nat} {pool : threadpool.State (Option ω) Nat}
      (hpc : s.pool.pc (some t) = .nullTest ⟨number, some conn⟩)
      (h : threadpool.step m_max_requests (some t) s.pool = some pool) :
      PoolStep m_max_requests s { s with pool := pool, work := Function.update s.work t (.process conn) }
  | processed {t : ω} {request : threadpool.Request Nat} {pool : threadpool.State (Option ω) Nat}
      (hpc : s.pool.pc (some t) = .process request) (hwork : s.work t = .idle)
      (h : threadpool.step m_max_requests (some t) s.pool = some pool) :
      PoolStep m_max_requests s { s with pool := pool }

inductive Step (m_max_requests : Nat) (s s' : State ω) : Prop where
  | main (h : MainStep s s')
  | work (t : ω) (h : WorkStep t s s')
  | pool (h : PoolStep m_max_requests s s')

/-- The thread works on the connection: it uses the object, or its descriptor. -/
def State.Touches (s : State ω) (conn : Nat) : Option ω → Prop
  | none =>
    match s.main with
    | .epoll_wait | .loop | .append _ => False
    | .accepted c | .show_error c | .init c | .addfd c | .load c | .store c _ | .reset c | .read c | .write c
    | .modfd c _ | .epoll_ctl c _ _ | .close_conn c _ => c = conn
  | some t =>
    match s.work t with
    | .idle => False
    | .process c | .modfd c _ | .epoll_ctl c _ _ | .close_conn c _ => c = conn

/-- A step after which no worker is in `close_conn`: no `process_write` has failed. -/
def Served (m_max_requests : Nat) (s s' : State ω) : Prop :=
  Step m_max_requests s s' ∧ ∀ t conn place, s'.work t ≠ .close_conn conn place

/-- The states that the server can reach, in any interleaving, as long as no `process_write` fails. -/
def Reachable (m_max_requests : Nat) (s : State ω) : Prop :=
  ∃ m_sockfd, Relation.ReflTransGen (Served m_max_requests) (initial ω m_sockfd) s

end basic_data_struct.web_server
