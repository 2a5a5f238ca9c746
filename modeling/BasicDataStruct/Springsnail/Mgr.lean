import BasicDataStruct.Springsnail.Conn

open Std socket

namespace basic_data_struct.springsnail

inductive OP_TYPE where
  | READ
  | WRITE
  | ERROR
deriving DecidableEq

/-- The class `map<int, T>`. Its `insert` leaves an entry that is there as it is. -/
abbrev IntMap (T : Type) := ExtTreeMap Int T

/-- Why a connection is freed: its client failed or closed, its server did (`m_srv_closed`),
or a caller asked for it. -/
inductive Reason where
  | client
  | srv_closed
  | caller
deriving DecidableEq

/-- A call of `free_conn`: the connection before it is reset, and what has gone over its sockets. -/
structure Freed where
  reason : Reason
  connection : conn
  wire : Wire

/-- A manager and its surroundings. The objects of type `conn` have the addresses below
`created`. `m_conns` and `m_freed` only get objects that were dereferenced before, so they hold
no `NULL`; in `m_used` the subscript operator can put one. `opened` are the descriptors that
the process has open, `active` the connections that were picked and not freed, and `log` the
calls of `free_conn`; no statement of the program reads these three. -/
structure State where
  mem : Nat → conn
  wire : Nat → Wire
  created : Nat
  m_conns : IntMap Nat
  m_used : IntMap (Option Nat)
  m_freed : IntMap Nat
  opened : Set Int
  active : List Nat
  log : List Freed

/-- A new `conn`. -/
def conn.new : conn := conn.reset ⟨cleared, cleared, -1, -1, false⟩

def conn.init_clt (c : conn) (sockfd : Int) : conn := { c with m_cltfd := sockfd }

def conn.init_srv (c : conn) (sockfd : Int) : conn := { c with m_srvfd := sockfd }

/-- Before the constructor has built its connections. -/
def State.empty : State where
  mem _ := conn.new
  wire _ := .silent
  created := 0
  m_conns := ∅
  m_used := ∅
  m_freed := ∅
  opened := ∅
  active := []
  log := []

/-- One round of the constructor's loop, for the result of `conn2srv`. A failed `new` closes the
descriptor again, as a failed connection does. -/
def build (s : State) : Option Int → State
  | none => s
  | some sockfd =>
    { s with
      mem := Function.update s.mem s.created (conn.new.init_srv sockfd)
      created := s.created + 1
      m_conns := s.m_conns.insertIfNew sockfd s.created
      opened := insert sockfd s.opened }

/-- The constructor, for the results of its calls of `conn2srv`. -/
def State.mgr (results : List (Option Int)) : State := results.foldl build .empty

def State.get_used_conn_cnt (s : State) : Nat := s.m_used.size

/-- The connection that is picked, or `NULL`. -/
def State.pick_conn (s : State) (cltfd : Int) : Option Nat × State :=
  match s.m_conns.toList with
  | [] => (none, s)
  | (srvfd, tmp) :: _ =>
    (some tmp, { s with
      m_conns := s.m_conns.erase srvfd
      m_used := (s.m_used.insertIfNew cltfd (some tmp)).insertIfNew srvfd (some tmp)
      active := tmp :: s.active })

/-- What `run_child` does with a descriptor from `accept`: it picks a connection and sets its
client, or closes the descriptor again. -/
def State.accept (s : State) (cltfd : Int) : State :=
  match s.pick_conn cltfd with
  | (none, s) => s
  | (some c, s) =>
    { s with
      mem := Function.update s.mem c ((s.mem c).init_clt cltfd)
      opened := insert cltfd s.opened }

def State.free_conn (s : State) (c : Nat) (reason : Reason) : State :=
  { s with
    mem := Function.update s.mem c (s.mem c).reset
    wire := Function.update s.wire c .silent
    m_used := (s.m_used.erase (s.mem c).m_cltfd).erase (s.mem c).m_srvfd
    m_freed := s.m_freed.insertIfNew (s.mem c).m_srvfd c
    opened := s.opened \ {(s.mem c).m_cltfd, (s.mem c).m_srvfd}
    active := s.active.erase c
    log := s.log ++ [⟨reason, s.mem c, s.wire c⟩] }

/-- One round of the loop of `recycle_conns`, where `srv c` is what `conn2srv` gives for the
connection `c`. -/
def reconnect (srv : Nat → Option Int) (s : State) (entry : Int × Nat) : State :=
  match srv entry.2 with
  | none => s
  | some srvfd =>
    { s with
      mem := Function.update s.mem entry.2 ((s.mem entry.2).init_srv srvfd)
      m_conns := s.m_conns.insertIfNew srvfd entry.2
      opened := insert srvfd s.opened }

def State.recycle_conns (s : State) (srv : Nat → Option Int) : State :=
  { s.m_freed.toList.foldl (reconnect srv) s with m_freed := ∅ }

/-- A call of one of the four functions of a connection. -/
def State.call (s : State) (c : Nat) (op : Op) : RET_CODE × State :=
  let (code, connection, w) := op.exec (s.mem c) (s.wire c)
  (code, { s with mem := Function.update s.mem c connection, wire := Function.update s.wire c w })

/-- What `process` does behind `read_clt` and behind `write_clt`. -/
def State.after_clt (s : State) (c : Nat) : RET_CODE → RET_CODE × State
  | .IOERR | .CLOSED => (.CLOSED, s.free_conn c .client)
  | _ => if (s.mem c).m_srv_closed then (.CLOSED, s.free_conn c .srv_closed) else (.OK, s)

/-- What `process` does behind `read_srv` and behind `write_srv`. -/
def State.after_srv (s : State) (c : Nat) : RET_CODE → RET_CODE × State
  | .IOERR | .CLOSED => (.OK, { s with mem := Function.update s.mem c { s.mem c with m_srv_closed := true } })
  | _ => (.OK, s)

/-- The part of `process` for a connection that was found. Which events are asked for with
`modfd` does not matter here: any event may come next. -/
def State.dispatch (s : State) (c : Nat) (fd : Int) (type : OP_TYPE) (recvs : List Recv) (sends : List Send) :
    RET_CODE × State :=
  if (s.mem c).m_cltfd = fd then
    match type with
    | .READ =>
      let (res, s) := s.call c (.read_clt recvs)
      s.after_clt c res
    | .WRITE =>
      let (res, s) := s.call c (.write_clt sends)
      s.after_clt c res
    | .ERROR => (.OK, s)
  else if (s.mem c).m_srvfd = fd then
    match type with
    | .READ =>
      let (res, s) := s.call c (.read_srv recvs)
      s.after_srv c res
    | .WRITE =>
      let (res, s) := s.call c (.write_srv sends)
      s.after_srv c res
    | .ERROR => (.OK, s)
  else (.NOTHING, s)

/-- An event of the descriptor `fd`, with the results of the system calls that it leads to. The
lookup `m_used[fd]` puts `NULL` under a descriptor that is not there. -/
def State.process (s : State) (fd : Int) (type : OP_TYPE) (recvs : List Recv) (sends : List Send) :
    RET_CODE × State :=
  match s.m_used[fd]? with
  | some (some c) => s.dispatch c fd type recvs sends
  | _ => (.NOTHING, { s with m_used := s.m_used.insertIfNew fd none })

/-- A property of the state after `process`, from the cases that it distinguishes. -/
theorem State.process_cases {Q : State → Prop} {s : State} {fd : Int} {type : OP_TYPE} {recvs : List Recv}
    {sends : List Send}
    (hnull : (∀ c, s.m_used[fd]? ≠ some (some c)) → Q { s with m_used := s.m_used.insertIfNew fd none })
    (hidle : Q s)
    (hclt : ∀ c op, s.m_used[fd]? = some (some c) → Q ((s.call c op).2.after_clt c (s.call c op).1).2)
    (hsrv : ∀ c op, s.m_used[fd]? = some (some c) → Q ((s.call c op).2.after_srv c (s.call c op).1).2) :
    Q (s.process fd type recvs sends).2 := by
  unfold State.process
  split
  next c hc =>
    unfold State.dispatch
    split
    · cases type with
      | READ => exact hclt c (.read_clt recvs) hc
      | WRITE => exact hclt c (.write_clt sends) hc
      | ERROR => exact hidle
    · split
      · cases type with
        | READ => exact hsrv c (.read_srv recvs) hc
        | WRITE => exact hsrv c (.write_srv sends) hc
        | ERROR => exact hidle
      · exact hidle
  next hnone => exact hnull fun c hc => hnone c hc

/-- A call of one of the manager's functions, with what the kernel gives it. -/
inductive Action where
  | accept (cltfd : Int)
  | free (c : Nat)
  | recycle (srv : Nat → Option Int)
  | process (fd : Int) (type : OP_TYPE) (recvs : List Recv) (sends : List Send)

def step (s : State) : Action → State
  | .accept cltfd => s.accept cltfd
  | .free c => s.free_conn c .caller
  | .recycle srv => s.recycle_conns srv
  | .process fd type recvs sends => (s.process fd type recvs sends).2

/-- The rules of the surroundings: a new descriptor has a number that is not open, and
only a connection in use is freed. -/
def Permitted (s : State) : Action → Prop
  | .accept cltfd => cltfd ∉ s.opened
  | .free c => c ∈ s.active
  | .recycle srv =>
    (∀ (fd : Int) c sockfd, s.m_freed[fd]? = some c → srv c = some sockfd → sockfd ∉ s.opened) ∧
    ∀ (fd fd' : Int) c c' sockfd, s.m_freed[fd]? = some c → s.m_freed[fd']? = some c' →
      srv c = some sockfd → srv c' = some sockfd → c = c'
  | .process _ _ _ _ => True

/-- The connections of the constructor have descriptors of their own. -/
def Distinct (results : List (Option Int)) : Prop := (results.filterMap id).Nodup

instance (results : List (Option Int)) : Decidable (Distinct results) :=
  inferInstanceAs (Decidable (results.filterMap id).Nodup)

end basic_data_struct.springsnail
