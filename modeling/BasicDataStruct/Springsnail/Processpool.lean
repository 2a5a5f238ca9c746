import Mathlib.Algebra.GroupWithZero.Nat
import Mathlib.Data.List.FinRange

namespace basic_data_struct.processpool

/-- A child as the parent knows it. The child's end of the pipe is closed in the parent,
so that `m_pipefd` is the entry 0 of the array. -/
structure process where
  m_busy_ratio : Int32
  m_pid : Int
  m_pipefd : Int

/-- The members of the parent's `processpool`, with `m_process_number = n`. -/
structure Parent (n : Nat) where
  m_sub_process : Fin n → process
  m_stop : Bool

variable {n : Nat}

/-- The loop of `get_most_free_srv` over the variables `idx` and `ratio`. -/
def most_free_body (m_sub_process : Fin n → process) (locals : Fin n × Int32) (i : Fin n) : Fin n × Int32 :=
  if (m_sub_process i).m_busy_ratio < locals.2 then (i, (m_sub_process i).m_busy_ratio) else locals

def Parent.get_most_free_srv [NeZero n] (p : Parent n) : Fin n :=
  ((List.finRange n).foldl (most_free_body p.m_sub_process) (0, (p.m_sub_process 0).m_busy_ratio)).1

/-- The loop that looks for the child behind a pipe. -/
def Parent.set_busy_ratio (p : Parent n) (sockfd : Int) (busy_ratio : Int32) : Parent n :=
  match (List.finRange n).find? fun i => sockfd = (p.m_sub_process i).m_pipefd with
  | some i =>
    { p with m_sub_process := Function.update p.m_sub_process i { p.m_sub_process i with m_busy_ratio := busy_ratio } }
  | none => p

/-- What `recv` on a pipe returns: the number of bytes, 0, or -1 with `EAGAIN` or
another error. -/
inductive Recv where
  | data (ret : Nat)
  | closed
  | again
  | failed

/-- The bytes that `recv` has put into an `int` with the value 0, in little-endian order. -/
def intOf : List UInt8 → UInt32
  | [] => 0
  | b :: bytes => b.toUInt32 + 256 * intOf bytes

/-- The branch of `run_parent` for a pipe from which the `bytes` can be read. Only an
error other than `EAGAIN` and the end of the stream leave the ratio as it is. -/
def Parent.read_ratio (p : Parent n) (sockfd : Int) (bytes : List UInt8) : Recv → Parent n
  | .data ret => p.set_busy_ratio sockfd (intOf (bytes.take ret)).toInt32
  | .again => p.set_busy_ratio sockfd 0
  | .closed | .failed => p

/-- A round of the `waitpid` loop. -/
def join (m_sub_process : Fin n → process) (pid : Int) : Fin n → process := fun i =>
  if (m_sub_process i).m_pid = pid then { m_sub_process i with m_pid := -1 } else m_sub_process i

/-- The branch of `SIGCHLD`, with what `waitpid` returns before 0 or -1. -/
def Parent.sigchld (p : Parent n) (pids : List Int) : Parent n :=
  let m_sub_process := pids.foldl join p.m_sub_process
  { m_sub_process, m_stop := (List.finRange n).all fun i => (m_sub_process i).m_pid = -1 }

/-- The byte that `notify_parent_busy_ratio` sends of its `int`. -/
def msgByte (msg : Int32) : UInt8 := msg.toUInt32.toUInt8

/-- The parent and the pipes from its children. `notified` are the counts that a child
has passed to `notify_parent_busy_ratio`; no statement of the program reads it. -/
structure System (n : Nat) where
  parent : Parent n
  pipe : Fin n → List UInt8
  notified : Fin n → List Int32

/-- What happens: a child notifies the parent of its number of used connections, and the
parent handles a readable pipe, a signal or a new connection. -/
inductive Event (n : Nat) where
  | notify (i : Fin n) (count : Int32)
  | read (i : Fin n) (result : Recv)
  | sigchld (pids : List Int)
  | connection

def Recv.taken : Recv → Nat
  | .data ret => ret
  | _ => 0

/-- A new connection changes nothing in the parent: it sends `new_conn` to a child. -/
def System.step (s : System n) : Event n → System n
  | .notify i count =>
    { s with
      pipe := Function.update s.pipe i (s.pipe i ++ [msgByte count])
      notified := Function.update s.notified i (s.notified i ++ [count]) }
  | .read i result =>
    { s with
      parent := s.parent.read_ratio (s.parent.m_sub_process i).m_pipefd (s.pipe i) result
      pipe := Function.update s.pipe i ((s.pipe i).drop result.taken) }
  | .sigchld pids => { s with parent := s.parent.sigchld pids }
  | .connection => s

/-- After the constructor. -/
def System.init (m_pid m_pipefd : Fin n → Int) : System n where
  parent := ⟨fun i => ⟨0, m_pid i, m_pipefd i⟩, false⟩
  pipe _ := []
  notified _ := []

end basic_data_struct.processpool
