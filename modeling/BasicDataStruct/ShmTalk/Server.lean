import BasicDataStruct.Machine.Exec
import BasicDataStruct.CompactTable.Indexed

open machine machine.Exec

namespace basic_data_struct.shm_talk

abbrev USER_LIMIT : Int := 5

abbrev PROCESS_LIMIT : Int := 65536

/-- What the server keeps for a user. The address of the client is only printed. -/
structure client_data where
  connfd : Int
  pid : Int
  pipefd : Int × Int
deriving DecidableEq, Inhabited

/-- The global variables. The array `users` has `USER_LIMIT + 1` entries and the array
`sub_process` has `PROCESS_LIMIT`. -/
structure Server where
  users : Int → client_data
  sub_process : Int → Int
  user_count : Int

abbrev Prog := Exec Server

/-- The server after its start. The entries of `users` are not initialised. -/
def Server.init (users : Int → client_data) : Server := ⟨users, fun _ => -1, 0⟩

/-- `users[i]` -/
def user (i : Int) : Prog client_data := do
  if 0 ≤ i ∧ i ≤ USER_LIMIT then return (← get).users i else fail .bounds

/-- `users[i] = data` -/
def setUser (i : Int) (data : client_data) : Prog Unit :=
  if 0 ≤ i ∧ i ≤ USER_LIMIT then modify fun s => { s with users := Function.update s.users i data }
  else fail .bounds

/-- `sub_process[pid]` -/
def subProcess (pid : Int) : Prog Int := do
  if 0 ≤ pid ∧ pid < PROCESS_LIMIT then return (← get).sub_process pid else fail .bounds

/-- `sub_process[pid] = i` -/
def setSubProcess (pid i : Int) : Prog Unit :=
  if 0 ≤ pid ∧ pid < PROCESS_LIMIT then
    modify fun s => { s with sub_process := Function.update s.sub_process pid i }
  else fail .bounds

/-- What the parent does after `fork`. Returns the index that `run_child` is called with
in the child, if there is one. -/
def after_fork (user_count : Int) (data : client_data) (pid : Int) : Prog (Option Int) := do
  if pid < 0 then return none
  else
    setUser user_count { data with pid }
    setSubProcess pid user_count
    modify fun s => { s with user_count := s.user_count + 1 }
    return some user_count

/-- The branch of a new connection, with the results of `accept`, `socketpair` and
`fork`. -/
def new_connection (connfd : Int) (pipefd : Int × Int) (pid : Int) : Prog (Option Int) := do
  let user_count := (← get).user_count
  if connfd < 0 then return none
  else if user_count ≥ USER_LIMIT then return none
  else
    let old ← user user_count
    setUser user_count { old with connfd, pipefd }
    after_fork user_count { old with connfd, pipefd } pid

/-- A round of the `waitpid` loop in the branch of `SIGCHLD`. -/
def child_exit (pid : Int) : Prog Unit := do
  let del_user ← subProcess pid
  setSubProcess pid (-1)
  if del_user < 0 ∨ del_user > USER_LIMIT then return ()
  else
    modify fun s => { s with user_count := s.user_count - 1 }
    let last ← user (← get).user_count
    setUser del_user last
    setSubProcess (← user del_user).pid del_user

/-- A child process that has not been waited for: the descriptors it has got from its
entry with its process number, the index it was started with, and whether it still
runs. -/
structure Child where
  data : client_data
  idx : Int
  running : Bool

/-- The child after the process `pid` has exited. -/
def Child.ended (pid : Int) (c : Child) : Child := if c.data.pid = pid then { c with running := false } else c

/-- The segments of the shared memory that the running children use. -/
def segments (children : List Child) : List Int := (children.filter (·.running)).map (·.idx)

/-- The server and its children. -/
structure System where
  server : Server
  children : List Child

/-- What happens: a connection, with the results of the system calls, the end of a
child, and the notice of it in a round of the `waitpid` loop. -/
inductive Event where
  | connection (connfd : Int) (pipefd : Int × Int) (pid : Int)
  | exit (pid : Int)
  | wait (pid : Int)

def System.step (s : System) : Event → Except Fault System
  | .connection connfd pipefd pid =>
    match (new_connection connfd pipefd pid).run s.server with
    | .ok (some idx, server) => .ok ⟨server, s.children ++ [⟨⟨connfd, pid, pipefd⟩, idx, true⟩]⟩
    | .ok (none, server) => .ok ⟨server, s.children⟩
    | .error e => .error e
  | .exit pid => .ok ⟨s.server, s.children.map (·.ended pid)⟩
  | .wait pid =>
    match (child_exit pid).run s.server with
    | .ok ((), server) => .ok ⟨server, s.children.filter fun c => c.data.pid ≠ pid⟩
    | .error e => .error e

/-- An event after a run that may have failed. -/
def step (r : Except Fault System) (e : Event) : Except Fault System := r >>= (·.step e)

end basic_data_struct.shm_talk
