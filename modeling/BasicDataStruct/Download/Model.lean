import BasicDataStruct.Ranges.Partition

open ranges

namespace basic_data_struct.download

abbrev MAX_THREAD : Nat := 100

/-- A file that `store_breakpoint` writes: the counter, the number of threads, and a pair
`tasks[z][0]-tasks[z][1]` for each of them. -/
structure Checkpoint where
  downloaded : Nat
  thread_amount : Nat
  tasks : List (Nat × Nat)
deriving DecidableEq

/-- What `download` gives to its threads. `entry i` is what it writes to `tasks[i][1]`,
`downloaded` the start value of `g_downloaded`, and `present` the bytes that are in the
file before the threads start. The threads are given the bytes that are missing. -/
structure Job where
  file_size : Nat
  thread_amount : Nat
  start_pos : Fin thread_amount → Nat
  limit : Fin thread_amount → Nat
  entry : Fin thread_amount → Nat
  downloaded : Nat
  present : Set Nat
  total : downloaded + ∑ i, limit i = file_size
  present_lt : ∀ b ∈ present, b < file_size
  missing : Partitions start_pos limit ({b | b < file_size} \ present)

/-- The number of threads that `download` uses: small files are fetched by one. -/
def threads (file_size thread_amount : Nat) : Nat := if file_size < 1000000 then 1 else thread_amount

theorem threads_pos (file_size : Nat) {thread_amount : Nat} (hthreads : 0 < thread_amount) :
    0 < threads file_size thread_amount := by
  rw [threads]
  split
  · exact Nat.one_pos
  · exact hthreads

/-- The branch `new_task`. -/
def newTask (file_size thread_amount : Nat) (hthreads : 0 < thread_amount) : Job where
  file_size := file_size
  thread_amount := threads file_size thread_amount
  start_pos i := file_size / threads file_size thread_amount * i
  limit := blockLen (file_size / threads file_size thread_amount) (file_size % threads file_size thread_amount)
  entry _ := file_size / threads file_size thread_amount
  downloaded := 0
  present := ∅
  total := by rw [sum_blockLen _ _ (threads_pos file_size hthreads), Nat.zero_add, Nat.mul_comm, Nat.div_add_mod]
  present_lt b hb := hb.elim
  missing := by
    have hblocks := partitions_blocks (file_size / threads file_size thread_amount)
      (file_size % threads file_size thread_amount) (threads_pos file_size hthreads)
    rw [Set.sdiff_empty]
    rwa [Nat.mul_comm, Nat.div_add_mod] at hblocks

/-- Where a thread of `download_part` stands. In `countFirst i` and `count i` it has
written `i` bytes that it has not counted yet; `finish` is the assignment behind the
loop, which reads `g_downloaded` first. -/
inductive Pc where
  | idle
  | begin_down
  | countFirst (i : Nat)
  | loopTest
  | recv
  | count (i : Nat)
  | task0
  | task1
  | publish
  | finish
  | finishPublish (downloaded : Nat)
  | done
deriving DecidableEq

/-- A thread of `download_part`. `entered` is the value of `ct` that its task entry was
last computed from; no statement of the program reads it. -/
structure Part where
  pc : Pc
  ct : Nat
  entered : Option Nat

/-- Where `download` stands. -/
inductive Main where
  | create (i : Nat)
  | createMonitor
  | setAmount
  | readDownloaded
  | setDownloaded (downloaded : Nat)
  | done
deriving DecidableEq

/-- Where `monitor` stands. The places from `readAmount` to `readLimit` are inside
`store_breakpoint`, with what has been printed so far. -/
inductive Monitor where
  | off
  | loop
  | testOld
  | store
  | readAmount (downloaded : Nat)
  | testTask (downloaded thread_amount : Nat) (tasks : List (Nat × Nat))
  | readStart (downloaded thread_amount : Nat) (tasks : List (Nat × Nat))
  | readLimit (downloaded thread_amount : Nat) (tasks : List (Nat × Nat)) (start : Nat)
  | setOld
  | done
deriving DecidableEq

/-- The globals and the threads of a run with `n` download threads. `stored` holds each
checkpoint with the values of `ct` at the moment it was closed. -/
structure State (n : Nat) where
  g_downloaded : Nat
  g_mut : Option (Fin n)
  downloaded : Nat
  thread_amount : Nat
  tasks : Fin n → Nat × Nat
  part : Fin n → Part
  main : Main
  monitor : Monitor
  old : Nat
  stored : List (Checkpoint × (Fin n → Nat))

/-- What can happen next: a statement of `download` or of `monitor`, a statement of the
thread `t`, or bytes that reach it. The server sends what was asked for, so at most the
rest of the range arrives. -/
inductive Action (n : Nat) where
  | main
  | monitor
  | part (t : Fin n)
  | first (t : Fin n) (i : Nat)
  | chunk (t : Fin n) (i : Nat)

section

variable (job : Job)

/-- Before `download` creates its threads. `old` is not initialised. -/
def initial (old : Nat) : State job.thread_amount where
  g_downloaded := job.downloaded
  g_mut := none
  downloaded := 0
  thread_amount := 0
  tasks _ := (0, 0)
  part _ := { pc := .idle, ct := 0, entered := none }
  main := .create 0
  monitor := .off
  old
  stored := []

variable (s : State job.thread_amount)

/-- The next statement of `download`. -/
def mainStep : Option (State job.thread_amount) :=
  match s.main with
  | .create i =>
    if h : i < job.thread_amount then
      some { s with
        tasks := Function.update s.tasks ⟨i, h⟩ (job.start_pos ⟨i, h⟩, job.entry ⟨i, h⟩)
        part := Function.update s.part ⟨i, h⟩ { pc := .begin_down, ct := 0, entered := none }
        main := .create (i + 1) }
    else some { s with main := .createMonitor }
  | .createMonitor => some { s with monitor := .loop, main := .setAmount }
  | .setAmount => some { s with thread_amount := job.thread_amount, main := .readDownloaded }
  | .readDownloaded => some { s with main := .setDownloaded s.g_downloaded }
  | .setDownloaded downloaded => some { s with downloaded, main := .done }
  | .done => none

/-- Move a thread on. -/
def State.goto {n : Nat} (s : State n) (t : Fin n) (pc : Pc) : State n :=
  { s with part := Function.update s.part t { s.part t with pc } }

/-- Write `i` bytes to the file. -/
def State.write {n : Nat} (s : State n) (t : Fin n) (i : Nat) (pc : Pc) : State n :=
  { s with part := Function.update s.part t { s.part t with pc, ct := (s.part t).ct + i } }

/-- The header and the first `i` bytes of an answer. -/
def first (t : Fin job.thread_amount) (i : Nat) : Option (State job.thread_amount) :=
  if (s.part t).pc = .begin_down ∧ (s.part t).ct + i ≤ job.limit t then some (s.write t i (.countFirst i)) else none

/-- A later chunk. Without bytes the connection is closed, and the thread sends a new
request. -/
def chunk (t : Fin job.thread_amount) (i : Nat) : Option (State job.thread_amount) :=
  if (s.part t).pc = .recv ∧ (s.part t).ct + i ≤ job.limit t then
    if i = 0 then some (s.goto t .begin_down) else some (s.write t i (.count i))
  else none

/-- The next statement of a thread that does not wait for bytes. The mutex is taken with
the first statement it protects and released with the last. -/
def partStep (t : Fin job.thread_amount) : Option (State job.thread_amount) :=
  match (s.part t).pc with
  | .countFirst i =>
    if s.g_mut = none then some { s.goto t .loopTest with g_downloaded := s.g_downloaded + i } else none
  | .loopTest => some (s.goto t (if (s.part t).ct < job.limit t then .recv else .finish))
  | .count i =>
    if s.g_mut = none then
      some { s.goto t .task0 with g_mut := some t, g_downloaded := s.g_downloaded + i }
    else none
  | .task0 =>
    some { s.goto t .task1 with
      tasks := Function.update s.tasks t (job.start_pos t + (s.part t).ct, (s.tasks t).2) }
  | .task1 =>
    some { s with
      tasks := Function.update s.tasks t ((s.tasks t).1, job.limit t - (s.part t).ct)
      part := Function.update s.part t { pc := .publish, ct := (s.part t).ct, entered := some (s.part t).ct } }
  | .publish => some { s.goto t .loopTest with downloaded := s.g_downloaded, g_mut := none }
  | .finish => some (s.goto t (.finishPublish s.g_downloaded))
  | .finishPublish downloaded => some { s.goto t .done with downloaded }
  | .idle | .begin_down | .recv | .done => none

/-- The next statement of `monitor` and, inside it, of `store_breakpoint`. -/
def monitorStep : Option (State job.thread_amount) :=
  match s.monitor with
  | .loop => some { s with monitor := if job.file_size ≤ s.g_downloaded then .done else .testOld }
  | .testOld => some { s with monitor := if s.old ≠ s.g_downloaded then .store else .loop }
  | .store => some { s with monitor := .readAmount s.downloaded }
  | .readAmount downloaded => some { s with monitor := .testTask downloaded s.thread_amount [] }
  | .testTask downloaded thread_amount tasks =>
    if tasks.length < s.thread_amount then some { s with monitor := .readStart downloaded thread_amount tasks }
    else
      some { s with
        monitor := .setOld
        stored := s.stored ++ [(⟨downloaded, thread_amount, tasks⟩, fun t => (s.part t).ct)] }
  | .readStart downloaded thread_amount tasks =>
    if h : tasks.length < job.thread_amount then
      some { s with monitor := .readLimit downloaded thread_amount tasks (s.tasks ⟨tasks.length, h⟩).1 }
    else none
  | .readLimit downloaded thread_amount tasks start =>
    if h : tasks.length < job.thread_amount then
      some { s with
        monitor := .testTask downloaded thread_amount (tasks ++ [(start, (s.tasks ⟨tasks.length, h⟩).2)]) }
    else none
  | .setOld => some { s with old := s.g_downloaded, monitor := .loop }
  | .off | .done => none

def act : Action job.thread_amount → Option (State job.thread_amount)
  | .main => mainStep job s
  | .monitor => monitorStep job s
  | .part t => partStep job s t
  | .first t i => first job s t i
  | .chunk t i => chunk job s t i

end

/-- The states of a run. -/
inductive Run (job : Job) : State job.thread_amount → Prop where
  | start (old : Nat) : Run job (initial job old)
  | step {s s' : State job.thread_amount} (a : Action job.thread_amount) (hs : Run job s)
      (h : act job s a = some s') : Run job s'

/-- The bytes in the file, where each thread has written its first `ct` bytes. -/
def Job.written (job : Job) (ct : Fin job.thread_amount → Nat) : Set Nat := job.present ∪ front job.start_pos ct

theorem Job.lt_of_mem_written {job : Job} {ct : Fin job.thread_amount → Nat} (hle : ∀ t, ct t ≤ job.limit t) {b : Nat}
    (hb : b ∈ job.written ct) : b < job.file_size := by
  rcases hb with hpresent | hfront
  · exact job.present_lt b hpresent
  · obtain ⟨t, ht⟩ := mem_front.mp hfront
    have hrange : b ∈ Set.Ico (job.start_pos t) (job.start_pos t + job.limit t) :=
      Set.Ico_subset_Ico_right (Nat.add_le_add_left (hle t) _) ht
    exact ((job.missing.covered b).mpr ⟨t, hrange⟩).1

end basic_data_struct.download
