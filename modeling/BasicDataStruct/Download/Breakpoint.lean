import BasicDataStruct.Download.Model
import BasicDataStruct.Stdio.Decimal

open ranges stdio

namespace basic_data_struct.download

/-- The text that `store_breakpoint` prints. -/
def Checkpoint.text (c : Checkpoint) : List UInt8 :=
  decimal c.downloaded ++ 10 :: (decimal c.thread_amount ++ 10 ::
    c.tasks.flatMap fun task => decimal task.1 ++ 45 :: (decimal task.2 ++ [10]))

/-- The loop of `download` that reads the tasks of a checkpoint. -/
def readTasks : (thread_amount : Nat) → (file : List UInt8) → Option (List (Nat × Nat))
  | 0, _ => some []
  | z + 1, file => do
    let (t_start_pos, file) ← scanDecimal file
    if file.head? ≠ some 45 then none
    else
      let (t_limit, file) ← scanDecimal file.tail
      let tasks ← readTasks z file
      return (t_start_pos, t_limit) :: tasks

/-- What `download` reads from a checkpoint. -/
def readBreakpoint (file : List UInt8) : Option Checkpoint := do
  let (downloaded, file) ← scanDecimal file
  let (thread_amount, file) ← scanDecimal file
  let tasks ← readTasks thread_amount file
  return { downloaded, thread_amount, tasks }

theorem readTasks_text (tasks : List (Nat × Nat)) :
    readTasks tasks.length (10 :: tasks.flatMap fun task => decimal task.1 ++ 45 :: (decimal task.2 ++ [10])) =
      some tasks := by
  induction tasks with
  | nil => rfl
  | cons task tasks ih =>
    -- the newline of one line is skipped in front of the next
    simp only [List.flatMap_cons, List.append_assoc, List.cons_append, List.nil_append, List.length_cons, readTasks]
    rw [scanDecimal_cons_space _ rfl, scanDecimal_decimal _ rfl]
    simp only [Option.bind_eq_bind, Option.bind_some, List.head?_cons, ne_eq, not_true_eq_false, if_false,
      List.tail_cons]
    rw [scanDecimal_decimal _ rfl, Option.bind_some, ih]
    rfl

/-- A checkpoint is read back as it was stored. -/
theorem readBreakpoint_text (c : Checkpoint) (hamount : c.tasks.length = c.thread_amount) :
    readBreakpoint c.text = some c := by
  rw [readBreakpoint, Checkpoint.text, scanDecimal_decimal _ rfl]
  simp only [Option.bind_eq_bind, Option.bind_some]
  rw [scanDecimal_cons_space _ rfl, scanDecimal_decimal _ rfl]
  simp only [Option.bind_some, ← hamount, readTasks_text]
  rw [hamount]
  rfl

/-- A checkpoint of a file in which the bytes `written` are written: nothing is lost and
nothing is counted twice. -/
structure Right (file_size : Nat) (written : Set Nat) (c : Checkpoint) : Prop where
  amount : c.tasks.length = c.thread_amount
  total : c.downloaded + (c.tasks.map Prod.snd).sum = file_size
  written_lt : ∀ b ∈ written, b < file_size
  missing : Partitions (fun i : Fin c.tasks.length => (c.tasks.get i).1) (fun i => (c.tasks.get i).2)
    ({b | b < file_size} \ written)

/-- The branch of `download` that takes up a checkpoint. What was written after it was
stored is fetched again. -/
def Checkpoint.resume (c : Checkpoint) {file_size : Nat} {written : Set Nat} (h : Right file_size written c) : Job where
  file_size := file_size
  thread_amount := c.tasks.length
  start_pos i := (c.tasks.get i).1
  limit i := (c.tasks.get i).2
  entry i := (c.tasks.get i).2
  downloaded := c.downloaded
  present := written
  total := by
    rw [← h.total, ← List.sum_ofFn]
    congr 2
    exact List.ext_get (by simp) (by simp)
  present_lt := h.written_lt
  missing := h.missing

end basic_data_struct.download
