import BasicDataStruct.Download.Breakpoint
import BasicDataStruct.Machine.Exec
import BasicDataStruct.Stdio.Integer

open machine stdio

namespace basic_data_struct.download

structure BreakPoint where
  downloaded : Int32
  thread_amount : Int32
  tasks : Fin MAX_THREAD → Int32 × Int32

/-- An index into `targs` or `tasks`. -/
def inArray (i : Nat) : Except Fault (Fin MAX_THREAD) := if h : i < MAX_THREAD then .ok ⟨i, h⟩ else .error .bounds

/-- The line `%d-%d` of a task. -/
def taskLine (task : Int32 × Int32) : List UInt8 := integer task.1.toInt ++ 45 :: (integer task.2.toInt ++ [10])

/-- The loop of `store_breakpoint`. -/
def storeTasks (b : BreakPoint) : (z count : Nat) → Except Fault (List UInt8)
  | _, 0 => return []
  | z, count + 1 => do
    let i ← inArray z
    let lines ← storeTasks b (z + 1) count
    return taskLine (b.tasks i) ++ lines

/-- The file that is written. -/
def store_breakpoint (b : BreakPoint) : Except Fault (List UInt8) := do
  let lines ← storeTasks b 0 b.thread_amount.toInt.toNat
  return integer b.downloaded.toInt ++ 10 :: (integer b.thread_amount.toInt ++ 10 :: lines)

/-- `fscanf(f, "%d", &x)`, with the rest of the file. A conversion that fails leaves `x` as it is. -/
def scanInto (x : Int32) (file : List UInt8) : Int32 × List UInt8 :=
  match scanInteger file with
  | some (n, file) => (.ofInt n, file)
  | none => (x, (splitSign (file.dropWhile isSpace)).2)

/-- `fscanf(f, "%d-%d", &t_start_pos, &t_limit)` -/
def scanTask (task : Int32 × Int32) (file : List UInt8) : (Int32 × Int32) × List UInt8 :=
  match scanInteger file with
  | none => (task, (splitSign (file.dropWhile isSpace)).2)
  | some (n, 45 :: file) =>
    let (t_limit, file) := scanInto task.2 file
    ((.ofInt n, t_limit), file)
  | some (n, file) => ((.ofInt n, task.2), file)

/-- The loop of `download` that takes up the tasks, with the variables `t_start_pos` and `t_limit`. -/
def resumeTasks : (i count : Nat) → (task : Int32 × Int32) → (file : List UInt8) →
    (tasks : Fin MAX_THREAD → Int32 × Int32) → Except Fault (Fin MAX_THREAD → Int32 × Int32)
  | _, 0, _, _, tasks => return tasks
  | i, count + 1, task, file, tasks => do
    let (task, file) := scanTask task file
    let z ← inArray i
    resumeTasks (i + 1) count task file (Function.update tasks z task)

/-- The branch of `download` that takes up a stored task, and its last assignments to `g_breakpoint`. It has no
result when it goes to `new_task`. -/
def resume (g_breakpoint : BreakPoint) (g_downloaded thread_amount : Int32) (task : Int32 × Int32)
    (file : List UInt8) : Except Fault (Option BreakPoint) := do
  if file.dropWhile isSpace = [] then return none
  else
    let (g_downloaded, file) := scanInto g_downloaded file
    let (thread_amount, file) := scanInto thread_amount file
    let tasks ← resumeTasks 0 thread_amount.toInt.toNat task file g_breakpoint.tasks
    return some { downloaded := g_downloaded, thread_amount, tasks }

theorem inArray_of_lt {i : Nat} (hi : i < MAX_THREAD) : inArray i = .ok ⟨i, hi⟩ := dif_pos hi

theorem scanInto_integer (x y : Int32) {rest : List UInt8} (hrest : ∀ b ∈ rest.head?, isDigit b = false) :
    scanInto x (integer y.toInt ++ rest) = (y, rest) := by
  rw [scanInto, scanInteger_integer _ hrest]
  simp only [Int32.ofInt_toInt]

theorem scanInto_newline (x : Int32) (file : List UInt8) : scanInto x (10 :: file) = scanInto x file := by
  rw [scanInto, scanInto, scanInteger_cons_space _ rfl, List.dropWhile_cons_of_pos rfl]

/-- A line of a task is read back behind the newline of the line before it. -/
theorem scanTask_line (old task : Int32 × Int32) (lines : List UInt8) :
    scanTask old (10 :: (taskLine task ++ lines)) = (task, 10 :: lines) := by
  have hline : taskLine task ++ lines = integer task.1.toInt ++ 45 :: (integer task.2.toInt ++ 10 :: lines) := by
    simp [taskLine]
  have hfirst : scanInteger (10 :: (taskLine task ++ lines)) =
      some (task.1.toInt, 45 :: (integer task.2.toInt ++ 10 :: lines)) := by
    rw [scanInteger_cons_space _ rfl, hline]
    exact scanInteger_integer _ (by simp [isDigit])
  have hsecond : scanInto old.2 (integer task.2.toInt ++ 10 :: lines) = (task.2, 10 :: lines) :=
    scanInto_integer _ _ (by simp [isDigit])
  rw [scanTask, hfirst]
  simp only [hsecond, Int32.ofInt_toInt]

/-- The tasks from `z` on are read back, and the others are left as they were. -/
theorem resume_storeTasks (b : BreakPoint) (z count : Nat) (hcount : z + count ≤ MAX_THREAD) :
    ∃ lines, storeTasks b z count = .ok lines ∧ ∀ task tasks, ∃ tasks',
      resumeTasks z count task (10 :: lines) tasks = .ok tasks' ∧
        ∀ i : Fin MAX_THREAD, tasks' i = if z ≤ i ∧ i < z + count then b.tasks i else tasks i := by
  induction count generalizing z with
  | zero =>
    refine ⟨[], rfl, fun task tasks => ⟨tasks, rfl, fun i => ?_⟩⟩
    rw [if_neg (by omega)]
  | succ count ih =>
    obtain ⟨lines, hstore, hread⟩ := ih (z + 1) (by omega)
    have hz : z < MAX_THREAD := by omega
    refine ⟨taskLine (b.tasks ⟨z, hz⟩) ++ lines, ?_, fun task tasks => ?_⟩
    · rw [storeTasks, inArray_of_lt hz, hstore]
      rfl
    obtain ⟨tasks', hrun, htasks⟩ := hread (b.tasks ⟨z, hz⟩) (Function.update tasks ⟨z, hz⟩ (b.tasks ⟨z, hz⟩))
    refine ⟨tasks', ?_, fun i => ?_⟩
    · rw [resumeTasks, scanTask_line, inArray_of_lt hz]
      exact hrun
    · rw [htasks, Function.update_apply]
      by_cases hi : i = ⟨z, hz⟩
      · subst hi
        simp
      · have hne : i.val ≠ z := fun h => hi (Fin.ext h)
        rw [if_neg hi]
        exact if_congr (by omega) rfl rfl

theorem resume_text (b old : BreakPoint) (g_downloaded thread_amount : Int32) (task : Int32 × Int32)
    (lines : List UInt8) : resume old g_downloaded thread_amount task
        (integer b.downloaded.toInt ++ 10 :: (integer b.thread_amount.toInt ++ 10 :: lines)) =
      (resumeTasks 0 b.thread_amount.toInt.toNat task (10 :: lines) old.tasks).map fun tasks =>
        some ⟨b.downloaded, b.thread_amount, tasks⟩ := by
  have hdownloaded (rest : List UInt8) : scanInto g_downloaded (integer b.downloaded.toInt ++ 10 :: rest) =
      (b.downloaded, 10 :: rest) := scanInto_integer _ _ (by simp [isDigit])
  have hamount : scanInto thread_amount (10 :: (integer b.thread_amount.toInt ++ 10 :: lines)) =
      (b.thread_amount, 10 :: lines) := by
    rw [scanInto_newline]
    exact scanInto_integer _ _ (by simp [isDigit])
  rw [resume, dropWhile_isSpace_integer, if_neg (by simp), hdownloaded]
  simp only [hamount]
  rfl

/-- The record is read back from the file, whatever the variables were before. -/
def BreakPoint.ReadFrom (b : BreakPoint) (file : List UInt8) : Prop :=
  ∀ (old : BreakPoint) (g_downloaded thread_amount : Int32) (task : Int32 × Int32), ∃ c,
    resume old g_downloaded thread_amount task file = .ok (some c) ∧ c.downloaded = b.downloaded ∧
      c.thread_amount = b.thread_amount ∧ ∀ i : Fin MAX_THREAD, i < b.thread_amount.toInt → c.tasks i = b.tasks i

theorem readFrom_stored (b : BreakPoint) (hhigh : b.thread_amount.toInt ≤ MAX_THREAD) :
    ∃ file, store_breakpoint b = .ok file ∧ b.ReadFrom file := by
  obtain ⟨lines, hstore, hread⟩ := resume_storeTasks b 0 b.thread_amount.toInt.toNat (by omega)
  refine ⟨_, by rw [store_breakpoint, hstore]; rfl, fun old g_downloaded thread_amount task => ?_⟩
  obtain ⟨tasks, hrun, htasks⟩ := hread task old.tasks
  refine ⟨⟨b.downloaded, b.thread_amount, tasks⟩, ?_, rfl, rfl, fun i hi => (htasks i).trans (if_pos ?_)⟩
  · rw [resume_text, hrun]
    rfl
  · omega

/-- Every stored task is read back as it was, with any numbers in it and whatever the variables were before. -/
theorem resume_store_breakpoint (b : BreakPoint) (hhigh : b.thread_amount ≤ Int32.ofNat MAX_THREAD) :
    ∃ file, store_breakpoint b = .ok file ∧ ∀ (old : BreakPoint) (g_downloaded thread_amount : Int32)
      (task : Int32 × Int32), ∃ c, resume old g_downloaded thread_amount task file = .ok (some c) ∧
        c.downloaded = b.downloaded ∧ c.thread_amount = b.thread_amount ∧
        ∀ i : Fin MAX_THREAD, i < b.thread_amount.toInt → c.tasks i = b.tasks i := by
  rw [Int32.le_iff_toInt_le, Int32.toInt_ofNat_of_lt (by decide)] at hhigh
  exact readFrom_stored b hhigh

/-- Two tasks, one of them with a negative rest. -/
theorem resume_store_breakpoint_two : ∃ file,
    store_breakpoint ⟨-5, 2, fun i => if i = 0 then (10, -3) else (-2147483648, 7)⟩ = .ok file ∧
      ∀ old g_downloaded thread_amount task, ∃ c, resume old g_downloaded thread_amount task file = .ok (some c) ∧
        c.downloaded = -5 ∧ c.tasks 0 = (10, -3) ∧ c.tasks 1 = (-2147483648, 7) := by
  obtain ⟨file, hstore, hread⟩ := resume_store_breakpoint
    ⟨-5, 2, fun i => if i = 0 then (10, -3) else (-2147483648, 7)⟩ (by decide)
  refine ⟨file, hstore, fun old g_downloaded thread_amount task => ?_⟩
  obtain ⟨c, hrun, hdownloaded, _, htasks⟩ := hread old g_downloaded thread_amount task
  exact ⟨c, hrun, hdownloaded, htasks 0 (by decide), htasks 1 (by decide)⟩

section Checkpoint

/-- A checkpoint as the record that the program has of it. -/
def Checkpoint.record (c : Checkpoint) : BreakPoint where
  downloaded := .ofNat c.downloaded
  thread_amount := .ofNat c.thread_amount
  tasks i := (c.tasks[i.val]?.map fun task => (.ofNat task.1, .ofNat task.2)).getD (0, 0)

/-- The tasks fit into the array, and the numbers into an `int`. -/
structure Checkpoint.Fits (c : Checkpoint) : Prop where
  amount : c.tasks.length = c.thread_amount
  room : c.thread_amount ≤ MAX_THREAD
  downloaded : c.downloaded < 2 ^ 31
  tasks : ∀ task ∈ c.tasks, task.1 < 2 ^ 31 ∧ task.2 < 2 ^ 31

theorem integer_ofNat {n : Nat} (hn : n < 2 ^ 31) : integer (Int32.ofNat n).toInt = decimal n := by
  rw [Int32.toInt_ofNat_of_lt hn, integer_natCast]

theorem storeTasks_record {c : Checkpoint} (hc : c.Fits) {z count : Nat} (hz : z + count = c.tasks.length) :
    storeTasks c.record z count =
      .ok ((c.tasks.drop z).flatMap fun task => decimal task.1 ++ 45 :: (decimal task.2 ++ [10])) := by
  have hroom := hc.amount ▸ hc.room
  induction count generalizing z with
  | zero =>
    rw [List.drop_of_length_le (by omega)]
    rfl
  | succ count ih =>
    have hlt : z < c.tasks.length := by omega
    obtain ⟨hstart, hlimit⟩ := hc.tasks _ (List.getElem_mem hlt)
    have hline : taskLine (c.record.tasks ⟨z, Nat.lt_of_lt_of_le hlt hroom⟩) =
        decimal c.tasks[z].1 ++ 45 :: (decimal c.tasks[z].2 ++ [10]) := by
      simp only [Checkpoint.record, List.getElem?_eq_getElem hlt, Option.map_some, Option.getD_some, taskLine,
        integer_ofNat hstart, integer_ofNat hlimit]
    rw [storeTasks, inArray_of_lt (Nat.lt_of_lt_of_le hlt hroom), ih (by omega), List.drop_eq_getElem_cons hlt,
      List.flatMap_cons, ← hline]
    rfl

/-- The text of a checkpoint is what `store_breakpoint` writes for its record, and the branch of `download` reads the
record back from it. -/
theorem Checkpoint.Fits.stored {c : Checkpoint} (hc : c.Fits) :
    store_breakpoint c.record = .ok c.text ∧ c.record.ReadFrom c.text := by
  have hamount : (Int32.ofNat c.thread_amount).toInt = c.thread_amount :=
    Int32.toInt_ofNat_of_lt (Nat.lt_of_le_of_lt hc.room (by decide))
  have hstore : store_breakpoint c.record = .ok c.text := by
    have htasks := storeTasks_record hc (Nat.zero_add c.tasks.length)
    rw [hc.amount] at htasks
    simp only [store_breakpoint, Checkpoint.record, hamount, Int.toNat_natCast] at htasks ⊢
    rw [htasks, integer_ofNat hc.downloaded, integer_natCast]
    rfl
  obtain ⟨file, hfile, hread⟩ := readFrom_stored c.record (hamount.trans_le (Int.ofNat_le.mpr hc.room))
  cases hstore.symm.trans hfile
  exact ⟨hstore, hread⟩

end Checkpoint

end basic_data_struct.download
