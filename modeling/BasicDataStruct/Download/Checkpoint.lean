import BasicDataStruct.Download.Breakpoint
import BasicDataStruct.Download.Completion

open ranges

namespace basic_data_struct.download

variable {n : Nat} {tasks : List (Nat × Nat)}

/-- The entry of a thread was computed from what it has written by now; or the thread has
written nothing, and `download` has entered its whole range. -/
def Entered (job : Job) (t : Fin job.thread_amount) (p : Part) : Prop :=
  match p.entered with
  | some c => c = p.ct
  | none => p.ct = 0 ∧ job.entry t = job.limit t

instance (job : Job) (t : Fin job.thread_amount) (p : Part) : Decidable (Entered job t p) :=
  match p with
  | ⟨_, ct, some c⟩ => inferInstanceAs (Decidable (c = ct))
  | ⟨_, ct, none⟩ => inferInstanceAs (Decidable (ct = 0 ∧ job.entry t = job.limit t))

/-- A moment that is fit for a checkpoint: `download` has filled in `g_breakpoint`, all
that was received is entered, and the two counters agree. -/
def Settled (job : Job) (s : State job.thread_amount) : Prop :=
  s.main = .done ∧ s.downloaded = s.g_downloaded ∧ ∀ t, Entered job t (s.part t)

instance (job : Job) (s : State job.thread_amount) : Decidable (Settled job s) :=
  inferInstanceAs (Decidable (_ ∧ _ ∧ _))

/-- The places inside `store_breakpoint`. -/
def Monitor.storing : Monitor → Bool
  | .readAmount _ | .testTask _ _ _ | .readStart _ _ _ | .readLimit _ _ _ _ => true
  | _ => false

/-- A step that does not disturb a checkpoint: `store_breakpoint` starts at a settled
moment, and nothing else runs before it returns. -/
def Careful (job : Job) (s : State job.thread_amount) : Action job.thread_amount → Prop
  | .monitor => s.monitor = .store → Settled job s
  | _ => s.monitor.storing = false

instance (job : Job) (s : State job.thread_amount) (a : Action job.thread_amount) : Decidable (Careful job s a) :=
  match a with
  | .monitor => inferInstanceAs (Decidable (s.monitor = .store → Settled job s))
  | .main | .part _ | .first _ _ | .chunk _ _ => inferInstanceAs (Decidable (s.monitor.storing = false))

/-- The states of a run of such steps. -/
inductive CarefulRun (job : Job) : State job.thread_amount → Prop where
  | start (old : Nat) : CarefulRun job (initial job old)
  | step {s s' : State job.thread_amount} (a : Action job.thread_amount) (hs : CarefulRun job s)
      (hcareful : Careful job s a) (h : act job s a = some s') : CarefulRun job s'

section

variable {job : Job} {s s' : State job.thread_amount} {t : Fin job.thread_amount}

theorem CarefulRun.run (hs : CarefulRun job s) : Run job s := by
  induction hs with
  | start old => exact .start old
  | step a _ _ h ih => exact ih.step a h

theorem Settled.uncounted (hinv : Inv job s) (hs : Settled job s) (t : Fin job.thread_amount) :
    (s.part t).pc.uncounted = 0 := by
  have hpending := (hinv.consistent t).pending
  have hentered := hs.2.2 t
  rw [Entered] at hentered
  split at hentered
  next c hc =>
    rw [hc, Option.getD_some] at hpending
    omega
  next => omega

/-- At a settled moment each entry is the rest of the thread's range. -/
theorem Settled.task_eq (hinv : Inv job s) (hs : Settled job s) (t : Fin job.thread_amount) :
    s.tasks t = (job.start_pos t + (s.part t).ct, job.limit t - (s.part t).ct) := by
  have hcreated : (s.part t).pc ≠ .idle := (hinv.created t).mpr (by rw [hs.1]; trivial)
  have hentered := hs.2.2 t
  rw [Entered] at hentered
  rw [(hinv.consistent t).task_eq hcreated]
  split at hentered
  next c hc => simp [hc, Job.task, hentered]
  next hc => simp [hc, Job.task, hentered.1, hentered.2]

theorem Settled.downloaded_eq (hinv : Inv job s) (hs : Settled job s) :
    s.downloaded = job.downloaded + ∑ t, (s.part t).ct := by
  have huncounted : ∑ t, (s.part t).pc.uncounted = 0 := Finset.sum_eq_zero fun t _ => hs.uncounted hinv t
  have hcounted := hinv.counted
  have hglobal := hs.2.1
  omega

/-- The checkpoint of a settled moment. -/
theorem Settled.right (hinv : Inv job s) (hs : Settled job s) :
    Right job.file_size (job.written fun t => (s.part t).ct) ⟨s.downloaded, s.thread_amount, List.ofFn s.tasks⟩ where
  amount := by rw [List.length_ofFn, hinv.amount (.inl hs.1)]
  total := by
    have hrest : ∑ t, (s.part t).ct + ∑ t, (s.tasks t).2 = ∑ t, job.limit t := by
      rw [← Finset.sum_add_distrib]
      refine Finset.sum_congr rfl fun t _ => ?_
      rw [hs.task_eq hinv t]
      exact Nat.add_sub_cancel' (hinv.consistent t).ct_le
    have htotal := job.total
    have hdownloaded := hs.downloaded_eq hinv
    rw [List.map_ofFn, List.sum_ofFn]
    simp only [Function.comp_apply]
    omega
  written_lt _ := Job.lt_of_mem_written fun t => (hinv.consistent t).ct_le
  missing := by
    have hleft := job.missing.advance fun t => (hinv.consistent t).ct_le
    rw [sdiff_sdiff_left] at hleft
    have hlength : (List.ofFn s.tasks).length = job.thread_amount := List.length_ofFn
    simp only [List.get_eq_getElem, List.getElem_ofFn, hs.task_eq hinv]
    exact hleft.reindex (finCongr hlength)

/-- The tasks that are printed are the first entries of `g_breakpoint`. -/
def Printed {n : Nat} (s : State n) (tasks : List (Nat × Nat)) : Prop := tasks = (List.ofFn s.tasks).take tasks.length

/-- What has been printed inside `store_breakpoint` agrees with the globals, and they are settled. -/
def Snapshot (job : Job) (s : State job.thread_amount) : Prop :=
  match s.monitor with
  | .readAmount downloaded => Settled job s ∧ downloaded = s.downloaded
  | .testTask downloaded thread_amount tasks | .readStart downloaded thread_amount tasks =>
    Settled job s ∧ downloaded = s.downloaded ∧ thread_amount = s.thread_amount ∧ Printed s tasks
  | .readLimit downloaded thread_amount tasks start =>
    Settled job s ∧ downloaded = s.downloaded ∧ thread_amount = s.thread_amount ∧ Printed s tasks ∧
      ∀ h : tasks.length < job.thread_amount, start = (s.tasks ⟨tasks.length, h⟩).1
  | _ => True

theorem snapshot_of_not_storing (h : s.monitor.storing = false) : Snapshot job s := by
  rw [Snapshot]
  cases hmonitor : s.monitor with
  | readAmount | testTask | readStart | readLimit => simp [hmonitor, Monitor.storing] at h
  | _ => trivial

theorem Printed.snoc {s : State n} (hs : Printed s tasks) (hlt : tasks.length < n) :
    Printed s (tasks ++ [s.tasks ⟨tasks.length, hlt⟩]) := by
  have hlength : tasks.length < (List.ofFn s.tasks).length := by rwa [List.length_ofFn]
  rw [Printed] at hs ⊢
  rw [List.length_append, List.length_singleton, List.take_succ_eq_append_getElem hlength, List.getElem_ofFn, ← hs]

/-- When the loop of `store_breakpoint` ends, all entries are printed. -/
theorem Printed.all {s : State n} (hs : Printed s tasks) (hle : n ≤ tasks.length) : tasks = List.ofFn s.tasks := by
  rw [Printed] at hs
  rwa [List.take_of_length_le (by rwa [List.length_ofFn])] at hs

/-- The checkpoints that a step stores. -/
def StoresRight (job : Job) (s s' : State job.thread_amount) : Prop :=
  ∀ e ∈ s'.stored, e ∈ s.stored ∨ Right job.file_size (job.written e.2) e.1

theorem storesRight_of_eq (h : s'.stored = s.stored) : StoresRight job s s' := fun _ he => .inl (h ▸ he)

/-- If the monitor starts at a settled moment, what it stores is right. -/
theorem Snapshot.monitorStep (hinv : Inv job s) (hs : Snapshot job s) (hstart : s.monitor = .store → Settled job s)
    (h : monitorStep job s = some s') : Snapshot job s' ∧ StoresRight job s s' := by
  rw [Snapshot] at hs
  rw [download.monitorStep] at h
  cases hmonitor : s.monitor with
  | off | done =>
    rw [hmonitor] at h
    cases h
  | loop | testOld =>
    rw [hmonitor] at h
    cases h
    refine ⟨snapshot_of_not_storing ?_, storesRight_of_eq rfl⟩
    dsimp only
    split <;> rfl
  | setOld =>
    rw [hmonitor] at h
    cases h
    exact ⟨snapshot_of_not_storing rfl, storesRight_of_eq rfl⟩
  | store =>
    rw [hmonitor] at h
    cases h
    exact ⟨⟨hstart hmonitor, rfl⟩, storesRight_of_eq rfl⟩
  | readAmount d =>
    rw [hmonitor] at h hs
    cases h
    exact ⟨⟨hs.1, hs.2, rfl, rfl⟩, storesRight_of_eq rfl⟩
  | testTask d a tasks =>
    rw [hmonitor] at h hs
    obtain ⟨hsettled, rfl, rfl, hprinted⟩ := hs
    have hamount : s.thread_amount = job.thread_amount := hinv.amount (.inl hsettled.1)
    dsimp only at h
    split at h
    case isTrue =>
      cases h
      exact ⟨⟨hsettled, rfl, rfl, hprinted⟩, storesRight_of_eq rfl⟩
    case isFalse hle =>
      cases h
      refine ⟨snapshot_of_not_storing rfl, fun e he => ?_⟩
      rcases List.mem_append.mp he with hold | hnew
      · exact .inl hold
      · right
        rw [List.mem_singleton.mp hnew, hprinted.all (by omega)]
        exact hsettled.right hinv
  | readStart d a tasks =>
    rw [hmonitor] at h hs
    obtain ⟨hsettled, rfl, rfl, hprinted⟩ := hs
    dsimp only at h
    split at h
    · cases h
      exact ⟨⟨hsettled, rfl, rfl, hprinted, fun _ => rfl⟩, storesRight_of_eq rfl⟩
    · cases h
  | readLimit d a tasks start =>
    rw [hmonitor] at h hs
    obtain ⟨hsettled, rfl, rfl, hprinted, hread⟩ := hs
    dsimp only at h
    split at h
    case isTrue hlt =>
      cases h
      obtain rfl := hread hlt
      exact ⟨⟨hsettled, rfl, rfl, hprinted.snoc hlt⟩, storesRight_of_eq rfl⟩
    case isFalse => cases h

theorem Snapshot.frame (h : ThreadFrame s s') (hquiet : s.monitor.storing = false) :
    Snapshot job s' ∧ StoresRight job s s' :=
  ⟨snapshot_of_not_storing (by rw [h.monitor, hquiet]), storesRight_of_eq h.stored⟩

theorem Snapshot.mainStep (h : mainStep job s = some s') (hquiet : s.monitor.storing = false) :
    Snapshot job s' ∧ StoresRight job s s' := by
  rw [download.mainStep] at h
  split at h
  case h_1 => split at h <;> cases h <;> exact ⟨snapshot_of_not_storing hquiet, storesRight_of_eq rfl⟩
  case h_2 =>
    cases h
    exact ⟨snapshot_of_not_storing rfl, storesRight_of_eq rfl⟩
  all_goals cases h
  all_goals exact ⟨snapshot_of_not_storing hquiet, storesRight_of_eq rfl⟩

/-- A careful step keeps the snapshot and stores right checkpoints only. -/
theorem Snapshot.act {a : Action job.thread_amount} (hinv : Inv job s) (hs : Snapshot job s)
    (hcareful : Careful job s a) (h : act job s a = some s') : Snapshot job s' ∧ StoresRight job s s' := by
  cases a with
  | main => exact Snapshot.mainStep h hcareful
  | monitor => exact hs.monitorStep hinv hcareful h
  | part t => exact Snapshot.frame (partStep_frame h) hcareful
  | first t i => exact Snapshot.frame (first_frame h) hcareful
  | chunk t i => exact Snapshot.frame (chunk_frame h) hcareful

/-- In a careful run every checkpoint is right. -/
theorem CarefulRun.stored_right (hs : CarefulRun job s) :
    Snapshot job s ∧ ∀ e ∈ s.stored, Right job.file_size (job.written e.2) e.1 := by
  induction hs with
  | start old => exact ⟨snapshot_of_not_storing rfl, fun e he => absurd he List.not_mem_nil⟩
  | step a hs hcareful h ih =>
    obtain ⟨hsnapshot, hstored⟩ := ih.1.act hs.run.inv hcareful h
    exact ⟨hsnapshot, fun e he => (hstored e he).elim (ih.2 e) id⟩

theorem Run.of_foldlM (hs : Run job s) (actions : List (Action job.thread_amount))
    (h : actions.foldlM (act job) s = some s') : Run job s' := by
  induction actions generalizing s with
  | nil => exact Option.some.inj h ▸ hs
  | cons a actions ih =>
    obtain ⟨next, hstep, hrest⟩ := Option.bind_eq_some_iff.mp h
    exact ih (hs.step a hstep) hrest

/-- A step, when it is careful. -/
def carefulAct (job : Job) (s : State job.thread_amount) (a : Action job.thread_amount) :
    Option (State job.thread_amount) :=
  if Careful job s a then act job s a else none

theorem CarefulRun.of_foldlM (hs : CarefulRun job s) (actions : List (Action job.thread_amount))
    (h : actions.foldlM (carefulAct job) s = some s') : CarefulRun job s' := by
  induction actions generalizing s with
  | nil => exact Option.some.inj h ▸ hs
  | cons a actions ih =>
    obtain ⟨next, hstep, hrest⟩ := Option.bind_eq_some_iff.mp h
    rw [carefulAct] at hstep
    split at hstep
    case isTrue hcareful => exact ih (hs.step a hcareful hstep) hrest
    case isFalse => cases hstep

end

/-- The jobs that a download goes through: a new task, and then any number of restarts,
each from a checkpoint of a careful run. Every range of the checkpoint has bytes, since the
request for an empty one would end before it starts. -/
inductive Session (file_size thread_amount : Nat) (hthreads : 0 < thread_amount) : Job → Prop where
  | new (hmax : thread_amount ≤ MAX_THREAD) :
      Session file_size thread_amount hthreads (newTask file_size thread_amount hthreads)
  | resume {job : Job} {s : State job.thread_amount} {e : Checkpoint × (Fin job.thread_amount → Nat)}
      (hjob : Session file_size thread_amount hthreads job) (hs : CarefulRun job s) (he : e ∈ s.stored)
      (hranges : ∀ task ∈ e.1.tasks, 0 < task.2) (hright : Right file_size (job.written e.2) e.1) :
      Session file_size thread_amount hthreads (e.1.resume hright)

section

variable {file_size thread_amount : Nat} {hthreads : 0 < thread_amount} {job : Job}

theorem Session.file_size_eq (hjob : Session file_size thread_amount hthreads job) : job.file_size = file_size := by
  cases hjob with
  | new => rfl
  | resume => rfl

/-- Across restarts every checkpoint of a careful run is right, is read back as it was
stored, and can be taken up; and every run can come to its end, where the whole file is
written and each byte is counted once. -/
theorem checkpoints_right (hjob : Session file_size thread_amount hthreads job) :
    (∀ s, CarefulRun job s → ∀ e ∈ s.stored,
      readBreakpoint e.1.text = some e.1 ∧ ∃ hright : Right file_size (job.written e.2) e.1,
        (∀ task ∈ e.1.tasks, 0 < task.2) → Session file_size thread_amount hthreads (e.1.resume hright)) ∧
    ∀ s, Run job s →
      (∃ s', Relation.ReflTransGen (Step job) s s' ∧ s'.monitor = .done) ∧
      (s.monitor = .done → s.g_downloaded = file_size ∧
        job.written (fun t => (s.part t).ct) = {b | b < file_size}) := by
  have hsize := hjob.file_size_eq
  constructor
  · intro s hs e he
    have hright : Right file_size (job.written e.2) e.1 := hsize ▸ hs.stored_right.2 e he
    exact ⟨readBreakpoint_text e.1 hright.amount, hright, fun hranges => hjob.resume hs he hranges hright⟩
  · intro s hs
    obtain ⟨s', hsteps, -, hend⟩ := hs.completes
    refine ⟨⟨s', hsteps, hend⟩, fun hdone => ?_⟩
    rw [← hsize]
    exact hs.whole hdone

/-- Two threads receive a byte each, `u` one more and `t` two more, and `u` waits for the
mutex until `t` has entered what it has. Then a checkpoint is stored. -/
def twoThreads {n : Nat} (t u : Fin n) : List (Action n) :=
  List.replicate 7 .main ++ [.first t 1, .first u 1, .part t, .part u, .part u, .part t, .chunk u 1, .chunk t 2] ++
    List.replicate 4 (.part t) ++ List.replicate 4 (.part u) ++ List.replicate 11 .monitor

/-- A checkpoint in the middle of a download by two threads is stored and taken up. -/
theorem checkpoints_right_two_threads : ∃ s, CarefulRun (newTask 1000001 2 Nat.two_pos) s ∧ ∃ e ∈ s.stored,
    e.1 = ⟨5, 2, [(3, 499997), (500002, 499999)]⟩ ∧
      ∃ hright : Right 1000001 ((newTask 1000001 2 Nat.two_pos).written e.2) e.1,
      Session 1000001 2 Nat.two_pos (e.1.resume hright) := by
  let t : Fin (newTask 1000001 2 Nat.two_pos).thread_amount := ⟨0, by decide⟩
  let u : Fin (newTask 1000001 2 Nat.two_pos).thread_amount := ⟨1, by decide⟩
  have hsome : (((twoThreads t u).foldlM (carefulAct _) (initial (newTask 1000001 2 Nat.two_pos) 0)).map fun s =>
      s.stored.map Prod.fst) = some [⟨5, 2, [(3, 499997), (500002, 499999)]⟩] := by decide +kernel
  obtain ⟨s, hs, hstored⟩ := Option.map_eq_some_iff.mp hsome
  have hrun : CarefulRun _ s := (CarefulRun.start 0).of_foldlM _ hs
  obtain ⟨e, he, hcheckpoint⟩ := List.mem_map.mp (hstored ▸ List.mem_singleton_self _)
  obtain ⟨-, hright, hresume⟩ := (checkpoints_right (.new (by decide))).1 s hrun e he
  exact ⟨s, hrun, e, he, hcheckpoint, hright, hresume (by rw [hcheckpoint]; decide)⟩

/-- A checkpoint is stored after the thread `t` has received one byte. -/
def oneByte {n : Nat} (t : Fin n) : List (Action n) :=
  List.replicate 7 .main ++ [.first t 1, .part t] ++ List.replicate 11 .monitor

/-- Two threads share 1000001 bytes. The last one is given 500001 of them and entered with
500000, so the checkpoint after the first byte loses one. -/
theorem checkpoint_loses_byte : ∃ s, Run (newTask 1000001 2 Nat.two_pos) s ∧ ∃ e ∈ s.stored,
    e.1 = ⟨0, 2, [(0, 500000), (500000, 500000)]⟩ ∧ e.1.downloaded + (e.1.tasks.map Prod.snd).sum ≠ 1000001 := by
  let t : Fin (newTask 1000001 2 Nat.two_pos).thread_amount := ⟨0, by decide⟩
  have hsome : (((oneByte t).foldlM (act _) (initial (newTask 1000001 2 Nat.two_pos) 0)).map fun s =>
      s.stored.map Prod.fst) = some [⟨0, 2, [(0, 500000), (500000, 500000)]⟩] := by decide +kernel
  obtain ⟨s, hs, hstored⟩ := Option.map_eq_some_iff.mp hsome
  obtain ⟨e, he, hcheckpoint⟩ := List.mem_map.mp (hstored ▸ List.mem_singleton_self _)
  exact ⟨s, (Run.start 0).of_foldlM _ hs, e, he, hcheckpoint, by rw [hcheckpoint]; decide⟩

end

end basic_data_struct.download
