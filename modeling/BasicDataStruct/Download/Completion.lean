import BasicDataStruct.Download.Invariant

open ranges

namespace basic_data_struct.download

variable {i : Nat}

/-- The places where a thread holds the mutex. -/
def Pc.Holds : Pc → Prop
  | .task0 | .task1 | .publish => True
  | _ => False

/-- The places behind the loop. -/
def Pc.Ended : Pc → Prop
  | .finish | .finishPublish _ | .done => True
  | _ => False

/-- What the threads need to go on: the mutex is held by one of them or free, a thread
that waits for bytes has bytes to wait for, and a thread that has left the loop has none. -/
structure Locked (job : Job) (s : State job.thread_amount) : Prop where
  held (t : Fin job.thread_amount) : s.g_mut = some t ↔ (s.part t).pc.Holds
  waiting (t : Fin job.thread_amount) : (s.part t).pc = .recv → (s.part t).ct < job.limit t
  ended (t : Fin job.thread_amount) : (s.part t).pc.Ended → job.limit t ≤ (s.part t).ct

/-- What a thread of `download_part` leaves alone. -/
structure ThreadFrame {n : Nat} (s s' : State n) : Prop where
  monitor : s'.monitor = s.monitor
  main : s'.main = s.main
  thread_amount : s'.thread_amount = s.thread_amount
  stored : s'.stored = s.stored
  counted : s.g_downloaded ≤ s'.g_downloaded

section

variable {job : Job} {s s' : State job.thread_amount} {t : Fin job.thread_amount}

theorem first_frame (h : first job s t i = some s') : ThreadFrame s s' := by
  rw [first] at h
  split at h
  · cases h
    exact ⟨rfl, rfl, rfl, rfl, Nat.le_refl _⟩
  · cases h

theorem chunk_frame (h : chunk job s t i = some s') : ThreadFrame s s' := by
  rw [chunk] at h
  split at h
  · split at h <;> cases h <;> exact ⟨rfl, rfl, rfl, rfl, Nat.le_refl _⟩
  · cases h

theorem partStep_frame (h : partStep job s t = some s') : ThreadFrame s s' := by
  rw [partStep] at h
  split at h
  case h_1 i _ =>
    split at h
    · cases h
      exact ⟨rfl, rfl, rfl, rfl, Nat.le_add_right _ i⟩
    · cases h
  case h_3 i _ =>
    split at h
    · cases h
      exact ⟨rfl, rfl, rfl, rfl, Nat.le_add_right _ i⟩
    · cases h
  all_goals cases h
  all_goals exact ⟨rfl, rfl, rfl, rfl, Nat.le_refl _⟩

section

variable (hs : Locked job s)
include hs

/-- A step of one thread, with what it does to the mutex. -/
theorem Locked.update (p : Part) (hpart : s'.part = Function.update s.part t p)
    (hothers : ∀ u, u ≠ t → (s'.g_mut = some u ↔ s.g_mut = some u)) (hheld : s'.g_mut = some t ↔ p.pc.Holds)
    (hwaiting : p.pc = .recv → p.ct < job.limit t) (hended : p.pc.Ended → job.limit t ≤ p.ct) : Locked job s' where
  held := by
    rw [hpart]
    exact (Function.forall_update_iff s.part fun u p => s'.g_mut = some u ↔ p.pc.Holds).mpr
      ⟨hheld, fun u hu => (hothers u hu).trans (hs.held u)⟩
  waiting := by
    rw [hpart]
    exact (Function.forall_update_iff s.part fun u p => p.pc = .recv → p.ct < job.limit u).mpr
      ⟨hwaiting, fun u _ => hs.waiting u⟩
  ended := by
    rw [hpart]
    exact (Function.forall_update_iff s.part fun u p => p.pc.Ended → job.limit u ≤ p.ct).mpr
      ⟨hended, fun u _ => hs.ended u⟩

/-- A step that does not touch the mutex. -/
theorem Locked.move (p : Part) (hpart : s'.part = Function.update s.part t p)
    (hmut : s'.g_mut = s.g_mut) (hheld : p.pc.Holds ↔ (s.part t).pc.Holds)
    (hwaiting : p.pc = .recv → p.ct < job.limit t) (hended : p.pc.Ended → job.limit t ≤ p.ct) : Locked job s' :=
  hs.update p hpart (fun u _ => by rw [hmut]) (by rw [hmut, hs.held t, hheld]) hwaiting hended

theorem Locked.first (h : first job s t i = some s') : Locked job s' := by
  rw [download.first] at h
  split at h
  next hpc =>
    cases h
    exact hs.move _ rfl rfl (by simp [hpc.1, Pc.Holds]) (by simp) (by simp [Pc.Ended])
  next => cases h

theorem Locked.chunk (h : chunk job s t i = some s') : Locked job s' := by
  rw [download.chunk] at h
  split at h
  next hpc =>
    split at h
    · cases h
      exact hs.move _ rfl rfl (by simp [hpc.1, Pc.Holds]) (by simp) (by simp [Pc.Ended])
    · cases h
      exact hs.move _ rfl rfl (by simp [hpc.1, Pc.Holds]) (by simp) (by simp [Pc.Ended])
  next => cases h

theorem Locked.partStep (h : partStep job s t = some s') : Locked job s' := by
  rw [download.partStep] at h
  split at h
  case h_1 i hpc =>
    split at h
    · cases h
      exact hs.move _ rfl rfl (by simp [hpc, Pc.Holds]) (by simp) (by simp [Pc.Ended])
    · cases h
  case h_2 hpc =>
    cases h
    by_cases hlt : (s.part t).ct < job.limit t
    · rw [if_pos hlt]
      exact hs.move _ rfl rfl (by simp [hpc, Pc.Holds]) (fun _ => hlt) (by simp [Pc.Ended])
    · rw [if_neg hlt]
      exact hs.move _ rfl rfl (by simp [hpc, Pc.Holds]) (by simp) fun _ => Nat.le_of_not_lt hlt
  case h_3 i hpc =>
    split at h
    case isTrue hfree =>
      cases h
      refine hs.update _ rfl (fun u hu => ?_) (by simp [Pc.Holds]) (by simp) (by simp [Pc.Ended])
      simp [hfree, hu.symm]
    case isFalse => cases h
  case h_6 hpc =>
    cases h
    have hmine : s.g_mut = some t := (hs.held t).mpr (by simp [hpc, Pc.Holds])
    refine hs.update _ rfl (fun u hu => ?_) (by simp [Pc.Holds]) (by simp) (by simp [Pc.Ended])
    simp [hmine, hu.symm]
  case h_4 hpc | h_5 hpc =>
    cases h
    exact hs.move _ rfl rfl (by simp [hpc, Pc.Holds]) (by simp) (by simp [Pc.Ended])
  case h_7 hpc | h_8 d hpc =>
    cases h
    exact hs.move _ rfl rfl (by simp [hpc, Pc.Holds]) (by simp) fun _ => hs.ended t (by simp [hpc, Pc.Ended])
  all_goals cases h

end

theorem Locked.mainStep (hinv : Inv job s) (hs : Locked job s) (h : mainStep job s = some s') : Locked job s' := by
  rw [download.mainStep] at h
  split at h
  case h_1 i hmain =>
    split at h
    case isTrue hi =>
      cases h
      exact hs.move _ rfl rfl (by simp [hinv.idle_next hmain hi, Pc.Holds]) (by simp) (by simp [Pc.Ended])
    case isFalse =>
      cases h
      exact ⟨hs.held, hs.waiting, hs.ended⟩
  all_goals cases h
  all_goals exact ⟨hs.held, hs.waiting, hs.ended⟩

theorem Locked.act {a : Action job.thread_amount} (hinv : Inv job s) (hs : Locked job s) (h : act job s a = some s') :
    Locked job s' := by
  cases a with
  | main => exact hs.mainStep hinv h
  | monitor =>
    obtain ⟨_, _, _, rfl⟩ := monitorStep_frame h
    exact ⟨hs.held, hs.waiting, hs.ended⟩
  | part t => exact hs.partStep h
  | first t i => exact hs.first h
  | chunk t i => exact hs.chunk h

theorem Run.locked (hs : Run job s) : Locked job s := by
  induction hs with
  | start old => exact ⟨fun t => by simp [initial, Pc.Holds], fun t => by simp [initial],
      fun t => by simp [initial, Pc.Ended]⟩
  | step a hs h ih => exact ih.act hs.inv h

/-- The tasks that `store_breakpoint` has printed when it is about to read one more. -/
def Monitor.reading : Monitor → Option (List (Nat × Nat))
  | .readStart _ _ tasks | .readLimit _ _ tasks _ => some tasks
  | _ => none

/-- What the monitor needs to go on, and what it knows when it stops. -/
structure Watched (job : Job) (s : State job.thread_amount) : Prop where
  amount_le : s.thread_amount ≤ job.thread_amount
  room {tasks : List (Nat × Nat)} : s.monitor.reading = some tasks → tasks.length < job.thread_amount
  started : s.main = .done ∨ s.main = .setAmount ∨ s.main = .readDownloaded ∨ (∃ d, s.main = .setDownloaded d) →
    s.monitor ≠ .off
  finished : s.monitor = .done → job.file_size ≤ s.g_downloaded

theorem Watched.frame (hs : Watched job s) (h : ThreadFrame s s') : Watched job s' where
  amount_le := by rw [h.thread_amount]; exact hs.amount_le
  room := by rw [h.monitor]; exact hs.room
  started := by rw [h.main, h.monitor]; exact hs.started
  finished hdone := Nat.le_trans (hs.finished (by rw [← h.monitor, hdone])) h.counted

theorem Watched.mainStep (hs : Watched job s) (h : mainStep job s = some s') : Watched job s' := by
  rw [download.mainStep] at h
  split at h
  case h_1 i hmain =>
    split at h <;> cases h <;> exact ⟨hs.amount_le, hs.room, by simp, hs.finished⟩
  case h_2 hmain =>
    cases h
    exact ⟨hs.amount_le, by simp [Monitor.reading], by simp, by simp⟩
  case h_3 hmain =>
    cases h
    exact ⟨Nat.le_refl _, hs.room, fun _ => hs.started (.inr (.inl hmain)), hs.finished⟩
  case h_4 hmain =>
    cases h
    exact ⟨hs.amount_le, hs.room, fun _ => hs.started (.inr (.inr (.inl hmain))), hs.finished⟩
  case h_5 d hmain =>
    cases h
    exact ⟨hs.amount_le, hs.room, fun _ => hs.started (.inr (.inr (.inr ⟨d, hmain⟩))), hs.finished⟩
  case h_6 => cases h

/-- The monitor moves on. -/
theorem Watched.goto {monitor : Monitor} {old : Nat} {stored : List (Checkpoint × (Fin job.thread_amount → Nat))}
    (hs : Watched job s) (hroom : ∀ tasks, monitor.reading = some tasks → tasks.length < job.thread_amount)
    (hoff : monitor ≠ .off) (hend : monitor = .done → job.file_size ≤ s.g_downloaded) :
    Watched job { s with monitor, old, stored } :=
  ⟨hs.amount_le, hroom _, fun _ => hoff, hend⟩

theorem Watched.monitorStep (hs : Watched job s) (h : monitorStep job s = some s') : Watched job s' := by
  rw [download.monitorStep] at h
  split at h
  case h_1 =>
    cases h
    by_cases hfull : job.file_size ≤ s.g_downloaded
    · rw [if_pos hfull]
      exact hs.goto (by simp [Monitor.reading]) (by simp) fun _ => hfull
    · rw [if_neg hfull]
      exact hs.goto (by simp [Monitor.reading]) (by simp) (by simp)
  case h_2 =>
    cases h
    split <;> exact hs.goto (by simp [Monitor.reading]) (by simp) (by simp)
  case h_5 =>
    split at h
    case isTrue hlt =>
      cases h
      refine hs.goto (fun read hread => ?_) (by simp) (by simp)
      rw [← Option.some.inj hread]
      exact Nat.lt_of_lt_of_le hlt hs.amount_le
    case isFalse =>
      cases h
      exact hs.goto (by simp [Monitor.reading]) (by simp) (by simp)
  case h_6 =>
    split at h
    case isTrue hlt =>
      cases h
      refine hs.goto (fun read hread => ?_) (by simp) (by simp)
      rwa [← Option.some.inj hread]
    case isFalse => cases h
  case h_7 =>
    split at h
    · cases h
      exact hs.goto (by simp [Monitor.reading]) (by simp) (by simp)
    · cases h
  case h_9 => cases h
  case h_10 => cases h
  all_goals cases h
  all_goals exact hs.goto (by simp [Monitor.reading]) (by simp) (by simp)

theorem Run.watched (hs : Run job s) : Watched job s := by
  induction hs with
  | start old => exact ⟨Nat.zero_le _, by simp [initial, Monitor.reading], by simp [initial], by simp [initial]⟩
  | step a _ h ih =>
    cases a with
    | main => exact ih.mainStep h
    | monitor => exact ih.monitorStep h
    | part t => exact ih.frame (partStep_frame h)
    | first t i => exact ih.frame (first_frame h)
    | chunk t i => exact ih.frame (chunk_frame h)

end

/-- How far a place of `download_part` is from the end, when no more bytes are awaited. -/
def Pc.rank : Pc → Nat
  | .idle => 7
  | .begin_down => 6
  | .countFirst _ => 5
  | .loopTest => 4
  | .recv => 3
  | .count _ => 8
  | .task0 => 7
  | .task1 => 6
  | .publish => 5
  | .finish => 2
  | .finishPublish _ => 1
  | .done => 0

def Main.rank (n : Nat) : Main → Nat
  | .create i => n - i + 6
  | .createMonitor => 5
  | .setAmount => 3
  | .readDownloaded => 2
  | .setDownloaded _ => 1
  | .done => 0

/-- How far the monitor is from its end, when nothing is downloaded any more. -/
def Monitor.rank (n : Nat) : Monitor → Nat
  | .off => 3 * n + 7
  | .testOld => 3 * n + 6
  | .store => 3 * n + 5
  | .readAmount _ => 3 * n + 4
  | .testTask _ _ tasks => 3 * (n - tasks.length) + 3
  | .readStart _ _ tasks => 3 * (n - tasks.length) + 2
  | .readLimit _ _ tasks _ => 3 * (n - tasks.length) + 1
  | .setOld => 2
  | .loop => 1
  | .done => 0

/-- What a thread still has to do. Each byte that is missing counts more than any place. -/
def Job.rest (job : Job) (t : Fin job.thread_amount) (p : Part) : Nat := 10 * (job.limit t - p.ct) + p.pc.rank

/-- What is still to be done. -/
def rest (job : Job) (s : State job.thread_amount) : Nat :=
  s.main.rank job.thread_amount + ∑ t, job.rest t (s.part t) + s.monitor.rank job.thread_amount

section

variable {job : Job} {s s' : State job.thread_amount} {t : Fin job.thread_amount}

theorem rest_update (p : Part) (hpart : s'.part = Function.update s.part t p) (hmain : s'.main = s.main)
    (hmonitor : s'.monitor = s.monitor) (hlt : job.rest t p < job.rest t (s.part t)) : rest job s' < rest job s := by
  have hsum := sum_part_update s.part t p job.rest
  rw [rest, rest, hpart, hmain, hmonitor]
  omega

theorem mainStep_progress (hinv : Inv job s) (hmain : s.main ≠ .done) :
    ∃ s', mainStep job s = some s' ∧ rest job s' < rest job s := by
  rw [mainStep]
  split
  case h_1 i hcreate =>
    split
    case isTrue hi =>
      refine ⟨_, rfl, ?_⟩
      have hct : (s.part ⟨i, hi⟩).ct = 0 := hinv.idle_ct _ (hinv.idle_next hcreate hi)
      have hsum := sum_part_update s.part ⟨i, hi⟩ { pc := .begin_down, ct := 0, entered := none } job.rest
      have hthread : job.rest ⟨i, hi⟩ (s.part ⟨i, hi⟩) = 10 * (job.limit ⟨i, hi⟩ - 0) + 7 := by
        rw [Job.rest, hct, hinv.idle_next hcreate hi, Pc.rank]
      have hnew : job.rest ⟨i, hi⟩ { pc := .begin_down, ct := 0, entered := none } =
          10 * (job.limit ⟨i, hi⟩ - 0) + 6 := rfl
      simp only [rest, hcreate, Main.rank]
      omega
    case isFalse hi =>
      refine ⟨_, rfl, ?_⟩
      simp only [rest, hcreate, Main.rank]
      omega
  case h_2 hcreate =>
    refine ⟨_, rfl, ?_⟩
    simp only [rest, hcreate, Main.rank, Monitor.rank]
    omega
  case h_6 hdone => exact absurd hdone hmain
  all_goals
    next hat =>
      refine ⟨_, rfl, ?_⟩
      simp only [rest, hat, Main.rank]
      omega

/-- The places where a thread waits for something other than the mutex, or for nothing. -/
def Pc.Waits : Pc → Prop
  | .idle | .begin_down | .recv | .done => True
  | _ => False

theorem partStep_progress (hwaits : ¬ (s.part t).pc.Waits) (hmut : (s.part t).pc.Holds ∨ s.g_mut = none) :
    ∃ s', partStep job s t = some s' ∧ rest job s' < rest job s := by
  rw [partStep]
  cases hpc : (s.part t).pc with
  | idle | begin_down | recv | done => exact absurd (by simp [hpc, Pc.Waits]) hwaits
  | countFirst i | count i =>
    have hfree : s.g_mut = none := hmut.resolve_left (by simp [hpc, Pc.Holds])
    refine ⟨_, if_pos hfree, rest_update _ rfl rfl rfl ?_⟩
    simp only [Job.rest, hpc, Pc.rank]
    omega
  | loopTest =>
    refine ⟨_, rfl, rest_update _ rfl rfl rfl ?_⟩
    simp only [Job.rest, hpc]
    split <;> simp only [Pc.rank] <;> omega
  | task0 | task1 | publish | finish | finishPublish =>
    refine ⟨_, rfl, rest_update _ rfl rfl rfl ?_⟩
    simp only [Job.rest, hpc, Pc.rank]
    omega

/-- A thread that is created and has not ended can go on when it holds the mutex or the
mutex is free. When it waits for bytes, the rest of its range can arrive. -/
theorem thread_progress (hinv : Inv job s) (hlocked : Locked job s) (hidle : (s.part t).pc ≠ .idle)
    (hdone : (s.part t).pc ≠ .done) (hmut : (s.part t).pc.Holds ∨ s.g_mut = none) :
    ∃ a s', act job s a = some s' ∧ rest job s' < rest job s := by
  have hle := (hinv.consistent t).ct_le
  have hall : (s.part t).ct + (job.limit t - (s.part t).ct) ≤ job.limit t := by omega
  by_cases hbegin : (s.part t).pc = .begin_down
  · refine ⟨.first t (job.limit t - (s.part t).ct), _, if_pos ⟨hbegin, hall⟩, rest_update _ rfl rfl rfl ?_⟩
    simp only [Job.rest, hbegin, Pc.rank]
    omega
  by_cases hrecv : (s.part t).pc = .recv
  · have hlt := hlocked.waiting t hrecv
    have hne : job.limit t - (s.part t).ct ≠ 0 := by omega
    refine ⟨.chunk t (job.limit t - (s.part t).ct), _, (if_pos ⟨hrecv, hall⟩).trans (if_neg hne),
      rest_update _ rfl rfl rfl ?_⟩
    simp only [Job.rest, hrecv, Pc.rank]
    omega
  have hwaits : ¬ (s.part t).pc.Waits := by
    intro hwaits
    cases hpc : (s.part t).pc <;> simp_all [Pc.Waits]
  exact ⟨.part t, partStep_progress hwaits hmut⟩

/-- When all threads have ended, the monitor comes to its end. -/
theorem monitorStep_progress (hwatched : Watched job s) (hmain : s.main = .done)
    (hfull : job.file_size ≤ s.g_downloaded) (hdone : s.monitor ≠ .done) :
    ∃ s', monitorStep job s = some s' ∧ rest job s' < rest job s := by
  rw [monitorStep]
  cases hmonitor : s.monitor with
  | off => exact absurd hmonitor (hwatched.started (.inl hmain))
  | done => exact absurd hmonitor hdone
  | loop =>
    refine ⟨_, rfl, ?_⟩
    simp only [rest, hmonitor, if_pos hfull, Monitor.rank]
    omega
  | testOld =>
    refine ⟨_, rfl, ?_⟩
    simp only [rest, hmonitor]
    split <;> simp only [Monitor.rank] <;> omega
  | testTask d a tasks =>
    have hamount := hwatched.amount_le
    dsimp only
    split
    all_goals
      refine ⟨_, rfl, ?_⟩
      simp only [rest, hmonitor, Monitor.rank]
      omega
  | readStart d a tasks =>
    have hroom : tasks.length < job.thread_amount := hwatched.room (by rw [hmonitor, Monitor.reading])
    refine ⟨_, dif_pos hroom, ?_⟩
    simp only [rest, hmonitor, Monitor.rank]
    omega
  | readLimit d a tasks start =>
    have hroom : tasks.length < job.thread_amount := hwatched.room (by rw [hmonitor, Monitor.reading])
    refine ⟨_, dif_pos hroom, ?_⟩
    simp only [rest, hmonitor, Monitor.rank, List.length_append, List.length_singleton]
    omega
  | store | readAmount | setOld =>
    refine ⟨_, rfl, ?_⟩
    simp only [rest, hmonitor, Monitor.rank, List.length_nil]
    omega

/-- When all threads have ended, all bytes are counted. -/
theorem file_size_le_of_done (hinv : Inv job s) (hlocked : Locked job s) (hdone : ∀ t, (s.part t).pc = .done) :
    job.file_size ≤ s.g_downloaded := by
  have hcounted := hinv.counted
  have htotal := job.total
  have huncounted : ∑ t, (s.part t).pc.uncounted = 0 := Finset.sum_eq_zero fun t _ => by
    rw [hdone t]
    rfl
  have hlimit : ∑ t, job.limit t ≤ ∑ t, (s.part t).ct :=
    Finset.sum_le_sum fun t _ => hlocked.ended t (by rw [hdone t]; trivial)
  omega

/-- As long as the monitor has not ended, some step brings the end nearer. -/
theorem Run.progress (hs : Run job s) (hend : s.monitor ≠ .done) :
    ∃ a s', act job s a = some s' ∧ rest job s' < rest job s := by
  by_cases hmain : s.main = .done
  case neg => exact ⟨.main, mainStep_progress hs.inv hmain⟩
  have hcreated : ∀ t, (s.part t).pc ≠ .idle := fun t => (hs.inv.created t).mpr (by rw [hmain]; trivial)
  -- the thread with the mutex goes first
  cases hmut : s.g_mut with
  | some t =>
    have hholds := (hs.locked.held t).mp hmut
    refine thread_progress hs.inv hs.locked (hcreated t) (fun hdone => ?_) (.inl hholds)
    rw [hdone] at hholds
    exact hholds
  | none =>
    by_cases hall : ∀ t, (s.part t).pc = .done
    · exact ⟨.monitor, monitorStep_progress hs.watched hmain (file_size_le_of_done hs.inv hs.locked hall) hend⟩
    · obtain ⟨t, ht⟩ := not_forall.mp hall
      exact thread_progress hs.inv hs.locked (hcreated t) ht (.inr hmut)

/-- Some step of the program. -/
def Step (job : Job) (s s' : State job.thread_amount) : Prop := ∃ a, act job s a = some s'

/-- From every state of a run the download can come to its end, where `download` returns. -/
theorem Run.completes (hs : Run job s) :
    ∃ s', Relation.ReflTransGen (Step job) s s' ∧ Run job s' ∧ s'.monitor = .done := by
  -- by induction on what is left to do
  induction hrest : rest job s using Nat.strong_induction_on generalizing s with
  | _ n ih =>
    subst hrest
    by_cases hend : s.monitor = .done
    · exact ⟨s, .refl, hs, hend⟩
    · obtain ⟨a, next, hstep, hlt⟩ := hs.progress hend
      obtain ⟨s', hsteps, hrun, hdone⟩ := ih _ hlt (hs.step a hstep) rfl
      exact ⟨s', .head ⟨a, hstep⟩ hsteps, hrun, hdone⟩

/-- Where `download` returns, the whole file is written and counted once. -/
theorem Run.whole (hs : Run job s) (hend : s.monitor = .done) :
    s.g_downloaded = job.file_size ∧ job.written (fun t => (s.part t).ct) = {b | b < job.file_size} :=
  hs.inv.whole (hs.watched.finished hend)

end

end basic_data_struct.download
