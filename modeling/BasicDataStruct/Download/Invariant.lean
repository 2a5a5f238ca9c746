import BasicDataStruct.Download.Model
import Mathlib.Algebra.Order.BigOperators.Group.Finset

open ranges

namespace basic_data_struct.download

variable {old pc : Pc} {i : Nat}

/-- The bytes that a thread has written and not yet added to `g_downloaded`. -/
def Pc.uncounted : Pc → Nat
  | .countFirst i | .count i => i
  | _ => 0

/-- The task entry that belongs to what a thread has entered. -/
def Job.task (job : Job) (t : Fin job.thread_amount) : Option Nat → Nat × Nat
  | none => (job.start_pos t, job.entry t)
  | some c => (job.start_pos t + c, job.limit t - c)

/-- A thread and its task entry. Between the two assignments the entry has the new start
and the old length. -/
structure Consistent (job : Job) (t : Fin job.thread_amount) (p : Part) (task : Nat × Nat) : Prop where
  ct_le : p.ct ≤ job.limit t
  pending : p.entered.getD 0 + p.pc.uncounted ≤ p.ct
  task_eq : p.pc ≠ .idle → task = (if p.pc = .task1 then job.start_pos t + p.ct else (job.task t p.entered).1,
    (job.task t p.entered).2)

/-- The threads that `download` has created. -/
def Main.Created : Main → Nat → Prop
  | .create i, t => t < i
  | _, _ => True

/-- What holds in every state of a run. -/
structure Inv (job : Job) (s : State job.thread_amount) : Prop where
  consistent (t : Fin job.thread_amount) : Consistent job t (s.part t) (s.tasks t)
  created (t : Fin job.thread_amount) : (s.part t).pc ≠ .idle ↔ s.main.Created t
  idle_ct (t : Fin job.thread_amount) : (s.part t).pc = .idle → (s.part t).ct = 0
  counted : s.g_downloaded + ∑ t, (s.part t).pc.uncounted = job.downloaded + ∑ t, (s.part t).ct
  amount : s.main = .done ∨ s.main = .readDownloaded ∨ (∃ d, s.main = .setDownloaded d) →
    s.thread_amount = job.thread_amount

section

variable {job : Job} {s s' : State job.thread_amount} {t : Fin job.thread_amount}

/-- A sum over the threads after a change of one of them. -/
theorem sum_part_update {n : Nat} (part : Fin n → Part) (t : Fin n) (p : Part) (f : Fin n → Part → Nat) :
    ∑ u, f u (Function.update part t p u) + f t (part t) = ∑ u, f u (part u) + f t p := by
  have hcomp : (fun u => f u (Function.update part t p u)) = Function.update (fun u => f u (part u)) t (f t p) :=
    funext fun u => Function.apply_update f part t p u
  have hrest := Finset.add_sum_erase Finset.univ (fun u => f u (part u)) (Finset.mem_univ t)
  rw [hcomp, Finset.sum_update_of_mem (Finset.mem_univ t), Finset.sdiff_singleton_eq_erase, ← hrest]
  omega

theorem inv_initial (old : Nat) : Inv job (initial job old) where
  consistent t := ⟨Nat.zero_le _, Nat.le_refl _, fun h => absurd rfl h⟩
  created t := by simp [initial, Main.Created]
  idle_ct t _ := rfl
  counted := by simp [initial, Pc.uncounted]
  amount h := by simp [initial] at h

section

variable (hs : Inv job s)
include hs

/-- A step of one thread that was created before. -/
theorem Inv.update (p : Part) (task : Nat × Nat) (hpart : s'.part = Function.update s.part t p)
    (htasks : s'.tasks = Function.update s.tasks t task) (hmain : s'.main = s.main)
    (hamount : s'.thread_amount = s.thread_amount) (hold : (s.part t).pc ≠ .idle) (hnew : p.pc ≠ .idle)
    (hok : Consistent job t p task)
    (hcount : s'.g_downloaded + p.pc.uncounted + (s.part t).ct = s.g_downloaded + (s.part t).pc.uncounted + p.ct) :
    Inv job s' where
  consistent u := by
    rw [hpart, htasks]
    by_cases hu : u = t
    · subst hu
      rwa [Function.update_self, Function.update_self]
    · rw [Function.update_of_ne hu, Function.update_of_ne hu]
      exact hs.consistent u
  created := by
    rw [hpart, hmain]
    exact (Function.forall_update_iff s.part fun u p => p.pc ≠ .idle ↔ s.main.Created u).mpr
      ⟨iff_of_true hnew ((hs.created t).mp hold), fun u _ => hs.created u⟩
  idle_ct := by
    rw [hpart]
    exact (Function.forall_update_iff s.part fun _ p => p.pc = .idle → p.ct = 0).mpr
      ⟨fun hidle => absurd hidle hnew, fun u _ => hs.idle_ct u⟩
  counted := by
    have huncounted := sum_part_update s.part t p fun _ p => p.pc.uncounted
    have hct := sum_part_update s.part t p fun _ p => p.ct
    have hcounted := hs.counted
    rw [hpart]
    omega
  amount h := by
    rw [hmain] at h
    rw [hamount, hs.amount h]

/-- A thread that moves on, and counts what it has not counted yet. -/
theorem Inv.goto (hpc : (s.part t).pc = old) (hold : old ≠ .idle ∧ old ≠ .task1)
    (hnew : pc ≠ .idle ∧ pc ≠ .task1 ∧ pc.uncounted = 0) (hpart : s'.part = (s.goto t pc).part)
    (htasks : s'.tasks = s.tasks) (hmain : s'.main = s.main) (hamount : s'.thread_amount = s.thread_amount)
    (hcount : s'.g_downloaded = s.g_downloaded + old.uncounted) : Inv job s' := by
  subst hpc
  obtain ⟨hct, hpend, hentry⟩ := hs.consistent t
  refine hs.update { s.part t with pc } (s.tasks t) hpart (by rw [htasks, Function.update_eq_self]) hmain hamount
    hold.1 hnew.1 ⟨hct, by dsimp only; omega, fun _ => ?_⟩ (by dsimp only; omega)
  rw [hentry hold.1]
  simp only [hold.2, hnew.2.1]

/-- A thread that writes the bytes it has waited for. -/
theorem Inv.write (hpc : (s.part t).pc = old)
    (hold : old ≠ .idle ∧ old ≠ .task1 ∧ old.uncounted = 0) (hnew : pc ≠ .idle ∧ pc ≠ .task1 ∧ pc.uncounted = i)
    (hroom : (s.part t).ct + i ≤ job.limit t) : Inv job (s.write t i pc) := by
  subst hpc
  obtain ⟨hct, hpend, hentry⟩ := hs.consistent t
  refine hs.update { s.part t with pc, ct := (s.part t).ct + i } (s.tasks t) rfl
    (Function.update_eq_self t s.tasks).symm rfl rfl hold.1 hnew.1 ⟨hroom, by dsimp only; omega, fun _ => ?_⟩
    (by dsimp only [State.write]; omega)
  rw [hentry hold.1]
  simp only [hold.2.1, hnew.2.1, if_false]

theorem Inv.first (h : first job s t i = some s') : Inv job s' := by
  rw [download.first] at h
  split at h
  next hpc =>
    cases h
    exact hs.write hpc.1 (by simp [Pc.uncounted]) (by simp [Pc.uncounted]) hpc.2
  next => cases h

theorem Inv.chunk (h : chunk job s t i = some s') : Inv job s' := by
  rw [download.chunk] at h
  split at h
  next hpc =>
    split at h
    · cases h
      exact hs.goto hpc.1 (by simp) (by simp [Pc.uncounted]) rfl rfl rfl rfl rfl
    · cases h
      exact hs.write hpc.1 (by simp [Pc.uncounted]) (by simp [Pc.uncounted]) hpc.2
  next => cases h

/-- A step of a download thread keeps the invariant. -/
theorem Inv.partStep (h : partStep job s t = some s') : Inv job s' := by
  obtain ⟨hct, hpend, hentry⟩ := hs.consistent t
  rw [download.partStep] at h
  split at h
  case h_1 i hpc =>
    split at h
    · cases h
      exact hs.goto hpc (by simp) (by simp [Pc.uncounted]) rfl rfl rfl rfl rfl
    · cases h
  case h_2 hpc =>
    cases h
    split <;> exact hs.goto hpc (by simp) (by simp [Pc.uncounted]) rfl rfl rfl rfl rfl
  case h_3 i hpc =>
    split at h
    · cases h
      exact hs.goto hpc (by simp) (by simp [Pc.uncounted]) rfl rfl rfl rfl rfl
    · cases h
  case h_4 hpc =>
    cases h
    have hold : (s.part t).pc ≠ .idle := by simp [hpc]
    refine hs.update { s.part t with pc := .task1 } _ rfl rfl rfl rfl hold (by simp) ⟨hct, ?_, fun _ => ?_⟩ ?_
    · simpa [hpc, Pc.uncounted] using hpend
    · simp [hentry hold]
    · simp [hpc, Pc.uncounted, State.goto]
  case h_5 hpc =>
    cases h
    have hold : (s.part t).pc ≠ .idle := by simp [hpc]
    refine hs.update { pc := .publish, ct := (s.part t).ct, entered := some (s.part t).ct } _ rfl rfl rfl rfl hold
      (by simp) ⟨hct, Nat.le_refl _, fun _ => ?_⟩ ?_
    · simp [hentry hold, hpc, Job.task]
    · simp [hpc, Pc.uncounted]
  case h_6 hpc =>
    cases h
    exact hs.goto hpc (by simp) (by simp [Pc.uncounted]) rfl rfl rfl rfl rfl
  case h_7 hpc =>
    cases h
    exact hs.goto hpc (by simp) (by simp [Pc.uncounted]) rfl rfl rfl rfl rfl
  case h_8 hpc =>
    cases h
    exact hs.goto hpc (by simp) (by simp [Pc.uncounted]) rfl rfl rfl rfl rfl
  all_goals cases h

/-- A step that leaves the threads and their entries alone, once all of them are created. -/
theorem Inv.frame (hpart : s'.part = s.part) (htasks : s'.tasks = s.tasks) (hcount : s'.g_downloaded = s.g_downloaded)
    (hcreated : ∀ t : Fin job.thread_amount, s'.main.Created t ↔ s.main.Created t)
    (hamount : s'.main = .done ∨ s'.main = .readDownloaded ∨ (∃ d, s'.main = .setDownloaded d) →
      s'.thread_amount = job.thread_amount) : Inv job s' where
  consistent t := by
    rw [hpart, htasks]
    exact hs.consistent t
  created t := by rw [hpart, hs.created t, hcreated t]
  idle_ct t := by
    rw [hpart]
    exact hs.idle_ct t
  counted := by rw [hpart, hcount, hs.counted]
  amount := hamount

/-- The thread that `download` creates next has not run. -/
theorem Inv.idle_next (hmain : s.main = .create i) (hi : i < job.thread_amount) : (s.part ⟨i, hi⟩).pc = .idle := by
  by_contra hne
  have hlt := (hs.created ⟨i, hi⟩).mp hne
  rw [hmain] at hlt
  exact Nat.lt_irrefl i hlt

/-- The creation of a thread. -/
theorem Inv.create (hmain : s.main = .create i) (hi : i < job.thread_amount) :
    Inv job { s with
      tasks := Function.update s.tasks ⟨i, hi⟩ (job.start_pos ⟨i, hi⟩, job.entry ⟨i, hi⟩)
      part := Function.update s.part ⟨i, hi⟩ { pc := .begin_down, ct := 0, entered := none }
      main := .create (i + 1) } := by
  have hcreated : ∀ t : Fin job.thread_amount, (s.part t).pc ≠ .idle ↔ t.val < i := fun t => by
    rw [hs.created t, hmain, Main.Created]
  have hidle : (s.part ⟨i, hi⟩).pc = .idle := hs.idle_next hmain hi
  have hct : (s.part ⟨i, hi⟩).ct = 0 := hs.idle_ct _ hidle
  constructor
  case consistent =>
    intro t
    by_cases ht : t = ⟨i, hi⟩
    · subst ht
      simp only [Function.update_self]
      exact ⟨Nat.zero_le _, Nat.le_refl _, fun _ => by simp [Job.task]⟩
    · simp only [Function.update_of_ne ht]
      exact hs.consistent t
  case created =>
    refine (Function.forall_update_iff s.part fun t p => p.pc ≠ .idle ↔ t.val < i + 1).mpr ⟨by simp, fun t ht => ?_⟩
    have hne : t.val ≠ i := fun heq => ht (Fin.ext heq)
    rw [hcreated t]
    omega
  case idle_ct =>
    exact (Function.forall_update_iff s.part fun _ p => p.pc = .idle → p.ct = 0).mpr
      ⟨fun _ => rfl, fun t _ => hs.idle_ct t⟩
  case counted =>
    have huncounted := sum_part_update s.part ⟨i, hi⟩ { pc := .begin_down, ct := 0, entered := none }
      fun _ p => p.pc.uncounted
    have hsum := sum_part_update s.part ⟨i, hi⟩ { pc := .begin_down, ct := 0, entered := none } fun _ p => p.ct
    have hcounted := hs.counted
    have hold : (s.part ⟨i, hi⟩).pc.uncounted = 0 := by simp [hidle, Pc.uncounted]
    have hnew : Pc.begin_down.uncounted = 0 := rfl
    dsimp only at huncounted hsum ⊢
    omega
  case amount => simp

theorem Inv.mainStep (h : mainStep job s = some s') : Inv job s' := by
  rw [download.mainStep] at h
  split at h
  case h_1 i hmain =>
    split at h
    case isTrue hi =>
      cases h
      exact hs.create hmain hi
    case isFalse hi =>
      cases h
      refine hs.frame rfl rfl rfl (fun t => ?_) (by simp)
      simp only [hmain, Main.Created, true_iff]
      omega
  case h_2 hmain =>
    cases h
    exact hs.frame rfl rfl rfl (fun t => by simp [hmain, Main.Created]) (by simp)
  case h_3 hmain =>
    cases h
    exact hs.frame rfl rfl rfl (fun t => by simp [hmain, Main.Created]) fun _ => rfl
  case h_4 hmain =>
    cases h
    exact hs.frame rfl rfl rfl (fun t => by simp [hmain, Main.Created]) fun _ => hs.amount (.inr (.inl hmain))
  case h_5 d hmain =>
    cases h
    exact hs.frame rfl rfl rfl (fun t => by simp [hmain, Main.Created]) fun _ => hs.amount (.inr (.inr ⟨d, hmain⟩))
  case h_6 => cases h

end

/-- The monitor only reads what the threads and `download` write. -/
theorem monitorStep_frame (h : monitorStep job s = some s') :
    ∃ monitor old stored, s' = { s with monitor, old, stored } := by
  rw [monitorStep] at h
  split at h
  case h_5 => split at h <;> exact ⟨_, _, _, (Option.some.inj h).symm⟩
  case h_6 =>
    split at h
    · exact ⟨_, _, _, (Option.some.inj h).symm⟩
    · cases h
  case h_7 =>
    split at h
    · exact ⟨_, _, _, (Option.some.inj h).symm⟩
    · cases h
  case h_9 => cases h
  case h_10 => cases h
  all_goals exact ⟨_, _, _, (Option.some.inj h).symm⟩

theorem Inv.monitorStep (hs : Inv job s) (h : monitorStep job s = some s') : Inv job s' := by
  obtain ⟨_, _, _, rfl⟩ := monitorStep_frame h
  exact hs.frame rfl rfl rfl (fun _ => Iff.rfl) hs.amount

theorem Inv.act {a : Action job.thread_amount} (hs : Inv job s) (h : act job s a = some s') : Inv job s' := by
  cases a with
  | main => exact hs.mainStep h
  | monitor => exact hs.monitorStep h
  | part t => exact hs.partStep h
  | first t i => exact hs.first h
  | chunk t i => exact hs.chunk h

/-- Every state of a run. -/
theorem Run.inv (hs : Run job s) : Inv job s := by
  induction hs with
  | start old => exact inv_initial old
  | step a _ h ih => exact ih.act h

/-- A counter that has reached the size has counted all the bytes of all the threads. -/
theorem Inv.ct_eq_limit (hs : Inv job s) (hfull : job.file_size ≤ s.g_downloaded) (t : Fin job.thread_amount) :
    (s.part t).ct = job.limit t := by
  have hcounted := hs.counted
  have htotal := job.total
  have hle : ∑ t, (s.part t).ct ≤ ∑ t, job.limit t := Finset.sum_le_sum fun t _ => (hs.consistent t).ct_le
  have hsum : ∑ t, (s.part t).ct = ∑ t, job.limit t := by omega
  exact (Finset.sum_eq_sum_iff_of_le fun t _ => (hs.consistent t).ct_le).mp hsum t (Finset.mem_univ t)

/-- The counter never goes past the size, and when it gets there the whole file is written. -/
theorem Inv.whole (hs : Inv job s) (hfull : job.file_size ≤ s.g_downloaded) :
    s.g_downloaded = job.file_size ∧ job.written (fun t => (s.part t).ct) = {b | b < job.file_size} := by
  have hct : (fun t => (s.part t).ct) = job.limit := funext (hs.ct_eq_limit hfull)
  constructor
  · have hcounted := hs.counted
    have htotal := job.total
    simp only [hs.ct_eq_limit hfull] at hcounted
    omega
  · ext b
    refine ⟨Job.lt_of_mem_written fun t => (hs.consistent t).ct_le, fun hb => ?_⟩
    by_cases hpresent : b ∈ job.present
    · exact .inl hpresent
    · rw [hct]
      exact .inr (mem_front.mpr ((job.missing.covered b).mp ⟨hb, hpresent⟩))

end

end basic_data_struct.download
