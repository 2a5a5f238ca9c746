import BasicDataStruct.Thread.Outstanding

namespace basic_data_struct.thread

section

variable {MAX : Int} {t : Thread} {s : State}

/-- A thread with the mutex goes on. -/
theorem step_of_holds (ht : (s.pc t).Holds) : (step MAX t s).isSome := by
  cases hpc : s.pc t with
  | whileTest =>
    simp only [step, hpc]
    split <;> rfl
  | assign | signal | unlock => simp [step, hpc]
  | forTest | lock | waiting | woken | forStep | done => simp [hpc, Pc.Holds] at ht

/-- A thread that cannot go on while the mutex is free waits or has finished. -/
theorem waiting_or_done (hfree : s.the_mutex = none) (hstuck : ¬(step MAX t s).isSome) :
    s.pc t = .waiting ∨ s.pc t = .done := by
  cases hpc : s.pc t with
  | waiting => exact .inl rfl
  | done => exact .inr rfl
  | lock | woken => simp [step, hpc, hfree] at hstuck
  | whileTest | assign | signal | unlock => exact absurd (step_of_holds (by simp [hpc, Pc.Holds])) hstuck
  | forTest | forStep => simp [step, hpc] at hstuck

/-- In a stuck state each thread waits or has finished. -/
theorem Monitor.waiting_or_done (hs : Monitor s) (hstuck : ∀ t, ¬(step MAX t s).isSome) (t : Thread) :
    s.pc t = .waiting ∨ s.pc t = .done := by
  refine thread.waiting_or_done ?_ (hstuck t)
  cases hmutex : s.the_mutex with
  | none => rfl
  | some u => exact absurd (step_of_holds ((hs.holds u).mpr hmutex)) (hstuck u)

/-- The threads are never both waiting: the buffer is full for one and empty for the
other. -/
theorem Monitor.not_both_waiting (hs : Monitor s) : ¬∀ t, s.pc t = .waiting := by
  intro hwaiting
  have hfull := (hs.waits .producer (hwaiting _)).resolve_right (by simp [hwaiting])
  have hempty := (hs.waits .consumer (hwaiting _)).resolve_right (by simp [hwaiting])
  exact hfull hempty

/-- A thread finishes after it has handled all items. -/
theorem Counted.le_of_done (hMAX : MAX < 2147483647) (hs : Counted MAX s) (ht : s.pc t = .done) :
    MAX ≤ (s.log t).length := by
  obtain ⟨hi, -, hfinished, hcount⟩ := hs.local_of t
  rw [ht] at hi
  have hgt := hfinished ht
  rw [hi] at hgt
  change ¬(Int32.ofNat ((s.log t).length + 1)).toInt ≤ MAX at hgt
  rw [Int32.toInt_ofNat_of_lt (by omega)] at hgt
  omega

/-- A thread that waits has an item left to handle. -/
theorem Counted.lt_of_waiting (hMAX : MAX < 2147483647) (hs : Counted MAX s) (ht : s.pc t = .waiting) :
    (s.log t).length < MAX := by
  obtain ⟨hi, hentered, -, hcount⟩ := hs.local_of t
  have hle := hentered (by rw [ht]; rfl)
  rw [ht] at hi
  rw [hi] at hle
  change (Int32.ofNat ((s.log t).length + 1)).toInt ≤ MAX at hle
  rw [Int32.toInt_ofNat_of_lt (by omega)] at hle
  omega

/-- A thread leaves its loop only when its counter is past the item count. -/
theorem done_of_step {s' : State} {u : Thread} (h : step MAX t s = some s') (hu : s'.pc u = .done) :
    s.pc u = .done ∨ ¬(s.i u).toInt ≤ MAX := by
  -- every other place of the loop is left for a place inside it
  have hgoto : ∀ {pc : Pc}, pc ≠ .done → (s.goto t pc).pc u = .done → s.pc u = .done := by
    intro pc hpc hu
    rcases t.eq_or_other u with rfl | rfl
    · exact absurd (by simpa using hu) hpc
    · simpa using hu
  revert h
  rw [step]
  cases hpc : s.pc t with
  | forTest =>
    rintro ⟨⟩
    rcases t.eq_or_other u with rfl | rfl
    · rw [goto_pc_self] at hu
      split at hu
      next => cases hu
      next hgt => exact .inr hgt
    · exact .inl (by simpa using hu)
  | lock | woken | whileTest =>
    intro h
    dsimp only at h
    split at h <;> cases h <;> exact .inl (hgoto (by decide) hu)
  | assign | unlock | forStep =>
    rintro ⟨⟩
    exact .inl (hgoto (by decide) hu)
  | signal =>
    intro h
    simp only [Option.some.injEq, State.wake, goto_pc_other] at h
    split at h <;> subst h
    · rcases t.eq_or_other u with rfl | rfl
      · have hself := goto_pc_other (s := s.goto u .unlock) (t := u.other) .woken
        rw [u.other_other, goto_pc_self] at hself
        rw [hself] at hu
        cases hu
      · simp at hu
    · exact .inl (hgoto (by decide) hu)
  | waiting | done => rintro ⟨⟩

/-- Against a counter that cannot go past it, no thread finishes. -/
theorem Reachable.ne_done (hMAX : 2147483647 ≤ MAX) (hs : Reachable MAX s) (t : Thread) : s.pc t ≠ .done := by
  induction hs with
  | refl => exact nofun
  | tail _ hstep ih =>
    intro ht
    cases hstep with
    | action u h => exact (done_of_step h ht).elim ih fun hgt => hgt (toInt_le_of_large hMAX _)
    | spurious u h =>
      rcases u.eq_or_other t with rfl | rfl
      · simp at ht
      · exact ih (by simpa using ht)

/-- The other thread does not wait for one that has finished. -/
theorem not_waiting_of_done (hs : Reachable MAX s) (ht : s.pc t = .done) : s.pc t.other ≠ .waiting := by
  intro hwaiting
  have hMAX : MAX < 2147483647 := by
    by_contra hge
    exact hs.ne_done (by omega) t ht
  have hcounted := hs.counted hMAX
  have hblocked := (hs.monitor.waits _ hwaiting).resolve_right (by simp [Thread.other_other, ht])
  have hdone := hcounted.le_of_done hMAX ht
  have hleft := hcounted.lt_of_waiting hMAX hwaiting
  cases t with
  | producer =>
    have hlength := hcounted.length_eq_of_empty hMAX hblocked
    change ((s.log .consumer).length : Int) < MAX at hleft
    omega
  | consumer =>
    have hahead := (hcounted.buffer_eq.resolve_left fun hempty => hblocked hempty.1).2
    change ((s.log .producer).length : Int) < MAX at hleft
    omega

end

/-- Until both threads have finished one of them can go on without a spurious wake-up,
and they never wait for each other. -/
theorem never_stuck (MAX : Int) (s : State) (hs : Reachable MAX s) :
    ((∃ t, s.pc t ≠ .done) → ∃ t, (step MAX t s).isSome) ∧ ¬∀ t, s.pc t = .waiting := by
  refine ⟨fun ⟨t, ht⟩ => ?_, hs.monitor.not_both_waiting⟩
  by_contra hstuck
  push Not at hstuck
  have hends := hs.monitor.waiting_or_done fun u => by simpa using hstuck u
  have hwaiting : s.pc t = .waiting := (hends t).resolve_right ht
  rcases hends t.other with hother | hother
  · refine hs.monitor.not_both_waiting fun u => ?_
    rcases t.eq_or_other u with rfl | rfl
    · exact hwaiting
    · exact hother
  · have hself := not_waiting_of_done hs hother
    rw [t.other_other] at hself
    exact hself hwaiting

/-- The consumer has waited for the first item and has been signalled, and now the producer
waits until the item is taken. -/
theorem never_stuck_full :
    ∃ s, follow 10 (.replicate 3 .consumer ++ .replicate 10 .producer) initial = some s ∧
      s.pc .consumer = .woken ∧ s.pc .producer = .waiting ∧
      (∃ t, (step 10 t s).isSome) ∧ ¬∀ t, s.pc t = .waiting := by
  refine ⟨_, rfl, by decide, by decide, ?_⟩
  have hprogress := never_stuck 10 _ (reachable_of_follow (.replicate 3 .consumer ++ .replicate 10 .producer) rfl)
  exact ⟨hprogress.1 ⟨.producer, by decide⟩, hprogress.2⟩

end basic_data_struct.thread
