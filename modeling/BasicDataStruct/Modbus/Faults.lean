import BasicDataStruct.Modbus.Server

open machine machine.Exec memory

namespace basic_data_struct.freemodbus

/-- What a client sends ends the slave: at the beginning of a frame there is a header with the length 0, or with one for
which the buffer is too small, and enough bytes follow. -/
inductive Breaks : List UInt8 → Fault → Prop where
  | zero {text : List UInt8} : MB_TCP_FUNC ≤ text.length → total text = MB_TCP_UID →
      Breaks text (.exit "Assertion usTCPBufPos <= ( MB_TCP_UID + usLength ) failed" 134)
  | long {text : List UInt8} : MB_TCP_BUF_SIZE < text.length → MB_TCP_BUF_SIZE < total text → Breaks text .bounds
  | later {text : List UInt8} {e : Fault} : MB_TCP_FUNC ≤ total text → total text ≤ MB_TCP_BUF_SIZE →
      total text ≤ text.length → Breaks (text.drop (total text)) e → Breaks text e

variable {s : Slave} {text : List UInt8} {fuel : Nat} {sizes : List Nat} {out : Outbound}

/-- A frame that fits the buffer is dealt with, whatever it says. -/
theorem run_any_frame (hidle : s.eQueuedEvent = none) (hmin : MB_TCP_FUNC ≤ total text)
    (hmax : total text ≤ MB_TCP_BUF_SIZE) (hlen : total text ≤ text.length) (hfuel : MB_TCP_BUF_SIZE ≤ fuel) :
    ∃ (n : Nat) (t : Slave) (sizes' : List Nat) (out' : Outbound),
      (polls fuel n).run (s.reading text 0 sizes out) = .ok ((), t.reading (text.drop (total text)) 0 sizes' out') ∧
      t.eQueuedEvent = none ∧ t.waiting = s.waiting := by
  obtain ⟨sizes', hreceive⟩ := @receive_frame s text fuel sizes out hmin hmax hlen (Nat.le_trans hmax hfuel)
  have hfirst := (run_eMBPoll_reading hidle).trans hreceive
  have hsecond := @run_eMBPoll_received s text fuel sizes' out hidle hmin hlen
  by_cases hpid : shortAt text MB_TCP_PID = 0
  · rw [if_pos hpid] at hsecond
    have hroom : (s.framed text).usLength ≤ 256 := by
      change total text - 7 ≤ 256
      change total text ≤ 263 at hmax
      omega
    obtain ⟨t, hthird, -, hsame⟩ :=
      @run_eMBPoll_execute (s.framed text) (text.drop (total text)) fuel sizes' out hidle hroom
    refine ⟨3, t, sizes', _, (run_bind_of_ok hfirst _).trans
      ((run_bind_of_ok hsecond _).trans (run_bind_of_ok hthird _)), ?_, ?_⟩
    · rw [hsame]
      exact hidle
    · rw [hsame]
      rfl
  · rw [if_neg hpid] at hsecond
    exact ⟨2, { s.framed text with usLength := s.usLength }, sizes', out,
      (run_bind_of_ok hfirst _).trans (run_bind_of_ok hsecond _), hidle, rfl⟩

theorem total_ge (text : List UInt8) : MB_TCP_UID ≤ total text := Nat.le_add_right _ _

/-- A client either ends the slave, or the slave gets to the end of what it sends. -/
theorem run_text (hidle : s.eQueuedEvent = none) (hfuel : MB_TCP_BUF_SIZE < fuel) :
    (∃ n e, Breaks text e ∧ (polls fuel n).run (s.reading text 0 sizes out) = .error e) ∨
      (∀ e, ¬Breaks text e) ∧ ∃ n t, (polls fuel n).run (s.reading text 0 sizes out) = .ok ((), t) ∧ t.Idle ∧
        t.waiting = s.waiting := by
  induction hlength : text.length using Nat.strongRecOn generalizing s text sizes out with
  | ind length ih =>
    have hsix : 6 ≤ total text := total_ge text
    -- The bytes end before a frame does.
    have hend (hcut : text.length < 7 ∨ text.length < total text) (hroom : text.length ≤ 263) :
        (∀ e, ¬Breaks text e) ∧ ∃ n t, (polls fuel n).run (s.reading text 0 sizes out) = .ok ((), t) ∧ t.Idle ∧
          t.waiting = s.waiting := by
      obtain ⟨sizes', hrun⟩ := @run_polls_cut s text fuel sizes out hidle hfuel hcut hroom
      refine ⟨fun e hbreaks => ?_, 1, _, hrun, ⟨rfl, hidle⟩, rfl⟩
      cases hbreaks with
      | zero h hzero => exact absurd (show 7 ≤ text.length from h) (by change total text = 6 at hzero; omega)
      | long h _ => exact absurd (show 263 < text.length from h) (by omega)
      | later h _ hle _ => exact absurd (show 7 ≤ total text from h) (by omega)
    have herror {e} (h : (receive fuel).run (s.reading text 0 sizes out) = .error e) :
        (polls fuel 1).run (s.reading text 0 sizes out) = .error e :=
      run_bind_of_error ((run_eMBPoll_reading hidle).trans h) _
    by_cases hheader : text.length < 7
    · exact .inr (hend (.inl hheader) (by omega))
    by_cases hzero : total text = 6
    · exact .inl ⟨1, _, .zero (Nat.not_lt.mp hheader) hzero,
        herror (receive_assert hzero (Nat.not_lt.mp hheader) (Nat.le_trans (by decide) hfuel))⟩
    by_cases hlong : 263 < total text
    · by_cases hmore : 263 < text.length
      · exact .inl ⟨1, _, .long hmore hlong, herror (receive_overflow hlong hmore hfuel)⟩
      · exact .inr (hend (.inr (by omega)) (by omega))
    by_cases hall : text.length < total text
    · exact .inr (hend (.inr hall) (by omega))
    have hmin : 7 ≤ total text := by omega
    have hmax : total text ≤ 263 := by omega
    have hlen : total text ≤ text.length := by omega
    obtain ⟨m, t, sizes', out', hrun, hevent, hwaiting⟩ :=
      @run_any_frame s text fuel sizes out hidle hmin hmax hlen (Nat.le_of_lt hfuel)
    have hshorter : (text.drop (total text)).length < length := by
      rw [List.length_drop]
      omega
    rcases @ih _ hshorter t _ sizes' out' hevent rfl with ⟨n, e, hbreaks, hrest⟩ | ⟨hnot, n, u, hrest, hu, huwaiting⟩
    · exact .inl ⟨m + n, e, .later hmin hmax hlen hbreaks, (run_polls_cons hrun).trans hrest⟩
    · refine .inr ⟨fun e hbreaks => ?_, m + n, u, (run_polls_cons hrun).trans hrest, hu, huwaiting.trans hwaiting⟩
      cases hbreaks with
      | zero _ h => exact hzero h
      | long _ h => exact hlong h
      | later _ _ _ h => exact hnot e h

/-- The slave comes to the first fault, or to the end of all clients. -/
theorem run_clients (hidle : s.Idle) (hfuel : MB_TCP_BUF_SIZE < fuel) :
    (∃ n e, (∃ c ∈ s.waiting, Breaks c.stream e) ∧ (polls fuel n).run s = .error e) ∨
      (∀ c ∈ s.waiting, ∀ e, ¬Breaks c.stream e) ∧ ∃ n t, (polls fuel n).run s = .ok ((), t) ∧ t.Idle ∧
      t.waiting = [] := by
  induction hwait : s.waiting generalizing s with
  | nil => exact .inr ⟨nofun, 0, s, rfl, hidle, hwait⟩
  | cons c waiting ih =>
    have haccept := @run_polls_accept s fuel c waiting hidle hwait
    rcases @run_text { s with waiting := waiting } c.stream fuel c.sizes c.out hidle.event hfuel with
      ⟨n, e, hbreaks, hrun⟩ | ⟨hnot, n, t, hrun, ht, hwaiting⟩
    · cases n with
      | zero => cases hrun
      | succ n => exact .inl ⟨n + 1, e, ⟨c, List.mem_cons_self, hbreaks⟩, (haccept n).trans hrun⟩
    · have hfirst : (polls fuel n).run s = .ok ((), t) := by
        cases n with
        | zero =>
          cases hrun
          cases ht.client
        | succ n => exact (haccept n).trans hrun
      rcases ih ht hwaiting with ⟨m, e, ⟨c', hmem, hbreaks⟩, hrest⟩ | ⟨hnots, m, u, hrest, hu⟩
      · exact .inl ⟨n + m, e, ⟨c', List.mem_cons_of_mem _ hmem, hbreaks⟩, (run_polls_cons hfirst).trans hrest⟩
      · exact .inr ⟨List.forall_mem_cons.mpr ⟨hnot, hnots⟩, n + m, u, (run_polls_cons hfirst).trans hrest, hu⟩

/-- Once all clients have been served there is no fault any more, and none has come before. -/
theorem run_polls_ne_error {n m : Nat} {t : Slave} {e : Fault} (hrun : (polls fuel n).run s = .ok ((), t)) (ht : t.Idle)
    (hwaiting : t.waiting = []) : (polls fuel m).run s ≠ .error e := by
  intro herror
  rcases Nat.le_total m n with hle | hle
  · rw [← Nat.add_sub_cancel' hle, run_polls_add, run_bind_of_error herror] at hrun
    cases hrun
  · rw [← Nat.add_sub_cancel' hle, run_polls_cons hrun, run_polls_idle ht hwaiting] at herror
    cases herror

/-- The slave is ended by what its clients send just if one of them sends a header that its buffer cannot hold, or one
without a frame: no other bytes, cut in whatever way, stop it. `send` may fail or take a part, but a `SIGPIPE` from it
would end the slave before. -/
theorem slave_ended_iff (hidle : s.Idle) (hfuel : MB_TCP_BUF_SIZE < fuel) :
    (∃ n e, (polls fuel n).run s = .error e) ↔ ∃ c ∈ s.waiting, ∃ e, Breaks c.stream e := by
  rcases run_clients hidle hfuel with ⟨n, e, ⟨c, hmem, hbreaks⟩, hrun⟩ | ⟨hnot, n, t, hrun, ht, hwaiting⟩
  · exact ⟨fun _ => ⟨c, hmem, e, hbreaks⟩, fun _ => ⟨n, e, hrun⟩⟩
  · refine ⟨fun ⟨m, e, herror⟩ => ?_, fun ⟨c, hmem, e, hbreaks⟩ => ?_⟩
    · exact absurd herror (run_polls_ne_error hrun ht hwaiting)
    · exact absurd hbreaks (hnot c hmem e)

/-- After a request, a header with the length 0. -/
theorem slave_ended_iff_zero_length :
    ∃ n e, (polls 264 n).run
      (.start [⟨[0, 1, 0, 0, 0, 2, 9, 17] ++ [0, 2, 0, 0, 0, 0, 9], [5], ⟨[], [none, some 3]⟩⟩]) = .error e := by
  exact (slave_ended_iff ⟨rfl, rfl⟩ (by decide)).mpr ⟨_, List.mem_singleton_self _, _,
    .later (by decide) (by decide) (by decide) (.zero (by decide) (by decide))⟩

end basic_data_struct.freemodbus
