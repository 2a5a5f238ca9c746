import BasicDataStruct.WebServer.Exclusive

open threads Relation

namespace basic_data_struct.web_server

variable {conn : Nat}

section Steps

variable {τ : Type} [DecidableEq τ] (m_max_requests : Nat) {t : τ} {p : threadpool.State τ Nat}
  {request : threadpool.Request Nat}

theorem pc_goto (t : τ) (p : threadpool.State τ Nat) (x : threadpool.Pc Nat) : (p.goto t x).pc t = x := by
  simp [threadpool.State.goto]

theorem step_push {ptr : Option Nat} (hpc : p.pc t = .push ptr) :
    ∃ p' request, threadpool.step m_max_requests t p = some p' ∧ p'.pc t = .appendUnlock request ∧
      p'.m_workqueue = p.m_workqueue ++ [request] := by
  rw [threadpool.step, hpc]
  exact ⟨_, _, rfl, Function.update_self t _ p.pc, rfl⟩

theorem step_appendUnlock (hpc : p.pc t = .appendUnlock request) :
    ∃ p', threadpool.step m_max_requests t p = some p' ∧ p'.pc t = .post request ∧ p'.m_queuelocker = none ∧
      p'.m_workqueue = p.m_workqueue := by
  rw [threadpool.step, hpc]
  exact ⟨_, rfl, Function.update_self t _ p.pc, rfl, rfl⟩

theorem step_post (hpc : p.pc t = .post request) :
    ∃ p', threadpool.step m_max_requests t p = some p' ∧ p'.pc t = .idle ∧ p'.m_queuelocker = p.m_queuelocker ∧
      p'.m_workqueue = p.m_workqueue := by
  rw [threadpool.step, hpc]
  exact ⟨_, rfl, Function.update_self t _ p.pc, rfl, rfl⟩

end Steps

section Runs

variable {ω : Type} [DecidableEq ω] {s s' s'' : State ω} {m_max_requests conn : Nat}

/-- A client connects. -/
theorem accept_run (hmain : s.main = .epoll_wait) (hwork : s.work = fun _ => .idle) (hfree : s.opened conn = false)
    (hlimit : conn < MAX_FD) (hcount : s.m_user_count < MAX_FD) :
    ∃ s', ReflTransGen (Served m_max_requests) s s' ∧ s'.main = .epoll_wait ∧ s'.pool = s.pool ∧
      (s'.work = fun _ => .idle) ∧ s'.opened = Function.update s.opened conn true ∧
      s'.m_user_count = s.m_user_count + 1 ∧ s'.interest conn = .armed .EPOLLIN := by
  have hevent : ReflTransGen (Served m_max_requests) s _ :=
    .single (.main (.epoll_wait [.listenfd] hmain .nil nofun) hwork)
  have haccept := hevent.tail (.main (.accept conn rfl rfl hlimit hfree) hwork)
  have haccepted := haccept.tail (.main (.accepted rfl) hwork)
  rw [if_neg (Int.not_le.mpr hcount)] at haccepted
  have haddfd := (haccepted.tail (.main (.init rfl) hwork)).tail (.main (.addfd rfl) hwork)
  have hstore := (haddfd.tail (.main (.load rfl) hwork)).tail (.main (.store rfl) hwork)
  have hagain := (hstore.tail (.main (.reset rfl) hwork)).tail (.main (.again rfl rfl) hwork)
  exact ⟨_, hagain, rfl, rfl, hwork, rfl, rfl, Function.update_self ..⟩

/-- A client sends data, and the main thread reads it and calls `append`. -/
theorem call_run (hmain : s.main = .epoll_wait) (hwork : s.work = fun _ => .idle)
    (harmed : s.interest conn = .armed .EPOLLIN) :
    ∃ s', ReflTransGen (Served m_max_requests) s s' ∧ s'.main = .append conn ∧ s'.events = [] ∧
      s'.pool = s.pool.goto none (.appendLock (some conn)) ∧ (s'.work = fun _ => .idle) ∧ s'.opened = s.opened ∧
      s'.m_user_count = s.m_user_count := by
  have hevents : ReflTransGen (Served m_max_requests) s _ :=
    .single (.main (.epoll_wait [.sockfd conn .input] hmain (List.nodup_singleton conn)
      (List.forall_mem_singleton.mpr ⟨_, harmed⟩)) hwork)
  have hread := (hevents.tail (.main (.event rfl rfl) hwork)).tail (.main (.read rfl) hwork)
  exact ⟨_, hread, rfl, rfl, rfl, hwork, rfl, rfl⟩

/-- The main thread comes to the test of `append`. -/
theorem lock_run (hwork : s.work = fun _ => .idle) (hpc : s.pool.pc none = .appendLock (some conn))
    (hfree : s.pool.m_queuelocker = none) :
    ∃ pool, ReflTransGen (Served m_max_requests) s { s with pool } ∧ pool.pc none = .sizeTest (some conn) ∧
      pool.m_workqueue = s.pool.m_workqueue := by
  have hlock : threadpool.step m_max_requests none s.pool =
      some { s.pool.goto none (.sizeTest (some conn)) with m_queuelocker := some none } := by
    rw [threadpool.step, hpc]
    exact if_pos hfree
  refine ⟨_, .single (.action none hlock (by rw [hpc]; rfl) hwork), ?_, rfl⟩
  exact Function.update_self none _ s.pool.pc

/-- The queue takes the connection. -/
theorem append_run (hwork : s.work = fun _ => .idle) (hmain : s.main = .append conn) (hevents : s.events = [])
    (hpc : s.pool.pc none = .sizeTest (some conn)) (hsize : s.pool.m_workqueue.length ≤ m_max_requests) :
    ∃ s', ReflTransGen (Served m_max_requests) s s' ∧ s'.main = .epoll_wait ∧ s'.pool.pc none = .idle ∧
      s'.pool.m_queuelocker = none ∧ s'.pool.m_workqueue.length = s.pool.m_workqueue.length + 1 ∧
      (s'.work = fun _ => .idle) ∧ s'.opened = s.opened ∧ s'.m_user_count = s.m_user_count := by
  have htest : threadpool.step m_max_requests none s.pool = some (s.pool.goto none (.push (some conn))) := by
    rw [threadpool.step, hpc]
    exact congrArg (fun x => some (s.pool.goto none x)) (if_neg (Nat.not_lt.mpr hsize))
  have htested : ReflTransGen (Served m_max_requests) s _ := .single ⟨.pool (.sizeTest hpc htest), idle_served hwork⟩
  have hpc₀ := pc_goto none s.pool (.push (some conn))
  obtain ⟨p₁, request, hstep₁, hpc₁, hqueue₁⟩ := step_push m_max_requests hpc₀
  obtain ⟨p₂, hstep₂, hpc₂, hfree₂, hqueue₂⟩ := step_appendUnlock m_max_requests hpc₁
  obtain ⟨p₃, hstep₃, hpc₃, hfree₃, hqueue₃⟩ := step_post m_max_requests hpc₂
  have hpushed := htested.tail (.action none hstep₁ (by rw [hpc₀]; rfl) hwork)
  have hunlocked := hpushed.tail (.action none hstep₂ (by rw [hpc₁]; rfl) hwork)
  have hposted := hunlocked.tail (.action none hstep₃ (by rw [hpc₂]; rfl) hwork)
  have hreturned := (hposted.tail (.main (.append hmain hpc₃) hwork)).tail (.main (.again rfl hevents) hwork)
  refine ⟨_, hreturned, rfl, hpc₃, hfree₃.trans hfree₂, ?_, hwork, rfl, rfl⟩
  rw [hqueue₃, hqueue₂, hqueue₁, List.length_append]
  rfl

/-- The queue is too long for the connection. -/
theorem refuse_run (hwork : s.work = fun _ => .idle) (hpc : s.pool.pc none = .sizeTest (some conn))
    (hsize : m_max_requests < s.pool.m_workqueue.length) :
    ∃ s', ReflTransGen (Served m_max_requests) s s' ∧ conn ∈ s'.refused := by
  have htest : threadpool.step m_max_requests none s.pool = some (s.pool.goto none .unlockFull) := by
    rw [threadpool.step, hpc]
    exact congrArg (fun x => some (s.pool.goto none x)) (if_pos hsize)
  refine ⟨_, .single ⟨.pool (.sizeTest hpc htest), idle_served hwork⟩, ?_⟩
  rw [if_pos hsize]
  exact List.mem_cons_self

/-- The main thread waits, and the first `k` connections are open and in the queue. -/
structure Filled (s : State ω) (k : Nat) : Prop where
  main : s.main = .epoll_wait
  idle : s.pool.pc none = .idle
  free : s.pool.m_queuelocker = none
  queue : s.pool.m_workqueue.length = k
  work : s.work = fun _ => .idle
  opened : ∀ fd, k ≤ fd → s.opened fd = false
  count : s.m_user_count = k

/-- One connection more comes to the test of `append`. -/
theorem Filled.next {k : Nat} (hs : Filled s k) (m_max_requests : Nat) (hlimit : k < MAX_FD) :
    ∃ s', ReflTransGen (Served m_max_requests) s s' ∧ s'.main = .append k ∧ s'.events = [] ∧
      s'.pool.pc none = .sizeTest (some k) ∧ s'.pool.m_workqueue.length = k ∧ (s'.work = fun _ => .idle) ∧
      (∀ fd, k < fd → s'.opened fd = false) ∧ s'.m_user_count = k + 1 := by
  have hcount : s.m_user_count < MAX_FD := by
    rw [hs.count]
    exact Int.ofNat_lt.mpr hlimit
  obtain ⟨s₁, hrun₁, hmain₁, hpool₁, hwork₁, hopened₁, hcount₁, harmed⟩ :=
    accept_run hs.main hs.work (hs.opened k (Nat.le_refl k)) hlimit hcount
  obtain ⟨s₂, hrun₂, hmain₂, hevents₂, hpool₂, hwork₂, hopened₂, hcount₂⟩ := call_run hmain₁ hwork₁ harmed
  obtain ⟨pool, hrun₃, hpc₃, hqueue₃⟩ := lock_run hwork₂
    (by rw [hpool₂, pc_goto]) (by rw [hpool₂, hpool₁]; exact hs.free)
  refine ⟨_, (hrun₁.trans hrun₂).trans hrun₃, hmain₂, hevents₂, hpc₃, ?_, hwork₂, fun fd hfd => ?_, ?_⟩
  · rw [hqueue₃, hpool₂, hpool₁]
    exact hs.queue
  · dsimp only
    rw [hopened₂, hopened₁, Function.update_of_ne (Nat.ne_of_gt hfd), hs.opened fd (Nat.le_of_lt hfd)]
  · dsimp only
    rw [hcount₂, hcount₁, hs.count]

/-- If no worker runs, the queue fills up. -/
theorem exists_filled (k : Nat) (hsize : k ≤ m_max_requests + 1) (hlimit : k ≤ MAX_FD) :
    ∃ s : State ω, Reachable m_max_requests s ∧ Filled s k := by
  induction k with
  | zero => exact ⟨initial ω fun _ => none, ⟨_, .refl⟩, rfl, rfl, rfl, rfl, rfl, fun _ _ => rfl, rfl⟩
  | succ k ih =>
    obtain ⟨s, ⟨m_sockfd, hreach⟩, hs⟩ := ih (by omega) (by omega)
    obtain ⟨s₁, hrun₁, hmain₁, hevents₁, hpc₁, hqueue₁, hwork₁, hopened₁, hcount₁⟩ := hs.next m_max_requests (by omega)
    obtain ⟨s₂, hrun₂, hmain₂, hidle₂, hfree₂, hqueue₂, hwork₂, hopened₂, hcount₂⟩ :=
      append_run hwork₁ hmain₁ hevents₁ hpc₁ (by omega : _ ≤ m_max_requests)
    refine ⟨s₂, ⟨m_sockfd, (hreach.trans hrun₁).trans hrun₂⟩, hmain₂, hidle₂, hfree₂, by omega, hwork₂, ?_, ?_⟩
    · intro fd hfd
      rw [hopened₂, hopened₁ fd hfd]
    · rw [hcount₂, hcount₁]
      rfl

/-- There is a run in which `append` refuses a connection. -/
theorem exists_refused (m_max_requests : Nat) (hlimit : m_max_requests + 1 < MAX_FD) :
    ∃ (s : State ω) (conn : Nat), Reachable m_max_requests s ∧ conn ∈ s.refused := by
  obtain ⟨s, ⟨m_sockfd, hreach⟩, hs⟩ : ∃ s : State ω, Reachable m_max_requests s ∧ Filled s (m_max_requests + 1) :=
    exists_filled (m_max_requests + 1) (Nat.le_refl _) (Nat.le_of_lt hlimit)
  obtain ⟨s₁, hrun₁, -, -, hpc₁, hqueue₁, hwork₁, -⟩ := hs.next m_max_requests hlimit
  obtain ⟨s₂, hrun₂, hrefused⟩ := refuse_run hwork₁ hpc₁ (Nat.lt_of_lt_of_eq (Nat.lt_succ_self _) hqueue₁.symm)
  exact ⟨s₂, _, ⟨m_sockfd, (hreach.trans hrun₁).trans hrun₂⟩, hrefused⟩

end Runs

variable {ω : Type} [Fintype ω] [DecidableEq ω] {s s' : State ω} {m_max_requests : Nat}

/-- Somebody will come back to the connection: it is armed, its event is pending, it is in the pool, or a thread works
on it. -/
def State.Held (s : State ω) (conn : Nat) : Prop :=
  (s.interest conn).isArmed = true ∨ conn ∈ sockfds s.events ∨ some conn ∈ s.pool.m_workqueue.map (·.ptr) ∨
    (∃ t, (s.pool.pc t).inHand = some conn) ∨ ∃ t, s.Touches conn t

omit [Fintype ω] [DecidableEq ω] in
theorem touches_of_main_conn (h : s.main.conn = some conn) : s.Touches conn none := by
  cases hmain : s.main with
  | epoll_wait | loop | append _ =>
    rw [hmain] at h
    cases h
  | close_conn c place =>
    rw [hmain] at h
    rw [State.Touches, hmain]
    cases place with
    | test | epoll_ctl _ | close _ => exact Option.some.inj h
    | clear | load | store _ => cases h
  | _ =>
    rw [hmain] at h
    rw [State.Touches, hmain]
    exact Option.some.inj h

omit [Fintype ω] [DecidableEq ω] in
theorem touches_of_work_conn {t : ω} (h : (s.work t).conn = some conn) : s.Touches conn (some t) := by
  cases hwork : s.work t with
  | idle =>
    rw [hwork] at h
    cases h
  | close_conn c place =>
    rw [hwork] at h
    rw [State.Touches, hwork]
    cases place with
    | test | epoll_ctl _ | close _ => exact Option.some.inj h
    | clear | load | store _ => cases h
  | _ =>
    rw [hwork] at h
    rw [State.Touches, hwork]
    exact Option.some.inj h

/-- An open descriptor is held by a slot unless the server refused it. -/
theorem Owned.held_iff (hs : Owned s) (hopen : s.opened conn = true) : s.Held conn ↔ conn ∉ s.refused := by
  have howners := hs.owners conn
  rw [hopen, Bool.toNat_true, State.holders, threadpool.State.pooled] at howners
  constructor
  · intro hheld hmem
    rw [if_pos hmem] at howners
    have hmain : ¬ ((s.interest conn).isArmed = true ∨ s.main.conn = some conn) := by
      intro h
      rw [atMain, if_pos h] at howners
      omega
    rcases hheld with harmed | hevent | hqueue | ⟨t, hhand⟩ | ⟨t, ht⟩
    · exact hmain (.inl harmed)
    · have hpos := List.count_pos_iff.mpr hevent
      omega
    · have hpos := List.count_pos_iff.mpr (mem_queue_iff.mpr hqueue)
      omega
    · have hpos : 0 < holding threadpool.Pc.inHand conn s.pool.pc := holding_pos hhand
      omega
    · cases t with
      | none =>
        rcases hs.conn_of_touches ht with h | h
        · exact hmain (.inr h)
        · rw [hopen] at h
          cases h
      | some t =>
        have hpos : 0 < holding WorkPc.conn conn s.work := holding_pos (hs.work_of_touches ht)
        omega
  · intro hmem
    rw [if_neg hmem] at howners
    by_contra hheld
    simp only [State.Held, not_or, not_exists] at hheld
    obtain ⟨harmed, hevent, hqueue, hhand, htouches⟩ := hheld
    have hmain : atMain s.interest s.main conn = 0 :=
      if_neg fun h => h.elim harmed fun h => htouches none (touches_of_main_conn h)
    have hpool : holding threadpool.Pc.inHand conn s.pool.pc = 0 := by
      by_contra h
      obtain ⟨t, ht⟩ := exists_of_holding_ne_zero h
      exact hhand t ht
    have hwork : holding WorkPc.conn conn s.work = 0 := by
      by_contra h
      obtain ⟨t, ht⟩ := exists_of_holding_ne_zero h
      exact htouches (some t) (touches_of_work_conn ht)
    rw [hmain, List.count_eq_zero.mpr hevent, List.count_eq_zero.mpr (mt mem_queue_iff.mp hqueue), hpool,
      hwork] at howners
    cases howners

omit [Fintype ω] in
/-- What has been refused is not taken back. -/
theorem Served.refused (h : Served m_max_requests s s') (hmem : conn ∈ s.refused) : conn ∈ s'.refused := by
  cases h.1 with
  | main h =>
    cases h with
    | epoll_ctl hpc =>
      unfold State.modify
      split
      · exact hmem
      · split <;> exact hmem
    | close_conn hpc =>
      rename_i c place
      cases place <;> exact hmem
    | _ => exact hmem
  | work t h =>
    cases h with
    | epoll_ctl hpc =>
      unfold State.modify
      split
      · exact hmem
      · split <;> exact hmem
    | close_conn hpc =>
      rename_i c place
      cases place <;> exact hmem
    | _ => exact hmem
  | pool h =>
    cases h with
    | sizeTest hpc h =>
      dsimp only
      split
      · exact List.mem_cons_of_mem _ hmem
      · exact hmem
    | _ => exact hmem

/-- As long as no `process_write` fails: a connection that is open is held by the epoll instance, the pool or a thread,
unless `append` has refused it. One that has been refused is held by nobody and stays open for ever. `accept` is assumed
to return descriptors below `MAX_FD` that are not open. -/
theorem refused_for_ever (h : Reachable m_max_requests s) :
    (∀ conn, s.opened conn = true → (s.Held conn ↔ conn ∉ s.refused)) ∧
      ∀ conn ∈ s.refused, ∀ s', ReflTransGen (Served m_max_requests) s s' → s'.opened conn = true ∧ ¬ s'.Held conn := by
  refine ⟨fun conn hopen => h.owned.held_iff hopen, fun conn hmem s' hrun => ?_⟩
  have hmem' : conn ∈ s'.refused := by
    induction hrun with
    | refl => exact hmem
    | tail _ hstep ih => exact hstep.refused ih
  obtain ⟨m_sockfd, h⟩ := h
  have hs' : Owned s' := Reachable.owned ⟨m_sockfd, h.trans hrun⟩
  have hopen := hs'.refused conn hmem'
  exact ⟨hopen, fun hheld => (hs'.held_iff hopen).mp hheld hmem'⟩

theorem refused_for_ever_full :
    ∃ (s : State (Fin 8)) (conn : Nat), s.opened conn = true ∧ ¬ s.Held conn := by
  obtain ⟨s, conn, hreach, hrefused⟩ := (exists_refused 10000 (by decide) : ∃ (s : State (Fin 8)) (conn : Nat), _)
  exact ⟨s, conn, (refused_for_ever hreach).2 conn hrefused s .refl⟩

end basic_data_struct.web_server
