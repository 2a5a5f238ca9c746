import BasicDataStruct.WebServer.Ownership

open threads

namespace basic_data_struct.web_server

variable {ω : Type} [Fintype ω] [DecidableEq ω] {s s' : State ω} {m_max_requests : Nat}

variable {conn : Nat} {t : ω}

/-- A thread that works on an open connection has it in hand. -/
theorem Owned.conn_of_touches (hs : Owned s) (h : s.Touches conn none) :
    s.main.conn = some conn ∨ s.opened conn = false := by
  have hfits := hs.fits
  cases hmain : s.main with
  | epoll_wait | loop | append _ =>
    rw [State.Touches, hmain] at h
    exact h.elim
  | close_conn c place =>
    rw [State.Touches, hmain] at h
    subst h
    rw [hmain] at hfits
    cases place with
    | test | epoll_ctl _ | close _ => exact .inl rfl
    | clear | load | store _ => exact .inr hfits
  | _ =>
    rw [State.Touches, hmain] at h
    exact .inl (congrArg some h)

theorem Owned.work_of_touches (hs : Owned s) (h : s.Touches conn (some t)) : (s.work t).conn = some conn := by
  have hfits := hs.workers t
  cases hwork : s.work t with
  | idle =>
    rw [State.Touches, hwork] at h
    exact h.elim
  | close_conn c place =>
    rw [hwork] at hfits
    exact hfits.elim
  | _ =>
    rw [State.Touches, hwork] at h
    exact congrArg some h

/-- A worker and the main thread do not work on the same connection. -/
theorem Owned.not_touches_main (hs : Owned s) (ht : s.Touches conn (some t)) : ¬ s.Touches conn none := by
  intro hmain
  have hwork := hs.work_of_touches ht
  rcases hs.conn_of_touches hmain with h | h
  · exact hs.main_conn_ne hwork h
  · rw [(hs.at_worker hwork).1] at h
    cases h

omit [Fintype ω] [DecidableEq ω] in
theorem mem_queue_iff :
    conn ∈ s.pool.m_workqueue.filterMap threadpool.Request.ptr ↔ some conn ∈ s.pool.m_workqueue.map (·.ptr) := by
  rw [List.mem_filterMap, List.mem_map]

/-- While a thread works on a connection, it is neither pending nor queued. -/
theorem Owned.not_waiting (hs : Owned s) {t : Option ω} (ht : s.Touches conn t) :
    conn ∉ sockfds s.events ∧ some conn ∉ s.pool.m_workqueue.map (·.ptr) := by
  have hzero : (sockfds s.events).count conn = 0 ∧ s.pool.pooled conn = 0 := by
    cases t with
    | none =>
      rcases hs.conn_of_touches ht with h | h
      · obtain ⟨-, -, hcount, hpooled, -⟩ := hs.at_main h
        exact ⟨hcount, hpooled⟩
      · have howners := hs.owners conn
        rw [h, Bool.toNat_false, ite_self, State.holders] at howners
        exact ⟨by omega, by omega⟩
    | some t =>
      obtain ⟨-, -, -, hcount, hpooled, -⟩ := hs.at_worker (hs.work_of_touches ht)
      exact ⟨hcount, hpooled⟩
  rw [threadpool.State.pooled, Nat.add_eq_zero_iff] at hzero
  rw [← mem_queue_iff]
  exact ⟨List.count_eq_zero.mp hzero.1, List.count_eq_zero.mp hzero.2.1⟩

/-- In every interleaving in which no `process_write` fails, no two threads work on one connection at the same time, and
while one of them does the connection is neither queued nor pending in the list of events. It is assumed that `accept`
returns a descriptor below `MAX_FD` that was not open, and that `epoll_wait` reports what is armed. Nothing is assumed
about the results of `read`, `process` and `write`, about the order in which threads run, or about `m_sockfd` before
`init`. -/
theorem touched_by_one (h : Reachable m_max_requests s) (conn : Nat) :
    (∀ t u, s.Touches conn t → s.Touches conn u → t = u) ∧
      ∀ t, s.Touches conn t → conn ∉ sockfds s.events ∧ some conn ∉ s.pool.m_workqueue.map (·.ptr) := by
  have hs := h.owned
  refine ⟨fun t u ht hu => ?_, fun t ht => hs.not_waiting ht⟩
  cases t with
  | none =>
    cases u with
    | none => rfl
    | some u => exact absurd ht (hs.not_touches_main hu)
  | some t =>
    cases u with
    | none => exact absurd hu (hs.not_touches_main ht)
    | some u =>
      have hone := (hs.at_worker (hs.work_of_touches ht)).2.2.2.2.2
      exact congrArg some (eq_of_holding_le_one (Nat.le_of_eq hone) (hs.work_of_touches ht) (hs.work_of_touches hu))

section Runs

variable {ω : Type} [DecidableEq ω] {s s' : State ω} {m_max_requests : Nat}

omit [DecidableEq ω] in
theorem idle_served (hwork : s.work = fun _ => .idle) (t : ω) (c : Nat) (place : Closing) :
    s.work t ≠ .close_conn c place := by
  rw [hwork]
  exact nofun

/-- An action of the main thread, while the workers are not in `process`. -/
theorem Served.main (h : MainStep s s') (hwork : s'.work = fun _ => .idle) : Served m_max_requests s s' :=
  ⟨.main h, idle_served hwork⟩

/-- The action at this place concerns nothing but the pool. -/
def inner : threadpool.Pc Nat → Bool
  | .nullTest _ | .process _ | .sizeTest _ => false
  | _ => true

theorem Served.action {pool : threadpool.State (Option ω) Nat} (t : Option ω)
    (h : threadpool.step m_max_requests t s.pool = some pool) (hpc : inner (s.pool.pc t) = true)
    (hwork : s.work = fun _ => .idle) : Served m_max_requests s { s with pool } := by
  refine ⟨.pool (.action h (fun _ _ heq => ?_) (fun _ heq => ?_) fun _ heq => ?_), idle_served hwork⟩
  all_goals
    rw [heq] at hpc
    cases hpc

end Runs

/-- The main thread accepts the connection 6 while the worker processes a request of the connection 5. -/
theorem touched_by_one_both :
    ∃ s : State Unit, Reachable 1 s ∧ s.Touches 6 none ∧ s.Touches 5 (some ()) ∧ ¬ s.Touches 5 none := by
  have hqueued : Relation.ReflTransGen (Served 1) (initial Unit fun _ => none) _ :=
    .head (.main (.epoll_wait [.listenfd] rfl .nil nofun) rfl) <|
    .head (.main (.accept 5 rfl rfl (by decide) rfl) rfl) <|
    .head (.main (.accepted rfl) rfl) <| .head (.main (.init rfl) rfl) <| .head (.main (.addfd rfl) rfl) <|
    .head (.main (.load rfl) rfl) <| .head (.main (.store rfl) rfl) <| .head (.main (.reset rfl) rfl) <|
    .head (.main (.again rfl rfl) rfl) <|
    .head (.main (.epoll_wait [.sockfd 5 .input] rfl (by decide)
      (List.forall_mem_singleton.mpr ⟨.EPOLLIN, rfl⟩)) rfl) <|
    .head (.main (.event rfl rfl) rfl) <| .head (.main (.read rfl) rfl) <| .head (.action none rfl rfl rfl) <|
    .head ⟨.pool (@PoolStep.sizeTest _ _ _ _ none 5 _ rfl rfl), fun _ _ _ => nofun⟩ <|
    .head (.action none rfl rfl rfl) <| .head (.action none rfl rfl rfl) <| .single (.action none rfl rfl rfl)
  have htaken := hqueued.trans <|
    .head (.action (some ()) rfl rfl rfl) <| .head (.action (some ()) rfl rfl rfl) <|
    .head (.action (some ()) rfl rfl rfl) <| .head (.action (some ()) rfl rfl rfl) <|
    .head (.action (some ()) rfl rfl rfl) <| .head (.action (some ()) rfl rfl rfl) <|
    .single (.action (some ()) rfl rfl rfl)
  have haccepted := htaken.trans <|
    .head (.main (.append rfl rfl) rfl) <| .head (.main (.again rfl rfl) rfl) <|
    .head (.main (.epoll_wait [.listenfd] rfl .nil nofun) rfl) <|
    .single (.main (.accept 6 rfl rfl (by decide) rfl) rfl)
  have hreach : Reachable 1 _ := ⟨_, haccepted.tail
    ⟨.pool (@PoolStep.process _ _ _ _ () 0 5 _ rfl rfl), fun _ _ _ => nofun⟩⟩
  exact ⟨_, hreach, rfl, rfl, fun h => nomatch (touched_by_one hreach 5).1 none (some ()) h rfl⟩
end basic_data_struct.web_server
