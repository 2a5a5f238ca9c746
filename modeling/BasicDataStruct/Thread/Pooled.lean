import BasicDataStruct.Thread.TakenOnce

open threads

namespace basic_data_struct.threadpool

variable {τ α : Type} [DecidableEq τ]

/-- The request that a thread of the pool has in hand while it is not in the queue. One that a worker has not removed
yet, or that a call has queued, is still in the queue. -/
def Pc.inHand : Pc α → Option α
  | .unlock request | .nullTest request => request.ptr
  | .appendLock ptr | .sizeTest ptr | .push ptr => ptr
  | _ => none

/-- The request that the pool gives up in the next action of a thread: it is refused, or processed. -/
def State.given (s : State τ α) (m_max_requests : Nat) (t : τ) : Option α :=
  match s.pc t with
  | .nullTest request => request.ptr
  | .sizeTest ptr => if s.m_workqueue.length > m_max_requests then ptr else none
  | _ => none

variable [Fintype τ] [DecidableEq α] {m_max_requests : Nat} {s s' : State τ α} {t : τ}

/-- How often a request is in the pool. -/
def State.pooled (s : State τ α) (ptr : α) : Nat :=
  (s.m_workqueue.filterMap Request.ptr).count ptr + holding Pc.inHand ptr s.pc

theorem State.pooled_update {pc : Pc α} {queue : List (Request α)} {n : Nat} (ptr : α)
    (hpc : s'.pc = Function.update s.pc t pc) (hqueue : s'.m_workqueue = queue)
    (h : (queue.filterMap Request.ptr).count ptr + holds Pc.inHand ptr pc + n =
      (s.m_workqueue.filterMap Request.ptr).count ptr + holds Pc.inHand ptr (s.pc t)) :
    s'.pooled ptr + n = s.pooled ptr := by
  have htotal := total_update (holds Pc.inHand ptr) s.pc t pc
  rw [State.pooled, State.pooled, hpc, hqueue, holding, holding]
  omega

/-- A move that leaves the queue alone. -/
theorem State.pooled_goto {pc : Pc α} {n : Nat} (ptr : α) (hpc : s'.pc = Function.update s.pc t pc)
    (hqueue : s'.m_workqueue = s.m_workqueue) (h : holds Pc.inHand ptr pc + n = holds Pc.inHand ptr (s.pc t)) :
    s'.pooled ptr + n = s.pooled ptr :=
  pooled_update ptr hpc hqueue (by omega)

/-- A request stays in the pool until it is refused or processed. -/
theorem Pool.pooled_step (hs : Pool s) (h : step m_max_requests t s = some s') (ptr : α) :
    s'.pooled ptr + holds id ptr (s.given m_max_requests t) = s.pooled ptr := by
  have hplace := hs.places t
  rw [State.given]
  revert h
  rw [step]
  cases hpc : s.pc t with
  | whileTest | emptyTest =>
    rintro ⟨⟩
    refine State.pooled_goto ptr rfl rfl ?_
    rw [hpc]
    split <;> rfl
  | wait =>
    intro h
    dsimp only at h
    split at h
    · cases h
      exact State.pooled_goto ptr rfl rfl (by rw [hpc]; rfl)
    · cases h
  | lock | appendLock =>
    intro h
    dsimp only [State.lockTo] at h
    split at h
    · cases h
      exact State.pooled_goto ptr rfl rfl (by rw [hpc]; rfl)
    · cases h
  | front =>
    intro h
    obtain ⟨request, -, rfl⟩ := Option.map_eq_some_iff.mp h
    exact State.pooled_goto ptr rfl rfl (by rw [hpc]; rfl)
  | pop request =>
    -- The request is the first of the queue, and goes from there to the worker.
    rintro ⟨⟩
    rw [hpc] at hplace
    obtain ⟨rest, hqueue⟩ := List.head?_eq_some_iff.mp hplace
    refine State.pooled_update ptr rfl rfl ?_
    rw [hpc, hqueue, List.tail_cons]
    cases hptr : request.ptr with
    | none => simp [hptr, holds, Pc.inHand]
    | some conn => simp [hptr, holds, Pc.inHand, List.count_cons]
  | push p =>
    rintro ⟨⟩
    refine State.pooled_update ptr rfl rfl ?_
    rw [hpc]
    cases p with
    | none => simp [holds, Pc.inHand]
    | some conn => simp [holds, Pc.inHand, List.count_cons]
  | sizeTest p =>
    rintro ⟨⟩
    refine State.pooled_goto ptr rfl rfl ?_
    rw [hpc]
    split
    · exact Nat.zero_add _
    · rfl
  | nullTest request =>
    rintro ⟨⟩
    refine State.pooled_goto ptr rfl rfl ?_
    rw [hpc]
    split <;> exact Nat.zero_add _
  | stopped | idle => rintro ⟨⟩
  | _ =>
    rintro ⟨⟩
    exact State.pooled_goto ptr rfl rfl (by rw [hpc]; rfl)

/-- A call brings its argument into the pool. -/
theorem State.pooled_call (h : s.pc t = .idle) (conn ptr : α) :
    (s.goto t (.appendLock (some conn))).pooled ptr = s.pooled ptr + holds some ptr conn := by
  have htotal := total_update (holds Pc.inHand ptr) s.pc t (.appendLock (some conn))
  rw [h] at htotal
  change _ + 0 = _ + holds some ptr conn at htotal
  rw [State.pooled, State.pooled, holding, holding, Nat.add_assoc, ← htotal]
  rfl

end basic_data_struct.threadpool
