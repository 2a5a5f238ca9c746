import BasicDataStruct.Thread.TakenOnce

open threads Relation

namespace basic_data_struct.threadpool

variable {τ α : Type} [DecidableEq τ]

/-- A step of the thread `t`: an action, or a call of `append`. -/
def StepOf (m_max_requests : Nat) (t : τ) (s s' : State τ α) : Prop :=
  step m_max_requests t s = some s' ∨ s.pc t = .idle ∧ ∃ ptr, s' = s.goto t (.appendLock ptr)

def StepOfOthers (m_max_requests : Nat) (t : τ) (s s' : State τ α) : Prop :=
  ∃ u, u ≠ t ∧ StepOf m_max_requests u s s'

/-- The thread `t` calls `append` in the state `s`, and in the state `s'` it has not returned or returns just now. All
threads may take steps in between. -/
def Calling (m_max_requests : Nat) (t : τ) (s s' : State τ α) : Prop :=
  s.pc t = .idle ∧ ∃ ptr, ReflTransGen (fun u v => Step m_max_requests u v ∧ u.pc t ≠ .idle)
    (s.goto t (.appendLock ptr)) s'

/-- A call of `append` by the thread `t` that returns false: it begins in the state `s` and ends in the state `s'`. -/
def Refused (m_max_requests : Nat) (t : τ) (s s' : State τ α) : Prop :=
  ∃ u, Calling m_max_requests t s u ∧ u.pc t = .unlockFull ∧ step m_max_requests t u = some s'

/-- The queue has at most `n` requests in every interleaving, and a call that returns false has no effect: without it
the steps of the other threads lead to the same state. -/
structure Limits (α : Type) (m_max_requests n : Nat) (role : τ → Role) : Prop where
  bounded : ∀ s : State τ α, Reachable m_max_requests role s → s.m_workqueue.length ≤ n
  refused : ∀ (t : τ) (s s' : State τ α), Reachable m_max_requests role s → Refused m_max_requests t s s' →
    ReflTransGen (StepOfOthers m_max_requests t) s s'

theorem step_iff_exists_stepOf {m_max_requests : Nat} {s s' : State τ α} :
    Step m_max_requests s s' ↔ ∃ t, StepOf m_max_requests t s s' := by
  constructor
  · intro h
    cases h with
    | action t h => exact ⟨t, .inl h⟩
    | call t ptr h => exact ⟨t, .inr ⟨h, ptr, rfl⟩⟩
  · rintro ⟨t, h | ⟨h, ptr, rfl⟩⟩
    · exact .action t h
    · exact .call t ptr h

section Bound

variable {m_max_requests : Nat} {role : τ → Role} {s s' : State τ α} {t : τ}

/-- What the place of a thread says about the size of the queue: it has passed the test where it is about to queue a
request. -/
def Pc.Admits (m_max_requests size : Nat) : Pc α → Prop
  | .push _ => size ≤ m_max_requests
  | _ => True

theorem Pc.Admits.mono {x : Pc α} {m n : Nat} (hx : x.Admits m_max_requests n) (hle : m ≤ n) :
    x.Admits m_max_requests m := by
  cases x with
  | push ptr => exact hle.trans hx
  | _ => trivial

/-- What an action does to the queue: nothing, or it removes or adds a request. -/
theorem step_queue (h : step m_max_requests t s = some s') : ∃ x, s'.pc = Function.update s.pc t x ∧
    ((s'.m_workqueue = s.m_workqueue ∧ x.Admits m_max_requests s.m_workqueue.length) ∨
      (s'.m_workqueue = s.m_workqueue.tail ∧ ∀ n, x.Admits m_max_requests n) ∨
      ((∃ ptr, s.pc t = .push ptr) ∧ (∃ request, s'.m_workqueue = s.m_workqueue ++ [request]) ∧
        ∀ n, x.Admits m_max_requests n)) := by
  revert h
  rw [step]
  cases hpc : s.pc t with
  | pop request =>
    rintro ⟨⟩
    exact ⟨_, rfl, .inr (.inl ⟨rfl, fun _ => trivial⟩)⟩
  | push ptr =>
    rintro ⟨⟩
    exact ⟨_, rfl, .inr (.inr ⟨⟨ptr, rfl⟩, ⟨_, rfl⟩, fun _ => trivial⟩)⟩
  | sizeTest ptr =>
    rintro ⟨⟩
    refine ⟨_, rfl, .inl ⟨rfl, ?_⟩⟩
    split
    · trivial
    next hsize => exact Nat.le_of_not_lt hsize
  | wait =>
    intro h
    dsimp only at h
    split at h
    · cases h
      exact ⟨_, rfl, .inl ⟨rfl, trivial⟩⟩
    · cases h
  | lock | appendLock =>
    intro h
    dsimp only [State.lockTo] at h
    split at h
    · cases h
      exact ⟨_, rfl, .inl ⟨rfl, trivial⟩⟩
    · cases h
  | front =>
    intro h
    obtain ⟨request, _, rfl⟩ := Option.map_eq_some_iff.mp h
    exact ⟨_, rfl, .inl ⟨rfl, trivial⟩⟩
  | stopped | idle => rintro ⟨⟩
  | whileTest | emptyTest | nullTest =>
    rintro ⟨⟩
    refine ⟨_, rfl, .inl ⟨rfl, ?_⟩⟩
    split <;> trivial
  | _ =>
    rintro ⟨⟩
    exact ⟨_, rfl, .inl ⟨rfl, trivial⟩⟩

/-- The size of the queue in every interleaving. -/
structure Filled (m_max_requests : Nat) (s : State τ α) : Prop where
  le : s.m_workqueue.length ≤ m_max_requests + 1
  admits : ∀ t, (s.pc t).Admits m_max_requests s.m_workqueue.length

/-- The threads without the mutex have not passed the test. -/
theorem admits_of_not_holds {x : Pc α} (hx : ¬x.Holds) (n : Nat) : x.Admits m_max_requests n := by
  cases x with
  | push ptr => exact absurd trivial hx
  | _ => trivial

/-- Between the test and `push_back` the mutex keeps the other threads away from the queue. -/
theorem Filled.action [Fintype τ] (hs : Filled m_max_requests s) (hpool : Pool s)
    (h : step m_max_requests t s = some s') : Filled m_max_requests s' := by
  obtain ⟨x, hpc, hcases⟩ := step_queue h
  rcases hcases with ⟨hqueue, hx⟩ | ⟨hqueue, hx⟩ | ⟨⟨ptr, ht⟩, ⟨request, hqueue⟩, hx⟩
  · refine ⟨hqueue ▸ hs.le, ?_⟩
    rw [hpc, hqueue]
    exact forall_update (P := fun _ y => Pc.Admits m_max_requests _ y) hx hs.admits
  · have hle : s'.m_workqueue.length ≤ s.m_workqueue.length := by
      rw [hqueue, List.length_tail]
      exact Nat.sub_le _ _
    refine ⟨hle.trans hs.le, ?_⟩
    rw [hpc]
    exact forall_update (P := fun _ y => Pc.Admits m_max_requests _ y) (hx _) fun u => (hs.admits u).mono hle
  · have hle : s.m_workqueue.length ≤ m_max_requests := by
      have hadmits := hs.admits t
      rwa [ht] at hadmits
    refine ⟨?_, fun u => ?_⟩
    · rw [hqueue, List.length_append, List.length_singleton]
      exact Nat.succ_le_succ hle
    · rw [hpc]
      by_cases hut : u = t
      · rw [hut, Function.update_self]
        exact hx _
      · rw [Function.update_of_ne hut]
        refine admits_of_not_holds (fun hu => hut ?_) _
        exact hpool.mutex.eq_of_inside hu (by rw [ht]; trivial)

theorem Reachable.filled [Fintype τ] (hreach : Reachable m_max_requests role s) : Filled m_max_requests s := by
  induction hreach with
  | refl =>
    refine ⟨Nat.zero_le _, fun t => ?_⟩
    cases h : role t <;> simp [initial, h, Role.start, Pc.Admits]
  | tail hreach hstep hs =>
    cases hstep with
    | action t h => exact hs.action (Reachable.pool hreach) h
    | call t ptr h =>
      exact ⟨hs.le, forall_update (P := fun _ y => Pc.Admits m_max_requests _ y) trivial hs.admits⟩

/-- Without a thread that appends the queue stays empty. -/
theorem Reachable.queue_eq_nil (hrole : ∀ t, role t = .worker) (hreach : Reachable m_max_requests role s) :
    s.m_workqueue = [] := by
  induction hreach with
  | refl => rfl
  | tail hreach hstep hs =>
    cases hstep with
    | action t h =>
      obtain ⟨x, -, ⟨hqueue, -⟩ | ⟨hqueue, -⟩ | ⟨⟨ptr, ht⟩, -⟩⟩ := step_queue h
      · exact hqueue.trans hs
      · rw [hqueue, hs, List.tail_nil]
      · have hplace := ((Reachable.roles hreach).place t).trans (hrole t)
        rw [ht] at hplace
        cases hplace
    | call t ptr h => exact hs

/-- A whole call of `append` while no other thread runs. -/
theorem exists_append (ht : s.pc t = .idle) (hlock : s.m_queuelocker = none)
    (hsize : s.m_workqueue.length ≤ m_max_requests) :
    ∃ s', ReflTransGen (Step m_max_requests) s s' ∧ s'.pc t = .idle ∧ s'.m_queuelocker = none ∧
      s'.m_workqueue.length = s.m_workqueue.length + 1 := by
  let request : Request α := ⟨s.queued.length, none⟩
  have hcall : Step m_max_requests s (s.goto t (.appendLock none)) := .call t none ht
  have hlocks : step m_max_requests t (s.goto t (.appendLock none)) =
      some { s.goto t (.sizeTest none) with m_queuelocker := some t } := by
    simp [step, State.goto, State.lockTo, hlock]
  have htests : step m_max_requests t { s.goto t (.sizeTest none) with m_queuelocker := some t } =
      some { s.goto t (.push none) with m_queuelocker := some t } := by
    simp [step, State.goto, Nat.not_lt.mpr hsize]
  have hpushes : step m_max_requests t { s.goto t (.push none) with m_queuelocker := some t } =
      some { s.goto t (.appendUnlock request) with
        m_queuelocker := some t
        m_workqueue := s.m_workqueue ++ [request]
        queued := s.queued ++ [request] } := by
    simp [step, State.goto, request]
  have hunlocks : step m_max_requests t { s.goto t (.appendUnlock request) with
        m_queuelocker := some t
        m_workqueue := s.m_workqueue ++ [request]
        queued := s.queued ++ [request] } =
      some { s.goto t (.post request) with
        m_queuelocker := none
        m_workqueue := s.m_workqueue ++ [request]
        queued := s.queued ++ [request] } := by
    simp [step, State.goto, State.unlockTo]
  have hposts : step m_max_requests t { s.goto t (.post request) with
        m_queuelocker := none
        m_workqueue := s.m_workqueue ++ [request]
        queued := s.queued ++ [request] } =
      some { s.goto t .idle with
        m_queuelocker := none
        m_workqueue := s.m_workqueue ++ [request]
        queued := s.queued ++ [request]
        m_queuestat := s.m_queuestat + 1
        returned := s.returned ++ [request] } := by
    simp [step, State.goto]
  have hrun := (((((ReflTransGen.single hcall).tail (.action t hlocks)).tail (.action t htests)).tail
    (.action t hpushes)).tail (.action t hunlocks)).tail (.action t hposts)
  exact ⟨_, hrun, Function.update_self .., rfl, List.length_append⟩

/-- A thread that appends can fill the queue with one request too many. -/
theorem exists_overfull (ht : role t = .caller) :
    ∃ s : State τ α, Reachable m_max_requests role s ∧ s.m_workqueue.length = m_max_requests + 1 := by
  have hfill : ∀ k ≤ m_max_requests + 1, ∃ s : State τ α, Reachable m_max_requests role s ∧ s.pc t = .idle ∧
      s.m_queuelocker = none ∧ s.m_workqueue.length = k := by
    intro k
    induction k with
    | zero =>
      intro _
      refine ⟨initial role, .refl, ?_, rfl, rfl⟩
      simp [initial, ht, Role.start]
    | succ k ih =>
      intro hk
      obtain ⟨s, hreach, hidle, hlock, hlength⟩ := ih (by omega)
      have hsize : s.m_workqueue.length ≤ m_max_requests := by omega
      obtain ⟨s', hrun, hidle', hlock', hlength'⟩ := exists_append hidle hlock hsize
      exact ⟨s', hreach.trans hrun, hidle', hlock', by omega⟩
  obtain ⟨s, hreach, -, -, hlength⟩ := hfill _ (Nat.le_refl _)
  exact ⟨s, hreach, hlength⟩

end Bound

section Refusal

variable {m_max_requests : Nat} {role : τ → Role} {s s' : State τ α} {t u : τ}

/-- The state without the call of `append` that the thread `t` is in, as long as it has queued nothing. -/
def State.withdraw (s : State τ α) (t : τ) : State τ α :=
  { s.goto t .idle with m_queuelocker := s.m_queuelocker.filter (· ≠ t) }

theorem goto_withdraw (hut : u ≠ t) (x : Pc α) : (s.goto u x).withdraw t = (s.withdraw t).goto u x := by
  simp only [State.withdraw, State.goto, Function.update_comm hut]

theorem withdraw_pc (hut : u ≠ t) : (s.withdraw t).pc u = s.pc u := Function.update_of_ne hut _ _

theorem goto_self_withdraw (x : Pc α) : (s.goto t x).withdraw t = s.withdraw t := by
  simp only [State.withdraw, State.goto, Function.update_idem]

theorem lockTo_withdraw (hut : u ≠ t) {x : Pc α} (h : s.lockTo u x = some s') :
    (s.withdraw t).lockTo u x = some (s'.withdraw t) := by
  simp only [State.lockTo] at h
  split at h
  next hfree =>
    cases h
    simp [State.lockTo, State.withdraw, State.goto, hfree, Function.update_comm hut, Option.filter, hut]
  · cases h

theorem unlockTo_withdraw (hut : u ≠ t) (x : Pc α) :
    (s.unlockTo u x).withdraw t = (s.withdraw t).unlockTo u x := by
  simp [State.unlockTo, State.withdraw, State.goto, Function.update_comm hut]

/-- The other threads do not notice the call: it only keeps the mutex from them. -/
theorem step_withdraw (hut : u ≠ t) (h : step m_max_requests u s = some s') :
    step m_max_requests u (s.withdraw t) = some (s'.withdraw t) := by
  have hplace := withdraw_pc (s := s) hut
  revert h
  rw [step]
  cases hpc : s.pc u with
  | wait =>
    intro h
    dsimp only at h
    split at h
    next hpos =>
      cases h
      simp only [step, hplace, hpc]
      simp [State.withdraw, State.goto, hpos, Function.update_comm hut]
    · cases h
  | lock | appendLock =>
    intro h
    dsimp only at h
    simp only [step, hplace, hpc]
    exact lockTo_withdraw hut h
  | front =>
    intro h
    obtain ⟨request, hhead, rfl⟩ := Option.map_eq_some_iff.mp h
    simp only [step, hplace, hpc, goto_withdraw hut]
    exact Option.map_eq_some_iff.mpr ⟨request, hhead, rfl⟩
  | stopped | idle => rintro ⟨⟩
  | nullTest | process =>
    rintro ⟨⟩
    simp only [step, hplace, hpc, goto_withdraw hut]
  | whileTest | emptyTest | sizeTest =>
    rintro ⟨⟩
    simp only [step, hplace, hpc, goto_withdraw hut]
    rfl
  | unlockEmpty | unlock | unlockFull | appendUnlock =>
    rintro ⟨⟩
    simp only [step, hplace, hpc, unlockTo_withdraw hut]
  | pop | push | post =>
    rintro ⟨⟩
    simp only [step, hplace, hpc]
    simp [State.withdraw, State.goto, Function.update_comm hut]

theorem stepOf_withdraw (hut : u ≠ t) (h : StepOf m_max_requests u s s') :
    StepOf m_max_requests u (s.withdraw t) (s'.withdraw t) := by
  rcases h with h | ⟨hidle, ptr, rfl⟩
  · exact .inl (step_withdraw hut h)
  · exact .inr ⟨(withdraw_pc hut).trans hidle, ptr, goto_withdraw hut _⟩

/-- The places of a call of `append` that can still return false. -/
def Pc.Undecided : Pc α → Prop
  | .appendLock _ | .sizeTest _ | .unlockFull => True
  | _ => False

/-- The places of a call of `append` that is going to return true, and of no call. -/
def Pc.Accepted : Pc α → Prop
  | .push _ | .appendUnlock _ | .post _ | .idle => True
  | _ => False

/-- A step of the thread itself, as long as its call can return false. -/
theorem step_undecided (ht : (s.pc t).Undecided) (h : step m_max_requests t s = some s') :
    (s'.pc t).Undecided ∧ s'.withdraw t = s.withdraw t ∨ (s'.pc t).Accepted := by
  revert h
  rw [step]
  cases hpc : s.pc t with
  | appendLock ptr =>
    intro h
    dsimp only [State.lockTo] at h
    split at h
    next hfree =>
      cases h
      exact .inl ⟨by simp [State.goto, Pc.Undecided], by simp [State.withdraw, State.goto, hfree, Option.filter]⟩
    · cases h
  | sizeTest ptr =>
    rintro ⟨⟩
    rw [goto_self_withdraw]
    simp only [State.goto, Function.update_self]
    split
    · exact .inl ⟨trivial, trivial⟩
    · exact .inr trivial
  | unlockFull =>
    rintro ⟨⟩
    exact .inr (by simp [State.unlockTo, State.goto, Pc.Accepted])
  | _ =>
    rw [hpc] at ht
    exact ht.elim

theorem step_accepted (ht : (s.pc t).Accepted) (h : step m_max_requests t s = some s') : (s'.pc t).Accepted := by
  revert h
  rw [step]
  cases hpc : s.pc t with
  | push | appendUnlock | post =>
    rintro ⟨⟩
    simp [State.unlockTo, State.goto, Pc.Accepted]
  | idle => rintro ⟨⟩
  | _ =>
    rw [hpc] at ht
    exact ht.elim

theorem StepOf.pc_of_ne (hut : u ≠ t) (h : StepOf m_max_requests u s s') : s'.pc t = s.pc t := by
  rcases h with h | ⟨-, ptr, rfl⟩
  · obtain ⟨x, hpc, -⟩ := step_moves h
    rw [hpc, Function.update_of_ne hut.symm]
  · exact Function.update_of_ne hut.symm _ _

/-- Before a call there is nothing to withdraw. -/
theorem withdraw_eq_self (hidle : s.pc t = .idle) (hlock : s.m_queuelocker ≠ some t) : s.withdraw t = s := by
  have hpc : Function.update s.pc t .idle = s.pc := by rw [← hidle, Function.update_eq_self]
  have hfilter : s.m_queuelocker.filter (· ≠ t) = s.m_queuelocker := by
    cases hholder : s.m_queuelocker with
    | none => rfl
    | some u =>
      have hut : u ≠ t := fun hut => hlock (hholder.trans (congrArg some hut))
      simp [Option.filter, hut]
  rw [State.withdraw, State.goto, hpc, hfilter]

theorem Calling.reachable (hreach : Reachable m_max_requests role s) (h : Calling m_max_requests t s s') :
    Reachable m_max_requests role s' := by
  obtain ⟨hidle, ptr, hpath⟩ := h
  have hcall : Reachable m_max_requests role (s.goto t (.appendLock ptr)) := hreach.tail (.call t ptr hidle)
  exact hcall.trans (ReflTransGen.mono (fun _ _ hstep => hstep.1) _ _ hpath)

variable [Fintype τ]

/-- As long as a call can return false, the other threads alone reach the state without it. -/
theorem Calling.withdraw (hreach : Reachable m_max_requests role s) (h : Calling m_max_requests t s s') :
    ((s'.pc t).Undecided ∧ ReflTransGen (StepOfOthers m_max_requests t) s (s'.withdraw t)) ∨ (s'.pc t).Accepted := by
  obtain ⟨hidle, ptr, hpath⟩ := h
  induction hpath with
  | refl =>
    have hlock : s.m_queuelocker ≠ some t := fun hlock => by
      have hholds := (hreach.pool.mutex t).mpr hlock
      rw [hidle] at hholds
      exact hholds
    refine .inl ⟨by simp [State.goto, Pc.Undecided], ?_⟩
    rw [goto_self_withdraw, withdraw_eq_self hidle hlock]
  | tail _ hstep ih =>
    obtain ⟨hstep, hcalling⟩ := hstep
    obtain ⟨u, hu⟩ := step_iff_exists_stepOf.mp hstep
    by_cases hut : u = t
    · subst hut
      have haction := hu.resolve_right fun hcall => hcalling hcall.1
      rcases ih with ⟨hundecided, hothers⟩ | haccepted
      · rcases step_undecided hundecided haction with ⟨hnext, hsame⟩ | hnext
        · exact .inl ⟨hnext, hsame ▸ hothers⟩
        · exact .inr hnext
      · exact .inr (step_accepted haccepted haction)
    · rw [hu.pc_of_ne hut]
      refine ih.imp_left fun ⟨hundecided, hothers⟩ => ⟨hundecided, hothers.tail ⟨u, hut, ?_⟩⟩
      exact stepOf_withdraw hut hu

theorem Refused.others (hreach : Reachable m_max_requests role s) (h : Refused m_max_requests t s s') :
    ReflTransGen (StepOfOthers m_max_requests t) s s' := by
  obtain ⟨u, hcalling, hfull, hreturn⟩ := h
  rcases hcalling.withdraw hreach with ⟨-, hothers⟩ | haccepted
  · have hlock : u.m_queuelocker = some t := by
      refine ((hcalling.reachable hreach).pool.mutex t).mp ?_
      rw [hfull]
      trivial
    simp only [step, hfull, Option.some.injEq] at hreturn
    subst hreturn
    have hsame : u.unlockTo t .idle = u.withdraw t := by
      simp [State.unlockTo, State.withdraw, hlock, Option.filter]
    rwa [hsame]
  · rw [hfull] at haccepted
    exact haccepted.elim

end Refusal

/-- The queue holds up to `m_max_requests + 1` requests: a smaller bound is kept by the pools only in which no thread
appends. A call that is refused never has an effect. -/
theorem limits_iff [Fintype τ] (m_max_requests n : Nat) (role : τ → Role) :
    Limits α m_max_requests n role ↔ m_max_requests < n ∨ ∀ t, role t = .worker := by
  constructor
  · intro h
    by_contra! hnot
    obtain ⟨hle, t, ht⟩ := hnot
    have hcaller : role t = .caller := by
      cases hrole : role t with
      | worker => exact absurd hrole ht
      | caller => rfl
    obtain ⟨s, hreach, hlength⟩ : ∃ s : State τ α, Reachable m_max_requests role s ∧
        s.m_workqueue.length = m_max_requests + 1 := exists_overfull hcaller
    have hbound := h.bounded s hreach
    omega
  · intro h
    refine ⟨fun s hreach => ?_, fun t s s' hreach hrefused => hrefused.others hreach⟩
    rcases h with hlt | hrole
    · exact hreach.filled.le.trans hlt
    · rw [hreach.queue_eq_nil hrole]
      exact Nat.zero_le n

/-- One thread that appends, with room for one request: the queue has two. -/
theorem overfull_one : ∃ s : State Unit Nat, Reachable 1 (fun _ => .caller) s ∧ s.m_workqueue.length = 2 :=
  exists_overfull (t := ()) rfl

end basic_data_struct.threadpool
