import BasicDataStruct.Threads.Places
import BasicDataStruct.Thread.Threadpool

open threads

namespace basic_data_struct.threadpool

variable {τ α : Type} [DecidableEq τ]

variable {x y : Pc α} {s' : State τ α} {request : Request α} {m_max_requests : Nat}

/-- The places where a thread holds the mutex. -/
def Pc.Holds : Pc α → Prop
  | .emptyTest | .unlockEmpty | .front | .pop _ | .unlock _ => True
  | .sizeTest _ | .unlockFull | .push _ | .appendUnlock _ => True
  | _ => False

/-- A thread between `wait` and `pop_front`, or between `push_back` and `post`, accounts
for one request of the queue that the semaphore does not count. -/
def Pc.uncounted : Pc α → Nat
  | .lock | .emptyTest | .front | .pop _ => 1
  | .appendUnlock _ | .post _ => 1
  | _ => 0

/-- The request that a thread has queued in the call of `append` it is in. -/
def Pc.pushed : Pc α → Option (Request α)
  | .appendUnlock request | .post request => some request
  | _ => none

/-- What the place of a thread says about the members: no thread finds the queue empty,
the request that a thread removes is the first one, and one that a call has queued is
not reported yet. -/
def State.Allows (s : State τ α) : Pc α → Prop
  | .unlockEmpty => False
  | .pop request => s.m_workqueue.head? = some request
  | .appendUnlock request | .post request => request ∈ s.queued ∧ request ∉ s.returned
  | _ => True

/-- What holds in every interleaving. -/
structure Pool [Fintype τ] (s : State τ α) : Prop where
  running : s.m_stop = false
  mutex : Exclusive Pc.Holds s.pc s.m_queuelocker
  order : s.queued = s.taken.map Prod.snd ++ s.m_workqueue
  numbered : s.queued.map Request.number = List.range s.queued.length
  counted : s.m_workqueue.length = s.m_queuestat + total Pc.uncounted s.pc
  places : ∀ t, s.Allows (s.pc t)
  own : ∀ t u request, (s.pc t).pushed = some request → (s.pc u).pushed = some request → t = u
  returned : s.returned.Nodup ∧ ∀ request ∈ s.returned, request ∈ s.queued

variable [Fintype τ] {s : State τ α} {t : τ}

omit [DecidableEq τ] in
theorem pool_initial (role : τ → Role) : Pool (initial role : State τ α) where
  running := rfl
  mutex t := by
    refine iff_of_false ?_ (Option.some_ne_none t).symm
    cases h : role t <;> simp [initial, h, Role.start, Pc.Holds]
  order := rfl
  numbered := rfl
  counted := by
    have hzero : total Pc.uncounted (initial role : State τ α).pc = 0 := by
      refine Finset.sum_eq_zero fun t _ => ?_
      cases h : role t <;> simp [initial, h, Role.start, Pc.uncounted]
    rw [hzero]
    rfl
  places t := by cases h : role t <;> simp [initial, h, Role.start, State.Allows]
  own t u request hpc := by cases h : role t <;> simp [initial, h, Role.start, Pc.pushed] at hpc
  returned := ⟨List.nodup_nil, fun request h => by cases h⟩

/-- A thread does not come to hold what another one has queued. -/
theorem Pool.own_update (hs : Pool s)
    (hx : ∀ request, x.pushed = some request → (s.pc t).pushed = some request) (u v : τ) (request : Request α)
    (hu : (Function.update s.pc t x u).pushed = some request)
    (hv : (Function.update s.pc t x v).pushed = some request) : u = v :=
  owner_update hs.own (fun w hw r hr hxr => hw (hs.own w t r hr (hx r hxr))) u v request hu hv

/-- A move that neither changes the queue nor ends a successful call. The semaphore
changes by what the thread accounts for. -/
theorem Pool.move (hs : Pool s) {lock : Option τ} {n : Nat}
    (hmutex : Exclusive Pc.Holds (Function.update s.pc t x) lock)
    (hcount : n + x.uncounted = s.m_queuestat + (s.pc t).uncounted) (hallows : s.Allows x)
    (hpushed : ∀ request, x.pushed = some request → (s.pc t).pushed = some request) :
    Pool { s.goto t x with m_queuelocker := lock, m_queuestat := n } where
  running := hs.running
  mutex := hmutex
  order := hs.order
  numbered := hs.numbered
  counted := by
    have htotal := total_update Pc.uncounted s.pc t x
    have hcounted := hs.counted
    change s.m_workqueue.length = n + total Pc.uncounted (Function.update s.pc t x)
    omega
  places := forall_update (P := fun _ y => s.Allows y) hallows hs.places
  own := hs.own_update hpushed
  returned := hs.returned

section Moves

variable {x y : Pc α} (hs : Pool s) (hpc : s.pc t = y)
include hs hpc

/-- A move that leaves the members alone. -/
theorem Pool.goto (hholds : x.Holds ↔ y.Holds) (hcount : x.uncounted = y.uncounted) (hallows : s.Allows x)
    (hpushed : x.pushed = none) : Pool (s.goto t x) := by
  subst hpc
  refine hs.move (hs.mutex.move hholds) (congrArg (s.m_queuestat + ·) hcount) hallows fun request h => ?_
  rw [hpushed] at h
  cases h

theorem Pool.lockTo (h : s.lockTo t x = some s') (hholds : x.Holds)
    (hcount : x.uncounted = y.uncounted) (hallows : s.Allows x) (hpushed : x.pushed = none) : Pool s' := by
  subst hpc
  rw [State.lockTo] at h
  split at h
  next hfree =>
    cases h
    have hmutex := hs.mutex
    rw [hfree] at hmutex
    refine hs.move (hmutex.acquire hholds) (congrArg (s.m_queuestat + ·) hcount) hallows fun request h => ?_
    rw [hpushed] at h
    cases h
  next => cases h

theorem Pool.unlockTo (ht : y.Holds) (hholds : ¬ x.Holds) (hcount : x.uncounted = y.uncounted)
    (hallows : s.Allows x) (hpushed : x.pushed = y.pushed) : Pool (s.unlockTo t x) := by
  subst hpc
  refine hs.move (hs.mutex.release ht hholds) (congrArg (s.m_queuestat + ·) hcount) hallows fun request h => ?_
  rwa [hpushed] at h

end Moves

omit [DecidableEq τ] in
/-- A thread that has passed the semaphore and holds the mutex finds a request. -/
theorem Pool.ne_nil (hs : Pool s) (ht : (s.pc t).uncounted = 1) : s.m_workqueue ≠ [] := by
  intro hnil
  have hle := weight_le_total Pc.uncounted s.pc t
  have hcounted := hs.counted
  rw [hnil, List.length_nil] at hcounted
  omega

omit [DecidableEq τ] [Fintype τ] in
/-- A thread without the mutex depends on the records only. -/
theorem State.Allows.outside (hy : s.Allows y) (hout : ¬ y.Holds)
    (hqueued : ∀ request ∈ s.queued, request ∈ s'.queued) (hreturned : s'.returned = s.returned) : s'.Allows y := by
  cases y with
  | post request => exact ⟨hqueued _ hy.1, hreturned ▸ hy.2⟩
  | unlockEmpty | pop | appendUnlock => exact absurd trivial hout
  | _ => trivial

/-- When the thread with the mutex changes the queue, the others depend on the records
only. -/
theorem Pool.places_update (hs : Pool s) (ht : (s.pc t).Holds) (hx : s'.Allows x)
    (hqueued : ∀ request ∈ s.queued, request ∈ s'.queued) (hreturned : s'.returned = s.returned) (u : τ) :
    s'.Allows (Function.update s.pc t x u) := by
  by_cases hut : u = t
  · subst hut
    rwa [Function.update_self]
  · rw [Function.update_of_ne hut]
    exact (hs.places u).outside (fun hu => hut (hs.mutex.eq_of_inside hu ht)) hqueued hreturned

omit [DecidableEq τ] in
/-- What a call has queued is on record, and not reported yet. -/
theorem Pool.pushed_mem (hs : Pool s) (ht : (s.pc t).pushed = some request) :
    request ∈ s.queued ∧ request ∉ s.returned := by
  have hplace := hs.places t
  cases hpc : s.pc t with
  | appendUnlock r | post r =>
    rw [hpc] at ht hplace
    cases ht
    exact hplace
  | _ =>
    rw [hpc] at ht
    cases ht

omit [DecidableEq τ] in
/-- The number of a new request is that of no other one. -/
theorem Pool.new_notMem (hs : Pool s) (ptr : Option α) : (⟨s.queued.length, ptr⟩ : Request α) ∉ s.queued := by
  intro hmem
  have hnumber := List.mem_map_of_mem (f := Request.number) hmem
  rw [hs.numbered, List.mem_range] at hnumber
  exact absurd hnumber (Nat.lt_irrefl _)

/-- `m_workqueue.push_back( request )` -/
theorem Pool.push (hs : Pool s) {ptr : Option α} (ht : s.pc t = .push ptr) :
    Pool { s.goto t (.appendUnlock ⟨s.queued.length, ptr⟩) with
      m_workqueue := s.m_workqueue ++ [⟨s.queued.length, ptr⟩]
      queued := s.queued ++ [⟨s.queued.length, ptr⟩] } where
  running := hs.running
  mutex := hs.mutex.move (by rw [ht]; exact Iff.rfl)
  order := by
    change s.queued ++ _ = s.taken.map Prod.snd ++ (s.m_workqueue ++ _)
    rw [hs.order, List.append_assoc]
  numbered := by
    change (s.queued ++ _).map Request.number = _
    rw [List.map_append, hs.numbered, List.length_append, List.length_singleton, List.range_succ]
    rfl
  counted := by
    have htotal := total_update Pc.uncounted s.pc t (.appendUnlock ⟨s.queued.length, ptr⟩)
    have hcounted := hs.counted
    rw [ht] at htotal
    change (s.m_workqueue ++ _).length = s.m_queuestat + total Pc.uncounted (Function.update s.pc t _)
    rw [List.length_append, List.length_singleton]
    change _ + 0 = _ + 1 at htotal
    omega
  places := by
    refine hs.places_update (by rw [ht]; trivial) ⟨?_, fun hmem => hs.new_notMem ptr (hs.returned.2 _ hmem)⟩
      (fun request h => List.mem_append_left _ h) rfl
    exact List.mem_append_right _ (List.mem_singleton_self _)
  own := owner_update hs.own fun u _ request hu hnew => by
    cases hnew
    exact hs.new_notMem ptr (hs.pushed_mem hu).1
  returned := ⟨hs.returned.1, fun request h => List.mem_append_left _ (hs.returned.2 request h)⟩

/-- `m_workqueue.pop_front()` -/
theorem Pool.pop (hs : Pool s) (ht : s.pc t = .pop request) :
    Pool { s.goto t (.unlock request) with
      m_workqueue := s.m_workqueue.tail
      taken := s.taken ++ [(t, request)] } := by
  have hfirst : s.m_workqueue.head? = some request := by
    have := hs.places t
    rwa [ht] at this
  obtain ⟨rest, hqueue⟩ := List.head?_eq_some_iff.mp hfirst
  exact {
    running := hs.running
    mutex := hs.mutex.move (by rw [ht]; exact Iff.rfl)
    order := by
      change s.queued = (s.taken ++ [(t, request)]).map Prod.snd ++ s.m_workqueue.tail
      rw [hs.order, hqueue, List.map_append, List.append_assoc]
      rfl
    numbered := hs.numbered
    counted := by
      have htotal := total_update Pc.uncounted s.pc t (.unlock request)
      have hcounted := hs.counted
      rw [ht] at htotal
      change _ + 1 = _ + 0 at htotal
      change s.m_workqueue.tail.length = s.m_queuestat + total Pc.uncounted (Function.update s.pc t _)
      rw [hqueue, List.length_cons] at hcounted
      rw [hqueue, List.tail_cons]
      omega
    places := hs.places_update (by rw [ht]; trivial) trivial (fun _ h => h) rfl
    own := hs.own_update fun r hr => by cases hr
    returned := hs.returned }

omit [DecidableEq τ] [Fintype τ] in
/-- The report of a request concerns no thread but the one that has queued it. -/
theorem State.Allows.report (hy : s.Allows y)
    (hne : y.pushed ≠ some request) (hqueue : s'.m_workqueue = s.m_workqueue) (hqueued : s'.queued = s.queued)
    (hreturned : s'.returned = s.returned ++ [request]) : s'.Allows y := by
  have hnew : ∀ r, r ≠ request → r ∉ s.returned → r ∉ s'.returned := by
    intro r hr hold hmem
    rw [hreturned, List.mem_append, List.mem_singleton] at hmem
    exact hmem.elim hold hr
  cases y with
  | pop r => exact (congrArg List.head? hqueue).trans hy
  | appendUnlock r | post r => exact ⟨hqueued ▸ hy.1, hnew r (fun heq => hne (congrArg some heq)) hy.2⟩
  | unlockEmpty => exact hy
  | _ => trivial

/-- `m_queuestat.post()` and the return of true. -/
theorem Pool.post (hs : Pool s) (ht : s.pc t = .post request) :
    Pool { s.goto t .idle with m_queuestat := s.m_queuestat + 1, returned := s.returned ++ [request] } := by
  have hpushed : (s.pc t).pushed = some request := by rw [ht]; rfl
  obtain ⟨hmem, hnew⟩ := hs.pushed_mem hpushed
  exact {
    running := hs.running
    mutex := hs.mutex.move (by rw [ht]; exact Iff.rfl)
    order := hs.order
    numbered := hs.numbered
    counted := by
      have htotal := total_update Pc.uncounted s.pc t .idle
      have hcounted := hs.counted
      rw [ht] at htotal
      change _ + 1 = _ + 0 at htotal
      change s.m_workqueue.length = s.m_queuestat + 1 + total Pc.uncounted (Function.update s.pc t _)
      omega
    places u := by
      change State.Allows _ (Function.update s.pc t _ u)
      by_cases hut : u = t
      · rw [hut, Function.update_self]
        trivial
      · rw [Function.update_of_ne hut]
        exact (hs.places u).report (fun hu => hut (hs.own u t request hu hpushed)) rfl rfl rfl
    own := hs.own_update fun r hr => by cases hr
    returned := by
      refine ⟨List.nodup_append.mpr ⟨hs.returned.1, List.nodup_singleton _, ?_⟩, fun r hr => ?_⟩
      · intro a ha b hb heq
        rw [List.mem_singleton.mp hb] at heq
        exact hnew (heq ▸ ha)
      · rcases List.mem_append.mp hr with hr | hr
        · exact hs.returned.2 r hr
        · rw [List.mem_singleton.mp hr]
          exact hmem }

/-- One action of a thread keeps the pool. -/
theorem Pool.action (hs : Pool s) (h : step m_max_requests t s = some s') : Pool s' := by
  have hplace := hs.places t
  revert h
  rw [step]
  cases hpc : s.pc t with
  | whileTest =>
    rw [hs.running]
    rintro ⟨⟩
    exact hs.goto hpc Iff.rfl rfl trivial rfl
  | wait =>
    intro h
    dsimp only at h
    split at h
    next hpos =>
      cases h
      refine hs.move (hs.mutex.move (by rw [hpc]; exact Iff.rfl)) ?_ trivial fun _ hr => by cases hr
      rw [hpc]
      change s.m_queuestat - 1 + 1 = s.m_queuestat + 0
      omega
    next => cases h
  | lock =>
    intro h
    dsimp only at h
    exact hs.lockTo hpc h trivial rfl trivial rfl
  | emptyTest =>
    have hne : s.m_workqueue ≠ [] := hs.ne_nil (t := t) (by rw [hpc]; rfl)
    rw [if_neg hne]
    rintro ⟨⟩
    exact hs.goto hpc Iff.rfl rfl trivial rfl
  | unlockEmpty =>
    rw [hpc] at hplace
    exact hplace.elim
  | front =>
    intro h
    obtain ⟨request, hhead, rfl⟩ := Option.map_eq_some_iff.mp h
    exact hs.goto hpc Iff.rfl rfl hhead rfl
  | pop request =>
    rintro ⟨⟩
    exact hs.pop hpc
  | unlock request =>
    rintro ⟨⟩
    exact hs.unlockTo hpc trivial id rfl trivial rfl
  | nullTest request =>
    rintro ⟨⟩
    split <;> exact hs.goto hpc Iff.rfl rfl trivial rfl
  | process request =>
    rintro ⟨⟩
    exact hs.goto hpc Iff.rfl rfl trivial rfl
  | stopped | idle => rintro ⟨⟩
  | appendLock ptr =>
    intro h
    dsimp only at h
    exact hs.lockTo hpc h trivial rfl trivial rfl
  | sizeTest ptr =>
    rintro ⟨⟩
    split <;> exact hs.goto hpc Iff.rfl rfl trivial rfl
  | unlockFull =>
    rintro ⟨⟩
    exact hs.unlockTo hpc trivial id rfl trivial rfl
  | push ptr =>
    rintro ⟨⟩
    exact hs.push hpc
  | appendUnlock request =>
    rintro ⟨⟩
    rw [hpc] at hplace
    exact hs.unlockTo hpc trivial id rfl hplace rfl
  | post request =>
    rintro ⟨⟩
    exact hs.post hpc

theorem Reachable.pool {role : τ → Role} (hreach : Reachable m_max_requests role s) : Pool s := by
  induction hreach with
  | refl => exact pool_initial role
  | tail _ hstep hs =>
    cases hstep with
    | action t h => exact hs.action h
    | call t ptr h => exact hs.goto h Iff.rfl rfl trivial rfl

/-- The function in which a thread is. -/
def Pc.role : Pc α → Role
  | .idle | .appendLock _ | .sizeTest _ | .unlockFull | .push _ | .appendUnlock _ | .post _ => .caller
  | _ => .worker

/-- A thread stays in its function, and only the workers take requests. -/
structure Roles (role : τ → Role) (s : State τ α) : Prop where
  place : ∀ t, (s.pc t).role = role t
  taken : ∀ t request, (t, request) ∈ s.taken → role t = .worker

omit [Fintype τ] in
/-- An action moves one thread inside its function, and only `pop_front` takes. -/
theorem step_moves (h : step m_max_requests t s = some s') :
    ∃ x, s'.pc = Function.update s.pc t x ∧ x.role = (s.pc t).role ∧
      (s'.taken = s.taken ∨ x.role = .worker ∧ ∃ request, s'.taken = s.taken ++ [(t, request)]) := by
  revert h
  rw [step]
  cases hpc : s.pc t with
  | pop request =>
    rintro ⟨⟩
    exact ⟨_, rfl, rfl, .inr ⟨rfl, request, rfl⟩⟩
  | wait =>
    intro h
    dsimp only at h
    split at h
    · cases h
      exact ⟨_, rfl, rfl, .inl rfl⟩
    · cases h
  | lock | appendLock =>
    intro h
    dsimp only [State.lockTo] at h
    split at h
    · cases h
      exact ⟨_, rfl, rfl, .inl rfl⟩
    · cases h
  | front =>
    intro h
    obtain ⟨request, _, rfl⟩ := Option.map_eq_some_iff.mp h
    exact ⟨_, rfl, rfl, .inl rfl⟩
  | stopped | idle => rintro ⟨⟩
  | whileTest | emptyTest | nullTest | sizeTest =>
    rintro ⟨⟩
    refine ⟨_, rfl, ?_, .inl rfl⟩
    split <;> rfl
  | _ =>
    rintro ⟨⟩
    exact ⟨_, rfl, rfl, .inl rfl⟩

omit [Fintype τ] in
theorem Roles.action {role : τ → Role} (hs : Roles role s)
    (h : step m_max_requests t s = some s') : Roles role s' := by
  obtain ⟨x, hpc, hrole, htaken⟩ := step_moves h
  refine ⟨?_, fun u request hmem => ?_⟩
  · rw [hpc]
    exact forall_update (P := fun u y => Pc.role y = role u) (hrole.trans (hs.place t)) hs.place
  · rcases htaken with heq | ⟨hworker, r, heq⟩
    · exact hs.taken u request (heq ▸ hmem)
    · rw [heq, List.mem_append, List.mem_singleton] at hmem
      rcases hmem with hmem | hmem
      · exact hs.taken u request hmem
      · cases hmem
        rw [← hs.place, ← hrole, hworker]

omit [Fintype τ] in
theorem Reachable.roles {role : τ → Role} (hreach : Reachable m_max_requests role s) : Roles role s := by
  induction hreach with
  | refl =>
    refine ⟨fun t => ?_, fun t request h => by cases h⟩
    cases h : role t <;> simp [initial, h, Role.start, Pc.role]
  | tail _ hstep hs =>
    cases hstep with
    | action t h => exact hs.action h
    | call t ptr h =>
      have hrole := hs.place t
      rw [h] at hrole
      exact ⟨forall_update (P := fun u y => Pc.role y = role u) hrole hs.place, hs.taken⟩

omit [DecidableEq τ] in
/-- All queued requests are different, by their numbers. -/
theorem Pool.queued_nodup (hs : Pool s) : (s.taken.map Prod.snd ++ s.m_workqueue).Nodup := by
  rw [← hs.order]
  refine List.Nodup.of_map Request.number ?_
  rw [hs.numbered]
  exact List.nodup_range

/-- For every number of workers and appending threads and in every interleaving before
the pool is destroyed: a request whose `append` has returned true is in the queue and no
thread has taken it, or it is not in the queue and has been taken once, by a worker; no
two calls have returned true for the same queued request; the requests are taken in the
order in which they were queued; and a worker that has passed the semaphore never finds
the queue empty. -/
theorem append_taken_once (m_max_requests : Nat) (role : τ → Role) (s : State τ α)
    (hreach : Reachable m_max_requests role s) :
    (∀ request ∈ s.returned,
      (request ∈ s.m_workqueue ∧ ∀ t, (t, request) ∉ s.taken) ∨
      request ∉ s.m_workqueue ∧ ∃ before t after, s.taken = before ++ (t, request) :: after ∧ role t = .worker ∧
        ∀ u, (u, request) ∉ before ∧ (u, request) ∉ after) ∧
    s.returned.Nodup ∧ s.taken.map Prod.snd <+: s.queued ∧
    ∀ t, s.pc t ≠ .unlockEmpty ∧ (s.pc t = .emptyTest → s.m_workqueue ≠ []) := by
  have hs := hreach.pool
  have hnodup := hs.queued_nodup
  rw [List.nodup_append] at hnodup
  obtain ⟨htaken, _, hapart⟩ := hnodup
  refine ⟨fun request hmem => ?_, hs.returned.1, hs.order ▸ List.prefix_append _ _,
    fun t => ⟨fun hpc => ?_, fun hpc => ?_⟩⟩
  · have hqueued := hs.returned.2 request hmem
    rw [hs.order, List.mem_append] at hqueued
    by_cases hin : request ∈ s.m_workqueue
    · exact .inl ⟨hin, fun t ht => hapart request (List.mem_map_of_mem (f := Prod.snd) ht) request hin rfl⟩
    · obtain ⟨⟨t, r⟩, ht, rfl⟩ := List.mem_map.mp (hqueued.resolve_right hin)
      obtain ⟨before, after, hsplit⟩ := List.append_of_mem ht
      refine .inr ⟨hin, before, t, after, hsplit, hreach.roles.taken t r ht, fun u => ?_⟩
      rw [hsplit, List.map_append, List.map_cons, List.nodup_append, List.nodup_cons] at htaken
      obtain ⟨_, ⟨hafter, _⟩, hbefore⟩ := htaken
      constructor
      · exact fun hu => hbefore r (List.mem_map_of_mem (f := Prod.snd) hu) r List.mem_cons_self rfl
      · exact fun hu => hafter (List.mem_map.mpr ⟨(u, r), hu, rfl⟩)
  · have hplace := hs.places t
    rw [hpc] at hplace
    exact hplace
  · exact hs.ne_nil (t := t) (by rw [hpc]; rfl)

omit [Fintype τ] in
theorem Reachable.actions {role : τ → Role} (hs : Reachable m_max_requests role s) (threads : List τ)
    (h : threads.foldlM (fun s t => step m_max_requests t s) s = some s') : Reachable m_max_requests role s' := by
  induction threads generalizing s with
  | nil => exact Option.some.inj h ▸ hs
  | cons t threads ih =>
    obtain ⟨next, hstep, hrest⟩ := Option.bind_eq_some_iff.mp h
    exact ih (hs.tail (.action t hstep)) hrest

/-- Two requests have been queued, and the worker has taken the first one. -/
theorem append_taken_once_two :
    let role : Bool → Role := fun t => if t then .worker else .caller
    ∃ s : State Bool Nat, Reachable 1 role s ∧ s.returned = [⟨0, some 7⟩, ⟨1, some 8⟩] ∧
      (⟨0, some 7⟩ ∉ s.m_workqueue ∧ ∃ before t after, s.taken = before ++ (t, ⟨0, some 7⟩) :: after ∧
        role t = .worker ∧ ∀ u, (u, ⟨0, some 7⟩) ∉ before ∧ (u, ⟨0, some 7⟩) ∉ after) ∧
      ⟨1, some 8⟩ ∈ s.m_workqueue ∧ ∀ t, (t, ⟨1, some 8⟩) ∉ s.taken := by
  intro role
  have hcall : Reachable 1 role ((initial role : State Bool Nat).goto false (.appendLock (some 7))) :=
    .single (.call false (some 7) rfl)
  have htaken := hcall.actions (List.replicate 5 false ++ List.replicate 7 true) rfl
  have hreach := Reachable.actions (htaken.tail (.call false (some 8) rfl)) (List.replicate 5 false) rfl
  obtain ⟨honce, -⟩ := append_taken_once 1 role _ hreach
  exact ⟨_, hreach, rfl, (honce _ List.mem_cons_self).resolve_left fun h => h.2 true List.mem_cons_self,
    (honce _ (List.mem_cons_of_mem _ List.mem_cons_self)).resolve_right fun h => h.1 List.mem_cons_self⟩

end basic_data_struct.threadpool
