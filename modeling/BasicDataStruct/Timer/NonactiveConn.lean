import BasicDataStruct.Timer.SortedHistory

open machine machine.Exec runs basic_data_struct.lst_timer

namespace basic_data_struct.nonactive_conn

variable {client : Nat × Int} {fd timer : Nat} {h' : Heap util_timer} {lst' : sort_timer_lst}
  {items' : List (Nat × timer_data)} {cur : Int}

abbrev FD_LIMIT : Nat := 65535

abbrev TIMESLOT : Int := 5

/-- The fields of a client that the server reads again. The address is never read, and the buffer is only
printed. -/
structure client_data where
  sockfd : Nat
  timer : Ptr
deriving DecidableEq

/-- The signals that the handler passes on through the pipe. -/
inductive Signal where
  | SIGALRM
  | SIGTERM
deriving DecidableEq

/-- What `recv` gives: -1 with `EAGAIN`, -1 with another error, 0, or a number of bytes. -/
inductive Received where
  | again
  | error
  | closed
  | bytes
deriving DecidableEq

/-- An event that `epoll_wait` reports, with what the calls made for it give: the descriptor from `accept`, if it is
not -1, the address from `new`, the signals in the pipe, the result of `recv`, and the time. -/
inductive Event where
  | listenfd (connfd : Option Nat) (timer : Nat) (cur : Int)
  | pipefd (signals : List Signal)
  | sockfd (fd : Nat) (ret : Received) (cur : Int)
  | others
deriving DecidableEq

/-- The globals and the locals of `main`, and the descriptors of clients that are open. -/
structure Server where
  timer_lst : sort_timer_lst
  users : Nat → client_data
  opened : Nat → Bool
  timeout : Bool
  stop_server : Bool

/-- The state in front of the loop. The array `users` is not initialised. -/
def Server.start (users : Nat → client_data) : Server where
  timer_lst := .empty
  users
  opened _ := false
  timeout := false
  stop_server := false

/-- A descriptor that is not open has been released. -/
def Server.close (srv : Server) (fd : Nat) : Prog Server :=
  if srv.opened fd then return { srv with opened := Function.update srv.opened fd false } else fail .null

/-- The callback of every timer, for the client at an index of `users`. -/
def Server.cb_func (srv : Server) (user : Nat) : Prog Server := srv.close (srv.users user).sockfd

def Server.call_back : List (Ptr × timer_data) → Server → Prog Server
  | [], srv => return srv
  | call :: calls, srv => do call_back calls (← srv.cb_func call.2.user_data)

/-- `tick` calls the callbacks while it removes their timers; they do not touch the list. -/
def Server.timer_handler (fuel : Nat) (srv : Server) (cur : Int) : Prog Server := do
  let (timer_lst, calls) ← (Op.tick cur).exec fuel srv.timer_lst
  { srv with timer_lst := timer_lst }.call_back calls

/-- The branch for a new client: the timer is made, filled in and added. A failed `accept` is not noticed and leads
in front of the array. -/
def Server.on_listenfd (fuel : Nat) (srv : Server) (connfd : Option Nat) (timer : Nat) (cur : Int) : Prog Server :=
  match connfd with
  | none => fail .bounds
  | some connfd => do
    inBounds connfd FD_LIMIT
    let (timer_lst, _) ← (Op.add timer ⟨cur + 3 * TIMESLOT, connfd⟩).exec fuel srv.timer_lst
    return { srv with
      timer_lst := timer_lst
      users := Function.update srv.users connfd ⟨connfd, some timer⟩
      opened := Function.update srv.opened connfd true }

def Server.on_pipefd (srv : Server) (signals : List Signal) : Server :=
  { srv with
    timeout := srv.timeout || signals.contains .SIGALRM
    stop_server := srv.stop_server || signals.contains .SIGTERM }

/-- The connection is closed, and its timer deleted if there is one. -/
def Server.drop_client (fuel : Nat) (srv : Server) (sockfd : Nat) (timer : Ptr) : Prog Server := do
  let srv ← srv.cb_func sockfd
  match timer with
  | none => return srv
  | some timer =>
    let (timer_lst, _) ← (Op.del timer).exec fuel srv.timer_lst
    return { srv with timer_lst := timer_lst }

/-- The branch for data of a client. -/
def Server.on_sockfd (fuel : Nat) (srv : Server) (sockfd : Nat) (ret : Received) (cur : Int) : Prog Server := do
  inBounds sockfd FD_LIMIT
  let timer := (srv.users sockfd).timer
  match ret with
  | .again => return srv
  | .error | .closed => srv.drop_client fuel sockfd timer
  | .bytes =>
    match timer with
    | none => return srv
    | some timer =>
      let (timer_lst, _) ← (Op.adjust timer (cur + 3 * TIMESLOT)).exec fuel srv.timer_lst
      return { srv with timer_lst := timer_lst }

def Server.handle (fuel : Nat) (srv : Server) : Event → Prog Server
  | .listenfd connfd timer cur => srv.on_listenfd fuel connfd timer cur
  | .pipefd signals => return srv.on_pipefd signals
  | .sockfd fd ret cur => srv.on_sockfd fuel fd ret cur
  | .others => return srv

/-- The `for` loop over the events. -/
def Server.handle_all (fuel : Nat) : List Event → Server → Prog Server
  | [], srv => return srv
  | event :: events, srv => do handle_all fuel events (← srv.handle fuel event)

/-- What one call of `epoll_wait` reports, and the time at which the timers are looked at if the alarm was among it. -/
structure Round where
  events : List Event
  cur : Int

/-- The body of the `while` loop. -/
def Server.round (fuel : Nat) (srv : Server) (r : Round) : Prog Server := do
  let srv ← srv.handle_all fuel r.events
  if srv.timeout then
    let srv ← srv.timer_handler fuel r.cur
    return { srv with timeout := false }
  else return srv

def Server.serve (fuel : Nat) : List Round → Server → Prog Server
  | [], srv => return srv
  | r :: rounds, srv => if srv.stop_server then return srv else do serve fuel rounds (← srv.round fuel r)

/-- What the server is for: the clients that are connected, each with the address of its timer and the time up to
which it may be silent. -/
structure Watch where
  clients : Nat → Option (Nat × Int)
  now : Int
  timeout : Bool
  stop_server : Bool

def Watch.start (now : Int) : Watch where
  clients _ := none
  now
  timeout := false
  stop_server := false

/-- A client that is heard of may be silent for three time slots more. -/
def Watch.handle (w : Watch) : Event → Watch
  | .listenfd (some fd) timer cur =>
    { w with clients := Function.update w.clients fd (some (timer, cur + 3 * TIMESLOT)), now := cur }
  | .sockfd fd .bytes cur =>
    { w with
      clients := Function.update w.clients fd ((w.clients fd).map fun client => (client.1, cur + 3 * TIMESLOT))
      now := cur }
  | .sockfd fd .error _ | .sockfd fd .closed _ => { w with clients := Function.update w.clients fd none }
  | .pipefd signals =>
    { w with
      timeout := w.timeout || signals.contains .SIGALRM
      stop_server := w.stop_server || signals.contains .SIGTERM }
  | _ => w

/-- At an alarm the clients are dropped that have been silent for too long. -/
def Watch.expire (w : Watch) (cur : Int) : Watch :=
  { w with clients := fun fd => (w.clients fd).filter fun client => cur < client.2, now := cur, timeout := false }

def Watch.round (w : Watch) (r : Round) : Watch :=
  let w := r.events.foldl Watch.handle w
  if w.timeout then w.expire r.cur else w

def Watch.serve : List Round → Watch → Watch
  | [], w => w
  | r :: rounds, w => if w.stop_server then w else serve rounds (w.round r)

/-- What the system calls guarantee: `accept` gives a descriptor that is not open, `new` an address that is not in use,
`epoll_wait` reports descriptors that are open, and the time does not run backwards. That `accept` succeeds, with a
descriptor below the limit, is not guaranteed but needed. -/
def Watch.Permits (w : Watch) : Event → Prop
  | .listenfd connfd timer cur => ∃ fd, connfd = some fd ∧ fd < FD_LIMIT ∧ w.clients fd = none ∧ w.now ≤ cur ∧
      ∀ fd' client, w.clients fd' = some client → client.1 ≠ timer
  | .sockfd fd _ cur => w.clients fd ≠ none ∧ w.now ≤ cur
  | _ => True

def Watch.PermitsRound (w : Watch) (r : Round) : Prop :=
  Each Watch.handle Watch.Permits w r.events ∧ (r.events.foldl Watch.handle w).now ≤ r.cur

def Watch.PermitsAll : List Round → Watch → Prop
  | [], _ => True
  | r :: rounds, w => w.stop_server = true ∨ w.PermitsRound r ∧ PermitsAll rounds (w.round r)

/-- The timers are those of the clients, one for each. -/
def TimersOf (clients : Nat → Option (Nat × Int)) (m : Members) : Prop :=
  ∀ a d, m a = some d ↔ clients d.user_data = some (a, d.expire)

/-- The list holds one timer for each client, at the address that `users` has for it, and the open descriptors are
those of the clients. -/
structure Serves (h : Heap util_timer) (srv : Server) (size : Nat) (w : Watch) : Prop where
  timers : ∃ items m, Holds h srv.timer_lst items m ∧ items.length ≤ size ∧
    TimersOf w.clients m
  users : ∀ fd client, w.clients fd = some client → srv.users fd = ⟨fd, some client.1⟩
  opened : ∀ fd, srv.opened fd = (w.clients fd).isSome
  limit : ∀ fd, w.clients fd ≠ none → fd < FD_LIMIT
  recent : ∀ fd client, w.clients fd = some client → client.2 ≤ w.now + 3 * TIMESLOT
  timeout : srv.timeout = w.timeout
  stop_server : srv.stop_server = w.stop_server

/-- A computation of the server does what the specification says. -/
def Refines (size : Nat) (w : Watch) (run : Except Fault (Server × Heap util_timer)) : Prop :=
  ∃ srv h, run = .ok (srv, h) ∧ Serves h srv size w

variable {h : Heap util_timer} {srv : Server} {w : Watch} {size fuel : Nat}

theorem serves_start (raw : Nat → util_timer) (users : Nat → client_data) (now : Int) :
    Serves (.empty raw) (.start users) 0 (.start now) where
  timers := ⟨[], fun _ => none, .empty raw, Nat.le_refl 0, fun _ _ =>
    iff_of_false (fun h => nomatch h) fun h => nomatch h⟩
  users _ _ h := nomatch h
  opened _ := rfl
  limit _ h := absurd rfl h
  recent _ _ h := nomatch h
  timeout := rfl
  stop_server := rfl

section TimersOf

variable {clients : Nat → Option (Nat × Int)} {m : Members} {fd a : Nat}

/-- The client `fd` and the timer at `a` belong together, or are both new. -/
def Belong (clients : Nat → Option (Nat × Int)) (fd a : Nat) : Prop :=
  ∀ fd' client, clients fd' = some client → (client.1 = a ↔ fd' = fd)

theorem TimersOf.belong (hm : TimersOf clients m) (hfd : clients fd = some client) : Belong clients fd client.1 := by
  intro fd' client' hfd'
  have ha : m client.1 = some ⟨client.2, fd⟩ := (hm client.1 ⟨client.2, fd⟩).mpr hfd
  have ha' : m client'.1 = some ⟨client'.2, fd'⟩ := (hm client'.1 ⟨client'.2, fd'⟩).mpr hfd'
  constructor
  · intro heq
    rw [heq, ha] at ha'
    exact (congrArg timer_data.user_data (Option.some.inj ha')).symm
  · rintro rfl
    rw [Option.some.inj (hfd.symm.trans hfd')]

theorem TimersOf.set (hm : TimersOf clients m) (hbelong : Belong clients fd a) (expire : Int) :
    TimersOf (Function.update clients fd (some (a, expire))) (Function.update m a (some ⟨expire, fd⟩)) := by
  intro b d
  by_cases hb : b = a
  · subst hb
    rw [Function.update_self]
    by_cases hfd : d.user_data = fd
    · subst hfd
      rw [Function.update_self, Option.some_inj, Option.some_inj, Prod.mk.injEq]
      exact ⟨fun heq => ⟨rfl, congrArg timer_data.expire heq⟩, fun heq => congrArg (timer_data.mk · d.user_data) heq.2⟩
    · rw [Function.update_of_ne hfd]
      refine iff_of_false (fun heq => hfd ?_) fun heq => hfd ((hbelong _ _ heq).mp rfl)
      rw [← Option.some.inj heq]
  · rw [Function.update_of_ne hb, hm]
    by_cases hfd : d.user_data = fd
    · rw [hfd, Function.update_self]
      refine iff_of_false (fun heq => hb ((hbelong _ _ heq).mpr rfl)) fun heq => hb ?_
      exact (congrArg Prod.fst (Option.some.inj heq)).symm
    · rw [Function.update_of_ne hfd]

theorem TimersOf.remove (hm : TimersOf clients m) (hbelong : Belong clients fd a) :
    TimersOf (Function.update clients fd none) (Function.update m a none) := by
  intro b d
  by_cases hfd : d.user_data = fd
  · rw [hfd, Function.update_self]
    refine iff_of_false (fun heq => ?_) fun heq => nomatch heq
    by_cases hb : b = a
    · rw [hb, Function.update_self] at heq
      cases heq
    · rw [Function.update_of_ne hb, hm, hfd] at heq
      exact hb ((hbelong _ _ heq).mpr rfl)
  · rw [Function.update_of_ne hfd]
    by_cases hb : b = a
    · rw [hb, Function.update_self]
      exact iff_of_false (fun heq => nomatch heq) fun heq => hfd ((hbelong _ _ heq).mp rfl)
    · rw [Function.update_of_ne hb, hm]

theorem TimersOf.expire (hm : TimersOf clients m) (cur : Int) :
    TimersOf (fun fd => (clients fd).filter fun client => cur < client.2) (m.apply (.tick cur)) := by
  intro a d
  rw [Members.apply, Option.filter_eq_some_iff, Option.filter_eq_some_iff, hm]

variable {calls : List (Ptr × timer_data)} {cur : Int}

/-- A callback that `tick` makes is for a client whose time is over. -/
theorem TimersOf.of_mem_calls (hm : TimersOf clients m) (hdue : Due m (.tick cur) calls) {call : Ptr × timer_data}
    (hmem : call ∈ calls) :
    ∃ a, call.1 = some a ∧ clients call.2.user_data = some (a, call.2.expire) ∧ call.2.expire ≤ cur := by
  obtain ⟨a, hp, ha, hle⟩ := (hdue.2.2 call.1 call.2).mp hmem
  exact ⟨a, hp, (hm a call.2).mp ha, hle⟩

theorem TimersOf.calls_nodup (hm : TimersOf clients m) (hdue : Due m (.tick cur) calls) :
    (calls.map fun call => call.2.user_data).Nodup := by
  refine List.pairwise_map.mpr ((List.pairwise_map.mp hdue.1).imp_of_mem ?_)
  intro x y hx hy hne heq
  obtain ⟨a, ha, hclient, -⟩ := hm.of_mem_calls hdue hx
  obtain ⟨b, hb, hclient', -⟩ := hm.of_mem_calls hdue hy
  rw [heq, hclient', Option.some_inj, Prod.mk.injEq] at hclient
  exact hne (by rw [ha, hb, hclient.1])

theorem TimersOf.mem_calls_iff (hm : TimersOf clients m) (hdue : Due m (.tick cur) calls)
    (hclient : clients fd = some client) : (fd ∈ calls.map fun call => call.2.user_data) ↔ client.2 ≤ cur := by
  rw [List.mem_map]
  constructor
  · rintro ⟨call, hmem, rfl⟩
    obtain ⟨a, -, hclient', hle⟩ := hm.of_mem_calls hdue hmem
    rw [hclient, Option.some_inj] at hclient'
    rwa [hclient']
  · intro hle
    exact ⟨(some client.1, ⟨client.2, fd⟩),
      (hdue.2.2 _ _).mpr ⟨client.1, rfl, (hm client.1 ⟨client.2, fd⟩).mpr hclient, hle⟩, rfl⟩

end TimersOf

theorem run_close (hopen : srv.opened fd = true) (hfd : (srv.users fd).sockfd = fd) :
    (srv.cb_func fd).run h = .ok ({ srv with opened := Function.update srv.opened fd false }, h) := by
  rw [Server.cb_func, hfd, Server.close, if_pos hopen, run_pure]

/-- Callbacks for different clients close their descriptors. -/
theorem run_call_back {calls : List (Ptr × timer_data)}
    (hopen : ∀ call ∈ calls, srv.opened call.2.user_data = true)
    (husers : ∀ call ∈ calls, (srv.users call.2.user_data).sockfd = call.2.user_data)
    (hnodup : (calls.map fun call => call.2.user_data).Nodup) :
    (srv.call_back calls).run h =
      .ok ({ srv with opened := fun fd => srv.opened fd && fd ∉ calls.map fun call => call.2.user_data }, h) := by
  induction calls generalizing srv with
  | nil => simp [Server.call_back]
  | cons call calls ih =>
    rw [List.map_cons, List.nodup_cons] at hnodup
    obtain ⟨hfirst, hrest⟩ := List.forall_mem_cons.mp hopen
    obtain ⟨hfd, husers⟩ := List.forall_mem_cons.mp husers
    have hstill : ∀ other ∈ calls, Function.update srv.opened call.2.user_data false other.2.user_data = true := by
      intro other hother
      have hne : other.2.user_data ≠ call.2.user_data :=
        fun heq => hnodup.1 (heq ▸ List.mem_map_of_mem (f := fun call => call.2.user_data) hother)
      rw [Function.update_of_ne hne]
      exact hrest other hother
    have hcalls := @ih { srv with opened := Function.update srv.opened call.2.user_data false } hstill husers hnodup.2
    rw [Server.call_back, run_bind_of_ok (run_close hfirst hfd), hcalls]
    congr 3
    funext fd
    rw [List.map_cons]
    by_cases heq : fd = call.2.user_data
    · simp [heq]
    · simp [heq, beq_eq_false_iff_ne.mpr heq]

section

variable (hs : Serves h srv size w)
include hs

/-- A client and its timer are set. -/
theorem Serves.set {m : Members} (hlimit : fd < FD_LIMIT) (hnow : w.now ≤ cur)
    (hm : TimersOf w.clients m) (hbelong : Belong w.clients fd timer)
    (hold' : Holds h' lst' items' (Function.update m timer (some ⟨cur + 3 * TIMESLOT, fd⟩)))
    (hlen' : items'.length ≤ size + 1) :
    Serves h' { srv with
      timer_lst := lst'
      users := Function.update srv.users fd ⟨fd, some timer⟩
      opened := Function.update srv.opened fd true } (size + 1)
      { w with clients := Function.update w.clients fd (some (timer, cur + 3 * TIMESLOT)), now := cur } where
  timers := ⟨items', _, hold', hlen', hm.set hbelong _⟩
  users x client hclient := by
    dsimp only at hclient ⊢
    by_cases hx : x = fd
    · subst hx
      rw [Function.update_self] at hclient ⊢
      cases hclient
      rfl
    · rw [Function.update_of_ne hx] at hclient ⊢
      exact hs.users x client hclient
  opened x := by
    dsimp only
    by_cases hx : x = fd
    · rw [hx, Function.update_self, Function.update_self, Option.isSome_some]
    · rw [Function.update_of_ne hx, Function.update_of_ne hx, hs.opened]
  limit x hclient := by
    dsimp only at hclient
    by_cases hx : x = fd
    · exact hx ▸ hlimit
    · rw [Function.update_of_ne hx] at hclient
      exact hs.limit x hclient
  recent x client hclient := by
    dsimp only at hclient ⊢
    by_cases hx : x = fd
    · subst hx
      rw [Function.update_self] at hclient
      cases hclient
      exact Int.le_refl _
    · rw [Function.update_of_ne hx] at hclient
      exact Int.le_trans (hs.recent x client hclient) (Int.add_le_add_right hnow _)
  timeout := hs.timeout
  stop_server := hs.stop_server

/-- Some clients and their timers are removed. -/
theorem Serves.remove {m' : Members}
    {opened' : Nat → Bool} {clients' : Nat → Option (Nat × Int)} (hnow : w.now ≤ cur)
    (hsub : ∀ fd client, clients' fd = some client → w.clients fd = some client)
    (hopened : ∀ fd, opened' fd = (clients' fd).isSome) (hold' : Holds h' lst' items' m') (hm' : TimersOf clients' m')
    (hlen' : items'.length ≤ size + 1) :
    Serves h' { srv with timer_lst := lst', opened := opened' } (size + 1)
      { w with clients := clients', now := cur } where
  timers := ⟨items', m', hold', hlen', hm'⟩
  users fd client hclient := hs.users fd client (hsub fd client hclient)
  opened := hopened
  limit fd hclient := by
    obtain ⟨client, hclient⟩ := Option.ne_none_iff_exists'.mp hclient
    exact hs.limit fd (Option.ne_none_iff_exists'.mpr ⟨client, hsub fd client hclient⟩)
  recent fd client hclient :=
    Int.le_trans (hs.recent fd client (hsub fd client hclient)) (Int.add_le_add_right hnow _)
  timeout := hs.timeout
  stop_server := hs.stop_server

theorem Serves.mono {size' : Nat} (hsize : size ≤ size') : Serves h srv size' w where
  timers :=
    have ⟨items, m, hold, hlen, hm⟩ := hs.timers
    ⟨items, m, hold, Nat.le_trans hlen hsize, hm⟩
  users := hs.users
  opened := hs.opened
  limit := hs.limit
  recent := hs.recent
  timeout := hs.timeout
  stop_server := hs.stop_server

/-- A new client gets a timer of its own. -/
theorem Serves.on_listenfd {connfd : Option Nat} (hpermits : w.Permits (.listenfd connfd timer cur))
    (hfuel : size < fuel) :
    Refines (size + 1) (w.handle (.listenfd connfd timer cur)) ((srv.on_listenfd fuel connfd timer cur).run h) := by
  obtain ⟨fd, rfl, hlimit, hfree, hnow, hnew⟩ := hpermits
  obtain ⟨items, m, hold, hlen, hm⟩ := hs.timers
  have hunused : m timer = none := by
    by_contra hused
    obtain ⟨d, hd⟩ := Option.ne_none_iff_exists'.mp hused
    exact hnew _ _ ((hm timer d).mp hd) rfl
  have hbelong : Belong w.clients fd timer := by
    intro fd' client hclient
    refine iff_of_false (hnew fd' client hclient) ?_
    rintro rfl
    rw [hfree] at hclient
    cases hclient
  obtain ⟨lst', calls, h', items', hrun, hold', -, hlen'⟩ :=
    hold.add (d := ⟨cur + 3 * TIMESLOT, fd⟩) hunused (Nat.lt_of_le_of_lt hlen hfuel)
  refine ⟨_, h', ?_, hs.set hlimit hnow hm hbelong hold' (by omega)⟩
  rw [Server.on_listenfd, run_bind_of_ok (run_inBounds hlimit h), run_bind_of_ok hrun, run_pure]

/-- The client is closed once, and its timer deleted. -/
theorem Serves.drop_client (hfd : w.clients fd = some client) :
    Refines (size + 1) { w with clients := Function.update w.clients fd none }
      ((srv.drop_client fuel fd (some client.1)).run h) := by
  obtain ⟨items, m, hold, hlen, hm⟩ := hs.timers
  have ha : m client.1 ≠ none := by
    rw [(hm client.1 ⟨client.2, fd⟩).mpr hfd]
    exact Option.some_ne_none _
  have hdone : Done m items.length (.del client.1) (((Op.del client.1).exec fuel srv.timer_lst).run h) := hold.del ha
  obtain ⟨lst', calls, h', items', hrun, hold', -, hlen'⟩ := hdone
  have hopen : srv.opened fd = true := by rw [hs.opened, hfd, Option.isSome_some]
  have huser : (srv.users fd).sockfd = fd := by rw [hs.users fd client hfd]
  have hsub : ∀ x client, Function.update w.clients fd none x = some client → w.clients x = some client := by
    intro x client hclient
    by_cases hx : x = fd
    · rw [hx, Function.update_self] at hclient
      cases hclient
    · rwa [Function.update_of_ne hx] at hclient
  have hopened : ∀ x, Function.update srv.opened fd false x = (Function.update w.clients fd none x).isSome := by
    intro x
    by_cases hx : x = fd
    · rw [hx, Function.update_self, Function.update_self, Option.isSome_none]
    · rw [Function.update_of_ne hx, Function.update_of_ne hx, hs.opened]
  refine ⟨_, h', ?_, hs.remove (Int.le_refl _) hsub hopened hold' (hm.remove (hm.belong hfd)) (by omega)⟩
  rw [Server.drop_client, run_bind_of_ok (run_close hopen huser)]
  dsimp only
  rw [run_bind_of_ok hrun, run_pure]

theorem Serves.on_sockfd {ret : Received} (hpermits : w.Permits (.sockfd fd ret cur)) (hfuel : size < fuel) :
    Refines (size + 1) (w.handle (.sockfd fd ret cur)) ((srv.on_sockfd fuel fd ret cur).run h) := by
  obtain ⟨hclient, hnow⟩ := hpermits
  have hlimit := hs.limit fd hclient
  obtain ⟨client, hclient⟩ := Option.ne_none_iff_exists'.mp hclient
  have huser := hs.users fd client hclient
  rw [Server.on_sockfd, run_bind_of_ok (run_inBounds hlimit h), huser]
  cases ret with
  | again => exact ⟨srv, h, rfl, hs.mono (Nat.le_succ size)⟩
  | error => exact hs.drop_client hclient
  | closed => exact hs.drop_client hclient
  | bytes =>
    obtain ⟨items, m, hold, hlen, hm⟩ := hs.timers
    -- The old expiry time is at most the new one, so that the timer moves towards the tail.
    have hle : client.2 ≤ cur + 3 * TIMESLOT :=
      Int.le_trans (hs.recent fd client hclient) (Int.add_le_add_right hnow _)
    have ha : m client.1 = some ⟨client.2, fd⟩ := (hm client.1 ⟨client.2, fd⟩).mpr hclient
    obtain ⟨lst', calls, h', items', hrun, hold', -, hlen'⟩ := hold.adjust ha hle (Nat.lt_of_le_of_lt hlen hfuel)
    rw [Members.apply, ha] at hold'
    have hset := hs.set hlimit hnow hm (hm.belong hclient) hold' (by omega)
    have hopen : srv.opened fd = true := by rw [hs.opened, hclient, Option.isSome_some]
    rw [← huser, Function.update_eq_self, ← hopen, Function.update_eq_self] at hset
    rw [Watch.handle, hclient]
    refine ⟨_, h', ?_, hset⟩
    dsimp only
    rw [run_bind_of_ok hrun, run_pure]

theorem Serves.on_pipefd (signals : List Signal) :
    Serves h (srv.on_pipefd signals) size (w.handle (.pipefd signals)) where
  timers := hs.timers
  users := hs.users
  opened := hs.opened
  limit := hs.limit
  recent := hs.recent
  timeout := by rw [Server.on_pipefd, Watch.handle, hs.timeout]
  stop_server := by rw [Server.on_pipefd, Watch.handle, hs.stop_server]

theorem Serves.handle {event : Event} (hpermits : w.Permits event) (hfuel : size < fuel) :
    Refines (size + 1) (w.handle event) ((srv.handle fuel event).run h) := by
  cases event with
  | listenfd connfd timer cur => exact hs.on_listenfd hpermits hfuel
  | pipefd signals => exact ⟨_, h, rfl, (hs.on_pipefd signals).mono (Nat.le_succ size)⟩
  | sockfd fd ret cur => exact hs.on_sockfd hpermits hfuel
  | others => exact ⟨srv, h, rfl, hs.mono (Nat.le_succ size)⟩

theorem Serves.handle_all {events : List Event} (hpermits : Each Watch.handle Watch.Permits w events)
    (hfuel : size + events.length < fuel) :
    Refines (size + events.length) (events.foldl Watch.handle w) ((srv.handle_all fuel events).run h) := by
  induction events generalizing h srv size w with
  | nil => exact ⟨srv, h, rfl, hs⟩
  | cons event events ih =>
    rw [List.length_cons] at hfuel ⊢
    obtain ⟨srv₁, h₁, hrun₁, hs₁⟩ := hs.handle hpermits.1 (by omega : size < fuel)
    obtain ⟨srv₂, h₂, hrun₂, hs₂⟩ := ih hs₁ hpermits.2 (by omega)
    refine ⟨srv₂, h₂, ?_, hs₂.mono (by omega)⟩
    rw [Server.handle_all, run_bind_of_ok hrun₁, hrun₂]

/-- The callbacks that `tick` makes are for different clients, all of them open, and they close those whose time is
over. -/
theorem Serves.timer_handler (hnow : w.now ≤ cur) (hfuel : size < fuel) :
    Refines (size + 1) { w.expire cur with timeout := w.timeout } ((srv.timer_handler fuel cur).run h) := by
  obtain ⟨items, m, hold, hlen, hm⟩ := hs.timers
  obtain ⟨lst', calls, h', items', hrun, hold', hdue, hlen'⟩ := hold.tick (Nat.lt_of_le_of_lt hlen hfuel) cur
  have hopen : ∀ call ∈ calls, srv.opened call.2.user_data = true := by
    intro call hmem
    obtain ⟨a, -, hclient, -⟩ := hm.of_mem_calls hdue hmem
    rw [hs.opened, hclient, Option.isSome_some]
  have husers : ∀ call ∈ calls, (srv.users call.2.user_data).sockfd = call.2.user_data := by
    intro call hmem
    obtain ⟨a, -, hclient, -⟩ := hm.of_mem_calls hdue hmem
    rw [hs.users _ _ hclient]
  have hclosed : ∀ fd, (srv.opened fd && fd ∉ calls.map fun call => call.2.user_data) =
      ((w.clients fd).filter fun client => cur < client.2).isSome := by
    intro fd
    rw [hs.opened, Option.isSome_filter]
    cases hclient : w.clients fd with
    | none => rfl
    | some client =>
      rw [Option.isSome_some, Bool.true_and, Option.any_some, decide_eq_decide, hm.mem_calls_iff hdue hclient,
        Int.not_le]
  have hsub : ∀ fd client, ((w.clients fd).filter fun client => cur < client.2) = some client →
      w.clients fd = some client := fun fd client hclient => (Option.filter_eq_some_iff.mp hclient).1
  refine ⟨_, h', ?_, hs.remove hnow hsub hclosed hold' (hm.expire cur) (by omega)⟩
  rw [Server.timer_handler, run_bind_of_ok hrun]
  exact run_call_back hopen husers (hm.calls_nodup hdue)

theorem Serves.round {r : Round} (hpermits : w.PermitsRound r) (hfuel : size + r.events.length < fuel) :
    Refines (size + (r.events.length + 1)) (w.round r) ((srv.round fuel r).run h) := by
  obtain ⟨srv₁, h₁, hrun₁, hs₁⟩ := hs.handle_all hpermits.1 hfuel
  rw [Server.round, run_bind_of_ok hrun₁, Watch.round, hs₁.timeout]
  cases htimeout : (r.events.foldl Watch.handle w).timeout with
  | false => exact ⟨srv₁, h₁, rfl, hs₁.mono (Nat.le_succ _)⟩
  | true =>
    obtain ⟨srv₂, h₂, hrun₂, hs₂⟩ := hs₁.timer_handler hpermits.2 hfuel
    rw [if_pos rfl, if_pos rfl, run_bind_of_ok hrun₂]
    exact ⟨_, h₂, rfl, hs₂.timers, hs₂.users, hs₂.opened, hs₂.limit, hs₂.recent, rfl, hs₂.stop_server⟩

end

/-- The number of operations on the list of timers, at most. -/
def work : List Round → Nat
  | [] => 0
  | r :: rounds => r.events.length + 1 + work rounds

theorem Serves.serve {rounds : List Round} (hs : Serves h srv size w) (hpermits : w.PermitsAll rounds)
    (hfuel : size + work rounds < fuel) :
    Refines (size + work rounds) (w.serve rounds) ((srv.serve fuel rounds).run h) := by
  induction rounds generalizing h srv size w with
  | nil => exact ⟨srv, h, rfl, hs⟩
  | cons r rounds ih =>
    rw [work] at hfuel ⊢
    rw [Server.serve, Watch.serve, hs.stop_server]
    cases hstop : w.stop_server with
    | true => exact ⟨srv, h, rfl, hs.mono (Nat.le_add_right _ _)⟩
    | false =>
      obtain ⟨hround, hrounds⟩ := hpermits.resolve_left (by rw [hstop]; exact Bool.false_ne_true)
      obtain ⟨srv₁, h₁, hrun₁, hs₁⟩ := hs.round hround (by omega : _ < fuel)
      obtain ⟨srv₂, h₂, hrun₂, hs₂⟩ := ih hs₁ hrounds (by omega)
      refine ⟨srv₂, h₂, ?_, hs₂.mono (by omega)⟩
      rw [if_neg Bool.false_ne_true, run_bind_of_ok hrun₁, hrun₂]

/-- The memory that is not released is that of the clients' timers. -/
theorem Serves.live_iff (hs : Serves h srv size w) (a : Nat) :
    (h.cells a).isSome ↔ ∃ fd expire, w.clients fd = some (a, expire) := by
  obtain ⟨items, m, hold, -, hm⟩ := hs.timers
  rw [hold.live, hold.mem_places_iff, Option.ne_none_iff_exists']
  constructor
  · rintro ⟨d, hd⟩
    exact ⟨d.user_data, d.expire, (hm a d).mp hd⟩
  · rintro ⟨fd, expire, hclient⟩
    exact ⟨⟨expire, fd⟩, (hm a ⟨expire, fd⟩).mpr hclient⟩

/-- The server never uses a timer that has been released and never closes a descriptor twice. The descriptors that
are open are those of the clients that have neither closed nor been silent for three time slots at an alarm, and the
timers that are allocated are theirs. What is assumed of `accept`, `new`, `epoll_wait` and the clock is
`Watch.Permits`. -/
theorem serve_watches (raw : Nat → util_timer) (users : Nat → client_data) {now : Int} {rounds : List Round}
    (hpermits : (Watch.start now).PermitsAll rounds) (hfuel : work rounds < fuel) :
    ∃ srv h, ((Server.start users).serve fuel rounds).run (.empty raw) = .ok (srv, h) ∧
      (∀ fd, srv.opened fd = (((Watch.start now).serve rounds).clients fd).isSome) ∧
      (∀ a, (h.cells a).isSome ↔ ∃ fd expire, ((Watch.start now).serve rounds).clients fd = some (a, expire)) ∧
      srv.stop_server = ((Watch.start now).serve rounds).stop_server := by
  obtain ⟨srv, h, hrun, hs⟩ := (serves_start raw users now).serve hpermits (by rwa [Nat.zero_add])
  exact ⟨srv, h, hrun, hs.opened, hs.live_iff, hs.stop_server⟩

/-- Of two clients that connect at the time 0, one sends data at the time 10. The alarm at the time 15 closes the
other one. -/
def two_clients : List Round :=
  [⟨[.listenfd (some 5) 100 0, .listenfd (some 6) 200 0], 0⟩, ⟨[.sockfd 5 .bytes 10, .pipefd [.SIGALRM]], 15⟩]

theorem serve_watches_two_clients :
    ∃ srv h, ((Server.start fun _ => ⟨0, none⟩).serve 10 two_clients).run (.empty fun _ => ⟨⟨0, 0⟩, none, none⟩) =
      .ok (srv, h) ∧ srv.opened 5 = true ∧ srv.opened 6 = false := by
  have hpermits : (Watch.start 0).PermitsAll two_clients := by
    refine .inr ⟨⟨⟨⟨5, rfl, by decide, rfl, by decide, fun _ _ h => nomatch h⟩,
      ⟨6, rfl, by decide, rfl, by decide, fun fd' client hclient => ?_⟩, trivial⟩, by decide⟩,
      .inr ⟨⟨⟨⟨by decide, by decide⟩, trivial, trivial⟩, by decide⟩, trivial⟩⟩
    by_cases hx : fd' = 5
    · subst hx
      cases hclient
      decide
    · cases (Function.update_of_ne hx _ _).symm.trans hclient
  obtain ⟨srv, h, hrun, hopened, -⟩ := serve_watches (fun _ => ⟨⟨0, 0⟩, none, none⟩) (fun _ => ⟨0, none⟩) hpermits
    (by decide : work two_clients < 10)
  exact ⟨srv, h, hrun, (hopened 5).trans (by decide), (hopened 6).trans (by decide)⟩

end basic_data_struct.nonactive_conn
