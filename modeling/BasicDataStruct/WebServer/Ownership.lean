import BasicDataStruct.Thread.Pooled
import BasicDataStruct.WebServer.Model

open threads

namespace basic_data_struct.web_server

variable {ω : Type}

variable {fd : Nat} {main : MainPc} {n : Int} {events : List Event} {ev : http.EVENT} {work : ω → WorkPc} {u : ω}

def Interest.isArmed : Interest → Bool
  | .armed _ => true
  | _ => false

/-- The connection that the main thread has taken from `accept` or from an event, up to its `close`. -/
def MainPc.conn : MainPc → Option Nat
  | .accepted c | .show_error c | .init c | .addfd c | .load c | .store c _ | .reset c | .read c | .write c => some c
  | .modfd c _ | .epoll_ctl c _ _ => some c
  | .close_conn c .test | .close_conn c (.epoll_ctl _) | .close_conn c (.close _) => some c
  | _ => none

def WorkPc.conn : WorkPc → Option Nat
  | .process c | .modfd c _ | .epoll_ctl c _ _ => some c
  | .close_conn c .test | .close_conn c (.epoll_ctl _) | .close_conn c (.close _) => some c
  | _ => none

/-- Only the main thread waits for events: an armed connection is its own. -/
def atMain (interest : Nat → Interest) (main : MainPc) (fd : Nat) : Nat :=
  if (interest fd).isArmed = true ∨ main.conn = some fd then 1 else 0

/-- The connection that is not added to the epoll instance yet, or no longer. -/
def MainPc.setting : MainPc → Option Nat
  | .accepted c | .show_error c | .init c | .addfd c | .close_conn c (.close _) => some c
  | _ => none

/-- What the place of the main thread says about the connection it works on. -/
def State.Fits (s : State ω) : MainPc → Prop
  | .epoll_wait => s.events = []
  | .accepted c | .show_error c | .init c => s.interest c = .absent
  | .addfd c => s.interest c = .absent ∧ s.m_sockfd c = some c
  | .load c | .store c _ | .reset c => (s.interest c).isArmed = true
  | .read c => (s.interest c).isArmed = false
  | .epoll_ctl c sockfd _ => sockfd = some c
  | .close_conn c (.epoll_ctl fd) => fd = c
  | .close_conn c (.close fd) => fd = c ∧ s.interest c = .absent
  | .close_conn c .clear | .close_conn c .load | .close_conn c (.store _) => s.opened c = false
  | _ => True

def WorkPc.Fits : WorkPc → Prop
  | .epoll_ctl c sockfd _ => sockfd = some c
  | .close_conn _ _ => False
  | _ => True

variable [Fintype ω]

/-- How often a connection is armed, reported, in the pool or in the hands of a thread. -/
def State.holders [DecidableEq ω] (s : State ω) (fd : Nat) : Nat :=
  atMain s.interest s.main fd + (sockfds s.events).count fd + s.pool.pooled fd + holding WorkPc.conn fd s.work

/-- An open connection has one holder, unless `append` has refused it; then it has none. -/
structure Owned [DecidableEq ω] (s : State ω) : Prop where
  pool : threadpool.Pool s.pool
  owners : ∀ fd, s.holders fd = if fd ∈ s.refused then 0 else (s.opened fd).toNat
  refused : ∀ fd ∈ s.refused, s.opened fd = true
  registered : ∀ fd, s.opened fd = true → s.main.setting ≠ some fd → s.m_sockfd fd = some fd ∧ s.interest fd ≠ .absent
  closed : ∀ fd, s.opened fd = false → s.interest fd = .absent
  fits : s.Fits s.main
  workers : ∀ t, (s.work t).Fits
  busy : ∀ t, s.work t ≠ .idle → ∃ request, s.pool.pc (some t) = .process request
  calls : s.pool.pc none ≠ .idle → ∃ conn, s.main = .append conn

variable [DecidableEq ω] {s s' : State ω} {m_max_requests : Nat}

theorem owned_initial (m_sockfd : Nat → Option Nat) : Owned (initial ω m_sockfd) where
  pool := threadpool.pool_initial _
  owners fd := by
    have hpool : holding threadpool.Pc.inHand fd (initial ω m_sockfd).pool.pc = 0 := by
      refine Finset.sum_eq_zero fun t _ => ?_
      cases t <;> rfl
    have hwork : holding WorkPc.conn fd (initial ω m_sockfd).work = 0 := Finset.sum_eq_zero fun t _ => rfl
    rw [State.holders, threadpool.State.pooled, hpool, hwork]
    rfl
  refused fd h := nomatch h
  registered fd h := nomatch h
  closed _ _ := rfl
  fits := rfl
  workers _ := trivial
  busy t h := absurd rfl h
  calls h := absurd rfl h

section

variable (hs : Owned s)
include hs

/-- A connection that has a holder is open, and has no other one. -/
theorem Owned.of_holders_pos (h : 0 < s.holders fd) : s.holders fd = 1 ∧ s.opened fd = true ∧ fd ∉ s.refused := by
  have howners := hs.owners fd
  split at howners
  next => omega
  next hmem =>
    cases hopen : s.opened fd with
    | false => simp only [hopen, Bool.toNat_false] at howners; omega
    | true => exact ⟨by rw [howners, hopen, Bool.toNat_true], rfl, hmem⟩

/-- A main thread that is not in `append` has not called it. -/
theorem Owned.idle (hpc : s.main = main) (h : ∀ conn, main ≠ .append conn) : s.pool.pc none = .idle := by
  by_contra hcalled
  obtain ⟨conn, hmain⟩ := hs.calls hcalled
  exact h conn (hpc.symm.trans hmain)

theorem Owned.fits_at (hpc : s.main = main) : s.Fits main := hpc ▸ hs.fits

/-- A connection that the main thread holds is open, and no other thread has it. -/
theorem Owned.at_main (h : s.main.conn = some fd) :
    s.opened fd = true ∧ fd ∉ s.refused ∧ (sockfds s.events).count fd = 0 ∧ s.pool.pooled fd = 0 ∧
      holding WorkPc.conn fd s.work = 0 := by
  have hmain : atMain s.interest s.main fd = 1 := if_pos (.inr h)
  obtain ⟨hone, hopen, hrefused⟩ := hs.of_holders_pos (show 0 < s.holders fd by rw [State.holders]; omega)
  rw [State.holders] at hone
  exact ⟨hopen, hrefused, by omega, by omega, by omega⟩

/-- The main thread does not call `append`. It gets the connections that it opens, and loses those that it closes. -/
theorem Owned.main_move {interest : Nat → Interest} {opened : Nat → Bool} {m_sockfd : Nat → Option Nat}
    (hidle : s.pool.pc none = .idle)
    (howners : ∀ fd, atMain interest main fd + (sockfds events).count fd + (s.opened fd).toNat =
      atMain s.interest s.main fd + (sockfds s.events).count fd + (opened fd).toNat)
    (hrefused : ∀ fd ∈ s.refused, opened fd = true)
    (hregistered : ∀ fd, opened fd = true → main.setting ≠ some fd → m_sockfd fd = some fd ∧ interest fd ≠ .absent)
    (hclosed : ∀ fd, opened fd = false → interest fd = .absent)
    (hfits : { s with interest, opened, m_sockfd, m_user_count := n, events, main }.Fits main) :
    Owned { s with interest, opened, m_sockfd, m_user_count := n, events, main } where
  pool := hs.pool
  owners fd := by
    have hold := hs.owners fd
    have hnew := howners fd
    rw [State.holders] at hold ⊢
    dsimp only
    by_cases hmem : fd ∈ s.refused
    · rw [if_pos hmem] at hold ⊢
      rw [hs.refused fd hmem, hrefused fd hmem] at hnew
      omega
    · rw [if_neg hmem] at hold ⊢
      omega
  refused := hrefused
  registered := hregistered
  closed := hclosed
  fits := hfits
  workers := hs.workers
  busy := hs.busy
  calls h := absurd hidle h

/-- The main thread moves with the connection it has. -/
theorem Owned.goto {main' : MainPc} (hpc : s.main = main)
    (hcall : ∀ conn, main ≠ .append conn) (hconn : main'.conn = main.conn) (hsetting : main'.setting = main.setting)
    (hfits : { s with m_user_count := n, main := main' }.Fits main') :
    Owned { s with m_user_count := n, main := main' } := by
  subst hpc
  exact hs.main_move (hs.idle rfl hcall) (fun fd => by rw [atMain, atMain, hconn]) hs.refused
    (fun fd hopen hset => hs.registered fd hopen (hsetting ▸ hset)) hs.closed hfits

theorem Owned.epoll_wait (hpc : s.main = .epoll_wait)
    (hnodup : (sockfds events).Nodup) (harmed : ∀ fd ∈ sockfds events, ∃ ev, s.interest fd = .armed ev) :
    Owned { s with
      interest := fun fd => if fd ∈ sockfds events then .disarmed else s.interest fd
      events := events
      main := .loop } := by
  have hnone : s.events = [] := hs.fits_at hpc
  refine hs.main_move (hs.idle hpc nofun) (fun fd => ?_) hs.refused (fun fd hopen _ => ?_)
    (fun fd hclosed => ?_) trivial
  · rw [hnone, hpc]
    congr 1
    by_cases hmem : fd ∈ sockfds events
    · obtain ⟨ev, hev⟩ := harmed fd hmem
      rw [List.count_eq_one_of_mem hnodup hmem, atMain, atMain, if_pos hmem, hev]
      rfl
    · rw [List.count_eq_zero_of_not_mem hmem, atMain, atMain, if_neg hmem]
      rfl
  · obtain ⟨hsockfd, hinterest⟩ := hs.registered fd hopen (by rw [hpc]; exact nofun)
    refine ⟨hsockfd, ?_⟩
    split
    · exact nofun
    · exact hinterest
  · have habsent := hs.closed fd hclosed
    split
    next hmem =>
      obtain ⟨ev, hev⟩ := harmed fd hmem
      rw [habsent] at hev
      cases hev
    next => exact habsent

theorem Owned.accept {connfd : Nat} (hpc : s.main = .loop)
    (hevents : s.events = .listenfd :: events) (hfree : s.opened connfd = false) :
    Owned { s with
      opened := Function.update s.opened connfd true
      events := events
      main := .accepted connfd } := by
  have habsent := hs.closed connfd hfree
  refine hs.main_move (hs.idle hpc nofun) (fun fd => ?_) (fun fd hmem => ?_)
    (fun fd hopen hset => ?_) (fun fd hclosed => ?_) habsent
  · rw [hpc, hevents]
    by_cases hfd : fd = connfd
    · subst hfd
      simp [atMain, MainPc.conn, habsent, Interest.isArmed, hfree, sockfds]
      omega
    · rw [Function.update_of_ne hfd]
      simp [atMain, MainPc.conn, Ne.symm hfd, sockfds]
  · by_cases hfd : fd = connfd
    · rw [hfd, Function.update_self]
    · rw [Function.update_of_ne hfd]
      exact hs.refused fd hmem
  · have hfd : fd ≠ connfd := fun heq => hset (by rw [heq]; rfl)
    rw [Function.update_of_ne hfd] at hopen
    exact hs.registered fd hopen (by rw [hpc]; exact nofun)
  · by_cases hfd : fd = connfd
    · exact hfd ▸ habsent
    · rw [Function.update_of_ne hfd] at hclosed
      exact hs.closed fd hclosed

/-- The main thread closes the connection it has, after it has been taken from the epoll instance. -/
theorem Owned.close (hidle : s.pool.pc none = .idle)
    (hconn : s.main.conn = some fd) (hsetting : s.main.setting = some fd) (habsent : s.interest fd = .absent)
    (hconn' : main.conn = none)
    (hfits : { s with opened := Function.update s.opened fd false, main }.Fits main) :
    Owned { s with opened := Function.update s.opened fd false, main } := by
  obtain ⟨hopen, hrefused, -⟩ := hs.at_main hconn
  refine hs.main_move hidle (fun x => ?_) (fun x hmem => ?_) (fun x hopen _ => ?_) (fun x hclosed => ?_) hfits
  · by_cases hx : x = fd
    · subst hx
      simp [atMain, hconn, hconn', habsent, Interest.isArmed, hopen]
      omega
    · rw [Function.update_of_ne hx]
      simp [atMain, hconn, hconn', Ne.symm hx]
  · have hx : x ≠ fd := fun heq => hrefused (heq ▸ hmem)
    rw [Function.update_of_ne hx]
    exact hs.refused x hmem
  · by_cases hx : x = fd
    · rw [hx, Function.update_self] at hopen
      cases hopen
    · rw [Function.update_of_ne hx] at hopen
      exact hs.registered x hopen (by rw [hsetting]; exact fun heq => hx (Option.some.inj heq).symm)
  · by_cases hx : x = fd
    · exact hx ▸ habsent
    · rw [Function.update_of_ne hx] at hclosed
      exact hs.closed x hclosed

end

omit [Fintype ω] [DecidableEq ω] in
theorem State.modify_eq (h : s.interest fd ≠ .absent) :
    s.modify (some fd) ev = { s with interest := Function.update s.interest fd (.armed ev) } := if_neg h

/-- The main thread arms the connection it has. -/
theorem Owned.arm (hs : Owned s) (hidle : s.pool.pc none = .idle)
    (hconn : s.main.conn = some fd) (hconn' : main.conn = some fd ∨ main.conn = none)
    (hregistered : s.main.setting = none ∨ s.main.setting = some fd ∧ s.m_sockfd fd = some fd)
    (hfits : { s with interest := Function.update s.interest fd (.armed ev), main }.Fits main) :
    Owned { s with interest := Function.update s.interest fd (.armed ev), main } := by
  obtain ⟨hopen, -⟩ := hs.at_main hconn
  refine hs.main_move hidle (fun x => ?_) hs.refused (fun x hx _ => ?_) (fun x hclosed => ?_) hfits
  · by_cases hx : x = fd
    · subst hx
      simp [atMain, hconn, Interest.isArmed]
    · have hne : main.conn ≠ some x := by
        rcases hconn' with h | h <;> rw [h]
        · exact fun heq => hx (Option.some.inj heq).symm
        · exact nofun
      simp [atMain, hconn, hne, Function.update_of_ne hx, Ne.symm hx]
  · by_cases heq : x = fd
    · subst heq
      rw [Function.update_self]
      refine ⟨?_, nofun⟩
      rcases hregistered with hnone | ⟨-, hsockfd⟩
      · exact (hs.registered x hopen (by rw [hnone]; exact nofun)).1
      · exact hsockfd
    · rw [Function.update_of_ne heq]
      refine hs.registered x hx ?_
      rcases hregistered with hnone | ⟨hset, -⟩
      · rw [hnone]
        exact nofun
      · rw [hset]
        exact fun h => heq (Option.some.inj h).symm
  · have hx : x ≠ fd := by
      rintro rfl
      rw [hopen] at hclosed
      cases hclosed
    rw [Function.update_of_ne hx]
    exact hs.closed x hclosed

/-- The main thread turns to an event. The connection is not armed, since an event of it is pending. -/
theorem Owned.event (hs : Owned s) {ready : Ready}
    (hpc : s.main = .loop) (hevents : s.events = .sockfd fd ready :: events) (hconn : main.conn = some fd)
    (hfits : (s.interest fd).isArmed = false → { s with events, main }.Fits main) :
    Owned { s with events, main } := by
  have hcount : (sockfds s.events).count fd = (sockfds events).count fd + 1 := by
    rw [hevents]
    simp [sockfds]
  obtain ⟨hone, -⟩ := hs.of_holders_pos (show 0 < s.holders fd by rw [State.holders]; omega)
  have hmain : atMain s.interest s.main fd = 0 := by
    rw [State.holders] at hone
    omega
  have harmed : (s.interest fd).isArmed = false := by
    by_contra h
    rw [atMain, if_pos (.inl (Bool.of_not_eq_false h))] at hmain
    cases hmain
  refine hs.main_move (hs.idle hpc nofun) (fun x => ?_) hs.refused (fun x hx _ => ?_)
    hs.closed (hfits harmed)
  · by_cases hx : x = fd
    · subst hx
      rw [hmain, hcount, atMain, if_pos (.inr hconn)]
      omega
    · have hloop : MainPc.loop.conn = none := rfl
      rw [hpc, hevents]
      simp [atMain, hconn, hloop, Ne.symm hx, sockfds]
  · exact hs.registered x hx (by rw [hpc]; exact nofun)

theorem Owned.read (hs : Owned s) {conn : Nat} (hpc : s.main = .read conn) :
    Owned { s with pool := s.pool.goto none (.appendLock (some conn)), main := .append conn } := by
  have hidle := hs.idle hpc (by simp)
  have harmed : (s.interest conn).isArmed = false := hs.fits_at hpc
  exact {
    pool := hs.pool.goto hidle Iff.rfl rfl trivial rfl
    owners := fun fd => by
      have hhands : atMain s.interest (.append conn) fd + holds some fd conn = atMain s.interest (.read conn) fd := by
        by_cases hfd : fd = conn
        · simp [hfd, atMain, MainPc.conn, holds, harmed]
        · simp [atMain, MainPc.conn, holds, Ne.symm hfd]
      rw [← hs.owners fd, State.holders, State.holders, threadpool.State.pooled_call hidle, hpc, ← hhands]
      dsimp only
      omega
    refused := hs.refused
    registered := fun fd hopen _ => hs.registered fd hopen (by rw [hpc]; simp [MainPc.setting])
    closed := hs.closed
    fits := trivial
    workers := hs.workers
    busy := fun t ht => by
      obtain ⟨request, hrequest⟩ := hs.busy t ht
      refine ⟨request, ?_⟩
      dsimp only [threadpool.State.goto]
      rwa [Function.update_of_ne (Option.some_ne_none t)]
    calls := fun _ => ⟨conn, rfl⟩ }

theorem Owned.close_conn (hs : Owned s) {conn : Nat} {place : Closing} (hpc : s.main = .close_conn conn place) :
    Owned { (s.close_conn conn place).1 with
      main := (s.close_conn conn place).2.elim .loop (.close_conn conn) } := by
  have hidle := hs.idle hpc nofun
  have hfits := hs.fits_at hpc
  cases place with
  | test =>
    obtain ⟨hopen, -⟩ := hs.at_main (show s.main.conn = some conn by rw [hpc]; rfl)
    have hsockfd := (hs.registered conn hopen (by rw [hpc]; exact nofun)).1
    simp only [State.close_conn, hsockfd]
    exact hs.goto hpc nofun rfl rfl rfl
  | epoll_ctl fd =>
    obtain rfl : fd = conn := hfits
    change Owned { s with interest := Function.update s.interest fd .absent, main := .close_conn fd (.close fd) }
    refine hs.main_move hidle (fun x => ?_) hs.refused (fun x hx hset => ?_) (fun x hclosed => ?_)
      ⟨rfl, Function.update_self ..⟩
    · rw [hpc]
      by_cases hxfd : x = fd
      · subst hxfd
        simp [atMain, MainPc.conn]
      · simp [atMain, MainPc.conn, Function.update_of_ne hxfd]
    · have hxfd : x ≠ fd := fun heq => hset (by rw [heq]; rfl)
      rw [Function.update_of_ne hxfd]
      exact hs.registered x hx (by rw [hpc]; exact nofun)
    · by_cases hxfd : x = fd
      · rw [hxfd, Function.update_self]
      · rw [Function.update_of_ne hxfd]
        exact hs.closed x hclosed
  | close fd =>
    obtain ⟨rfl, habsent⟩ : fd = conn ∧ s.interest conn = .absent := hfits
    exact hs.close hidle (by rw [hpc]; rfl) (by rw [hpc]; rfl) habsent rfl (Function.update_self ..)
  | clear =>
    change Owned { s with m_sockfd := Function.update s.m_sockfd conn none, main := .close_conn conn .load }
    refine hs.main_move hidle (fun x => by rw [hpc]; rfl) hs.refused (fun x hx _ => ?_) hs.closed hfits
    have hne : x ≠ conn := by
      rintro rfl
      rw [show s.opened x = false from hfits] at hx
      cases hx
    rw [Function.update_of_ne hne]
    exact hs.registered x hx (by rw [hpc]; exact nofun)
  | load => exact hs.goto hpc nofun rfl rfl hfits
  | store n => exact hs.goto hpc nofun rfl rfl trivial

/-- No step of `main` makes a connection have two owners. -/
theorem Owned.main_step (hs : Owned s) (h : MainStep s s') : Owned s' := by
  cases h with
  | epoll_wait events hpc hnodup harmed => exact hs.epoll_wait hpc hnodup harmed
  | again hpc hevents => exact hs.goto hpc nofun rfl rfl hevents
  | accept_failed hpc hevents =>
    refine hs.main_move (hs.idle hpc nofun) (fun x => ?_) hs.refused hs.registered hs.closed (by rw [hpc]; trivial)
    rw [hevents]
    rfl
  | accept connfd hpc hevents _ hfree => exact hs.accept hpc hevents hfree
  | accepted hpc =>
    split
    · exact hs.goto hpc nofun rfl rfl (hs.fits_at hpc)
    · exact hs.goto hpc nofun rfl rfl (hs.fits_at hpc)
  | show_error hpc =>
    exact hs.close (hs.idle hpc nofun) (by rw [hpc]; rfl) (by rw [hpc]; rfl) (hs.fits_at hpc) rfl trivial
  | init hpc =>
    rename_i connfd
    refine hs.main_move (hs.idle hpc nofun) (fun x => by rw [hpc]; rfl) hs.refused (fun x hx hset => ?_) hs.closed
      ⟨hs.fits_at hpc, Function.update_self ..⟩
    have hne : x ≠ connfd := fun heq => hset (by rw [heq]; rfl)
    rw [Function.update_of_ne hne]
    exact hs.registered x hx (by rw [hpc]; exact hset)
  | addfd hpc =>
    exact hs.arm (hs.idle hpc nofun) (by rw [hpc]; rfl) (.inl rfl) (.inr ⟨by rw [hpc]; rfl, (hs.fits_at hpc).2⟩)
      (by simp [State.Fits, Interest.isArmed])
  | load hpc => exact hs.goto hpc nofun rfl rfl (hs.fits_at hpc)
  | store hpc => exact hs.goto hpc nofun rfl rfl (hs.fits_at hpc)
  | reset hpc =>
    refine hs.main_move (hs.idle hpc nofun) (fun x => ?_) hs.refused
      (fun x hx _ => hs.registered x hx (by rw [hpc]; exact nofun)) hs.closed trivial
    rename_i conn
    have harmed : (s.interest conn).isArmed = true := hs.fits_at hpc
    rw [hpc]
    by_cases hx : x = conn
    · subst hx
      simp [atMain, harmed]
    · simp [atMain, MainPc.conn, Ne.symm hx]
  | event hpc hevents =>
    rename_i ready
    refine hs.event hpc hevents ?_ fun harmed => ?_
    · cases ready <;> rfl
    · cases ready with
      | hup => trivial
      | input => exact harmed
      | output => trivial
  | read hpc => exact hs.read hpc
  | read_failed hpc => exact hs.goto hpc nofun rfl rfl trivial
  | append hpc hreturned =>
    exact hs.main_move hreturned (fun x => by rw [hpc]; rfl) hs.refused
      (fun x hx _ => hs.registered x hx (by rw [hpc]; exact nofun)) hs.closed trivial
  | write result hpc =>
    split
    · exact hs.goto hpc nofun rfl rfl trivial
    · exact hs.goto hpc nofun rfl rfl trivial
  | modfd hpc =>
    rename_i conn result
    obtain ⟨hopen, -⟩ := hs.at_main (show s.main.conn = some conn by rw [hpc]; rfl)
    exact hs.goto hpc nofun rfl rfl (hs.registered conn hopen (by rw [hpc]; exact nofun)).1
  | epoll_ctl hpc =>
    rename_i conn sockfd result
    obtain rfl : sockfd = some conn := hs.fits_at hpc
    obtain ⟨hopen, -⟩ := hs.at_main (show s.main.conn = some conn by rw [hpc]; rfl)
    rw [State.modify_eq (hs.registered conn hopen (by rw [hpc]; exact nofun)).2]
    refine hs.arm (hs.idle hpc nofun) (by rw [hpc]; rfl) ?_ (.inl (by rw [hpc]; rfl)) ?_
    · cases result <;> simp [Written.next, MainPc.conn]
    · cases result <;> simp [Written.next, State.Fits, Interest.isArmed]
  | close_conn hpc => exact hs.close_conn hpc

section Workers

variable {t : ω} {x : WorkPc}

theorem holding_update (fd : Nat) :
    holding WorkPc.conn fd (Function.update s.work t x) + holds WorkPc.conn fd (s.work t) =
    holding WorkPc.conn fd s.work + holds WorkPc.conn fd x :=
  total_update (holds WorkPc.conn fd) s.work t x

/-- A connection that a worker has is open, and no other thread has it. -/
theorem Owned.at_worker (hs : Owned s) (h : (s.work t).conn = some fd) :
    s.opened fd = true ∧ fd ∉ s.refused ∧ atMain s.interest s.main fd = 0 ∧ (sockfds s.events).count fd = 0 ∧
      s.pool.pooled fd = 0 ∧ holding WorkPc.conn fd s.work = 1 := by
  have hwork : 0 < holding WorkPc.conn fd s.work := holding_pos h
  obtain ⟨hone, hopen, hrefused⟩ := hs.of_holders_pos (show 0 < s.holders fd by rw [State.holders]; omega)
  rw [State.holders] at hone
  exact ⟨hopen, hrefused, by omega, by omega, by omega, by omega⟩

/-- A worker moves with the connection it has. -/
theorem Owned.work_goto (hs : Owned s) (hbusy : s.work t ≠ .idle) (hconn : x.conn = (s.work t).conn) (hfits : x.Fits) :
    Owned { s with work := Function.update s.work t x } where
  pool := hs.pool
  owners fd := by
    have hwork := holding_update (s := s) (t := t) (x := x) fd
    rw [holds, holds, hconn, Nat.add_right_cancel_iff] at hwork
    rw [← hs.owners fd, State.holders, State.holders, hwork]
  refused := hs.refused
  registered := hs.registered
  closed := hs.closed
  fits := hs.fits
  workers := forall_update (P := fun _ y => WorkPc.Fits y) hfits hs.workers
  busy := by
    have hprocess := hs.busy t hbusy
    exact forall_update (P := fun u (y : WorkPc) => y ≠ .idle → ∃ request, s.pool.pc (some u) = .process request)
      (fun _ => hprocess) hs.busy
  calls := hs.calls

theorem setting_ne (fd : Nat) (main : MainPc) (h : main.conn ≠ some fd) : main.setting ≠ some fd := by
  cases main with
  | accepted c | show_error c | init c | addfd c => exact h
  | close_conn c place =>
    cases place with
    | close _ => exact h
    | _ => exact nofun
  | _ => exact nofun

omit [Fintype ω] [DecidableEq ω] in
/-- The place of the main thread says nothing about the connections that it does not have. -/
theorem State.Fits.arm (h : s.Fits main) (hconn : main.conn ≠ some fd) :
    { s with interest := Function.update s.interest fd (.armed ev), work }.Fits main := by
  cases main with
  | accepted c | show_error c | init c | addfd c | load c | store c _ | reset c | read c =>
    have hne : c ≠ fd := fun heq => hconn (congrArg some heq)
    simpa [State.Fits, hne] using h
  | close_conn c place =>
    cases place with
    | close _ =>
      have hne : c ≠ fd := fun heq => hconn (congrArg some heq)
      simpa [State.Fits, hne] using h
    | _ => exact h
  | _ => exact h

theorem Owned.main_conn_ne (hs : Owned s) (hconn : (s.work t).conn = some fd) : s.main.conn ≠ some fd := by
  obtain ⟨-, -, hmain, -⟩ := hs.at_worker hconn
  intro h
  rw [atMain, if_pos (.inr h)] at hmain
  cases hmain

theorem Owned.work_registered (hs : Owned s) (hconn : (s.work t).conn = some fd) :
    s.m_sockfd fd = some fd ∧ s.interest fd ≠ .absent :=
  hs.registered fd (hs.at_worker hconn).1 (setting_ne fd s.main (hs.main_conn_ne hconn))

/-- A worker gives its connection back to the epoll instance. -/
theorem Owned.work_arm (hs : Owned s) (hconn : (s.work t).conn = some fd) :
    Owned { s with
      interest := Function.update s.interest fd (.armed ev)
      work := Function.update s.work t .idle } := by
  obtain ⟨hopen, -, hmain, -⟩ := hs.at_worker hconn
  exact {
    pool := hs.pool
    owners := fun x => by
      have hwork := holding_update (s := s) (t := t) (x := .idle) x
      have hmain : atMain (Function.update s.interest fd (.armed ev)) s.main x =
          atMain s.interest s.main x + holds WorkPc.conn x (s.work t) := by
        by_cases hx : x = fd
        · subst hx
          rw [hmain, holds, if_pos hconn, atMain, Function.update_self, if_pos (.inl rfl)]
        · have hne : (s.work t).conn ≠ some x := by
            rw [hconn]
            exact fun heq => hx (Option.some.inj heq).symm
          rw [holds, if_neg hne, atMain, Function.update_of_ne hx]
          rfl
      change _ = _ + 0 at hwork
      rw [← hs.owners x, State.holders, State.holders, hmain]
      dsimp only
      omega
    refused := hs.refused
    registered := fun x hx hset => by
      obtain ⟨hsockfd, habsent⟩ := hs.registered x hx hset
      refine ⟨hsockfd, ?_⟩
      dsimp only
      by_cases heq : x = fd
      · rw [heq, Function.update_self]
        simp
      · rwa [Function.update_of_ne heq]
    closed := fun x hclosed => by
      have hx : x ≠ fd := by
        rintro rfl
        rw [hopen] at hclosed
        cases hclosed
      dsimp only
      rw [Function.update_of_ne hx]
      exact hs.closed x hclosed
    fits := hs.fits.arm (hs.main_conn_ne hconn)
    workers := forall_update (P := fun _ y => WorkPc.Fits y) trivial hs.workers
    busy := forall_update (P := fun u (y : WorkPc) => y ≠ .idle → ∃ request, s.pool.pc (some u) = .process request)
      (fun h => absurd rfl h) hs.busy
    calls := hs.calls }

theorem Owned.work_step (hs : Owned s) (h : WorkStep t s s')
    (hserved : ∀ conn place, s'.work t ≠ .close_conn conn place) : Owned s' := by
  cases h with
  | process result hpc =>
    cases result with
    | NO_REQUEST | written => exact hs.work_goto (by rw [hpc]; exact nofun) (by rw [hpc]; rfl) trivial
    | failed => exact absurd (Function.update_self ..) (hserved _ _)
  | modfd hpc =>
    rename_i conn ev
    have hconn : (s.work t).conn = some conn := by rw [hpc]; rfl
    exact hs.work_goto (by rw [hpc]; exact nofun) hconn.symm (hs.work_registered hconn).1
  | epoll_ctl hpc =>
    rename_i conn sockfd ev
    have hfits := hs.workers t
    rw [hpc] at hfits
    obtain rfl : sockfd = some conn := hfits
    have hconn : (s.work t).conn = some conn := by rw [hpc]; rfl
    rw [State.modify_eq (hs.work_registered hconn).2]
    exact hs.work_arm hconn
  | close_conn hpc =>
    have hfits := hs.workers t
    rw [hpc] at hfits
    exact hfits.elim

end Workers

section Pools

variable {t : Option ω} {pool : threadpool.State (Option ω) Nat}

/-- A worker that is not in `process` has no connection of its own. -/
theorem Owned.work_idle (hs : Owned s) (h : ∀ request, s.pool.pc (some u) ≠ .process request) : s.work u = .idle := by
  by_contra hbusy
  obtain ⟨request, hpc⟩ := hs.busy u hbusy
  exact h request hpc

/-- An action in a function of the pool. What the pool gives up comes to a worker or to the refused connections. -/
theorem Owned.pool_move (hs : Owned s) {refused : List Nat} (h : threadpool.step m_max_requests t s.pool = some pool)
    (howners : ∀ fd, holding WorkPc.conn fd work + (if fd ∈ s.refused then 0 else (s.opened fd).toNat) =
      holding WorkPc.conn fd s.work + holds id fd (s.pool.given m_max_requests t) +
        (if fd ∈ refused then 0 else (s.opened fd).toNat))
    (hrefused : ∀ fd ∈ refused, s.opened fd = true) (hworkers : ∀ u, (work u).Fits)
    (hbusy : ∀ u, work u ≠ .idle → ∃ request, pool.pc (some u) = .process request) :
    Owned { s with pool, work, refused } where
  pool := hs.pool.action h
  owners fd := by
    have hpooled := hs.pool.pooled_step h fd
    have hold := hs.owners fd
    have hnew := howners fd
    rw [State.holders] at hold ⊢
    dsimp only
    omega
  refused := hrefused
  registered := hs.registered
  closed := hs.closed
  fits := by
    have hfits := hs.fits
    cases hmain : s.main <;> rw [hmain] at hfits <;> exact hfits
  workers := hworkers
  busy := hbusy
  calls hcalls := by
    obtain ⟨x, hpc, -⟩ := threadpool.step_moves h
    refine hs.calls fun hidle => ?_
    by_cases ht : t = none
    · subst ht
      rw [threadpool.step, hidle] at h
      cases h
    · rw [hpc, Function.update_of_ne (Ne.symm ht), hidle] at hcalls
      exact hcalls rfl

/-- The workers other than the one that moves stay where they are. -/
theorem Owned.busy_step (hs : Owned s) (h : threadpool.step m_max_requests t s.pool = some pool) (hu : some u ≠ t)
    (hbusy : s.work u ≠ .idle) : ∃ request, pool.pc (some u) = .process request := by
  obtain ⟨request, hrequest⟩ := hs.busy u hbusy
  obtain ⟨x, hpc, -⟩ := threadpool.step_moves h
  exact ⟨request, by rwa [hpc, Function.update_of_ne hu]⟩

theorem Owned.pool_step (hs : Owned s) (h : PoolStep m_max_requests s s') : Owned s' := by
  cases h with
  | action h hnull hprocess hsize =>
    rename_i t pool
    have hgiven : s.pool.given m_max_requests t = none := by
      rw [threadpool.State.given]
      split
      next request hpc =>
        obtain ⟨number, ptr⟩ := request
        cases ptr with
        | none => rfl
        | some conn => exact absurd hpc (hnull number conn)
      next ptr hpc =>
        cases ptr with
        | none => exact ite_self _
        | some conn => exact absurd hpc (hsize conn)
      next => rfl
    refine hs.pool_move h (fun fd => by rw [hgiven]; rfl) hs.refused hs.workers fun u hbusy => ?_
    refine hs.busy_step h (fun heq => ?_) hbusy
    subst heq
    exact hbusy (hs.work_idle hprocess)
  | sizeTest hpc h =>
    rename_i t conn pool
    have hbusy : ∀ u, s.work u ≠ .idle → ∃ request, pool.pc (some u) = .process request := by
      intro u hbusy
      refine hs.busy_step h (fun heq => ?_) hbusy
      subst heq
      exact hbusy (hs.work_idle (by rw [hpc]; simp))
    have hpooled : 0 < s.pool.pooled conn :=
      Nat.lt_of_lt_of_le (holding_pos (t := t) (by rw [hpc]; rfl)) (Nat.le_add_left ..)
    obtain ⟨-, hopen, hnew⟩ := hs.of_holders_pos (show 0 < s.holders conn by rw [State.holders]; omega)
    have hgiven : s.pool.given m_max_requests t =
      if s.pool.m_workqueue.length > m_max_requests then some conn else none := by
      rw [threadpool.State.given, hpc]
    split
    next hfull =>
      rw [if_pos hfull] at hgiven
      refine hs.pool_move h (fun fd => ?_) (List.forall_mem_cons.mpr ⟨hopen, hs.refused⟩) hs.workers hbusy
      rw [hgiven]
      by_cases hfd : fd = conn
      · subst hfd
        simp [hnew, hopen, holds]
      · simp [hfd, Ne.symm hfd, holds]
    next hfree =>
      rw [if_neg hfree] at hgiven
      exact hs.pool_move h (fun fd => by rw [hgiven]; rfl) hs.refused hs.workers hbusy
  | process hpc h =>
    rename_i t number conn pool
    have hidle : s.work t = .idle := hs.work_idle (by rw [hpc]; simp)
    have hgiven : s.pool.given m_max_requests (some t) = some conn := by rw [threadpool.State.given, hpc]
    refine hs.pool_move h (fun fd => ?_) hs.refused (forall_update (P := fun _ y => WorkPc.Fits y) trivial hs.workers)
      fun u hbusy => ?_
    · have hwork := holding_update (s := s) (t := t) (x := .process conn) fd
      rw [hidle] at hwork
      change _ = _ + holds id fd (some conn) at hwork
      rw [hgiven, ← hwork]
      rfl
    · by_cases hu : u = t
      · subst hu
        simp only [threadpool.step, hpc, reduceCtorEq, if_false, Option.some.injEq] at h
        subst h
        exact ⟨_, Function.update_self ..⟩
      · rw [Function.update_of_ne hu] at hbusy
        exact hs.busy_step h (fun heq => hu (Option.some.inj heq)) hbusy
  | processed hpc hwork h =>
    rename_i t request pool
    have hgiven : s.pool.given m_max_requests (some t) = none := by rw [threadpool.State.given, hpc]
    refine hs.pool_move h (fun fd => by rw [hgiven]; rfl) hs.refused hs.workers fun u hbusy => ?_
    refine hs.busy_step h (fun heq => ?_) hbusy
    cases heq
    exact hbusy hwork

end Pools

theorem Reachable.owned (h : Reachable m_max_requests s) : Owned s := by
  obtain ⟨m_sockfd, h⟩ := h
  induction h with
  | refl => exact owned_initial m_sockfd
  | tail _ hstep hs =>
    obtain ⟨hstep, hserved⟩ := hstep
    cases hstep with
    | main h => exact hs.main_step h
    | work t h => exact hs.work_step h (hserved t)
    | pool h => exact hs.pool_step h

end basic_data_struct.web_server
