import BasicDataStruct.Runs.Deterministic
import BasicDataStruct.Springsnail.Mgr

open Std linear_queue runs socket

namespace basic_data_struct.springsnail

variable {c : Nat} {connection : conn}

/-- A connection that is freed only because its server is gone has nothing left to send: every
byte from the server has reached the client. -/
def Freed.Drained (f : Freed) : Prop :=
  f.reason = .srv_closed → f.connection.m_srv.pending = [] ∧ f.wire.to_clt = f.wire.from_srv

def State.Drained (s : State) : Prop := ∀ f ∈ s.log, f.Drained

/-- An event of the client of a connection whose server is gone: at a write event the socket must
take all that is left or fail, and at a read event the client must fail or close before the buffer
is full, or nothing may be left. -/
def conn.Drains (c : conn) (type : OP_TYPE) (recvs : List Recv) (sends : List Send) : Prop :=
  match type with
  | .READ => (delivered recvs).1.length < BUF_SIZE - c.m_clt.read_idx ∧ (delivered recvs).2 ≠ .again ∨
      c.m_srv.pending = []
  | .WRITE => c.m_srv.pending.length ≤ (accepted sends).1 ∨ (accepted sends).2 ≠ .again
  | .ERROR => True

/-- The condition under which an action frees no connection with bytes left. -/
def Drains (s : State) : Action → Prop
  | .process fd type recvs sends =>
    ∀ c, s.m_used[fd]? = some (some c) → (s.mem c).m_cltfd = fd → (s.mem c).m_srv_closed = true →
      (s.mem c).Drains type recvs sends
  | _ => True

/-- After a write the socket has failed or the buffer is empty exactly if `send` fails or takes all
that waits. -/
theorem writeLoop_sent (results : List Send) {b : Buffer UInt8} (hb : b.Valid BUF_SIZE) :
    (writeLoop results b).1 = .IOERR ∨ (writeLoop results b).1 = .CLOSED ∨ (writeLoop results b).2.1.pending = [] ↔
      b.pending.length ≤ (accepted results).1 ∨ (accepted results).2 ≠ .again := by
  rw [hb.length_pending]
  induction results generalizing b with
  | nil =>
    rw [writeLoop]
    split
    next hempty => simp [accepted, hempty]
    next hempty => simp [accepted, hb.pending_eq_nil_iff, Nat.sub_eq_zero_iff_le]
  | cons result results ih =>
    by_cases hempty : b.read_idx ≤ b.write_idx
    · rw [writeLoop.eq_def, if_pos hempty]
      simp [Nat.sub_eq_zero_of_le hempty]
    · rw [writeLoop.eq_def, if_neg hempty]
      cases result with
      | again => simp [accepted, hb.pending_eq_nil_iff, Nat.sub_eq_zero_iff_le]
      | error => simp [accepted]
      | count n =>
        cases n with
        | zero => simp [accepted]
        | succ n =>
          have hne : min (n + 1) (b.read_idx - b.write_idx) ≠ 0 := by omega
          simp only [if_neg hne, accepted]
          refine (ih (hb.skip (Nat.min_le_right ..))).trans (or_congr_left ?_)
          dsimp only [Buffer.skip]
          omega

/-- Every connection loses nothing, in whichever pool it is. -/
def State.Steady (s : State) : Prop := ∀ c, (s.mem c).Lossless (s.wire c)

variable {s : State}

section

variable (hs : s.Steady)
include hs

/-- A change of one connection and of its wire. -/
theorem State.Steady.update {w : Wire} (hc : connection.Lossless w) (d : Nat) :
    (Function.update s.mem c connection d).Lossless (Function.update s.wire c w d) := by
  by_cases hd : d = c
  · subst hd
    rw [Function.update_self, Function.update_self]
    exact hc
  · rw [Function.update_of_ne hd, Function.update_of_ne hd]
    exact hs d

/-- A change of one connection that leaves its buffers alone. -/
theorem State.Steady.update_mem (hclt : connection.m_clt = (s.mem c).m_clt) (hsrv : connection.m_srv = (s.mem c).m_srv)
    (d : Nat) : (Function.update s.mem c connection d).Lossless (s.wire d) := by
  have hc := hs c
  have hlossless : connection.Lossless (s.wire c) := by
    refine ⟨?_, ?_, ?_, ?_⟩
    · rw [hclt]
      exact hc.clt_valid
    · rw [hsrv]
      exact hc.srv_valid
    · rw [hclt]
      exact hc.to_srv
    · rw [hsrv]
      exact hc.to_clt
  have hupdate : (Function.update s.mem c connection d).Lossless (Function.update s.wire c (s.wire c) d) :=
    hs.update hlossless d
  rwa [Function.update_eq_self] at hupdate

theorem State.Steady.call (c : Nat) (op : Op) : (s.call c op).2.Steady :=
  hs.update ((hs c).exec op)

theorem State.Steady.free_conn (c : Nat) (reason : Reason) : (s.free_conn c reason).Steady :=
  hs.update (s.mem c).lossless_reset

theorem State.Steady.after_clt (c : Nat) (code : RET_CODE) : (s.after_clt c code).2.Steady := by
  unfold State.after_clt
  split
  · exact hs.free_conn c .client
  · exact hs.free_conn c .client
  · split
    · exact hs.free_conn c .srv_closed
    · exact hs

theorem State.Steady.after_srv (c : Nat) (code : RET_CODE) : (s.after_srv c code).2.Steady := by
  unfold State.after_srv
  split
  · exact hs.update_mem rfl rfl
  · exact hs.update_mem rfl rfl
  · exact hs

theorem State.Steady.accept (cltfd : Int) : (s.accept cltfd).Steady := by
  unfold State.accept State.pick_conn
  split
  next hpick =>
    split at hpick
    · cases hpick
      exact hs
    · cases hpick
  next hpick =>
    split at hpick
    · cases hpick
    · cases hpick
      exact hs.update_mem rfl rfl

theorem State.Steady.reconnect (srv : Nat → Option Int) (entry : Int × Nat) : (reconnect srv s entry).Steady := by
  unfold springsnail.reconnect
  split
  · exact hs
  · exact hs.update_mem rfl rfl

theorem State.Steady.recycle_conns (srv : Nat → Option Int) : (s.recycle_conns srv).Steady := by
  have hfold : ∀ entries : List (Int × Nat), (entries.foldl (springsnail.reconnect srv) s).Steady := by
    intro entries
    induction entries generalizing s with
    | nil => exact hs
    | cons entry entries ih => exact ih (hs.reconnect srv entry)
  exact hfold s.m_freed.toList

theorem State.Steady.process (fd : Int) (type : OP_TYPE) (recvs : List Recv) (sends : List Send) :
    (s.process fd type recvs sends).2.Steady :=
  State.process_cases (fun _ => hs) hs (fun c op _ => (hs.call c op).after_clt c _)
    fun c op _ => (hs.call c op).after_srv c _

theorem State.Steady.step (a : Action) : (step s a).Steady := by
  cases a with
  | accept cltfd => exact hs.accept cltfd
  | free c => exact hs.free_conn c .caller
  | recycle srv => exact hs.recycle_conns srv
  | process fd type recvs sends => exact hs.process fd type recvs sends

end

/-- What is logged when a client's event has been handled. -/
theorem State.Drained.after_clt_iff (hs : s.Drained) (hsteady : s.Steady) (c : Nat) (code : RET_CODE) :
    (s.after_clt c code).2.Drained ↔
      ((s.mem c).m_srv_closed = true → code = .IOERR ∨ code = .CLOSED ∨ (s.mem c).m_srv.pending = []) := by
  have hlogged : ∀ reason, (s.free_conn c reason).Drained ↔
      (reason = .srv_closed → (s.mem c).m_srv.pending = []) := by
    intro reason
    have hto_clt := (hsteady c).to_clt
    constructor
    · intro h hreason
      exact (h ⟨reason, s.mem c, s.wire c⟩ (List.mem_append_right _ (List.mem_singleton_self _)) hreason).1
    · intro h f hf
      rcases List.mem_append.mp hf with hf | hf
      · exact hs f hf
      · rw [List.mem_singleton] at hf
        subst hf
        intro hreason
        refine ⟨h hreason, ?_⟩
        rw [← hto_clt, h hreason, List.append_nil]
  unfold State.after_clt
  split
  · simp [hlogged]
  · simp [hlogged]
  next hioerr hclosed =>
    split
    next hsrv =>
      rw [hlogged]
      exact ⟨fun h _ => .inr (.inr (h rfl)), fun h _ => (h hsrv).resolve_left hioerr |>.resolve_left hclosed⟩
    next hsrv => simpa [hsrv] using hs

theorem State.log_after_srv (s : State) (c : Nat) (code : RET_CODE) : (s.after_srv c code).2.log = s.log := by
  unfold State.after_srv
  split <;> rfl

/-- An event keeps all freed connections drained exactly if it meets the condition. -/
theorem State.Drained.process_iff (hs : s.Drained) (hsteady : s.Steady) (fd : Int) (type : OP_TYPE)
    (recvs : List Recv) (sends : List Send) :
    (s.process fd type recvs sends).2.Drained ↔ Drains s (.process fd type recvs sends) := by
  unfold State.process
  split
  next c hc =>
    have hdrains : Drains s (.process fd type recvs sends) ↔
        ((s.mem c).m_cltfd = fd → (s.mem c).m_srv_closed = true → (s.mem c).Drains type recvs sends) := by
      simp [Drains, hc]
    rw [hdrains]
    unfold State.dispatch
    split
    next hfd =>
      simp only [hfd, true_implies]
      cases type with
      | READ =>
        refine (State.Drained.after_clt_iff (s := (s.call c (.read_clt recvs)).2) hs (hsteady.call c _) c _).trans ?_
        simp [State.call, Op.exec, conn.read_clt, conn.Drains, ← (readLoop_received recvs _).2, or_assoc]
      | WRITE =>
        refine (State.Drained.after_clt_iff (s := (s.call c (.write_clt sends)).2) hs (hsteady.call c _) c _).trans ?_
        simp [State.call, Op.exec, conn.write_clt, conn.Drains, ← writeLoop_sent sends (hsteady c).srv_valid]
      | ERROR => exact iff_of_true hs fun _ => trivial
    next hfd =>
      have hrest : (s.mem c).m_cltfd = fd → (s.mem c).m_srv_closed = true → (s.mem c).Drains type recvs sends :=
        fun h => absurd h hfd
      split
      · cases type with
        | READ =>
          refine iff_of_true ?_ hrest
          intro f hf
          exact hs f (by rwa [State.log_after_srv] at hf)
        | WRITE =>
          refine iff_of_true ?_ hrest
          intro f hf
          exact hs f (by rwa [State.log_after_srv] at hf)
        | ERROR => exact iff_of_true hs hrest
      · exact iff_of_true hs hrest
  next hnone => exact iff_of_true hs fun c hc => absurd hc (hnone c)

theorem State.log_recycle_conns (s : State) (srv : Nat → Option Int) : (s.recycle_conns srv).log = s.log := by
  have hfold : ∀ (entries : List (Int × Nat)) (s : State), (entries.foldl (reconnect srv) s).log = s.log := by
    intro entries
    induction entries with
    | nil => exact fun s => rfl
    | cons entry entries ih =>
      intro s
      rw [List.foldl_cons, ih, reconnect]
      split <;> rfl
  exact hfold s.m_freed.toList s

theorem State.log_accept (s : State) (cltfd : Int) : (s.accept cltfd).log = s.log := by
  unfold State.accept State.pick_conn
  cases s.m_conns.toList with
  | nil => rfl
  | cons entry entries => rfl

/-- An action frees no connection with bytes left exactly when it meets the condition. -/
theorem State.Drained.step_iff (hs : s.Drained) (hsteady : s.Steady) (a : Action) :
    (step s a).Drained ↔ Drains s a := by
  cases a with
  | accept cltfd =>
    refine iff_of_true (fun f hf => hs f ?_) trivial
    rwa [← s.log_accept cltfd]
  | free c =>
    refine iff_of_true (fun f hf => ?_) trivial
    rcases List.mem_append.mp hf with hf | hf
    · exact hs f hf
    · rw [List.mem_singleton] at hf
      subst hf
      exact fun hreason => nomatch hreason
  | recycle srv =>
    refine iff_of_true (fun f hf => hs f ?_) trivial
    rwa [← s.log_recycle_conns srv]
  | process fd type recvs sends => exact hs.process_iff hsteady fd type recvs sends

theorem State.mgr_steady (results : List (Option Int)) :
    (State.mgr results).Steady ∧ (State.mgr results).wire = (fun _ => .silent) ∧ (State.mgr results).log = [] := by
  induction results using List.reverseRecOn with
  | nil => exact ⟨fun c => conn.lossless_reset _, rfl, rfl⟩
  | append_singleton results result ih =>
    rw [State.mgr, List.foldl_append]
    obtain ⟨hsteady, hwire, hlog⟩ := ih
    cases result with
    | none => exact ⟨hsteady, hwire, hlog⟩
    | some sockfd =>
      refine ⟨fun c => ?_, hwire, hlog⟩
      have hnew : (conn.new.init_srv sockfd).Lossless .silent :=
        ⟨cleared_valid, cleared_valid, cleared_pending, cleared_pending⟩
      have hupdate := hsteady.update (c := (State.mgr results).created) hnew c
      rwa [← congrFun hwire (State.mgr results).created, Function.update_eq_self] at hupdate

/-- Over any calls and events, every connection that is freed because its server is gone has
been drained exactly when each client event of such a connection meets the condition. -/
theorem always_drained_iff (results : List (Option Int)) (actions : List Action) :
    Always step State.Drained (State.mgr results) actions ↔ Each step Drains (State.mgr results) actions := by
  obtain ⟨hsteady, _, hlog⟩ := State.mgr_steady results
  have hdrained : (State.mgr results).Drained := by
    intro f hf
    rw [hlog] at hf
    cases hf
  refine always_iff_each_of_keeps (fun s : State => s.Steady ∧ s.Drained) (fun s hs => hs.2) ?_ ?_
    ⟨hsteady, hdrained⟩ actions
  · exact fun s a hs ha => ⟨hs.1.step a, (hs.2.step_iff hs.1 a).mpr ha⟩
  · exact fun s a hs ha hstep => ha ((hs.2.step_iff hs.1 a).mp hstep)

/-- The server sends one byte and closes, and the client's socket is full when it is to be sent on: the connection is
freed with the byte in its buffer. -/
theorem freed_before_drained :
    ¬Always step State.Drained (State.mgr [some 5])
      [.accept 6, .process 5 .READ [.bytes [1], .bytes []] [], .process 6 .WRITE [] [.again]] := by
  intro h
  have hlost : ∃ f ∈ (List.foldl step (State.mgr [some 5])
      [.accept 6, .process 5 .READ [.bytes [1], .bytes []] [], .process 6 .WRITE [] [.again]]).log,
      f.reason = .srv_closed ∧ f.connection.m_srv.pending = [1] := by
    decide +kernel
  obtain ⟨f, hf, hreason, hpending⟩ := hlost
  have hempty := (h.last f hf hreason).1
  rw [hpending] at hempty
  cases hempty

end basic_data_struct.springsnail
