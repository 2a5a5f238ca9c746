import BasicDataStruct.Telnet.Restraint

open machine machine.Exec

namespace basic_data_struct.telnet

/-- A reachable client between two messages. -/
structure Ready (env : Env) (s : Client) : Prop where
  reachable : Reachable env s
  ttstate : s.ttstate = TSDATA

/-- The client that `fsmbuild` leaves is reachable and between messages. -/
theorem exists_ready (env : Env) {s₀ : Client} (hfresh : s₀.Fresh) :
    ∃ s, Ready env s ∧ s.flags = s₀.flags ∧ s.sfp = s₀.sfp := by
  obtain ⟨fsms, hbuild, _⟩ := run_fsmbuild env s₀
  exact ⟨s₀.built fsms, ⟨⟨s₀, s₀.built fsms, [], hfresh, hbuild, rfl⟩, rfl⟩, rfl, rfl⟩

/-- Two clients connected back to back, with the messages on their way to each. -/
structure Pair where
  left : Client
  right : Client
  toLeft : List Message
  toRight : List Message

/-- One client takes the next message, and its answers are on their way to the
other. The condition `ok` restricts the steps. -/
inductive Step (envl envr : Env) (ok : Env → Client → Message → Prop) : Pair → Pair → Prop where
  | left {l l' r : Client} {m : Message} {inl inr answers : List Message} (hok : ok envl l m)
      (hrun : (ttwrite envl m.bytes).run l = .ok ((), l')) (hsent : l'.sfp = l.sfp ++ answers.flatMap Message.bytes) :
      Step envl envr ok ⟨l, r, m :: inl, inr⟩ ⟨l', r, inl, inr ++ answers⟩
  | right {l r r' : Client} {m : Message} {inl inr answers : List Message} (hok : ok envr r m)
      (hrun : (ttwrite envr m.bytes).run r = .ok ((), r')) (hsent : r'.sfp = r.sfp ++ answers.flatMap Message.bytes) :
      Step envl envr ok ⟨l, r, inl, m :: inr⟩ ⟨l, r', inl ++ answers, inr⟩

/-- Runs of the pair with the number of their steps. -/
inductive Steps (envl envr : Env) (ok : Env → Client → Message → Prop) : Nat → Pair → Pair → Prop where
  | refl (p : Pair) : Steps envl envr ok 0 p p
  | head {n : Nat} {p p' q : Pair} (hstep : Step envl envr ok p p') (hrest : Steps envl envr ok n p' q) :
      Steps envl envr ok (n + 1) p q

/-- The number of options that are on. -/
def Client.on (s : Client) : Nat :=
  [Flag.doecho, .noga, .rcvbinary, .sndbinary, .termtype].countP fun flag => s.flags flag ≠ 0

/-- What bounds an exchange of refusals: the messages on their way and the options
that can still be turned off. -/
def Pair.size (p : Pair) : Nat := p.toLeft.length + p.toRight.length + p.left.on + p.right.on

/-- Only refusals are on their way. -/
def Pair.Refusing (p : Pair) : Prop := ∀ m ∈ p.toLeft ++ p.toRight, ¬ m.Asks

section

variable {env : Env} {s t : Client} {m : Message} {flag : Flag} {answers : List Message}

theorem Ready.built (hs : Ready env s) : Built env s.fsms := hs.reachable.fromBuild.built

/-- A whole message leaves a client between messages. -/
theorem Ready.receive (hs : Ready env s) (hrun : (ttwrite env m.bytes).run s = .ok ((), t)) : Ready env t := by
  refine ⟨?_, ?_⟩
  · obtain ⟨s₀, s₁, buf, hfresh, hbuild, hbuf⟩ := hs.reachable
    refine ⟨s₀, s₁, buf ++ m.bytes, hfresh, hbuild, ?_⟩
    rw [ttwrite] at hbuf hrun ⊢
    rw [run_eachByte_append, run_bind_of_ok hbuf, hrun]
  · obtain ⟨res, u, hhandler⟩ := total_handler env m m.option (s.received m.cmd)
    rw [run_receive hs.built hs.ttstate m hhandler] at hrun
    cases hrun
    rfl

/-- Turning an option off. -/
theorem on_update (hon : s.flags flag ≠ 0) (ht : t.flags = Function.update s.flags flag 0) : t.on + 1 = s.on := by
  unfold Client.on
  rw [ht]
  cases flag <;> simp [List.countP_cons, hon] <;> omega

theorem length_flatMap_bytes (answers : List Message) :
    (answers.flatMap Message.bytes).length = 3 * answers.length := by
  induction answers with
  | nil => rfl
  | cons m answers ih =>
    rw [List.flatMap_cons, List.length_append, ih, List.length_cons, Message.bytes]
    simp
    omega

theorem bytes_injective {m m' : Message} (heq : m.bytes = m'.bytes) : m = m' := by
  obtain ⟨cmd, option⟩ := m
  obtain ⟨cmd', option'⟩ := m'
  simp only [Message.bytes, List.cons.injEq, and_true, true_and] at heq
  obtain ⟨hcode, hoption⟩ := heq
  have hcmd : cmd = cmd' := by
    cases cmd <;> cases cmd' <;> first | rfl | exact absurd hcode (by decide)
  rw [hcmd, hoption]

/-- The bytes on the wire determine the answers. -/
theorem answers_eq_singleton (heq : answers.flatMap Message.bytes = m.bytes) : answers = [m] := by
  have hlen := length_flatMap_bytes answers
  rw [heq] at hlen
  have hone : answers.length = 1 := by
    simp [Message.bytes] at hlen
    omega
  obtain ⟨m', hm'⟩ := List.length_eq_one_iff.mp hone
  rw [hm', List.flatMap_singleton] at heq
  rw [hm', bytes_injective heq]

theorem answers_eq_nil (heq : answers.flatMap Message.bytes = []) : answers = [] := by
  have hlen := length_flatMap_bytes answers
  rw [heq, List.length_nil] at hlen
  exact List.length_eq_zero_iff.mp (by omega)

theorem Message.reply_not_asks (m : Message) : ¬ m.reply.Asks := by
  obtain ⟨cmd, option⟩ := m
  cases cmd <;> simp [Message.reply, Message.Asks]

/-- A refusal that meets the condition is answered by refusals, one for each option
that it turns off. -/
theorem receive_refusal (hs : Ready env s) (hasks : ¬ m.Asks) (hmeets : Meets env s m)
    (hrun : (ttwrite env m.bytes).run s = .ok ((), t)) (hsent : t.sfp = s.sfp ++ answers.flatMap Message.bytes) :
    answers.length + t.on ≤ s.on ∧ ∀ a ∈ answers, ¬ a.Asks := by
  obtain hyes | ⟨flag, hm, htty⟩ := hmeets
  · exact absurd hyes hasks
  by_cases hoff : s.flags flag = 0
  · obtain ⟨u, hrun', _, hflags, hsfp⟩ := receive_off hs.built hs.ttstate hm hoff
    rw [hrun] at hrun'
    cases hrun'
    rw [hsfp, List.self_eq_append_right] at hsent
    have hon : t.on = s.on := by rw [Client.on, hflags, Client.on]
    rw [answers_eq_nil hsent, hon]
    exact ⟨by simp, by simp⟩
  · obtain ⟨u, hrun', _, hflags, hsfp⟩ := receive_on hs.built hs.ttstate hm hoff fun hecho => htty hecho hoff
    rw [hrun] at hrun'
    cases hrun'
    rw [hsfp, List.append_cancel_left_eq] at hsent
    have hon := on_update hoff hflags
    rw [answers_eq_singleton hsent.symm]
    refine ⟨?_, fun a ha => ?_⟩
    · rw [List.length_singleton]
      omega
    · rw [List.mem_singleton.mp ha]
      exact m.reply_not_asks

end

section

variable {envl envr : Env} {ok : Env → Client → Message → Prop} {p q : Pair} {n : Nat}

theorem Step.ready (hstep : Step envl envr ok p q) (hl : Ready envl p.left) (hr : Ready envr p.right) :
    Ready envl q.left ∧ Ready envr q.right := by
  cases hstep with
  | left hok hrun hsent => exact ⟨hl.receive hrun, hr⟩
  | right hok hrun hsent => exact ⟨hl, hr.receive hrun⟩

theorem Steps.ready (hrun : Steps envl envr ok n p q) (hl : Ready envl p.left) (hr : Ready envr p.right) :
    Ready envl q.left ∧ Ready envr q.right := by
  induction hrun with
  | refl p => exact ⟨hl, hr⟩
  | head hstep hrest ih =>
    obtain ⟨hl', hr'⟩ := hstep.ready hl hr
    exact ih hl' hr'

/-- A step of an exchange of refusals takes a message off the wire or an option
out of use. -/
theorem Step.size_lt (hstep : Step envl envr Meets p q) (hl : Ready envl p.left) (hr : Ready envr p.right)
    (hp : p.Refusing) : q.size < p.size ∧ q.Refusing := by
  cases hstep with
  | @left l l' r m inl inr answers hok hrun hsent =>
    obtain ⟨hle, hanswers⟩ := receive_refusal hl (hp m (by simp)) hok hrun hsent
    refine ⟨?_, fun a ha => ?_⟩
    · simp only [Pair.size, List.length_append, List.length_cons] at hle ⊢
      omega
    · simp only [List.mem_append] at ha
      rcases ha with ha | ha | ha
      · exact hp a (by simp [ha])
      · exact hp a (by simp [ha])
      · exact hanswers a ha
  | @right l r r' m inl inr answers hok hrun hsent =>
    obtain ⟨hle, hanswers⟩ := receive_refusal hr (hp m (by simp)) hok hrun hsent
    refine ⟨?_, fun a ha => ?_⟩
    · simp only [Pair.size, List.length_append, List.length_cons] at hle ⊢
      omega
    · simp only [List.mem_append] at ha
      rcases ha with (ha | ha) | ha
      · exact hp a (by simp [ha])
      · exact hanswers a ha
      · exact hp a (by simp [ha])

/-- An exchange of refusals ends. -/
theorem Steps.le_size (hrun : Steps envl envr Meets n p q) (hl : Ready envl p.left) (hr : Ready envr p.right)
    (hp : p.Refusing) : n + q.size ≤ p.size := by
  induction hrun with
  | refl p => exact Nat.le_of_eq (Nat.zero_add _)
  | head hstep hrest ih =>
    obtain ⟨hl', hr'⟩ := hstep.ready hl hr
    obtain ⟨hlt, hp'⟩ := hstep.size_lt hl hr hp
    have hle := ih hl' hr' hp'
    omega

end

/-- In every state that two connected clients reach, from reachable states and by
messages that meet the condition, each of them is restrained on exactly the
messages that meet it; and where only refusals were on their way, the run is over
after a bounded number of steps, so that they do not answer each other for ever. -/
theorem refusals_restrained (envl envr : Env) (n : Nat) (p q : Pair) (hl : Ready envl p.left)
    (hr : Ready envr p.right) (hrun : Steps envl envr Meets n p q) :
    (∀ m, Restrained envl q.left m ↔ Meets envl q.left m) ∧ (∀ m, Restrained envr q.right m ↔ Meets envr q.right m) ∧
      (p.Refusing → n ≤ p.size) := by
  obtain ⟨hl', hr'⟩ := hrun.ready hl hr
  refine ⟨fun m => ?_, fun m => ?_, fun hp => ?_⟩
  · exact ⟨meets_of_restrained hl'.built hl'.ttstate, restrained_of_meets hl'.built hl'.ttstate⟩
  · exact ⟨meets_of_restrained hr'.built hr'.ttstate, restrained_of_meets hr'.built hr'.ttstate⟩
  · have hle := hrun.le_size hl hr hp
    omega

/-- Two clients that have just started, with a refusal of the echo on its way. -/
theorem refusals_restrained_example : ∃ s t, Ready quietEnv s ∧
    Steps quietEnv quietEnv Meets 1 ⟨s, s, [⟨.WONT, TOECHO⟩], []⟩ ⟨t, s, [], []⟩ ∧
    (∀ m, Restrained quietEnv t m ↔ Meets quietEnv t m) ∧
    1 ≤ (⟨s, s, [⟨.WONT, TOECHO⟩], []⟩ : Pair).size := by
  obtain ⟨s, hs, hflags, _⟩ := exists_ready quietEnv zero_fresh
  have hoff : s.flags .doecho = 0 := by rw [hflags]; rfl
  obtain ⟨t, hrun, _, _, hsfp⟩ := receive_off hs.built hs.ttstate .echo hoff
  have hsent : t.sfp = s.sfp ++ ([] : List Message).flatMap Message.bytes := by
    rw [hsfp, List.flatMap_nil, List.append_nil]
  have hmeets : Meets quietEnv s ⟨.WONT, TOECHO⟩ := .inr ⟨.doecho, .echo, fun _ hon => absurd hoff hon⟩
  have hsteps : Steps quietEnv quietEnv Meets 1 ⟨s, s, [⟨.WONT, TOECHO⟩], []⟩ ⟨t, s, [], []⟩ :=
    .head (.left hmeets hrun hsent) (.refl _)
  obtain ⟨hleft, _, hbound⟩ := refusals_restrained quietEnv quietEnv 1 _ _ hs hs hsteps
  exact ⟨s, t, hs, hsteps, hleft, hbound (by simp [Pair.Refusing, Message.Asks])⟩

end basic_data_struct.telnet
