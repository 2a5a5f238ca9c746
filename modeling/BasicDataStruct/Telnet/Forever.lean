import BasicDataStruct.Telnet.Exchange

open machine machine.Exec

namespace basic_data_struct.telnet

variable {p : Pair} {c : UInt8} {l r : Client}

section

variable {envl envr : Env} {ok : Env → Client → Message → Prop}

/-- A pair that can always make another step has runs of every length. -/
theorem steps_of_invariant (Inv : Pair → Prop) (hstep : ∀ p, Inv p → ∃ q, Step envl envr ok p q ∧ Inv q)
    (hp : Inv p) (n : Nat) : ∃ q, Steps envl envr ok n p q := by
  induction n generalizing p with
  | zero => exact ⟨p, .refl p⟩
  | succ n ih =>
    obtain ⟨p', hfirst, hp'⟩ := hstep p hp
    obtain ⟨q, hrest⟩ := ih hp'
    exact ⟨q, .head hfirst hrest⟩

theorem flatMap_bytes_singleton (m : Message) : [m].flatMap Message.bytes = m.bytes := by
  rw [List.flatMap_singleton]

/-- A refusal of an option that neither client supports is on its way. -/
inductive Bouncing (envl envr : Env) (c : UInt8) : Pair → Prop where
  | toLeft {l r : Client} (hl : Ready envl l) (hr : Ready envr r) : Bouncing envl envr c ⟨l, r, [⟨.WONT, c⟩], []⟩
  | toRight {l r : Client} (hl : Ready envl l) (hr : Ready envr r) : Bouncing envl envr c ⟨l, r, [], [⟨.DONT, c⟩]⟩

/-- The client does not support the option in either direction. -/
def Unsupported (c : UInt8) : Prop := c ≠ TOECHO ∧ c ≠ TONOGA ∧ c ≠ TOTXBINARY ∧ c ≠ TOTERMTYPE

theorem not_refuses_of_unsupported (hc : Unsupported c) (cmd : Cmd) (flag : Flag) : ¬ Refuses ⟨cmd, c⟩ flag := by
  obtain ⟨hecho, hnoga, hbin, hterm⟩ := hc
  intro hm
  cases hm with
  | echo => exact hecho rfl
  | noga => exact hnoga rfl
  | rcvbinary => exact hbin rfl
  | sndbinary => exact hbin rfl
  | termtype => exact hterm rfl

theorem Bouncing.step (hc : Unsupported c) (hp : Bouncing envl envr c p) :
    ∃ q, Step envl envr (fun _ _ _ => True) p q ∧ Bouncing envl envr c q := by
  cases hp with
  | @toLeft l r hl hr =>
    obtain ⟨t, hrun, _, _, hsfp⟩ := receive_unsupported (m := ⟨.WONT, c⟩) hl.built hl.ttstate (by simp [Message.Asks])
      (not_refuses_of_unsupported hc .WONT)
    rw [← flatMap_bytes_singleton] at hsfp
    exact ⟨_, .left trivial hrun hsfp, .toRight (hl.receive hrun) hr⟩
  | @toRight l r hl hr =>
    obtain ⟨t, hrun, _, _, hsfp⟩ := receive_unsupported (m := ⟨.DONT, c⟩) hr.built hr.ttstate (by simp [Message.Asks])
      (not_refuses_of_unsupported hc .DONT)
    rw [← flatMap_bytes_singleton] at hsfp
    exact ⟨_, .right trivial hrun hsfp, .toLeft hl (hr.receive hrun)⟩

/-- Two clients answer a refusal of an unsupported option for ever. -/
theorem unsupported_forever (hc : Unsupported c) (hl : Ready envl l) (hr : Ready envr r)
    (n : Nat) : ∃ q, Steps envl envr (fun _ _ _ => True) n ⟨l, r, [⟨.WONT, c⟩], []⟩ q :=
  steps_of_invariant (Bouncing envl envr c) (fun _ hp => hp.step hc) (.toLeft hl hr) n

end

/-- A client that has just started answers `IAC WONT 5`, although the option has
never been on, and two such clients then answer each other for ever. -/
theorem answers_unsupported_refusal : ∃ s, Ready quietEnv s ∧ (∀ flag, s.flags flag = 0) ∧
    (∃ t, (ttwrite quietEnv [TCIAC, TCWONT, 5]).run s = .ok ((), t) ∧ t.sfp = s.sfp ++ [TCIAC, TCDONT, 5]) ∧
    ¬ Restrained quietEnv s ⟨.WONT, 5⟩ ∧
    ∀ n, ∃ q, Steps quietEnv quietEnv (fun _ _ _ => True) n ⟨s, s, [⟨.WONT, 5⟩], []⟩ q := by
  obtain ⟨s, hs, hflags, _⟩ := exists_ready quietEnv zero_fresh
  have hun : Unsupported 5 := ⟨by decide, by decide, by decide, by decide⟩
  have hasks : ¬ (⟨.WONT, 5⟩ : Message).Asks := by simp [Message.Asks]
  obtain ⟨t, hrun, _, hsame, hsfp⟩ := receive_unsupported hs.built hs.ttstate hasks
    (not_refuses_of_unsupported hun .WONT)
  refine ⟨s, hs, fun flag => by rw [hflags]; rfl, ⟨t, hrun, hsfp⟩, ?_, unsupported_forever hun hs hs⟩
  exact not_restrained_of_answer hrun hasks hsame (hsfp ▸ append_ne_self _ _)

section

variable {envl envr : Env}

/-- The first message of the binary option turns it on. -/
theorem receive_ask {env : Env} {s : Client} (hs : Ready env s) (m reply : Message) (flag : Flag)
    (hrun : (m.handler env m.option).run (s.received m.cmd) =
      .ok (0, ((s.received m.cmd).setFlag flag 1).sent reply.bytes)) :
    ∃ t, (ttwrite env m.bytes).run s = .ok ((), t) ∧ t.flags flag ≠ 0 ∧
      t.sfp = s.sfp ++ [reply].flatMap Message.bytes := by
  refine ⟨_, run_receive hs.built hs.ttstate m hrun, ?_, ?_⟩
  · show Function.update s.flags flag 1 flag ≠ 0
    rw [Function.update_self]
    decide
  · rw [flatMap_bytes_singleton]
    rfl

/-- The stages of a pair that turns the binary option of one direction on and off:
a request is followed by a refusal, and both go round. -/
inductive Toggling (envl envr : Env) : Pair → Prop where
  | start {l r : Client} (hl : Ready envl l) (hr : Ready envr r) (hrcv : l.flags .rcvbinary = 0)
      (hsnd : r.flags .sndbinary = 0) : Toggling envl envr ⟨l, r, [⟨.WILL, TOTXBINARY⟩, ⟨.WONT, TOTXBINARY⟩], []⟩
  | agreed {l r : Client} (hl : Ready envl l) (hr : Ready envr r) (hrcv : l.flags .rcvbinary ≠ 0)
      (hsnd : r.flags .sndbinary = 0) : Toggling envl envr ⟨l, r, [⟨.WONT, TOTXBINARY⟩], [⟨.DO, TOTXBINARY⟩]⟩
  | turned {l r : Client} (hl : Ready envl l) (hr : Ready envr r) (hrcv : l.flags .rcvbinary = 0)
      (hsnd : r.flags .sndbinary = 0) : Toggling envl envr ⟨l, r, [], [⟨.DO, TOTXBINARY⟩, ⟨.DONT, TOTXBINARY⟩]⟩
  | offered {l r : Client} (hl : Ready envl l) (hr : Ready envr r) (hrcv : l.flags .rcvbinary = 0)
      (hsnd : r.flags .sndbinary ≠ 0) : Toggling envl envr ⟨l, r, [⟨.WILL, TOTXBINARY⟩], [⟨.DONT, TOTXBINARY⟩]⟩

theorem Toggling.step (hp : Toggling envl envr p) : ∃ q, Step envl envr Meets p q ∧ Toggling envl envr q := by
  cases hp with
  | @start l r hl hr hrcv hsnd =>
    obtain ⟨t, hrun, hflag, hsfp⟩ := receive_ask hl ⟨.WILL, TOTXBINARY⟩ ⟨.DO, TOTXBINARY⟩ .rcvbinary
      (run_toggle_ask TCDO TCDONT hrcv rfl (by decide))
    exact ⟨_, .left (.inl (.inl rfl)) hrun hsfp, .agreed (hl.receive hrun) hr hflag hsnd⟩
  | @agreed l r hl hr hrcv hsnd =>
    obtain ⟨t, hrun, _, hflags, hsfp⟩ := receive_on hl.built hl.ttstate .rcvbinary hrcv (by simp)
    rw [← flatMap_bytes_singleton] at hsfp
    refine ⟨_, .left (.inr ⟨.rcvbinary, .rcvbinary, by simp⟩) hrun hsfp, .turned (hl.receive hrun) hr ?_ hsnd⟩
    rw [hflags, Function.update_self]
  | @turned l r hl hr hrcv hsnd =>
    obtain ⟨t, hrun, hflag, hsfp⟩ := receive_ask hr ⟨.DO, TOTXBINARY⟩ ⟨.WILL, TOTXBINARY⟩ .sndbinary
      (run_toggle_ask TCWILL TCWONT hsnd rfl (by decide))
    exact ⟨_, .right (.inl (.inr rfl)) hrun hsfp, .offered hl (hr.receive hrun) hrcv hflag⟩
  | @offered l r hl hr hrcv hsnd =>
    obtain ⟨t, hrun, _, hflags, hsfp⟩ := receive_on hr.built hr.ttstate .sndbinary hsnd (by simp)
    rw [← flatMap_bytes_singleton] at hsfp
    refine ⟨_, .right (.inr ⟨.sndbinary, .sndbinary, by simp⟩) hrun hsfp, .start hl (hr.receive hrun) hrcv ?_⟩
    rw [hflags, Function.update_self]

/-- With a request on its way besides the refusal a pair goes on for ever even
though every message meets the condition. -/
theorem toggling_forever (hl : Ready envl l) (hr : Ready envr r) (hrcv : l.flags .rcvbinary = 0)
    (hsnd : r.flags .sndbinary = 0) (n : Nat) :
    ∃ q, Steps envl envr Meets n ⟨l, r, [⟨.WILL, TOTXBINARY⟩, ⟨.WONT, TOTXBINARY⟩], []⟩ q :=
  steps_of_invariant (Toggling envl envr) (fun _ hp => hp.step) (.start hl hr hrcv hsnd) n

end

end basic_data_struct.telnet
