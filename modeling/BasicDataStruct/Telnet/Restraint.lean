import BasicDataStruct.Telnet.Refusal

open machine machine.Exec

namespace basic_data_struct.telnet

/-- The option of the message is off in the client. An option that the client does
not support is never on. -/
def Off (s : Client) (m : Message) : Prop := ∀ flag, Refuses m flag → s.flags flag = 0

/-- The client takes the message without a fault and is no more talkative than it
has to be: a refusal of an option that is off gets no answer, and an answer is
only given to a message that asks for an option or that changes one. -/
def Restrained (env : Env) (s : Client) (m : Message) : Prop :=
  ∃ t, (ttwrite env m.bytes).run s = .ok ((), t) ∧ (¬ m.Asks → Off s m → t.sfp = s.sfp) ∧
    (t.sfp ≠ s.sfp → m.Asks ∨ t.flags ≠ s.flags)

/-- The message asks for an option, or it refuses one that the client supports, and
where the client has to switch the echo back on the terminal calls succeed. -/
def Meets (env : Env) (s : Client) (m : Message) : Prop :=
  m.Asks ∨ ∃ flag, Refuses m flag ∧ (flag = .doecho → s.flags flag ≠ 0 → TtyWorks env s)

section

variable {env : Env} {s : Client} {m : Message} {flag : Flag}

/-- A refusal of a supported option that is off. -/
theorem receive_off (hb : Built env s.fsms) (htt : s.ttstate = TSDATA) (hm : Refuses m flag) (hoff : s.flags flag = 0) :
    ∃ t, (ttwrite env m.bytes).run s = .ok ((), t) ∧ t.ttstate = TSDATA ∧ t.flags = s.flags ∧ t.sfp = s.sfp :=
  ⟨_, run_receive hb htt m (run_handler_off (s := s.received m.cmd) hm hoff rfl), rfl, rfl, rfl⟩

/-- A refusal of a supported option that is on. -/
theorem receive_on (hb : Built env s.fsms) (htt : s.ttstate = TSDATA) (hm : Refuses m flag) (hon : s.flags flag ≠ 0)
    (htty : flag = .doecho → TtyWorks env s) :
    ∃ t, (ttwrite env m.bytes).run s = .ok ((), t) ∧ t.ttstate = TSDATA ∧
      t.flags = Function.update s.flags flag 0 ∧ t.sfp = s.sfp ++ m.reply.bytes := by
  obtain ⟨t, hrun, hflags, hsfp⟩ := run_handler_on (s := s.received m.cmd) hm hon rfl htty
  exact ⟨_, run_receive hb htt m hrun, rfl, hflags, hsfp⟩

/-- A refusal of an option that the client does not support. -/
theorem receive_unsupported (hb : Built env s.fsms) (htt : s.ttstate = TSDATA) (hm : ¬ m.Asks)
    (hun : ∀ flag, ¬ Refuses m flag) :
    ∃ t, (ttwrite env m.bytes).run s = .ok ((), t) ∧ t.ttstate = TSDATA ∧ t.flags = s.flags ∧
      t.sfp = s.sfp ++ m.reply.bytes :=
  ⟨_, run_receive hb htt m (run_handler_unsupported hm hun (s.received m.cmd)), rfl, rfl, rfl⟩

/-- The end of the echo, when the terminal cannot be switched. -/
theorem receive_echo_fails (hb : Built env s.fsms) (htt : s.ttstate = TSDATA) (hon : s.flags .doecho ≠ 0)
    (htty : ¬ TtyWorks env s) :
    ∃ t, (ttwrite env (⟨.WONT, TOECHO⟩ : Message).bytes).run s = .ok ((), t) ∧ t.flags = s.flags ∧
      t.sfp = s.sfp ++ [TCIAC, TCDO, TOECHO] := by
  obtain ⟨t, hrun, _, hfails⟩ := run_do_echo_on env (s := s.received .WONT) hon rfl TOECHO
  exact ⟨_, run_receive hb htt ⟨.WONT, TOECHO⟩ hrun, hfails htty⟩

theorem append_ne_self (xs : List UInt8) (m : Message) : xs ++ m.bytes ≠ xs := by
  simp [Message.bytes]

theorem restrained_of_meets (hb : Built env s.fsms) (htt : s.ttstate = TSDATA) (hmeets : Meets env s m) :
    Restrained env s m := by
  rcases hmeets with hasks | ⟨flag, hm, htty⟩
  · obtain ⟨res, t, hrun⟩ := total_handler env m m.option (s.received m.cmd)
    exact ⟨_, run_receive hb htt m hrun, fun hnot => absurd hasks hnot, fun _ => .inl hasks⟩
  · by_cases hoff : s.flags flag = 0
    · obtain ⟨t, hrun, _, hflags, hsfp⟩ := receive_off hb htt hm hoff
      exact ⟨t, hrun, fun _ _ => hsfp, fun hne => absurd hsfp hne⟩
    · obtain ⟨t, hrun, _, hflags, hsfp⟩ := receive_on hb htt hm hoff fun hecho => htty hecho hoff
      refine ⟨t, hrun, fun _ hall => absurd (hall flag hm) hoff, fun _ => .inr fun hsame => hoff ?_⟩
      rw [← hsame, hflags, Function.update_self]

theorem not_restrained_of_answer {t : Client} (hrun : (ttwrite env m.bytes).run s = .ok ((), t)) (hasks : ¬ m.Asks)
    (hflags : t.flags = s.flags) (hsfp : t.sfp ≠ s.sfp) : ¬ Restrained env s m := by
  intro hres
  obtain ⟨u, hrun', _, honly⟩ := hres
  rw [hrun] at hrun'
  cases hrun'
  exact (honly hsfp).elim hasks fun hchanged => hchanged hflags

theorem meets_of_restrained (hb : Built env s.fsms) (htt : s.ttstate = TSDATA) (hres : Restrained env s m) :
    Meets env s m := by
  by_contra hnot
  have hasks : ¬ m.Asks := fun hasks => hnot (.inl hasks)
  by_cases hsup : ∃ flag, Refuses m flag
  · obtain ⟨flag, hm⟩ := hsup
    have hfail : flag = .doecho ∧ s.flags flag ≠ 0 ∧ ¬ TtyWorks env s := by
      by_contra hno
      refine hnot (.inr ⟨flag, hm, fun hecho hon => ?_⟩)
      by_contra htty
      exact hno ⟨hecho, hon, htty⟩
    obtain ⟨hecho, hon, htty⟩ := hfail
    subst hecho
    cases hm
    obtain ⟨t, hrun, hflags, hsfp⟩ := receive_echo_fails hb htt hon htty
    refine not_restrained_of_answer hrun hasks hflags ?_ hres
    rw [hsfp]
    exact append_ne_self s.sfp ⟨.DO, TOECHO⟩
  · have hun : ∀ flag, ¬ Refuses m flag := fun flag hm => hsup ⟨flag, hm⟩
    obtain ⟨t, hrun, _, hflags, hsfp⟩ := receive_unsupported hb htt hasks hun
    exact not_restrained_of_answer hrun hasks hflags (hsfp ▸ append_ne_self _ _) hres

end

end basic_data_struct.telnet
