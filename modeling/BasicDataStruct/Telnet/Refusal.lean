import BasicDataStruct.Telnet.Negotiation

open machine machine.Exec

namespace basic_data_struct.telnet

/-- The message asks to enable an option. -/
def Message.Asks (m : Message) : Prop := m.cmd = .WILL ∨ m.cmd = .DO

/-- The refusals of the options that the client supports, with their flags. -/
inductive Refuses : Message → Flag → Prop where
  | echo : Refuses ⟨.WONT, TOECHO⟩ .doecho
  | noga : Refuses ⟨.WONT, TONOGA⟩ .noga
  | rcvbinary : Refuses ⟨.WONT, TOTXBINARY⟩ .rcvbinary
  | sndbinary : Refuses ⟨.DONT, TOTXBINARY⟩ .sndbinary
  | termtype : Refuses ⟨.DONT, TOTERMTYPE⟩ .termtype

/-- The refusal that answers a refusal. -/
def Message.reply (m : Message) : Message :=
  match m.cmd with
  | .WILL | .WONT => ⟨.DONT, m.option⟩
  | .DO | .DONT => ⟨.WONT, m.option⟩

/-- The next two terminal calls succeed. -/
def TtyWorks (env : Env) (s : Client) : Prop := env.ttyOk s.calls = true ∧ env.ttyOk (s.calls + 1) = true

section

variable {env : Env} {s : Client} {m : Message} {flag : Flag}

/-- The client after a call of the system. -/
def Client.called (s : Client) : Client := { s with calls := s.calls + 1 }

theorem run_call (s : Client) : call.run s = .ok (s.calls, s.called) := rfl

theorem run_tcgetattr (env : Env) (fd : Nat) (s : Client) : (tcgetattr env fd).run s =
    .ok (if env.ttyOk s.calls = true then some (s.tty (env.terminal fd)) else none, s.called) := rfl

theorem run_tcsetattr (env : Env) (fd : Nat) (tio : termios) (s : Client) :
    ∃ t, (tcsetattr env fd tio).run s = .ok (env.ttyOk s.calls, t) ∧ t.flags = s.flags ∧ t.sfp = s.sfp := by
  rw [tcsetattr, run_bind_of_ok (run_call s)]
  cases hok : env.ttyOk s.calls with
  | true => exact ⟨_, rfl, rfl, rfl⟩
  | false => exact ⟨_, rfl, rfl, rfl⟩

theorem run_echo_settings (tio : termios) (s : Client) :
    ∃ tio' t, (echo_settings tio).run s = .ok (tio', t) ∧ t.flags = s.flags ∧ t.sfp = s.sfp ∧ t.calls = s.calls := by
  rw [echo_settings, run_bind_of_ok (run_get s)]
  by_cases hcmd : s.option_cmd = TCWILL
  · rw [if_pos hcmd]
    exact ⟨_, _, rfl, rfl, rfl, rfl⟩
  · rw [if_neg hcmd]
    exact ⟨_, _, rfl, rfl, rfl, rfl⟩

/-- `do_echo` can switch the terminal when both of its calls succeed. -/
theorem run_echo_mode (env : Env) (s : Client) :
    ∃ ok t, (echo_mode env).run s = .ok (ok, t) ∧ (ok = true ↔ TtyWorks env s) ∧ t.flags = s.flags ∧ t.sfp = s.sfp := by
  rw [echo_mode, run_bind_of_ok (run_tcgetattr env env.tfd s)]
  by_cases hget : env.ttyOk s.calls = true
  · rw [if_pos hget]
    obtain ⟨tio, t, hset, hflags, hsfp, hcalls⟩ := run_echo_settings (s.tty (env.terminal env.tfd)) s.called
    obtain ⟨u, hrun, huflags, husfp⟩ := run_tcsetattr env env.tfd tio t
    refine ⟨env.ttyOk t.calls, u, ?_, ?_, huflags.trans hflags, husfp.trans hsfp⟩
    · exact (run_bind_of_ok hset _).trans hrun
    · rw [hcalls]
      exact (and_iff_right hget).symm
  · rw [if_neg hget]
    exact ⟨false, s.called, rfl, by simp [TtyWorks, hget], rfl, rfl⟩

theorem run_do_echo_on (env : Env) (hon : s.flags .doecho ≠ 0) (hcmd : s.option_cmd = TCWONT) (c : UInt8) :
    ∃ t, (do_echo env c).run s = .ok (0, t) ∧
      (TtyWorks env s → t.flags = Function.update s.flags .doecho 0 ∧ t.sfp = s.sfp ++ [TCIAC, TCDONT, c]) ∧
      (¬ TtyWorks env s → t.flags = s.flags ∧ t.sfp = s.sfp ++ [TCIAC, TCDO, c]) := by
  obtain ⟨ok, t, hmode, hok, hflags, hsfp⟩ := run_echo_mode env s
  have hon' : t.flags .doecho ≠ 0 := by rwa [hflags]
  have hnot : ¬ settled s .doecho TCWILL TCWONT := not_settled_of_on hon hcmd (by decide)
  rw [do_echo, run_bind_of_ok (run_get s), if_neg hnot, run_bind_of_ok hmode]
  by_cases hworks : TtyWorks env s
  · have hflip := run_bind_of_ok (run_flip hon') fun _ => answer .doecho TCDO TCDONT c >>= fun _ => pure (0 : Int32)
    rw [if_pos (hok.mpr hworks)]
    refine ⟨(t.setFlag .doecho 0).sent [TCIAC, TCDONT, c], ?_, ?_, fun hnot => absurd hworks hnot⟩
    · exact hflip.trans (run_bind_of_ok (run_answer_off .doecho TCDO TCDONT c t) _)
    · intro _
      rw [← hflags, ← hsfp]
      exact ⟨rfl, rfl⟩
  · have hanswer := run_answer .doecho TCDO TCDONT c t
    rw [if_pos hon'] at hanswer
    rw [if_neg (fun htrue => hworks (hok.mp htrue))]
    refine ⟨t.sent [TCIAC, TCDO, c], ?_, fun hyes => absurd hyes hworks, ?_⟩
    · exact run_bind_of_ok hanswer _
    · intro _
      rw [← hflags, ← hsfp]
      exact ⟨rfl, rfl⟩

theorem run_will_termtype_on (hon : s.flags .termtype ≠ 0) (hcmd : s.option_cmd = TCDONT) (c : UInt8) :
    (will_termtype env c).run s = .ok (0, (s.setFlag .termtype 0).sent [TCIAC, TCWONT, c]) := by
  have hnot : ¬ settled s .termtype TCDO TCDONT := not_settled_of_on hon hcmd (by decide)
  have hoff : ¬ (s.setFlag .termtype 0).flags .termtype ≠ 0 := not_not.mpr (setFlag_flags s .termtype 0)
  have hcheck : (check_term env).run (s.setFlag .termtype 0) = .ok ((), s.setFlag .termtype 0) := by
    rw [check_term, run_bind_of_ok (run_get _), if_neg hoff, run_pure]
  rw [will_termtype, run_bind_of_ok (run_get s), if_neg hnot, run_bind_of_ok (run_flip hon), run_bind_of_ok hcheck,
    run_bind_of_ok (run_answer_off .termtype TCWILL TCWONT c s), run_bind_of_ok (run_get _)]
  have hend : ¬ ((s.setFlag .termtype 0).sent [TCIAC, TCWONT, c]).flags .termtype ≠ 0 := hoff
  dsimp only
  rw [if_neg hend, run_pure]

/-- The handler of a refused option that is off does nothing. -/
theorem run_handler_off (hm : Refuses m flag) (hoff : s.flags flag = 0) (hcmd : s.option_cmd = m.cmd.code) :
    (m.handler env m.option).run s = .ok (0, s) := by
  cases hm with
  | echo =>
    have hsettled : settled s .doecho TCWILL TCWONT := settled_of_off hoff hcmd
    change (do_echo env TOECHO).run s = _
    rw [do_echo, run_bind_of_ok (run_get s), if_pos hsettled, run_pure]
  | noga => exact run_toggle_off hoff hcmd
  | rcvbinary => exact run_toggle_off hoff hcmd
  | sndbinary => exact run_toggle_off hoff hcmd
  | termtype =>
    have hsettled : settled s .termtype TCDO TCDONT := settled_of_off hoff hcmd
    change (will_termtype env TOTERMTYPE).run s = _
    rw [will_termtype, run_bind_of_ok (run_get s), if_pos hsettled, run_pure]

/-- The handler of a refused option that is on turns it off and says so. -/
theorem run_handler_on (hm : Refuses m flag) (hon : s.flags flag ≠ 0) (hcmd : s.option_cmd = m.cmd.code)
    (htty : flag = .doecho → TtyWorks env s) :
    ∃ t, (m.handler env m.option).run s = .ok (0, t) ∧ t.flags = Function.update s.flags flag 0 ∧
      t.sfp = s.sfp ++ m.reply.bytes := by
  cases hm with
  | echo =>
    obtain ⟨t, hrun, hworks, _⟩ := run_do_echo_on env hon hcmd TOECHO
    exact ⟨t, hrun, hworks (htty rfl)⟩
  | noga => exact ⟨_, run_toggle_on hon hcmd (by decide), rfl, rfl⟩
  | rcvbinary => exact ⟨_, run_toggle_on hon hcmd (by decide), rfl, rfl⟩
  | sndbinary => exact ⟨_, run_toggle_on hon hcmd (by decide), rfl, rfl⟩
  | termtype => exact ⟨_, run_will_termtype_on hon hcmd TOTERMTYPE, rfl, rfl⟩

/-- The handler of a refused option that the client does not support. -/
theorem run_handler_unsupported (hm : ¬ m.Asks) (hun : ∀ flag, ¬ Refuses m flag) (s : Client) :
    (m.handler env m.option).run s = .ok (0, s.sent m.reply.bytes) := by
  obtain ⟨cmd, option⟩ := m
  cases cmd with
  | WILL => exact absurd (.inl rfl) hm
  | DO => exact absurd (.inr rfl) hm
  | WONT =>
    have hecho : option ≠ TOECHO := fun heq => hun .doecho (heq ▸ .echo)
    have hnoga : option ≠ TONOGA := fun heq => hun .noga (heq ▸ .noga)
    have hbin : option ≠ TOTXBINARY := fun heq => hun .rcvbinary (heq ▸ .rcvbinary)
    change (wopt_handler env option option).run s = _
    rw [wopt_handler, if_neg hecho, if_neg hnoga, if_neg hbin, do_notsup, run_bind_of_ok (run_command _ _ s)]
    rfl
  | DONT =>
    have hterm : option ≠ TOTERMTYPE := fun heq => hun .termtype (heq ▸ .termtype)
    have hbin : option ≠ TOTXBINARY := fun heq => hun .sndbinary (heq ▸ .sndbinary)
    change (dopt_handler env option option).run s = _
    rw [dopt_handler, if_neg hterm, if_neg hbin, will_notsup, run_bind_of_ok (run_command _ _ s)]
    rfl

theorem total_toggle (flag : Flag) (ask refuse agree deny c : UInt8) :
    Total (toggle flag ask refuse agree deny c) := by
  have hanswer : Total (answer flag agree deny c) := fun s => ⟨_, _, run_answer _ _ _ _ s⟩
  refine Total.get.bind fun _ => .ite _ (.pure _) ?_
  exact (Total.modify _).bind fun _ => hanswer.bind fun _ => .pure _

theorem total_do_echo (c : UInt8) : Total (do_echo env c) := by
  have hanswer : Total (answer .doecho TCDO TCDONT c) := fun s => ⟨_, _, run_answer _ _ _ _ s⟩
  have hmode : Total (echo_mode env) := by
    intro s
    obtain ⟨ok, t, hrun, _⟩ := run_echo_mode env s
    exact ⟨ok, t, hrun⟩
  refine Total.get.bind fun _ => .ite _ (.pure _) (hmode.bind fun ok => .ite _ ?_ ?_)
  · exact (Total.modify _).bind fun _ => hanswer.bind fun _ => .pure _
  · exact (Total.pure ()).bind fun _ => hanswer.bind fun _ => .pure _

theorem total_will_termtype (c : UInt8) : Total (will_termtype env c) := by
  have hanswer : Total (answer .termtype TCWILL TCWONT c) := fun s => ⟨_, _, run_answer _ _ _ _ s⟩
  have hcall : Total call := fun s => ⟨_, _, run_call s⟩
  have hfind : Total (find_term env) :=
    Total.get.bind fun _ => .ite _ (.pure _) (hcall.bind fun _ => (Total.modify _).bind fun _ => .pure _)
  have hcheck : Total (check_term env) :=
    Total.get.bind fun _ => .ite _ (hfind.bind fun _ => .ite _ (.pure _) (.modify _)) (.pure _)
  have hpath : Total binary_path :=
    (Total.modify _).bind fun _ => (total_toggle _ _ _ _ _ _).bind fun _ => (Total.modify _).bind fun _ =>
      (total_toggle _ _ _ _ _ _).bind fun _ => .pure _
  refine Total.get.bind fun _ => .ite _ (.pure _) ((Total.modify _).bind fun _ => hcheck.bind fun _ => ?_)
  refine hanswer.bind fun _ => Total.get.bind fun _ => .ite _ ?_ ?_
  · exact hpath.bind fun _ => .pure _
  · exact (Total.pure ()).bind fun _ => .pure _

/-- Every message is handled without a fault. -/
theorem total_handler (env : Env) (m : Message) (c : UInt8) : Total (m.handler env c) := by
  have hrefuse : ∀ cmd, Total (do command cmd c; return (0 : Int32)) := fun cmd =>
    Total.bind (fun s => ⟨_, _, run_command cmd c s⟩) fun _ => .pure _
  have hwopt : Total (wopt_handler env m.option c) := by
    unfold wopt_handler
    split
    · exact total_do_echo c
    · split
      · exact total_toggle _ _ _ _ _ _
      · split
        · exact total_toggle _ _ _ _ _ _
        · exact hrefuse TCDONT
  have hdopt : Total (dopt_handler env m.option c) := by
    unfold dopt_handler
    split
    · exact total_will_termtype c
    · split
      · exact total_toggle _ _ _ _ _ _
      · exact hrefuse TCWONT
  unfold Message.handler
  cases m.cmd with
  | WILL => exact hwopt
  | WONT => exact hwopt
  | DO => exact hdopt
  | DONT => exact hdopt

end

end basic_data_struct.telnet
