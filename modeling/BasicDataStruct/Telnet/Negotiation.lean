import BasicDataStruct.Telnet.Reach
import BasicDataStruct.Telnet.Transparency

open machine machine.Exec

namespace basic_data_struct.telnet

variable {flag : Flag} {ask refuse agree deny : UInt8}

/-- The commands of option negotiation. -/
inductive Cmd where
  | WILL
  | WONT
  | DO
  | DONT
deriving DecidableEq

def Cmd.code : Cmd → UInt8
  | .WILL => TCWILL
  | .WONT => TCWONT
  | .DO => TCDO
  | .DONT => TCDONT

/-- The state in which the option of the command is read. -/
def Cmd.state : Cmd → Nat
  | .WILL | .WONT => TSWOPT
  | .DO | .DONT => TSDOPT

/-- A command with its option. -/
structure Message where
  cmd : Cmd
  option : UInt8
deriving DecidableEq

def Message.bytes (m : Message) : List UInt8 := [TCIAC, m.cmd.code, m.option]

/-- The actions of the rows for `TSWOPT`. -/
def wopt_handler (env : Env) (c : UInt8) : Action :=
  if c = TOECHO then do_echo env
  else if c = TONOGA then do_noga
  else if c = TOTXBINARY then do_txbinary
  else do_notsup

/-- The actions of the rows for `TSDOPT`. -/
def dopt_handler (env : Env) (c : UInt8) : Action :=
  if c = TOTERMTYPE then will_termtype env else if c = TOTXBINARY then will_txbinary else will_notsup

def Message.handler (env : Env) (m : Message) : Action :=
  match m.cmd with
  | .WILL | .WONT => wopt_handler env m.option
  | .DO | .DONT => dopt_handler env m.option

/-- The client when it has read the command of a message. -/
def Client.received (s : Client) (cmd : Cmd) : Client :=
  ((s.setTtstate TSIAC).setOptionCmd cmd.code).setTtstate cmd.state

section

variable {env : Env} {s t : Client} {c : UInt8}

theorem tt_iac_cmd (env : Env) (cmd : Cmd) : ∃ pt, (ttstab env)[rowIndex (ttrows env) TSIAC cmd.code.toNat]? = some pt ∧
    pt.ft_action = recopt ∧ pt.ft_next.toNat = cmd.state := by
  cases cmd <;> exact ⟨_, rfl, rfl, rfl⟩

theorem tt_wopt (env : Env) (c : UInt8) : ∃ pt, (ttstab env)[rowIndex (ttrows env) TSWOPT c.toNat]? = some pt ∧
    pt.ft_action = wopt_handler env c ∧ pt.ft_next = 0 := by
  unfold wopt_handler
  by_cases hecho : c = TOECHO
  · subst hecho
    exact ⟨_, rfl, rfl, rfl⟩
  by_cases hnoga : c = TONOGA
  · subst hnoga
    exact ⟨_, rfl, rfl, rfl⟩
  by_cases hbin : c = TOTXBINARY
  · subst hbin
    exact ⟨_, rfl, rfl, rfl⟩
  have hzero : ¬ 0 = c.toNat := fun heq => hbin (UInt8.toNat_inj.mp heq.symm)
  have hindex : rowIndex (ttrows env) TSWOPT c.toNat = 18 := by
    simp [rowIndex, lastNamed, firstAny, ttrows, UInt8.toNat_inj, Ne.symm hecho, Ne.symm hnoga, hzero, TSDATA,
      TSIAC, TSWOPT, TSDOPT, TSSUBNEG, TSSUBIAC]
  rw [hindex, if_neg hecho, if_neg hnoga, if_neg hbin]
  exact ⟨_, rfl, rfl, rfl⟩

theorem tt_dopt (env : Env) (c : UInt8) : ∃ pt, (ttstab env)[rowIndex (ttrows env) TSDOPT c.toNat]? = some pt ∧
    pt.ft_action = dopt_handler env c ∧ pt.ft_next = 0 := by
  unfold dopt_handler
  by_cases hterm : c = TOTERMTYPE
  · subst hterm
    exact ⟨_, rfl, rfl, rfl⟩
  by_cases hbin : c = TOTXBINARY
  · subst hbin
    exact ⟨_, rfl, rfl, rfl⟩
  have hzero : ¬ 0 = c.toNat := fun heq => hbin (UInt8.toNat_inj.mp heq.symm)
  have hindex : rowIndex (ttrows env) TSDOPT c.toNat = 21 := by
    simp [rowIndex, lastNamed, firstAny, ttrows, UInt8.toNat_inj, Ne.symm hterm, hzero, TSDATA, TSIAC, TSWOPT, TSDOPT,
      TSSUBNEG, TSSUBIAC]
  rw [hindex, if_neg hterm, if_neg hbin]
  exact ⟨_, rfl, rfl, rfl⟩

/-- The row for the option of a message. -/
theorem tt_option (env : Env) (m : Message) :
    ∃ pt, (ttstab env)[rowIndex (ttrows env) m.cmd.state m.option.toNat]? = some pt ∧
      pt.ft_action = m.handler env ∧ pt.ft_next = 0 := by
  unfold Message.handler
  cases m.cmd with
  | WILL => exact tt_wopt env m.option
  | WONT => exact tt_wopt env m.option
  | DO => exact tt_dopt env m.option
  | DONT => exact tt_dopt env m.option

/-- Between messages, a message runs the handler of its option. -/
theorem run_receive (hb : Built env s.fsms) (htt : s.ttstate = TSDATA) (m : Message) {res : Int32}
    (haction : (m.handler env m.option).run (s.received m.cmd) = .ok (res, t)) :
    (ttwrite env m.bytes).run s = .ok ((), t.setTtstate TSDATA) := by
  obtain ⟨row, hrow, hact, hnext⟩ := tt_iac_cmd env m.cmd
  have hrecopt : (row.ft_action m.cmd.code).run (s.setTtstate TSIAC) =
      .ok (0, (s.setTtstate TSIAC).setOptionCmd m.cmd.code) := by
    rw [hact]
    rfl
  have hsecond := run_ttwrite_body (s := s.setTtstate TSIAC) hb (rfl : _ = TSIAC) (by decide) hrow hrecopt
  rw [hnext] at hsecond
  obtain ⟨pt, hpt, hptact, hptnext⟩ := tt_option env m
  rw [← hptact] at haction
  have hstate : (s.received m.cmd).ttstate = m.cmd.state := rfl
  have hlt : m.cmd.state < NTSTATES := by
    cases m.cmd <;> decide
  have hthird := run_ttwrite_body (s := s.received m.cmd) hb hstate hlt hpt haction
  rw [hptnext] at hthird
  rw [ttwrite, Message.bytes, eachByte, run_bind_of_ok (run_ttwrite_iac hb htt), eachByte, run_bind_of_ok hsecond,
    eachByte]
  exact run_bind_of_ok hthird _

/-- Three bytes to the socket. -/
theorem run_command (cmd c : UInt8) (s : Client) : (command cmd c).run s = .ok ((), s.sent [TCIAC, cmd, c]) := by
  simp [command, sputc, run_bind, Client.sent]

theorem run_answer (flag : Flag) (agree deny c : UInt8) (s : Client) : (answer flag agree deny c).run s =
    .ok ((), s.sent [TCIAC, if s.flags flag ≠ 0 then agree else deny, c]) := by
  rw [answer, run_bind_of_ok (run_get s), run_command]

/-- A refusal of an option that is off. -/
theorem settled_of_off (hoff : s.flags flag = 0) (hcmd : s.option_cmd = refuse) : settled s flag ask refuse := by
  rw [settled, if_neg (not_not.mpr hoff), hcmd]

/-- A refusal of an option that is on. -/
theorem not_settled_of_on (hon : s.flags flag ≠ 0) (hcmd : s.option_cmd = refuse)
    (hne : refuse ≠ ask) : ¬ settled s flag ask refuse := by
  rw [settled, if_pos hon, hcmd]
  exact hne

theorem run_flip (hon : s.flags flag ≠ 0) : (flip flag).run s = .ok ((), s.setFlag flag 0) := by
  rw [flip, run_modify, lnot, if_neg hon]

theorem setFlag_flags (s : Client) (flag : Flag) (v : Int8) : (s.setFlag flag v).flags flag = v :=
  Function.update_self ..

/-- The answer to a refusal that turns an option off. -/
theorem run_answer_off (flag : Flag) (agree deny c : UInt8) (s : Client) :
    (answer flag agree deny c).run (s.setFlag flag 0) = .ok ((), (s.setFlag flag 0).sent [TCIAC, deny, c]) := by
  have hoff : ¬ (s.setFlag flag 0).flags flag ≠ 0 := not_not.mpr (setFlag_flags s flag 0)
  rw [run_answer, if_neg hoff]

theorem run_toggle_off (hoff : s.flags flag = 0)
    (hcmd : s.option_cmd = refuse) : (toggle flag ask refuse agree deny c).run s = .ok (0, s) := by
  rw [toggle, run_bind_of_ok (run_get s), if_pos (settled_of_off hoff hcmd), run_pure]

theorem run_toggle_on (hon : s.flags flag ≠ 0) (hcmd : s.option_cmd = refuse) (hne : refuse ≠ ask) :
    (toggle flag ask refuse agree deny c).run s = .ok (0, (s.setFlag flag 0).sent [TCIAC, deny, c]) := by
  rw [toggle, run_bind_of_ok (run_get s), if_neg (not_settled_of_on hon hcmd hne), run_bind_of_ok (run_flip hon),
    run_bind_of_ok (run_answer_off flag agree deny c s), run_pure]

/-- A request for an option that is off. -/
theorem run_toggle_ask (agree deny : UInt8) (hoff : s.flags flag = 0)
    (hcmd : s.option_cmd = ask) (hne : ask ≠ refuse) :
    (toggle flag ask refuse agree deny c).run s = .ok (0, (s.setFlag flag 1).sent [TCIAC, agree, c]) := by
  have hnot : ¬ settled s flag ask refuse := by
    rw [settled, if_neg (not_not.mpr hoff), hcmd]
    exact hne
  have hflip : (flip flag).run s = .ok ((), s.setFlag flag 1) := by
    rw [flip, run_modify, lnot, if_pos hoff]
  have hon : (s.setFlag flag 1).flags flag ≠ 0 := by
    rw [setFlag_flags]
    decide
  rw [toggle, run_bind_of_ok (run_get s), if_neg hnot, run_bind_of_ok hflip,
    run_bind_of_ok (run_answer flag agree deny c (s.setFlag flag 1)), if_pos hon, run_pure]

end

end basic_data_struct.telnet
