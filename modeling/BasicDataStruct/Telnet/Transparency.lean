import BasicDataStruct.Telnet.Build

open machine machine.Exec

namespace basic_data_struct.telnet

/-- Several calls of a write function, one for each buffer. -/
def inCalls (write : List UInt8 → Prog Unit) : List (List UInt8) → Prog Unit
  | [] => return ()
  | buf :: bufs => do
    write buf
    inCalls write bufs

/-- The keyboard input for a byte: the escape character is typed twice. -/
def escapeByte (c : UInt8) : List UInt8 := if c = KCESCAPE then [c, c] else [c]

/-- A byte on the wire: the command escape is sent twice. -/
def stuffByte (c : UInt8) : List UInt8 := if c = TCIAC then [c, c] else [c]

section

variable (body : UInt8 → Prog Unit) (s : Client)

theorem run_eachByte_append (buf rest : List UInt8) :
    (eachByte body (buf ++ rest)).run s = (eachByte body buf >>= fun _ => eachByte body rest).run s := by
  induction buf generalizing s with
  | nil => rfl
  | cons c buf ih =>
    rw [List.cons_append, eachByte, eachByte, run_bind, run_bind, run_bind]
    cases (body c).run s with
    | error e => rfl
    | ok res =>
      have hrest := ih res.2
      rw [run_bind] at hrest
      exact hrest

/-- The split of a stream into calls does not matter. -/
theorem run_inCalls (bufs : List (List UInt8)) :
    (inCalls (eachByte body) bufs).run s = (eachByte body bufs.flatten).run s := by
  induction bufs generalizing s with
  | nil => rfl
  | cons buf bufs ih =>
    rw [inCalls, List.flatten_cons, run_eachByte_append, run_bind, run_bind]
    cases (eachByte body buf).run s with
    | error e => rfl
    | ok res => exact ih res.2

end

section

variable {env : Env} {s : Client} {c : UInt8}

theorem so_remote_escape (env : Env) :
    (sostab env)[rowIndex (sorows env) KSREMOTE KCESCAPE.toNat]? = some (onChar KSREMOTE KCESCAPE KSLOCAL no_op) := rfl

theorem so_local_escape (env : Env) :
    (sostab env)[rowIndex (sorows env) KSLOCAL KCESCAPE.toNat]? = some (onChar KSLOCAL KCESCAPE KSREMOTE soputc) := rfl

theorem so_remote (env : Env) (hc : c ≠ KCESCAPE) :
    (sostab env)[rowIndex (sorows env) KSREMOTE c.toNat]? = some (onAny KSREMOTE KSREMOTE soputc) := by
  have hindex : rowIndex (sorows env) KSREMOTE c.toNat = 1 := by
    simp [rowIndex, lastNamed, firstAny, sorows, UInt8.toNat_inj, hc.symm, KSREMOTE, KSLOCAL, KSCOLLECT]
  rw [hindex]
  rfl

theorem tt_data_iac (env : Env) :
    (ttstab env)[rowIndex (ttrows env) TSDATA TCIAC.toNat]? = some (onChar TSDATA TCIAC TSIAC no_op) := rfl

theorem tt_iac_iac (env : Env) :
    (ttstab env)[rowIndex (ttrows env) TSIAC TCIAC.toNat]? = some (onChar TSIAC TCIAC TSDATA (ttputc env)) := by
  have hindex : rowIndex (ttrows env) TSIAC TCIAC.toNat = 2 := rfl
  rw [hindex]
  rfl

theorem tt_data (env : Env) (hc : c ≠ TCIAC) :
    (ttstab env)[rowIndex (ttrows env) TSDATA c.toNat]? = some (onAny TSDATA TSDATA (ttputc env)) := by
  have hindex : rowIndex (ttrows env) TSDATA c.toNat = 1 := by
    simp [rowIndex, lastNamed, firstAny, ttrows, UInt8.toNat_inj, hc.symm, TSDATA, TSIAC, TSWOPT, TSDOPT, TSSUBNEG,
      TSSUBIAC]
  rw [hindex]
  rfl

/-- In binary mode a character goes to the socket with the command escape doubled. -/
theorem run_soputc_binary {s : Client} (hs : s.flags .sndbinary ≠ 0) (c : UInt8) :
    (soputc c).run s = .ok (0, s.sent (stuffByte c)) := by
  rw [soputc, run_bind_of_ok (run_get s), if_pos hs, stuffByte]
  by_cases hc : c = TCIAC
  · rw [if_pos hc, if_pos hc, hc]
    simp [sputc, run_bind, Client.sent]
  · rw [if_neg hc, if_neg hc]
    rfl

/-- In binary mode a character goes to the terminal as it is. -/
theorem run_ttputc_binary (env : Env) (hs : s.flags .rcvbinary ≠ 0) (c : UInt8) :
    (ttputc env c).run s = .ok (0, s.shown [c]) := by
  rw [ttputc, run_bind_of_ok (run_get s), if_pos hs]
  rfl

theorem run_no_op (c : UInt8) (s : Client) : (no_op c).run s = .ok (0, s) := rfl

theorem Client.setTtstate_self {state : Nat} (hs : s.ttstate = state) : s.setTtstate state = s := by
  subst hs
  rfl

theorem Client.setSostate_self {state : Nat} (hs : s.sostate = state) : s.setSostate state = s := by
  subst hs
  rfl

theorem Client.shown_nil (s : Client) : s.shown [] = s := by
  simp [Client.shown]

theorem Client.shown_shown (s : Client) (text rest : List UInt8) :
    (s.shown text).shown rest = s.shown (text ++ rest) := by
  simp [Client.shown, Function.comp_def]

/-- Data up to the command escape. -/
theorem run_ttwrite_iac (hb : Built env s.fsms) (htt : s.ttstate = TSDATA) :
    (ttwrite_body env TCIAC).run s = .ok ((), s.setTtstate TSIAC) :=
  run_ttwrite_body hb htt (by decide) (tt_data_iac env) (run_no_op TCIAC s)

/-- The escape character of the keyboard. -/
theorem run_sowrite_escape (hb : Built env s.fsms) (hso : s.sostate = KSREMOTE) :
    (sowrite_body env KCESCAPE).run s = .ok ((), s.setSostate KSLOCAL) :=
  run_sowrite_body hb hso (by decide) (so_remote_escape env) (run_no_op KCESCAPE s)

/-- The wire form of one byte puts the byte on the terminal. -/
theorem run_ttwrite_stuffByte (hb : Built env s.fsms) (hrcv : s.flags .rcvbinary ≠ 0) (htt : s.ttstate = TSDATA)
    (c : UInt8) : (ttwrite env (stuffByte c)).run s = .ok ((), s.shown [c]) := by
  have hend : (s.shown [c]).setTtstate TSDATA = s.shown [c] := Client.setTtstate_self htt
  rw [ttwrite, stuffByte]
  by_cases hc : c = TCIAC
  · subst hc
    have haction := run_ttputc_binary env (s := s.setTtstate TSIAC) hrcv TCIAC
    have hsecond := run_ttwrite_body (s := s.setTtstate TSIAC) hb (rfl : _ = TSIAC) (by decide) (tt_iac_iac env) haction
    rw [if_pos rfl, eachByte, run_bind_of_ok (run_ttwrite_iac hb htt), eachByte, run_bind_of_ok hsecond, eachByte,
      run_pure, ← hend]
    rfl
  · have hfirst := run_ttwrite_body hb htt (by decide) (tt_data env hc) (run_ttputc_binary env hrcv c)
    rw [if_neg hc, eachByte, run_bind_of_ok hfirst, eachByte, run_pure, ← hend]
    rfl

/-- The keyboard input for one byte puts its wire form on the socket. -/
theorem run_sowrite_escapeByte (hb : Built env s.fsms) (hsnd : s.flags .sndbinary ≠ 0) (hso : s.sostate = KSREMOTE)
    (c : UInt8) : (sowrite env (escapeByte c)).run s = .ok ((), s.sent (stuffByte c)) := by
  have hend : (s.sent (stuffByte c)).setSostate KSREMOTE = s.sent (stuffByte c) := Client.setSostate_self hso
  rw [sowrite, escapeByte]
  by_cases hc : c = KCESCAPE
  · subst hc
    have haction := run_soputc_binary (s := s.setSostate KSLOCAL) hsnd KCESCAPE
    have hsecond := run_sowrite_body (s := s.setSostate KSLOCAL) hb (rfl : _ = KSLOCAL) (by decide)
      (so_local_escape env) haction
    rw [if_pos rfl, eachByte, run_bind_of_ok (run_sowrite_escape hb hso), eachByte, run_bind_of_ok hsecond, eachByte,
      run_pure, ← hend]
    rfl
  · have hfirst := run_sowrite_body hb hso (by decide) (so_remote env hc) (run_soputc_binary hsnd c)
    rw [if_neg hc, eachByte, run_bind_of_ok hfirst, eachByte, run_pure, ← hend]
    rfl

/-- The keyboard input for a list of bytes. -/
theorem run_sowrite_escaped (d : List UInt8) (hb : Built env s.fsms) (hsnd : s.flags .sndbinary ≠ 0)
    (hso : s.sostate = KSREMOTE) :
    (sowrite env (d.flatMap escapeByte)).run s = .ok ((), s.sent (d.flatMap stuffByte)) := by
  induction d generalizing s with
  | nil =>
    rw [List.flatMap_nil, List.flatMap_nil, Client.sent, List.append_nil]
    rfl
  | cons c d ih =>
    have hfirst := run_sowrite_escapeByte hb hsnd hso c
    have hrest := ih (s := s.sent (stuffByte c)) hb hsnd hso
    rw [sowrite] at hfirst hrest ⊢
    rw [List.flatMap_cons, run_eachByte_append, run_bind_of_ok hfirst, hrest, List.flatMap_cons]
    simp only [Client.sent, List.append_assoc]

/-- The wire form of a list of bytes. -/
theorem run_ttwrite_stuffed (d : List UInt8) (hb : Built env s.fsms) (hrcv : s.flags .rcvbinary ≠ 0)
    (htt : s.ttstate = TSDATA) : (ttwrite env (d.flatMap stuffByte)).run s = .ok ((), s.shown d) := by
  induction d generalizing s with
  | nil =>
    rw [List.flatMap_nil, Client.shown_nil]
    rfl
  | cons c d ih =>
    have hfirst := run_ttwrite_stuffByte hb hrcv htt c
    have hrest := ih (s := s.shown [c]) hb hrcv htt
    rw [ttwrite] at hfirst hrest ⊢
    rw [List.flatMap_cons, run_eachByte_append, run_bind_of_ok hfirst, hrest, Client.shown_shown, List.singleton_append]

end

/-- What is typed on the client `s`, with the escape character doubled, and sent
over the wire appears unchanged on the terminal of the client `t`, without an
answer, however both streams are split into calls. -/
def Transparent (env env' : Env) (d : List UInt8) (s t : Client) : Prop :=
  ∃ wire, (∀ bufs : List (List UInt8), bufs.flatten = d.flatMap escapeByte →
      ∃ s', (inCalls (sowrite env) bufs).run s = .ok ((), s') ∧ s'.sfp = s.sfp ++ wire ∧ s'.sostate = KSREMOTE) ∧
    ∀ bufs : List (List UInt8), bufs.flatten = wire →
      ∃ t', (inCalls (ttwrite env') bufs).run t = .ok ((), t') ∧ t'.tfp = t.tfp ++ d ∧ t'.sfp = t.sfp ∧
        t'.ttstate = TSDATA

/-- In binary mode the connection is transparent for every list of bytes. -/
theorem binary_transparent (env env' : Env) (d : List UInt8) (s t : Client) (hs : FromBuild env s.fsms)
    (ht : FromBuild env' t.fsms) (hsnd : s.flags .sndbinary ≠ 0) (hso : s.sostate = KSREMOTE)
    (hrcv : t.flags .rcvbinary ≠ 0) (htt : t.ttstate = TSDATA) : Transparent env env' d s t := by
  refine ⟨d.flatMap stuffByte, fun bufs hbufs => ?_, fun bufs hbufs => ?_⟩
  · have hrun := run_sowrite_escaped d hs.built hsnd hso
    rw [sowrite, ← hbufs, ← run_inCalls] at hrun
    exact ⟨s.sent (d.flatMap stuffByte), hrun, rfl, hso⟩
  · have hrun := run_ttwrite_stuffed d ht.built hrcv htt
    rw [ttwrite, ← hbufs, ← run_inCalls] at hrun
    exact ⟨t.shown d, hrun, rfl, rfl, htt⟩

/-- A client with all options on sends the two escape characters to itself. -/
theorem binary_transparent_example : ∃ fsms, FromBuild quietEnv fsms ∧
    Transparent quietEnv quietEnv [KCESCAPE, TCIAC, 65] ((Client.zero fun _ => 1).built fsms)
      ((Client.zero fun _ => 1).built fsms) := by
  obtain ⟨fsms, hrun, _⟩ := run_fsmbuild quietEnv (Client.zero fun _ => 1)
  have hfrom : FromBuild quietEnv fsms := ⟨_, _, hrun, rfl⟩
  have hon : (1 : Int8) ≠ 0 := by decide
  exact ⟨fsms, hfrom, binary_transparent quietEnv quietEnv [KCESCAPE, TCIAC, 65] _ _ hfrom hfrom hon rfl hon rfl⟩

end basic_data_struct.telnet
