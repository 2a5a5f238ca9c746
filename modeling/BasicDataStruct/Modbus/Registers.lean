import BasicDataStruct.Modbus.Server

open machine machine.Exec memory

namespace basic_data_struct.freemodbus

/-- The address and the values that a request has for the holding registers. -/
def target (len : Nat) (frame : List UInt8) : Option (UInt16 × List UInt16) :=
  match byteAt frame 0 with
  | 6 => if len = 5 then some (shortAt frame 1, valuesAt frame 3 1) else none
  | 16 =>
    if 6 ≤ len ∧ 1 ≤ shortAt frame 3 ∧ shortAt frame 3 ≤ 0x78 ∧ byteAt frame 5 = (2 * shortAt frame 3).toUInt8 then
      some (shortAt frame 1, valuesAt frame 6 (shortAt frame 3).toNat)
    else none
  | 23 =>
    if len < 10 then none
    else if 1 ≤ shortAt frame 3 ∧ shortAt frame 3 ≤ 0x7D ∧ 1 ≤ shortAt frame 7 ∧ shortAt frame 7 ≤ 0x79 ∧
        2 * (shortAt frame 7).toNat = (byteAt frame 9).toNat then
      some (shortAt frame 5, valuesAt frame 10 (shortAt frame 7).toNat)
    else none
  | _ => none

/-- The value that a request writes to a register, if it does. -/
def Request.written (r : Request) (j : Nat) : Option UInt16 := do
  let (address, values) ← target r.pdu.length r.pdu
  let i ← place REG_HOLDING_START REG_HOLDING_NREGS address values.length
  if i ≤ j then values[j - i]? else none

theorem target_eq_none {len : Nat} {frame : List UInt8} (h6 : byteAt frame 0 ≠ 6) (h16 : byteAt frame 0 ≠ 16)
    (h23 : byteAt frame 0 ≠ 23) : target len frame = none := by
  rw [target]
  split
  case h_1 h => exact absurd h h6
  case h_2 h => exact absurd h h16
  case h_3 h => exact absurd h h23
  case h_4 => rfl

namespace Device

variable {d : Device}

theorem afterWrite_snd (address : UInt16) (values : List UInt16) (k : Device → Reply) :
    (d.afterWrite address values k).2 = (d.writeHolding address values).getD d := by
  rw [afterWrite]
  cases d.writeHolding address values <;> rfl

/-- A request does nothing to the device but write its values. -/
theorem respond_snd (len : Nat) (frame : List UInt8) :
    (d.respond len frame).2 = match target len frame with
      | some (address, values) => (d.writeHolding address values).getD d
      | none => d := by
  rw [respond]
  split
  case h_6 h =>
    rw [target, h, writeRegister]
    split <;> [exact afterWrite_snd _ _ _; rfl]
  case h_8 h =>
    rw [target, h, writeRegisters]
    split <;> [exact afterWrite_snd _ _ _; rfl]
  case h_10 h =>
    rw [target, h, readWriteRegisters]
    split
    · rfl
    · split <;> [exact afterWrite_snd _ _ _; rfl]
  case h_11 h6 _ h16 _ h23 => rw [target_eq_none h6 h16 h23]
  -- The other functions do not write.
  all_goals
    rename_i h
    rw [target_eq_none (by rw [h]; decide) (by rw [h]; decide) (by rw [h]; decide)]
  case h_1 => rw [readBits]; split <;> rfl
  case h_2 => rw [readBits]; split <;> rfl
  case h_3 => rw [readHoldingRegisters]; split <;> rfl
  case h_4 => rw [readInputRegisters]; split <;> rfl
  case h_5 => rw [writeCoil]; split <;> rfl
  case h_7 => rw [writeCoils]; split <;> rfl

/-- A register after a request holds what the request has written to it. -/
theorem serve_holding (r : Request) (j : Nat) : (r.serve d).2.holding j = (r.written j).getD (d.holding j) := by
  rw [Request.serve, Request.written, respond_snd]
  cases target r.pdu.length r.pdu with
  | none => rfl
  | some t =>
    dsimp only [Option.bind_eq_bind, Option.bind_some]
    rw [writeHolding]
    cases place REG_HOLDING_START REG_HOLDING_NREGS t.1 t.2.length with
    | none => rfl
    | some i => exact fill_apply

/-- The other data of the device is never written. -/
theorem serve_same (r : Request) : (r.serve d).2.id = d.id ∧ (r.serve d).2.input = d.input := by
  rw [Request.serve, respond_snd]
  cases target r.pdu.length r.pdu with
  | none => exact ⟨rfl, rfl⟩
  | some t =>
    dsimp only
    rw [writeHolding]
    cases place REG_HOLDING_START REG_HOLDING_NREGS t.1 t.2.length <;> exact ⟨rfl, rfl⟩

theorem serveAll_holding (rs : List Request) (j : Nat) :
    (Request.serveAll d rs).2.holding j = (rs.filterMap (Request.written · j)).getLastD (d.holding j) := by
  induction rs generalizing d with
  | nil => rfl
  | cons r rs ih =>
    rw [Request.serveAll, ih, serve_holding, List.filterMap_cons]
    cases r.written j with
    | none => rfl
    | some w => rw [List.getLastD_cons]; rfl

theorem serveAll_same (rs : List Request) :
    (Request.serveAll d rs).2.id = d.id ∧ (Request.serveAll d rs).2.input = d.input := by
  induction rs generalizing d with
  | nil => exact ⟨rfl, rfl⟩
  | cons r rs ih =>
    rw [Request.serveAll, ih.1, ih.2]
    exact serve_same r

theorem serveAll_append (rs rs' : List Request) :
    (Request.serveAll d (rs ++ rs')).2 = (Request.serveAll (Request.serveAll d rs).2 rs').2 := by
  induction rs generalizing d with
  | nil => rfl
  | cons r rs ih => rw [List.cons_append, Request.serveAll, Request.serveAll, ih]

/-- For the device it does not matter from which client a request is. -/
theorem sessions_serveAll (cs : List Session) :
    (Session.serveAll d cs).2 = (Request.serveAll d (cs.flatMap Session.requests)).2 := by
  induction cs generalizing d with
  | nil => rfl
  | cons c cs ih => rw [Session.serveAll, ih, List.flatMap_cons, serveAll_append]

end Device

/-- When all clients have been served, each holding register has the value that was last written to it, by whichever
client, and nothing else of the device has changed. Clients and their connections are those of `Session`. -/
theorem register_holds_last_write {s : Slave} {cs : List Session} {fuel n : Nat} (hidle : s.Idle)
    (hwait : s.waiting = cs.map Session.client) (hfuel : MB_TCP_BUF_SIZE < fuel) (hn : Session.pollsFor cs ≤ n) :
    ∃ t : Slave, (polls fuel n).run s = .ok ((), t) ∧
      (∀ j, t.usRegHoldingBuf j =
        ((cs.flatMap Session.requests).filterMap (Request.written · j)).getLastD (s.usRegHoldingBuf j)) ∧
      t.usRegInputBuf = s.usRegInputBuf ∧ t.ucMBSlaveID.bytes = s.ucMBSlaveID.bytes := by
  obtain ⟨t, hrun, ht, hwaiting, -, hdevice⟩ := run_sessions hidle hwait hfuel
  rw [Device.sessions_serveAll] at hdevice
  have hsame := @Device.serveAll_same s.device (cs.flatMap Session.requests)
  rw [← hdevice] at hsame
  refine ⟨t, ?_, fun j => ?_, hsame.2, hsame.1⟩
  · rw [← Nat.add_sub_cancel' hn, run_polls_cons hrun, run_polls_idle ht hwaiting]
  · have hholding := @Device.serveAll_holding s.device (cs.flatMap Session.requests) j
    rw [← hdevice] at hholding
    exact hholding

/-- Two clients write the first register, the second one by a request whose reading part is refused. -/
theorem register_holds_last_write_two_clients :
    let report : Request := ⟨3, 1, [17], ⟨nofun, nofun, nofun⟩, by decide⟩
    let first : Session := ⟨[⟨1, 1, [6, 0x07, 0xCF, 0x00, 0x05], ⟨nofun, nofun, nofun⟩, by decide⟩], [], [], [],
      by decide, report, report.frame, nofun, rfl⟩
    let second : Session := ⟨[⟨2, 1, [23, 0x00, 0x00, 0x00, 0x01, 0x07, 0xCF, 0x00, 0x01, 0x02, 0x00, 0x07],
      ⟨nofun, nofun, by decide⟩, by decide⟩], [], [], [], by decide, report, report.frame, nofun, rfl⟩
    ∃ t : Slave, (polls 264 8).run (.start [first.client, second.client]) = .ok ((), t) ∧ t.usRegHoldingBuf 0 = 7 := by
  intro report first second
  obtain ⟨t, hrun, hholding, -⟩ := @register_holds_last_write (.start [first.client, second.client])
    [first, second] 264 8 ⟨rfl, rfl⟩ rfl (by decide) (by decide)
  exact ⟨t, hrun, (hholding 0).trans (by decide)⟩

end basic_data_struct.freemodbus
