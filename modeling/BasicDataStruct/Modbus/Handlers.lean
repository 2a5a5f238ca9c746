import BasicDataStruct.Modbus.Protocol

open machine machine.Exec memory

namespace basic_data_struct.freemodbus

variable {s : Slave} {pdu : List UInt8} {i cur : Nat}

variable {nregs n : Nat} {e : eMBException} {want : Reply × Device} {address : UInt16}

namespace Slave

/-- What the callbacks of the demo give access to. -/
def device (s : Slave) : Device := ⟨s.ucMBSlaveID.bytes, s.usRegInputBuf, s.usRegHoldingBuf⟩

/-- Bytes are written to the frame. -/
def fillFrame (s : Slave) (i : Nat) (bs : List UInt8) : Slave :=
  { s with aucTCPBuf := fill s.aucTCPBuf (MB_TCP_FUNC + i) bs }

/-- Values are written to the holding registers. -/
def fillHolding (s : Slave) (i : Nat) (ws : List UInt16) : Slave :=
  { s with usRegHoldingBuf := fill s.usRegHoldingBuf i ws }

/-- The bytes of the frame. -/
def frame (s : Slave) (i n : Nat) : List UInt8 := slice s.aucTCPBuf (MB_TCP_FUNC + i) n

theorem fillFrame_append (bs cs : List UInt8) :
    s.fillFrame i (bs ++ cs) = (s.fillFrame i bs).fillFrame (i + bs.length) cs := by
  rw [fillFrame, fill_append, Nat.add_assoc]
  rfl

@[simp] theorem device_fillFrame (bs : List UInt8) : (s.fillFrame i bs).device = s.device := rfl

end Slave

section Frame

theorem run_readFrame (h : i < 256) : (readFrame i).run s = .ok (s.aucTCPBuf (7 + i), s) := by
  rw [readFrame, run_bind_of_ok (run_inBounds (show 7 + i < 263 by omega) s), run_bind_of_ok (run_get s), run_pure]

theorem run_writeFrame (h : i < 256) (b : UInt8) : (writeFrame i b).run s = .ok ((), s.fillFrame i [b]) := by
  rw [writeFrame, run_bind_of_ok (run_inBounds (show 7 + i < 263 by omega) s), run_modify]
  rfl

theorem run_copyFrame {bs : List UInt8} (h : cur + bs.length ≤ 256) :
    (copyFrame cur bs).run s = .ok ((), s.fillFrame cur bs) := by
  induction bs generalizing s cur with
  | nil => rfl
  | cons b bs ih =>
    rw [List.length_cons] at h
    rw [copyFrame, run_bind_of_ok (run_writeFrame (by omega) b), ih (by omega)]
    rfl

/-- The loop that reads registers writes their values to the frame, one after the other. -/
theorem run_loadRegs {regs : Slave → Nat → UInt16}
    (hregs : ∀ (t : Slave) i bs, regs (t.fillFrame i bs) = regs t) (hi : i + n ≤ nregs) (hcur : cur + 2 * n ≤ 256) :
    (loadRegs nregs regs n i cur).run s = .ok ((), s.fillFrame cur ((slice (regs s) i n).flatMap bytes)) := by
  induction n generalizing s i cur with
  | zero => rfl
  | succ n ih =>
    rw [loadRegs, run_bind_of_ok (run_inBounds (by omega) s), run_bind_of_ok (run_get s),
      run_bind_of_ok (run_writeFrame (by omega) _), run_bind_of_ok (run_writeFrame (by omega) _), ih (by omega)
        (by omega),
      hregs, hregs]
    rfl

/-- The loop that writes registers stores the values that stand in the frame. -/
theorem run_storeRegs (hi : i + n ≤ REG_HOLDING_NREGS) (hcur : cur + 2 * n ≤ 256) :
    (storeRegs n i cur).run s = .ok ((), s.fillHolding i (words (s.frame cur (2 * n)))) := by
  induction n generalizing s i cur with
  | zero => rfl
  | succ n ih =>
    have hframe : s.frame cur (2 * (n + 1)) =
        s.aucTCPBuf (7 + cur) :: s.aucTCPBuf (7 + (cur + 1)) :: s.frame (cur + 2) (2 * n) := rfl
    rw [storeRegs, run_bind_of_ok (run_inBounds (by omega) s), run_bind_of_ok (run_readFrame (by omega)),
      run_bind_of_ok (run_modify _ s), run_bind_of_ok (run_readFrame (by omega)), run_bind_of_ok (run_modify _ _),
      ih (by omega) (by omega), hframe, words]
    -- Both halves of a value go to the same register.
    rw [Slave.fillHolding, Slave.fillHolding, fill]
    dsimp only
    rw [Function.update_self, Function.update_idem]
    rfl

end Frame

section Callbacks

/-- Where the registers exist, the callback passes `k` and there is no error. -/
def onRegs (start nregs : Nat) (address : UInt16) (count : Nat) (k : Nat → Slave) (s : Slave) :
    Except Fault (eMBErrorCode × Slave) :=
  match place start nregs address count with
  | some i => .ok (.MB_ENOERR, k i)
  | none => .ok (.MB_ENOREG, s)

variable {address count : UInt16}

theorem run_eMBRegInputCB (hcur : cur + 2 * count.toNat ≤ 256) :
    (eMBRegInputCB cur (address + 1) count).run s = onRegs REG_INPUT_START REG_INPUT_NREGS address count.toNat
      (fun i => s.fillFrame cur ((slice s.usRegInputBuf i count.toNat).flatMap bytes)) s := by
  rw [eMBRegInputCB, onRegs, place]
  split
  case isTrue h => rw [run_bind_of_ok (run_loadRegs (fun _ _ _ => rfl) (by omega) hcur), run_pure]
  case isFalse => rw [run_pure]

theorem run_eMBRegHoldingCB_read (hcur : cur + 2 * count.toNat ≤ 256) :
    (eMBRegHoldingCB cur (address + 1) count .MB_REG_READ).run s =
      onRegs REG_HOLDING_START REG_HOLDING_NREGS address count.toNat
        (fun i => s.fillFrame cur ((slice s.usRegHoldingBuf i count.toNat).flatMap bytes)) s := by
  rw [eMBRegHoldingCB, onRegs, place]
  split
  case isTrue h => rw [run_bind_of_ok (run_loadRegs (fun _ _ _ => rfl) (by omega) hcur), run_pure]
  case isFalse => rw [run_pure]

theorem run_eMBRegHoldingCB_write (hcur : cur + 2 * count.toNat ≤ 256) :
    (eMBRegHoldingCB cur (address + 1) count .MB_REG_WRITE).run s =
      onRegs REG_HOLDING_START REG_HOLDING_NREGS address count.toNat
        (fun i => s.fillHolding i (words (s.frame cur (2 * count.toNat)))) s := by
  rw [eMBRegHoldingCB, onRegs, place]
  split
  case isTrue h => rw [run_bind_of_ok (run_storeRegs (by omega) hcur), run_pure]
  case isFalse => rw [run_pure]

end Callbacks

section Answers

/-- All of the frame that the handlers can reach. -/
def Slave.whole (s : Slave) : List UInt8 := s.frame 0 256

/-- A handler has left the response, or the exception, and nothing else but the frame and the device has changed. -/
structure Answers (s : Slave) (want : Reply × Device) (r : (eMBException × Nat) × Slave) : Prop where
  same : r.2 = { s with aucTCPBuf := r.2.aucTCPBuf, usRegHoldingBuf := r.2.usRegHoldingBuf }
  device : r.2.device = want.2
  header : ∀ i < MB_TCP_FUNC, r.2.aucTCPBuf i = s.aucTCPBuf i
  reply : match want.1 with
    | .ok pdu => r.1 = (.MB_EX_NONE, pdu.length) ∧ r.2.frame 0 pdu.length = pdu ∧ pdu.length ≤ 256
    | .error e => r.1.1 = e ∧ e ≠ .MB_EX_NONE

theorem Answers.refuse (he : e ≠ .MB_EX_NONE) (n : Nat) (bs : List UInt8) :
    Answers s (.error e, s.device) ((e, n), s.fillFrame 0 bs) :=
  ⟨rfl, rfl, fun _ hi => fill_of_lt hi, rfl, he⟩

/-- The handler stops before it has changed anything. -/
theorem Answers.stop (he : e ≠ .MB_EX_NONE) (n : Nat) : Answers s (.error e, s.device) ((e, n), s) :=
  .refuse he n []

theorem Answers.give (hroom : pdu.length ≤ 256) :
    Answers s (.ok pdu, s.device) ((.MB_EX_NONE, pdu.length), s.fillFrame 0 pdu) :=
  ⟨rfl, rfl, fun _ hi => fill_of_lt hi, rfl, slice_fill_self, hroom⟩

theorem Answers.echo (hn : n ≤ 256) : Answers s (.ok (s.whole.take n), s.device) ((.MB_EX_NONE, n), s) := by
  have hlen : (s.whole.take n).length = n := by
    rw [List.length_take, Slave.whole, Slave.frame, length_slice]
    exact Nat.min_eq_left hn
  refine ⟨rfl, rfl, fun _ _ => rfl, by rw [hlen], ?_, by rw [hlen]; exact hn⟩
  rw [hlen]
  exact (take_slice hn).symm

theorem Answers.of_fillHolding {ws : List UInt16} {r : (eMBException × Nat) × Slave}
    (h : Answers (s.fillHolding i ws) want r) : Answers s want r :=
  ⟨h.same, h.device, h.header, h.reply⟩

theorem run_readFrame_whole (h : i < 256) : (readFrame i).run s = .ok (byteAt s.whole i, s) := by
  rw [run_readFrame h, byteAt, List.getD_eq_getElem?_getD, Slave.whole, Slave.frame, getElem_slice h]
  rfl

theorem run_readShort (h : i + 1 < 256) : (readShort i).run s = .ok (shortAt s.whole i, s) := by
  rw [readShort, run_bind_of_ok (run_readFrame_whole (by omega)), run_bind_of_ok (run_readFrame_whole h), run_pure]
  rfl

theorem words_frame (h : i + 2 * n ≤ 256) : words (s.frame i (2 * n)) = valuesAt s.whole i n := by
  rw [valuesAt, Slave.whole, Slave.frame, Slave.frame, drop_slice (by omega), take_slice (by omega), Nat.add_zero]

theorem length_valuesAt (h : i + 2 * n ≤ 256) : (valuesAt s.whole i n).length = n := by
  rw [← words_frame h]
  exact length_words length_slice

end Answers

section Reads

variable {callback : Nat → Prog eMBErrorCode} {code : UInt8}

theorem run_readReply {eRegStatus : eMBErrorCode} {t : Slave}
    (h : (callback 2).run (s.fillFrame 0 [code, .ofNat n]) = .ok (eRegStatus, t)) :
    (readReply code n callback).run s =
      .ok (if eRegStatus ≠ .MB_ENOERR then (prveMBError2Exception eRegStatus, 2) else (.MB_EX_NONE, 2 + n), t) := by
  have hfill : (s.fillFrame 0 [code]).fillFrame 1 [.ofNat n] = s.fillFrame 0 [code, .ofNat n] := rfl
  rw [readReply, run_bind_of_ok (run_writeFrame (by decide) code), run_bind_of_ok (run_writeFrame (by decide) _), hfill,
    run_bind_of_ok h, run_ite]
  split <;> rfl

/-- The demo does not have what is asked for. -/
theorem readReply_refuses
    (h : (callback 2).run (s.fillFrame 0 [code, .ofNat n]) = .ok (.MB_ENOREG, s.fillFrame 0 [code, .ofNat n])) :
    ∃ r, (readReply code n callback).run s = .ok r ∧ Answers s (.error .MB_EX_ILLEGAL_DATA_ADDRESS, s.device) r := by
  refine ⟨_, run_readReply h, ?_⟩
  rw [if_pos nofun]
  exact .refuse (by decide) 2 _

theorem readReply_answers {start count : Nat} {regs : Nat → UInt16} (hcount : count ≤ 125)
    (h : ∀ t, t = s.fillFrame 0 [code, .ofNat (count * 2)] → (callback 2).run t =
      onRegs start nregs address count (fun i => t.fillFrame 2 ((slice regs i count).flatMap bytes)) t) :
    ∃ r, (readReply code (count * 2) callback).run s = .ok r ∧
      Answers s (readRegisters code start nregs regs address count, s.device) r := by
  have h := h _ rfl
  rw [onRegs] at h
  rw [readRegisters]
  cases hplace : place start nregs address count with
  | none =>
    rw [hplace] at h
    exact readReply_refuses h
  | some i =>
    rw [hplace] at h
    have hlen : (code :: UInt8.ofNat (count * 2) :: (slice regs i count).flatMap bytes).length = 2 + count * 2 := by
      rw [List.length_cons, List.length_cons, length_flatMap_bytes, length_slice]
      omega
    refine ⟨_, run_readReply h, ?_⟩
    have hgive : Answers s _ _ := .give (by rw [hlen]; omega)
    rw [hlen] at hgive
    exact hgive

end Reads

section Functions

/-- A handler answers a frame as the device does. -/
def Meets (handler : Handler) (want : Device → Nat → List UInt8 → Reply × Device) (s : Slave) (len : Nat) : Prop :=
  ∃ r, (handler len).run s = .ok r ∧ Answers s (want s.device len s.whole) r

/-- A handler checks the length, then what it has read, and stops where one of the two is wrong. -/
theorem answers_guards {c c' : Prop} [Decidable c] [Decidable c'] {x y : Prog (eMBException × Nat)}
    (he : e ≠ .MB_EX_NONE)
    (hx : c → x.run s = (if c' then y else return (e, n)).run s)
    (hy : c → c' → ∃ r, y.run s = .ok r ∧ Answers s want r) :
    ∃ r, (if c then x else return (e, n)).run s = .ok r ∧
      Answers s (if c ∧ c' then want else (.error e, s.device)) r := by
  by_cases hc : c
  case neg =>
    rw [if_neg hc, if_neg fun h => hc h.1]
    exact ⟨_, rfl, .stop he n⟩
  rw [if_pos hc, hx hc]
  by_cases hc' : c'
  · rw [if_pos hc', if_pos ⟨hc, hc'⟩]
    exact hy hc hc'
  · rw [if_neg hc', if_neg fun h => hc' h.2]
    exact ⟨_, rfl, .stop he n⟩

variable {len : Nat}

theorem eMBFuncReportSlaveID_answers (hcode : byteAt s.whole 0 = 17) :
    Meets eMBFuncReportSlaveID (fun d _ _ => (.ok (17 :: d.id), d)) s len := by
  have hroom : s.ucMBSlaveID.bytes.length < 32 := s.ucMBSlaveID.room
  have hfill : s.fillFrame 0 (17 :: s.ucMBSlaveID.bytes) = s.fillFrame 1 s.ucMBSlaveID.bytes := by
    -- The function code is the one of the request.
    have hsame : s.fillFrame 0 [17] = s := by
      rw [← hcode]
      exact congrArg (fun buf => { s with aucTCPBuf := buf }) (Function.update_eq_self 7 s.aucTCPBuf)
    calc s.fillFrame 0 ([17] ++ s.ucMBSlaveID.bytes) = (s.fillFrame 0 [17]).fillFrame 1 s.ucMBSlaveID.bytes :=
          Slave.fillFrame_append _ _
      _ = s.fillFrame 1 s.ucMBSlaveID.bytes := by rw [hsame]
  have hgive : Answers s (.ok (17 :: s.ucMBSlaveID.bytes), s.device) _ :=
    .give (by rw [List.length_cons]; exact Nat.lt_of_lt_of_le hroom (by decide))
  rw [hfill] at hgive
  refine ⟨_, ?_, hgive⟩
  rw [eMBFuncReportSlaveID, run_bind_of_ok (run_get s), run_bind_of_ok (run_copyFrame (by omega)), run_pure,
    Nat.add_comm]
  rfl

theorem readBits_answers {code : UInt8} {callback : UInt16 → UInt16 → Prog eMBErrorCode}
    (hcallback : ∀ address count t, (callback address count).run t = .ok (.MB_ENOREG, t)) :
    Meets (readBits code callback) Device.readBits s len := by
  apply answers_guards (by decide)
  · intro
    rw [run_bind_of_ok (run_readShort (by decide)), run_bind_of_ok (run_readShort (by decide))]
  · intros
    exact readReply_refuses (hcallback _ _ _)

theorem eMBFuncReadInputRegister_answers : Meets eMBFuncReadInputRegister Device.readInputRegisters s len := by
  apply answers_guards (by decide)
  · intro
    rw [run_bind_of_ok (run_readShort (by decide)), run_bind_of_ok (run_readShort (by decide))]
  · intro _ hcount
    have hlt : (shortAt s.whole 3).toNat < 125 := UInt16.lt_iff_toNat_lt.mp hcount.2
    exact readReply_answers (by omega) fun t ht => by subst ht; exact run_eMBRegInputCB (by omega)

theorem eMBFuncReadHoldingRegister_answers : Meets eMBFuncReadHoldingRegister Device.readHoldingRegisters s len := by
  apply answers_guards (by decide)
  · intro
    rw [run_bind_of_ok (run_readShort (by decide)), run_bind_of_ok (run_readFrame_whole (by decide)),
      run_bind_of_ok (run_readFrame_whole (by decide))]
  · intro _ hcount
    have hle : (byteAt s.whole 4).toUInt16.toNat ≤ 125 := UInt16.le_iff_toNat_le.mp hcount.2
    exact readReply_answers hle fun t ht => by subst ht; exact run_eMBRegHoldingCB_read (by omega)

theorem eMBFuncWriteCoil_answers : Meets eMBFuncWriteCoil Device.writeCoil s len := by
  apply answers_guards (by decide)
  · intro
    rw [run_bind_of_ok (run_readShort (by decide)), run_bind_of_ok (run_readFrame_whole (by decide)),
      run_bind_of_ok (run_readFrame_whole (by decide))]
  · intros
    exact ⟨_, rfl, .stop (by decide) len⟩

theorem eMBFuncWriteMultipleCoils_answers : Meets eMBFuncWriteMultipleCoils Device.writeCoils s len := by
  apply answers_guards (by decide)
  · intro
    rw [run_bind_of_ok (run_readShort (by decide)), run_bind_of_ok (run_readShort (by decide)),
      run_bind_of_ok (run_readFrame_whole (by decide))]
  · intros
    exact ⟨_, rfl, .stop (by decide) len⟩

/-- A handler that writes goes on from the new values, or stops if there are no such registers. -/
theorem afterWrite_answers {count : UInt16} {x : eMBErrorCode → Prog (eMBException × Nat)}
    {k : Device → Reply} (hcur : cur + 2 * count.toNat ≤ 256)
    (hstop : (x .MB_ENOREG).run s = .ok ((.MB_EX_ILLEGAL_DATA_ADDRESS, n), s))
    (hgo : ∀ t i ws, t = s.fillHolding i ws → ∃ r, (x .MB_ENOERR).run t = .ok r ∧ Answers t (k t.device, t.device) r) :
    ∃ r, (eMBRegHoldingCB cur (address + 1) count .MB_REG_WRITE >>= x).run s = .ok r ∧
      Answers s (s.device.afterWrite address (valuesAt s.whole cur count.toNat) k) r := by
  rw [run_bind, run_eMBRegHoldingCB_write hcur, onRegs, words_frame hcur, Device.afterWrite, Device.writeHolding,
    length_valuesAt hcur]
  cases place REG_HOLDING_START REG_HOLDING_NREGS address count.toNat with
  | none => exact ⟨_, hstop, .stop (by decide) n⟩
  | some i =>
    obtain ⟨r, hr, hans⟩ := hgo _ i _ rfl
    exact ⟨r, hr, hans.of_fillHolding⟩

theorem eMBFuncWriteHoldingRegister_answers : Meets eMBFuncWriteHoldingRegister Device.writeRegister s len := by
  rw [Meets, eMBFuncWriteHoldingRegister, Device.writeRegister]
  split
  case isFalse => exact ⟨_, rfl, .stop (by decide) len⟩
  case isTrue hlen =>
    rw [run_bind_of_ok (run_readShort (by decide))]
    refine afterWrite_answers (by decide) rfl fun t i ws ht => ⟨_, rfl, ?_⟩
    subst ht
    exact .echo (by omega)

theorem eMBFuncWriteMultipleHoldingRegister_answers :
    Meets eMBFuncWriteMultipleHoldingRegister Device.writeRegisters s len := by
  apply answers_guards (by decide)
  · intro
    rw [run_bind_of_ok (run_readShort (by decide)), run_bind_of_ok (run_readShort (by decide)),
      run_bind_of_ok (run_readFrame_whole (by decide))]
  · intro _ hcount
    have hle : (shortAt s.whole 3).toNat ≤ 120 := UInt16.le_iff_toNat_le.mp hcount.2.1
    refine afterWrite_answers (by omega) rfl fun t i ws ht => ⟨_, rfl, ?_⟩
    subst ht
    exact .echo (by decide)

theorem eMBFuncReadWriteMultipleHoldingRegister_answers (hlen : len ≤ 256) :
    Meets eMBFuncReadWriteMultipleHoldingRegister Device.readWriteRegisters s len := by
  rw [Meets, eMBFuncReadWriteMultipleHoldingRegister, Device.readWriteRegisters]
  by_cases hshort : len < 10
  · rw [if_neg (by omega), if_pos hshort]
    exact ⟨_, rfl, .echo hlen⟩
  rw [if_pos (by omega), if_neg hshort, run_bind_of_ok (run_readShort (by decide)),
    run_bind_of_ok (run_readShort (by decide)), run_bind_of_ok (run_readShort (by decide)),
    run_bind_of_ok (run_readShort (by decide)), run_bind_of_ok (run_readFrame_whole (by decide))]
  split
  case isFalse => exact ⟨_, rfl, .stop (by decide) len⟩
  case isTrue hcount =>
    have hread : (shortAt s.whole 3).toNat ≤ 125 := UInt16.le_iff_toNat_le.mp hcount.2.1
    have hwrite : (shortAt s.whole 7).toNat ≤ 121 := UInt16.le_iff_toNat_le.mp hcount.2.2.2.1
    refine afterWrite_answers (by omega) rfl fun t i ws ht => ?_
    rw [if_pos rfl]
    exact readReply_answers hread fun t' ht' => by subst ht'; exact run_eMBRegHoldingCB_read (by omega)

end Functions

section Dispatch

variable {code : UInt8} {handlers : List (UInt8 × Handler)}

/-- The handler that is called is the one of the function code, as no entry of the table has the code 0. -/
theorem execute_eq_lookup (h : ∀ entry ∈ handlers, entry.1 ≠ 0) (len : Nat) :
    execute code handlers len = match handlers.lookup code with
      | some pxHandler => pxHandler len
      | none => return (.MB_EX_ILLEGAL_FUNCTION, len) := by
  induction handlers with
  | nil => rfl
  | cons entry handlers ih =>
    obtain ⟨c, pxHandler⟩ := entry
    have hc : c ≠ 0 := h _ List.mem_cons_self
    rw [execute, if_neg hc, ih fun entry hmem => h entry (List.mem_cons_of_mem _ hmem), List.lookup_cons]
    by_cases hcode : c = code
    · rw [if_pos hcode, hcode, beq_self_eq_true]
    · rw [if_neg hcode, beq_eq_false_iff_ne.mpr (Ne.symm hcode)]

/-- The function that is called answers as the device does, whatever the buffer holds beyond the request. -/
theorem execute_answers {len : Nat} (hlen : len ≤ 256) :
    Meets (execute (byteAt s.whole 0) xFuncHandlers) Device.respond s len := by
  rw [Meets, Device.respond]
  split
  all_goals rw [execute_eq_lookup (by decide)]
  case h_1 h => rw [h]; exact readBits_answers fun _ _ _ => rfl
  case h_2 h => rw [h]; exact readBits_answers fun _ _ _ => rfl
  case h_3 h => rw [h]; exact eMBFuncReadHoldingRegister_answers
  case h_4 h => rw [h]; exact eMBFuncReadInputRegister_answers
  case h_5 h => rw [h]; exact eMBFuncWriteCoil_answers
  case h_6 h => rw [h]; exact eMBFuncWriteHoldingRegister_answers
  case h_7 h => rw [h]; exact eMBFuncWriteMultipleCoils_answers
  case h_8 h => rw [h]; exact eMBFuncWriteMultipleHoldingRegister_answers
  case h_9 h =>
    have hmeets := @eMBFuncReportSlaveID_answers s len h
    rw [h]
    exact hmeets
  case h_10 h => rw [h]; exact eMBFuncReadWriteMultipleHoldingRegister_answers hlen
  case h_11 =>
    have hnone : xFuncHandlers.lookup (byteAt s.whole 0) = none := by
      rw [List.lookup_eq_none_iff]
      simp_all [xFuncHandlers]
    rw [hnone]
    exact ⟨_, rfl, .stop (by decide) len⟩

end Dispatch

end basic_data_struct.freemodbus
