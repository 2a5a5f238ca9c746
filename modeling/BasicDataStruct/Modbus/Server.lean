import BasicDataStruct.Modbus.Receive

open machine machine.Exec memory

namespace basic_data_struct.freemodbus

variable {s : Slave} {text pdu : List UInt8} {k fuel : Nat} {sizes : List Nat} {out : Outbound}

section Send

/-- The header of a response is that of the request, with the length of the response. -/
def Slave.response (s : Slave) (pdu : List UInt8) : List UInt8 :=
  slice s.aucTCPBuf 0 4 ++ bytes (.ofNat (pdu.length + 1)) ++ s.aucTCPBuf MB_TCP_UID :: pdu

/-- The client is sent a response. -/
def Slave.send (s : Slave) (text : List UInt8) : Slave :=
  { s with xClientSocket := s.xClientSocket.map fun client =>
      { client with out := xMBTCPPortSendResponse text client.out } }

/-- `send` does not fail more often than one response can wait. -/
def Outbound.Patient (out : Outbound) : Prop := out.sends.count none * MB_TCP_READ_CYCLE ≤ MB_TCP_READ_TIMEOUT

theorem sendLoop_patient {iTimeOut : Nat} {sends : List (Option Nat)}
    (h : sends.count none * MB_TCP_READ_CYCLE ≤ iTimeOut) (rest before : List UInt8) :
    (sendLoop iTimeOut rest before sends).sent = before ++ rest ∧
      (sendLoop iTimeOut rest before sends).sends.count none ≤ sends.count none := by
  induction sends generalizing iTimeOut rest before with
  | nil => exact ⟨rfl, Nat.le_refl _⟩
  | cons result sends ih =>
    cases result with
    | none =>
      rw [List.count_cons_self, Nat.add_mul, Nat.one_mul] at h
      change _ + 100 ≤ _ at h
      rw [sendLoop, if_pos (by omega), List.count_cons_self]
      obtain ⟨hsent, hcount⟩ := ih (Nat.le_sub_of_add_le h) rest before
      exact ⟨hsent, Nat.le_succ_of_le hcount⟩
    | some n =>
      rw [List.count_cons_of_ne (Option.some_ne_none n)] at h ⊢
      rw [sendLoop]
      split
      case isTrue => exact ⟨rfl, Nat.le_refl _⟩
      case isFalse =>
        obtain ⟨hsent, hcount⟩ := ih h _ _
        exact ⟨hsent.trans (by rw [List.append_assoc, List.take_append_drop]), hcount⟩

/-- A response goes out whole, in however many pieces. -/
theorem Outbound.Patient.send {out : Outbound} (hpatient : out.Patient) (frame : List UInt8) :
    (xMBTCPPortSendResponse frame out).sent = out.sent ++ frame ∧ (xMBTCPPortSendResponse frame out).Patient := by
  obtain ⟨hsent, hcount⟩ := sendLoop_patient hpatient frame out.sent
  exact ⟨hsent, Nat.le_trans (Nat.mul_le_mul_right _ hcount) hpatient⟩

theorem length_bytes {n : Nat} (h : n < 65536) :
    [UInt8.ofNat (n / 256), UInt8.ofNat (n % 256)] = bytes (.ofNat n) := by
  have hn : (UInt16.ofNat n).toNat = n := by
    rw [UInt16.toNat_ofNat']
    exact Nat.mod_eq_of_lt h
  have hhi : UInt8.ofNat (n / 256) = (UInt16.ofNat n >>> 8).toUInt8 := by
    apply UInt8.toNat_inj.mp
    rw [toNat_high, hn, UInt8.toNat_ofNat']
    exact Nat.mod_eq_of_lt (by change n / 256 < 256; omega)
  have hlo : UInt8.ofNat (n % 256) = (UInt16.ofNat n &&& 0xFF).toUInt8 := by
    apply UInt8.toNat_inj.mp
    rw [toNat_low, hn, UInt8.toNat_ofNat']
    exact Nat.mod_mod n 256
  rw [hhi, hlo, bytes]

theorem run_eMBTCPSend (hroom : pdu.length ≤ 256) (hframe : s.frame 0 pdu.length = pdu) :
    ∃ buf, (eMBTCPSend pdu.length).run s = .ok ((), { s.send (s.response pdu) with aucTCPBuf := buf }) := by
  have hbytes := @length_bytes (pdu.length + 1) (by omega)
  refine ⟨fill s.aucTCPBuf MB_TCP_LEN (bytes (.ofNat (pdu.length + 1))), ?_⟩
  have hslice : slice (fill s.aucTCPBuf 4 (bytes (.ofNat (pdu.length + 1)))) 0 (pdu.length + 7) = s.response pdu := by
    generalize hsize : bytes (.ofNat (pdu.length + 1)) = size
    have htwo : size.length = 2 := by rw [← hsize]; rfl
    have hsame : slice (fill s.aucTCPBuf 4 size) 6 (1 + pdu.length) = s.aucTCPBuf 6 :: pdu := by
      rw [slice_fill_of_ge (by omega), Nat.add_comm, slice]
      exact congrArg _ hframe
    have hself : slice (fill s.aucTCPBuf 4 size) 4 2 = size := by
      rw [← htwo]
      exact slice_fill_self
    rw [show pdu.length + 7 = 4 + (2 + (1 + pdu.length)) by omega, slice_add, slice_add, slice_fill_of_le (by omega),
      Nat.zero_add, hself, hsame, Slave.response, hsize, List.append_assoc]
  rw [eMBTCPSend, run_bind_of_ok (run_modify _ _),
    run_bind_of_ok (run_inBounds (show pdu.length + 7 - 1 < 263 by omega) _), run_modify, hbytes]
  dsimp only
  rw [hslice]
  rfl

theorem response_congr {t : Slave} (h : ∀ i < MB_TCP_FUNC, t.aucTCPBuf i = s.aucTCPBuf i) :
    t.response pdu = s.response pdu := by
  have hslice : slice t.aucTCPBuf 0 4 = slice s.aucTCPBuf 0 4 :=
    slice_congr fun i _ hi => h i (by change i < 7; omega)
  rw [Slave.response, Slave.response, hslice, h MB_TCP_UID (by decide)]

/-- The request is answered as the device answers it, and with the header of the request. -/
theorem run_onExecute (hlen : s.usLength ≤ 256) :
    ∃ t : Slave, onExecute.run s =
        .ok ((), t.send (s.response ((s.device.respond s.usLength s.whole).1.pdu (byteAt s.whole 0)))) ∧
      t.device = (s.device.respond s.usLength s.whole).2 ∧
      t = { s with aucTCPBuf := t.aucTCPBuf, usRegHoldingBuf := t.usRegHoldingBuf } := by
  obtain ⟨⟨⟨eException, n⟩, t⟩, hrun, hans⟩ := @execute_answers s _ hlen
  rw [onExecute, run_bind_of_ok (run_readFrame_whole (by decide)), run_bind_of_ok (run_get s), run_bind_of_ok hrun]
  have hreply := hans.reply
  cases hres : (s.device.respond s.usLength s.whole).1 with
  | error e =>
    rw [hres] at hreply
    obtain ⟨rfl, hne⟩ := hreply
    let pdu := [byteAt s.whole 0 ||| 128, eException.code]
    obtain ⟨buf, hsend⟩ := @run_eMBTCPSend (t.fillFrame 0 pdu) pdu (show 2 ≤ 256 by decide) slice_fill_self
    have hheader : (t.fillFrame 0 pdu).response pdu = s.response pdu :=
      response_congr fun i hi => (fill_of_lt hi).trans (hans.header i hi)
    refine ⟨{ t with aucTCPBuf := buf }, ?_, hans.device, ?_⟩
    · dsimp only
      rw [if_pos hne, run_bind_of_ok (run_writeFrame (by decide) _), run_bind_of_ok (run_writeFrame (by decide) _)]
      exact hsend.trans (by rw [hheader]; rfl)
    · exact congrArg (fun u : Slave => { u with aucTCPBuf := buf }) hans.same
  | ok pdu =>
    rw [hres] at hreply
    obtain ⟨hr, hframe, hroom⟩ := hreply
    obtain ⟨buf, hsend⟩ := run_eMBTCPSend hroom hframe
    refine ⟨{ t with aucTCPBuf := buf }, ?_, hans.device, ?_⟩
    · cases hr
      dsimp only
      rw [if_neg (by decide)]
      exact hsend.trans (by rw [response_congr hans.header]; rfl)
    · exact congrArg (fun u : Slave => { u with aucTCPBuf := buf }) hans.same

end Send

section Polls

theorem run_polls_add (m n : Nat) : (polls fuel (m + n)).run s = (polls fuel m >>= fun _ => polls fuel n).run s := by
  induction m generalizing s with
  | zero => rw [Nat.zero_add, polls, run_pure_bind]
  | succ m ih =>
    rw [Nat.succ_add, polls, polls, run_bind, run_bind, run_bind]
    cases (eMBPoll fuel).run s with
    | error e => rfl
    | ok r => exact ih

theorem run_polls_cons {m n : Nat} {t : Slave} (h : (polls fuel m).run s = .ok ((), t)) :
    (polls fuel (m + n)).run s = (polls fuel n).run t := by
  rw [run_polls_add, run_bind_of_ok h]

/-- The frame is in the buffer. -/
def Slave.framed (s : Slave) (text : List UInt8) : Slave :=
  { s with aucTCPBuf := fill s.aucTCPBuf 0 (text.take (total text)), usLength := total text - MB_TCP_FUNC }

theorem run_eMBPoll_reading (hidle : s.eQueuedEvent = none) :
    (eMBPoll fuel).run (s.reading text k sizes out) = (receive fuel).run (s.reading text k sizes out) := by
  have hevent : (s.reading text k sizes out).eQueuedEvent = none := hidle
  rw [eMBPoll, run_bind_of_ok (run_get _), hevent]
  rfl

/-- A frame of the protocol is handed on, and another one is dropped. -/
theorem run_eMBPoll_received (hidle : s.eQueuedEvent = none) (hmin : MB_TCP_FUNC ≤ total text)
    (hlen : total text ≤ text.length) :
    (eMBPoll fuel).run ((s.reading text (total text) sizes out).post .EV_FRAME_RECEIVED) =
      .ok ((), if shortAt text MB_TCP_PID = 0 then
        ((s.framed text).reading (text.drop (total text)) 0 sizes out).post .EV_EXECUTE
      else ({ s.framed text with usLength := s.usLength } : Slave).reading (text.drop (total text)) 0 sizes out) := by
  have hseven : 7 ≤ total text := hmin
  have hbyte : ∀ i < 7, (s.reading text (total text) sizes out).aucTCPBuf i = byteAt text i := fun i hi =>
    byteAt_reading (by omega) hlen
  have hpid : ushort ((s.reading text (total text) sizes out).aucTCPBuf MB_TCP_PID)
      ((s.reading text (total text) sizes out).aucTCPBuf (MB_TCP_PID + 1)) = shortAt text MB_TCP_PID := by
    rw [hbyte _ (by decide), hbyte _ (by decide)]
    rfl
  rw [eMBPoll, run_bind_of_ok (run_get _)]
  refine (run_bind_of_ok (run_modify _ _) _).trans ?_
  dsimp only [eMBTCPReceive]
  rw [run_bind_of_ok (run_get _), run_bind_of_ok (run_modify _ _)]
  by_cases hzero : shortAt text MB_TCP_PID = 0
  · rw [if_pos hzero]
    refine (congrArg (fun x : Prog Unit => x.run _) (if_pos (hpid.trans hzero))).trans ?_
    rfl
  · rw [if_neg hzero]
    refine (congrArg (fun x : Prog Unit => x.run _) (if_neg (hpid.trans_ne hzero))).trans ?_
    rw [← hidle]
    rfl

/-- A request that has been handed on is answered. -/
theorem run_eMBPoll_execute (hidle : s.eQueuedEvent = none) (hlen : s.usLength ≤ 256) :
    ∃ t : Slave, (eMBPoll fuel).run ((s.reading text 0 sizes out).post .EV_EXECUTE) =
        .ok ((), t.reading text 0 sizes (xMBTCPPortSendResponse
          (s.response ((s.device.respond s.usLength s.whole).1.pdu (byteAt s.whole 0))) out)) ∧
      t.device = (s.device.respond s.usLength s.whole).2 ∧
      t = { s with aucTCPBuf := t.aucTCPBuf, usRegHoldingBuf := t.usRegHoldingBuf } := by
  have hclear : { (s.reading text 0 sizes out).post .EV_EXECUTE with eQueuedEvent := none } =
    s.reading text 0 sizes out := by
    rw [← hidle]
    rfl
  obtain ⟨t, hrun, hdevice, hsame⟩ := @run_onExecute (s.reading text 0 sizes out) hlen
  refine ⟨{ s with aucTCPBuf := t.aucTCPBuf, usRegHoldingBuf := t.usRegHoldingBuf }, ?_, ?_, rfl⟩
  · rw [eMBPoll, run_bind_of_ok (run_get _)]
    refine (run_bind_of_ok (run_modify _ _) _).trans ?_
    dsimp only
    rw [hclear]
    refine hrun.trans ?_
    rw [hsame]
    rfl
  · refine Eq.trans ?_ hdevice
    rw [hsame]
    rfl

end Polls

section Requests

variable (r : Request) (rest : List UInt8)

theorem length_frame : r.frame.length = r.pdu.length + 7 := rfl

theorem total_frame : total (r.frame ++ rest) = r.frame.length := by
  have hroom := r.room
  have hlen : (shortAt (r.frame ++ rest) MB_TCP_LEN).toNat = r.pdu.length + 1 := by
    have hshort : shortAt (r.frame ++ rest) MB_TCP_LEN = .ofNat (r.pdu.length + 1) := ushort_bytes _
    rw [hshort, UInt16.toNat_ofNat']
    exact Nat.mod_eq_of_lt (by change _ < 65536; omega)
  rw [total, hlen, length_frame]
  change 6 + (r.pdu.length + 1) = r.pdu.length + 7
  omega

theorem take_frame : (r.frame ++ rest).take (total (r.frame ++ rest)) = r.frame := by
  rw [total_frame]
  exact List.take_left

theorem drop_frame : (r.frame ++ rest).drop (total (r.frame ++ rest)) = rest := by
  rw [total_frame]
  exact List.drop_left

/-- The header is that of the request. -/
theorem response_framed : (s.framed (r.frame ++ rest)).response pdu = adu r.tid r.uid pdu := by
  have hbyte : ∀ {i} (hi : i < r.frame.length), fill s.aucTCPBuf 0 r.frame i = r.frame[i] := fun {i} hi => by
    have hget : fill s.aucTCPBuf 0 r.frame (0 + i) = r.frame[i] := fill_add hi
    rwa [Nat.zero_add] at hget
  have hlen := length_frame r
  rw [Slave.response, Slave.framed, take_frame]
  dsimp only [slice]
  rw [hbyte (by omega), hbyte (by omega), hbyte (by omega), hbyte (by omega), hbyte (show 6 < _ by omega)]
  rfl

/-- The request stands in the frame, before what is left of earlier ones. -/
theorem whole_framed : ∃ stale, (s.framed (r.frame ++ rest)).whole = r.pdu ++ stale := by
  have hroom := r.room
  refine ⟨slice (fill s.aucTCPBuf 0 r.frame) (7 + r.pdu.length) (256 - r.pdu.length), ?_⟩
  have hsplit : fill s.aucTCPBuf 0 r.frame = fill (fill s.aucTCPBuf 0 (r.frame.take 7)) 7 r.pdu :=
    @fill_append _ s.aucTCPBuf 0 (r.frame.take 7) r.pdu
  have hpdu : slice (fill s.aucTCPBuf 0 r.frame) 7 r.pdu.length = r.pdu := by
    rw [hsplit]
    exact slice_fill_self
  have hsum : 256 = r.pdu.length + (256 - r.pdu.length) := by omega
  rw [Slave.whole, Slave.frame, Slave.framed, take_frame]
  dsimp only
  rw [hsum, slice_add]
  exact congrArg₂ _ hpdu (by rw [← hsum])

/-- Three calls of `eMBPoll` receive a request, hand it on and answer it. -/
theorem run_request (hidle : s.eQueuedEvent = none) (hfuel : MB_TCP_BUF_SIZE ≤ fuel) :
    ∃ (t : Slave) (sizes' : List Nat), (polls fuel 3).run (s.reading (r.frame ++ rest) 0 sizes out) =
        .ok ((), t.reading rest 0 sizes' (xMBTCPPortSendResponse (r.serve s.device).1 out)) ∧
      t.device = (r.serve s.device).2 ∧ t.eQueuedEvent = none ∧ t.waiting = s.waiting ∧ t.finished = s.finished := by
  have hroom := r.room
  have htotal := total_frame r rest
  have hframe := length_frame r
  have hfuel' : 263 ≤ fuel := hfuel
  have hlen : total (r.frame ++ rest) ≤ (r.frame ++ rest).length := by
    rw [htotal, List.length_append]
    exact Nat.le_add_right _ _
  have hmin : 7 ≤ total (r.frame ++ rest) := by omega
  have hmax : total (r.frame ++ rest) ≤ 263 := by omega
  obtain ⟨sizes', hreceive⟩ := @receive_frame s _ fuel sizes out hmin hmax hlen (by omega)
  have hpid : shortAt (r.frame ++ rest) MB_TCP_PID = 0 := (by decide : ushort 0 0 = 0)
  have husLength : (s.framed (r.frame ++ rest)).usLength = r.pdu.length := by
    change total (r.frame ++ rest) - 7 = _
    omega
  obtain ⟨t, hexecute, hdevice, hsame⟩ :=
    @run_eMBPoll_execute (s.framed (r.frame ++ rest)) rest fuel sizes' out hidle (by omega)
  obtain ⟨stale, hwhole⟩ := @whole_framed s r rest
  have hcode : byteAt (r.pdu ++ stale) 0 = byteAt r.pdu 0 :=
    byteAt_append stale (List.length_pos_of_ne_nil r.complete.ne_nil)
  rw [husLength, hwhole, Device.respond_append r.complete, hcode, response_framed] at hexecute
  rw [husLength, hwhole, Device.respond_append r.complete] at hdevice
  refine ⟨t, sizes', ?_, hdevice, ?_, ?_, ?_⟩
  · rw [polls, run_bind_of_ok ((run_eMBPoll_reading hidle).trans hreceive), polls,
      run_bind_of_ok (run_eMBPoll_received hidle hmin hlen), if_pos hpid, drop_frame, polls, run_bind_of_ok hexecute]
    rfl
  · rw [hsame]
    exact hidle
  · rw [hsame]
    rfl
  · rw [hsame]
    rfl

end Requests

section Sessions

/-- No client is there, and no frame in the works. -/
structure Slave.Idle (s : Slave) : Prop where
  client : s.xClientSocket = none
  event : s.eQueuedEvent = none

theorem Session.cut_short (c : Session) :
    (c.cut.length < MB_TCP_FUNC ∨ c.cut.length < total c.cut) ∧ c.cut.length ≤ MB_TCP_BUF_SIZE := by
  obtain ⟨r, more, hne, heq⟩ := c.incomplete
  have hmore := List.length_pos_of_ne_nil hne
  have hlen : c.cut.length + more.length = r.pdu.length + 7 := by rw [← List.length_append, heq, length_frame]
  have hroom := r.room
  refine ⟨?_, by change c.cut.length ≤ 263; omega⟩
  rcases Nat.lt_or_ge c.cut.length 7 with hlt | hge
  · exact .inl hlt
  · have htotal : total c.cut = r.pdu.length + 7 := by
      have hframe := total_frame r []
      rw [List.append_nil, ← heq, total, shortAt_append more (by change 4 + 1 < _; omega), heq] at hframe
      exact hframe
    exact .inr (by omega)

theorem run_polls_cut (hidle : s.eQueuedEvent = none) (hfuel : MB_TCP_BUF_SIZE < fuel)
    (hcut : text.length < MB_TCP_FUNC ∨ text.length < total text) (hroom : text.length ≤ MB_TCP_BUF_SIZE) :
    ∃ sizes', (polls fuel 1).run (s.reading text 0 sizes out) =
      .ok ((), (s.reading text text.length sizes' out).closed out) := by
  obtain ⟨sizes', hreceive⟩ := @receive_cut s text fuel sizes out hcut hroom (Nat.lt_of_le_of_lt hroom hfuel)
  exact ⟨sizes', run_bind_of_ok ((run_eMBPoll_reading hidle).trans hreceive) _⟩

/-- All requests of a client, up to its leaving. -/
theorem run_requests {rs : List Request} {cut : List UInt8} (hidle : s.eQueuedEvent = none)
    (hpatient : out.Patient) (hfuel : MB_TCP_BUF_SIZE < fuel)
    (hcut : cut.length < MB_TCP_FUNC ∨ cut.length < total cut) (hroom : cut.length ≤ MB_TCP_BUF_SIZE) :
    ∃ t : Slave, (polls fuel (3 * rs.length + 1)).run (s.reading (rs.flatMap Request.frame ++ cut) 0 sizes out) =
        .ok ((), t) ∧
      t.Idle ∧ t.waiting = s.waiting ∧ t.finished = s.finished ++ [out.sent ++ (Request.serveAll s.device rs).1] ∧
      t.device = (Request.serveAll s.device rs).2 := by
  induction rs generalizing s sizes out with
  | nil =>
    obtain ⟨sizes', hrun⟩ := @run_polls_cut s cut fuel sizes out hidle hfuel hcut hroom
    refine ⟨(s.reading cut cut.length sizes' out).closed out, hrun, ⟨rfl, hidle⟩, rfl, ?_, rfl⟩
    rw [Request.serveAll, List.append_nil]
    rfl
  | cons r rs ih =>
    obtain ⟨t, sizes', hrun, hdevice, hevent, hwaiting, hfinished⟩ :=
      @run_request s fuel sizes out r (rs.flatMap Request.frame ++ cut) hidle (Nat.le_of_lt hfuel)
    obtain ⟨hsend, hpatient'⟩ := hpatient.send (r.serve s.device).1
    obtain ⟨u, hrest, hu, huwaiting, hufinished, hudevice⟩ := @ih t sizes' _ hevent hpatient'
    refine ⟨u, ?_, hu, huwaiting.trans hwaiting, ?_, ?_⟩
    · rw [List.length_cons, show 3 * (rs.length + 1) + 1 = 3 + (3 * rs.length + 1) by omega, List.flatMap_cons,
        List.append_assoc, run_polls_cons hrun, hrest]
    · rw [hufinished, hfinished, hdevice, hsend, Request.serveAll, List.append_assoc]
    · rw [hudevice, hdevice, Request.serveAll]

/-- The next client is accepted. -/
theorem run_polls_accept {c : Client} {waiting : List Client} (hidle : s.Idle) (hwait : s.waiting = c :: waiting)
    (n : Nat) : (polls fuel (n + 1)).run s =
      (polls fuel (n + 1)).run (({ s with waiting := waiting } : Slave).reading c.stream 0 c.sizes c.out) := by
  have hevent : ({ s with waiting := waiting } : Slave).eQueuedEvent = none := hidle.event
  have haccept : (eMBPoll fuel).run s =
      (receive fuel).run (({ s with waiting := waiting } : Slave).reading c.stream 0 c.sizes c.out) := by
    generalize hreading : ({ s with waiting := waiting } : Slave).reading c.stream 0 c.sizes c.out = t
    rw [eMBPoll, run_bind_of_ok (run_get s), hidle.event]
    dsimp only
    rw [xMBPortTCPPool, run_bind_of_ok (run_get s), hidle.client, hwait]
    dsimp only
    rw [run_bind_of_ok (run_modify _ s), ← hreading]
    rfl
  rw [polls, run_bind, run_bind, run_eMBPoll_reading hevent, haccept]

theorem run_polls_idle (hidle : s.Idle) (hwait : s.waiting = []) (n : Nat) : (polls fuel n).run s = .ok ((), s) := by
  induction n with
  | zero => rfl
  | succ n ih =>
    rw [polls, run_bind_of_ok, ih]
    rw [eMBPoll, run_bind_of_ok (run_get s), hidle.event]
    dsimp only
    rw [xMBPortTCPPool, run_bind_of_ok (run_get s), hidle.client, hwait]
    rfl

theorem run_sessions {cs : List Session} (hidle : s.Idle) (hwait : s.waiting = cs.map Session.client)
    (hfuel : MB_TCP_BUF_SIZE < fuel) :
    ∃ t : Slave, (polls fuel (Session.pollsFor cs)).run s = .ok ((), t) ∧ t.Idle ∧ t.waiting = [] ∧
      t.finished = s.finished ++ (Session.serveAll s.device cs).1 ∧ t.device = (Session.serveAll s.device cs).2 := by
  induction cs generalizing s with
  | nil => exact ⟨s, rfl, hidle, hwait, (List.append_nil _).symm, rfl⟩
  | cons c cs ih =>
    obtain ⟨hcut, hroom⟩ := c.cut_short
    obtain ⟨t, hrun, ht, hwaiting, hfinished, hdevice⟩ :=
      @run_requests { s with waiting := cs.map Session.client } fuel c.sizes ⟨[], c.sends⟩ c.requests c.cut hidle.event
        c.patient hfuel hcut hroom
    obtain ⟨u, hrest, hu, huwaiting, hufinished, hudevice⟩ := ih ht hwaiting
    refine ⟨u, ?_, hu, huwaiting, ?_, ?_⟩
    · rw [Session.pollsFor, run_polls_cons ((run_polls_accept hidle hwait _).trans hrun), hrest]
    · rw [hufinished, hfinished, hdevice, Session.serveAll, List.nil_append, List.append_assoc]
      rfl
    · rw [hudevice, hdevice, Session.serveAll]
      rfl

end Sessions

end basic_data_struct.freemodbus
