import BasicDataStruct.Modbus.Handlers

open machine machine.Exec memory

namespace basic_data_struct.freemodbus

/-- The length of a frame, by its header. -/
def total (text : List UInt8) : Nat := MB_TCP_UID + (shortAt text MB_TCP_LEN).toNat

/-- The bytes that are asked for after `k` bytes of a frame. -/
def left (text : List UInt8) (k : Nat) : Nat := if k < MB_TCP_FUNC then MB_TCP_FUNC - k else total text - k

theorem add_left_le {text : List UInt8} {k : Nat} (hk : k ≤ max MB_TCP_FUNC (total text)) :
    k + left text k ≤ max MB_TCP_FUNC (total text) := by
  unfold left
  split <;> omega

/-- The client has `text` to send, and `k` bytes of it have been received. -/
def Slave.reading (s : Slave) (text : List UInt8) (k : Nat) (sizes : List Nat) (out : Outbound) : Slave :=
  { s with
    aucTCPBuf := fill s.aucTCPBuf 0 (text.take k)
    usTCPBufPos := k
    usTCPFrameBytesLeft := left text k
    xClientSocket := some ⟨text.drop k, sizes, out⟩ }

/-- The client is gone. -/
def Slave.closed (s : Slave) (out : Outbound) : Slave :=
  { s with xClientSocket := none, finished := s.finished ++ [out.sent] }

/-- The event is posted. -/
def Slave.post (s : Slave) (eEvent : eMBEventType) : Slave := { s with eQueuedEvent := some eEvent }

variable {s : Slave} {text : List UInt8} {k fuel : Nat} {sizes : List Nat} {out : Outbound}

theorem run_receive_closed (hk : text.length ≤ k) :
    (receive (fuel + 1)).run (s.reading text k sizes out) =
      .ok ((), (s.reading text k sizes out).closed out) := by
  have hdrop : text.drop k = [] := List.drop_eq_nil_of_le hk
  rw [receive, run_bind_of_ok (run_get _)]
  simp only [Slave.reading, Client.recv, hdrop, List.take_nil, if_true]
  rfl

/-- How the loop goes on after `k` bytes. -/
def after (fuel : Nat) (s : Slave) (text : List UInt8) (k : Nat) (sizes : List Nat) (out : Outbound) :
    Except Fault (Unit × Slave) :=
  if MB_TCP_BUF_SIZE < k then .error .bounds
  else if k < MB_TCP_FUNC ∨ k < total text then (receive fuel).run (s.reading text k sizes out)
  else if k = total text then .ok ((), (s.reading text k sizes out).post .EV_FRAME_RECEIVED)
  else .error (.exit "Assertion usTCPBufPos <= ( MB_TCP_UID + usLength ) failed" 134)

/-- The bytes of a list that a shorter read leaves out are not there. -/
theorem drop_add_length_take (l : List UInt8) (n : Nat) :
    l.drop (k + ((l.drop k).take n).length) = (l.drop k).drop n := by
  rw [List.drop_drop, List.length_take, List.length_drop]
  rcases Nat.le_total n (l.length - k) with hle | hle
  · rw [Nat.min_eq_left hle]
  · rw [Nat.min_eq_right hle, List.drop_eq_nil_of_le (by omega), List.drop_eq_nil_of_le (by omega)]

theorem take_add_length_take (l : List UInt8) (n : Nat) :
    l.take (k + ((l.drop k).take n).length) = l.take k ++ (l.drop k).take n := by
  rw [List.take_add, List.length_take, ← List.take_eq_take_min]

theorem byteAt_reading {i : Nat} (hi : i < k) (hk : k ≤ text.length) :
    (s.reading text k sizes out).aucTCPBuf i = byteAt text i := by
  have hlen : i < (text.take k).length := by
    rw [List.length_take]
    omega
  have hbuf : fill s.aucTCPBuf 0 (text.take k) (0 + i) = _ := fill_add hlen
  rw [Nat.zero_add, List.getElem_take] at hbuf
  rw [byteAt, List.getD_eq_getElem?_getD, List.getElem?_eq_getElem (by omega)]
  exact hbuf

/-- The bytes are stored, and the number of those to come is not yet set anew. -/
def Slave.stored (s : Slave) (text : List UInt8) (k m : Nat) (sizes : List Nat) (out : Outbound) : Slave :=
  { s.reading text (k + m) sizes out with usTCPFrameBytesLeft := left text k - m }

theorem run_store {data rest : List UInt8} (hk : k ≤ text.length)
    (htake : text.take (k + data.length) = text.take k ++ data)
    (hdrop : text.drop (k + data.length) = rest) (hroom : k + data.length - 1 < MB_TCP_BUF_SIZE) :
    (store data ⟨rest, sizes.tail, out⟩).run (s.reading text k sizes out) =
      .ok ((), s.stored text k data.length sizes.tail out) := by
  have hfill : fill (fill s.aucTCPBuf 0 (text.take k)) k data = fill s.aucTCPBuf 0 (text.take (k + data.length)) := by
    rw [htake, fill_append, List.length_take, Nat.min_eq_left hk, Nat.zero_add]
  rw [store, run_bind_of_ok (run_get _)]
  refine (run_bind_of_ok (run_inBounds hroom _) _).trans ?_
  rw [run_modify]
  simp only [Slave.stored, Slave.reading, hfill, hdrop]

theorem run_store_overflow {data : List UInt8} {client : Client} (hroom : ¬k + data.length - 1 < MB_TCP_BUF_SIZE) :
    (store data client).run (s.reading text k sizes out) = .error .bounds := by
  rw [store, run_bind_of_ok (run_get _)]
  refine run_bind_of_error ?_ _
  rw [inBounds]
  exact congrArg (fun x : Prog Unit => x.run _) (if_neg hroom)

theorem reading_eq_stored {m : Nat} (h : left text (k + m) = left text k - m) :
    s.reading text (k + m) sizes out = s.stored text k m sizes out := by
  rw [Slave.stored, ← h]
  rfl

/-- The check of `xMBPortTCPPool` behind a `recv`: go on, post the frame, or fail the assertion. -/
theorem run_checkFrame {again : Prog Unit} {m : Nat} (hm : m ≤ left text k) (hsum : k + m ≤ text.length) :
    (checkFrame again).run (s.stored text k m sizes out) =
      if k + m < MB_TCP_FUNC ∨ k + m < total text then again.run (s.reading text (k + m) sizes out)
      else if k + m = total text then .ok ((), (s.reading text (k + m) sizes out).post .EV_FRAME_RECEIVED)
      else .error (.exit "Assertion usTCPBufPos <= ( MB_TCP_UID + usLength ) failed" 134) := by
  rw [checkFrame, run_bind_of_ok (run_get _), run_ite]
  have hpos : (s.stored text k m sizes out).usTCPBufPos = k + m := rfl
  rw [hpos]
  by_cases hseven : k + m < 7
  · have hstored : left text (k + m) = left text k - m := by
      rw [left, left, if_pos hseven, if_pos (show k < 7 by omega)]
      exact Nat.sub_add_eq 7 k m
    rw [if_pos (Or.inl hseven), if_neg (Nat.not_le.mpr hseven), reading_eq_stored hstored]
  have hbyte : ∀ i < 7, (s.stored text k m sizes out).aucTCPBuf i = byteAt text i := fun i hi =>
    @byteAt_reading s text (k + m) sizes out i (by omega) hsum
  rw [if_pos (Nat.not_lt.mp hseven), hbyte MB_TCP_LEN (by decide), hbyte (MB_TCP_LEN + 1) (by decide)]
  change (if k + m < total text then _ else if k + m = total text then _ else _ : Prog Unit).run _ = _
  have hleft : left text (k + m) = total text - (k + m) := if_neg hseven
  by_cases hmore : k + m < total text
  · rw [if_pos hmore, if_pos (Or.inr hmore), run_bind_of_ok (run_modify _ _), Nat.add_comm _ MB_TCP_UID,
      Slave.reading, hleft]
    rfl
  rw [if_neg hmore, if_neg (not_or.mpr ⟨hseven, hmore⟩)]
  by_cases hall : k + m = total text
  · have hle : k + left text k ≤ max MB_TCP_FUNC (total text) := add_left_le (by omega)
    have hmax : max 7 (total text) = total text := by omega
    rw [if_pos hall, if_pos hall, reading_eq_stored (by rw [hmax] at hle; omega)]
    rfl
  · rw [if_neg hall, if_neg hall]
    rfl

/-- A call of `recv` takes some bytes, and not more than were asked for. -/
theorem run_receive_chunk (hk : k < text.length) (hleft : 0 < left text k) :
    ∃ m, 0 < m ∧ m ≤ left text k ∧ k + m ≤ text.length ∧
      (receive (fuel + 1)).run (s.reading text k sizes out) = after fuel s text (k + m) sizes.tail out := by
  let n := min (max 1 (sizes.headD 1)) (left text k)
  let data := (text.drop k).take n
  have hlen : data.length = min n (text.length - k) := by rw [List.length_take, List.length_drop]
  have hpos : 0 < data.length := by omega
  have hsum : k + data.length ≤ text.length := by omega
  have hm : data.length ≤ left text k := by omega
  have hdata : data ≠ [] := List.ne_nil_of_length_pos hpos
  refine ⟨data.length, hpos, hm, hsum, ?_⟩
  rw [receive, run_bind_of_ok (run_get _), after]
  change (if data = [] then _ else store data ⟨(text.drop k).drop n, sizes.tail, out⟩ >>= _).run _ = _
  rw [if_neg hdata]
  by_cases hroom : k + data.length - 1 < MB_TCP_BUF_SIZE
  · rw [if_neg (by omega), run_bind_of_ok
      (run_store (Nat.le_of_lt hk) (take_add_length_take _ _) (drop_add_length_take _ _) hroom)]
    exact run_checkFrame hm hsum
  · rw [if_pos (by omega)]
    exact run_bind_of_error (run_store_overflow hroom) _

/-- The loop gets to the position `e` if it goes on at all before it, however the bytes are cut. -/
theorem run_receive_until {e : Nat} (hgo : ∀ j < e, j < MB_TCP_FUNC ∨ j < total text) (hroom : e ≤ MB_TCP_BUF_SIZE + 1)
    (hlen : e ≤ text.length) (hk : k < e) (hfuel : e - k ≤ fuel) :
    ∃ fuel' k' sizes', fuel ≤ fuel' + (e - k) ∧ e ≤ k' ∧ k' ≤ text.length ∧ k' ≤ max MB_TCP_FUNC (total text) ∧
      (receive fuel).run (s.reading text k sizes out) = after fuel' s text k' sizes' out := by
  induction fuel generalizing k sizes with
  | zero => omega
  | succ fuel ih =>
    have hleft : 0 < left text k := by
      rw [left]
      have := hgo k hk
      split <;> omega
    obtain ⟨m, hpos, hm, hsum, hrun⟩ := @run_receive_chunk s text k fuel sizes out (by omega) hleft
    rcases Nat.lt_or_ge (k + m) e with hlt | hge
    · obtain ⟨fuel', k', sizes', hfuel', hk', hle, hmax, hrest⟩ := ih hlt (by omega)
      refine ⟨fuel', k', sizes', by omega, hk', hle, hmax, ?_⟩
      rw [hrun, after, if_neg (by omega), if_pos (hgo _ hlt), hrest]
    · have hmax : k + left text k ≤ max MB_TCP_FUNC (total text) := add_left_le (by have := hgo k hk; omega)
      exact ⟨fuel, k + m, sizes.tail, by omega, hge, hsum, by omega, hrun⟩

/-- A frame that is there as a whole and fits the buffer is received, and no byte after it is taken. -/
theorem receive_frame (hmin : MB_TCP_FUNC ≤ total text) (hmax : total text ≤ MB_TCP_BUF_SIZE)
    (hlen : total text ≤ text.length) (hfuel : total text ≤ fuel) :
    ∃ sizes', (receive fuel).run (s.reading text 0 sizes out) =
      .ok ((), (s.reading text (total text) sizes' out).post .EV_FRAME_RECEIVED) := by
  have hseven : 7 ≤ total text := hmin
  obtain ⟨fuel', k', sizes', -, hge, -, hle, hrun⟩ :=
    @run_receive_until s text 0 fuel sizes out (total text) (fun j hj => .inr hj) (by omega) hlen (by omega) hfuel
  have hk' : k' = total text := by omega
  subst hk'
  refine ⟨sizes', ?_⟩
  rw [hrun, after, if_neg (by omega), if_neg (by omega), if_pos rfl]

/-- Where the client leaves before a frame is complete, the connection is closed. -/
theorem receive_cut (hcut : text.length < MB_TCP_FUNC ∨ text.length < total text) (hmax : text.length ≤ MB_TCP_BUF_SIZE)
    (hfuel : text.length < fuel) :
    ∃ sizes', (receive fuel).run (s.reading text 0 sizes out) =
      .ok ((), (s.reading text text.length sizes' out).closed out) := by
  rcases Nat.eq_zero_or_pos text.length with hzero | hpos
  · obtain ⟨fuel, rfl⟩ : ∃ n, fuel = n + 1 := ⟨fuel - 1, by omega⟩
    rw [hzero]
    exact ⟨sizes, run_receive_closed (by omega)⟩
  · obtain ⟨fuel', k', sizes', hfuel', hge, hle, -, hrun⟩ :=
      @run_receive_until s text 0 fuel sizes out text.length (fun j hj => by omega) (by omega) (by omega) hpos
        (by omega)
    have hk' : k' = text.length := by omega
    subst hk'
    obtain ⟨fuel'', rfl⟩ : ∃ n, fuel' = n + 1 := ⟨fuel' - 1, by omega⟩
    refine ⟨sizes', ?_⟩
    rw [hrun, after, if_neg (by omega), if_pos hcut, run_receive_closed (Nat.le_refl _)]

/-- A frame that is longer than the buffer is written over its end. -/
theorem receive_overflow (hmax : MB_TCP_BUF_SIZE < total text) (hlen : MB_TCP_BUF_SIZE < text.length)
    (hfuel : MB_TCP_BUF_SIZE < fuel) : (receive fuel).run (s.reading text 0 sizes out) = .error .bounds := by
  obtain ⟨fuel', k', sizes', -, hge, -, -, hrun⟩ :=
    @run_receive_until s text 0 fuel sizes out (MB_TCP_BUF_SIZE + 1) (fun j hj => by omega) (by omega) (by omega)
      (by omega) (by omega)
  rw [hrun, after, if_pos (by omega)]

/-- A frame without the unit identifier, by its header, ends the program. -/
theorem receive_assert (hzero : total text = MB_TCP_UID) (hlen : MB_TCP_FUNC ≤ text.length)
    (hfuel : MB_TCP_FUNC ≤ fuel) : (receive fuel).run (s.reading text 0 sizes out) =
      .error (.exit "Assertion usTCPBufPos <= ( MB_TCP_UID + usLength ) failed" 134) := by
  have hsix : total text = 6 := hzero
  obtain ⟨fuel', k', sizes', -, hge, -, hle, hrun⟩ :=
    @run_receive_until s text 0 fuel sizes out MB_TCP_FUNC (fun j hj => .inl hj) (by decide) hlen (by decide) hfuel
  have hk' : k' = 7 := by
    change 7 ≤ k' at hge
    change k' ≤ max 7 (total text) at hle
    omega
  subst hk'
  rw [hrun, after, if_neg (by decide), if_neg (by rw [hsix]; decide), if_neg (by rw [hsix]; decide)]

end basic_data_struct.freemodbus
