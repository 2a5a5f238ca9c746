import Mathlib.Data.List.Induction
import BasicDataStruct.Machine.Exec
import BasicDataStruct.Queue.Linear

open linear_queue socket

namespace basic_data_struct.springsnail

abbrev BUF_SIZE : Nat := 2048

inductive RET_CODE where
  | OK
  | NOTHING
  | IOERR
  | CLOSED
  | BUFFER_FULL
  | BUFFER_EMPTY
  | TRY_AGAIN
deriving DecidableEq

/-- The two buffers of a `conn` are `m_clt_buf` and `m_srv_buf`, each with its two
indices. -/
structure conn where
  m_clt : Buffer UInt8
  m_srv : Buffer UInt8
  m_cltfd : Int
  m_srvfd : Int
  m_srv_closed : Bool

/-- An array after `memset`, with both indices at its start. -/
def cleared : Buffer UInt8 where
  cells := List.replicate BUF_SIZE 0
  read_idx := 0
  write_idx := 0

def conn.reset (c : conn) : conn where
  m_clt := cleared
  m_srv := cleared
  m_cltfd := -1
  m_srvfd := c.m_srvfd
  m_srv_closed := false

/-- The loop that `read_clt` and `read_srv` share, for the results of its calls of `recv`.
When they are used up there is nothing more to receive. The bytes that were received are
returned with the result. -/
def readLoop (results : List Recv) (b : Buffer UInt8) : RET_CODE × Buffer UInt8 × List UInt8 :=
  if BUF_SIZE ≤ b.read_idx then (.BUFFER_FULL, b, [])
  else
    match results with
    | [] | .again :: _ => (if b.write_idx < b.read_idx then .OK else .NOTHING, b, [])
    | .error :: _ => (.IOERR, b, [])
    | .bytes data :: results =>
      if data.take (BUF_SIZE - b.read_idx) = [] then (.CLOSED, b, [])
      else
        let (code, b', more) := readLoop results (b.put (data.take (BUF_SIZE - b.read_idx)))
        (code, b', data.take (BUF_SIZE - b.read_idx) ++ more)

/-- The loop that `write_srv` and `write_clt` share, for the results of its calls of `send`.
When they are used up the socket takes no more. The bytes that were sent are returned with
the result. -/
def writeLoop (results : List Send) (b : Buffer UInt8) : RET_CODE × Buffer UInt8 × List UInt8 :=
  if b.read_idx ≤ b.write_idx then (.BUFFER_EMPTY, b.restart, [])
  else
    match results with
    | [] | .again :: _ => (.TRY_AGAIN, b, [])
    | .error :: _ => (.IOERR, b, [])
    | .count n :: results =>
      if min n (b.read_idx - b.write_idx) = 0 then (.CLOSED, b, [])
      else
        let (code, b', more) := writeLoop results (b.skip (min n (b.read_idx - b.write_idx)))
        (code, b', b.pending.take (min n (b.read_idx - b.write_idx)) ++ more)

def conn.read_clt (c : conn) (results : List Recv) : RET_CODE × conn × List UInt8 :=
  let (code, m_clt, data) := readLoop results c.m_clt
  (code, { c with m_clt }, data)

def conn.read_srv (c : conn) (results : List Recv) : RET_CODE × conn × List UInt8 :=
  let (code, m_srv, data) := readLoop results c.m_srv
  (code, { c with m_srv }, data)

def conn.write_srv (c : conn) (results : List Send) : RET_CODE × conn × List UInt8 :=
  let (code, m_clt, data) := writeLoop results c.m_clt
  (code, { c with m_clt }, data)

def conn.write_clt (c : conn) (results : List Send) : RET_CODE × conn × List UInt8 :=
  let (code, m_srv, data) := writeLoop results c.m_srv
  (code, { c with m_srv }, data)

/-- A call of one of the four functions, with the results of its system calls. -/
inductive Op where
  | read_clt (results : List Recv)
  | read_srv (results : List Recv)
  | write_srv (results : List Send)
  | write_clt (results : List Send)

/-- The bytes that have gone over the two sockets since `reset`. -/
structure Wire where
  from_clt : List UInt8
  to_srv : List UInt8
  from_srv : List UInt8
  to_clt : List UInt8

def Wire.silent : Wire := ⟨[], [], [], []⟩

def Op.exec (op : Op) (c : conn) (w : Wire) : RET_CODE × conn × Wire :=
  match op with
  | .read_clt results =>
    let (code, c, data) := c.read_clt results
    (code, c, { w with from_clt := w.from_clt ++ data })
  | .read_srv results =>
    let (code, c, data) := c.read_srv results
    (code, c, { w with from_srv := w.from_srv ++ data })
  | .write_srv results =>
    let (code, c, data) := c.write_srv results
    (code, c, { w with to_srv := w.to_srv ++ data })
  | .write_clt results =>
    let (code, c, data) := c.write_clt results
    (code, c, { w with to_clt := w.to_clt ++ data })

section

variable {b : Buffer UInt8} {c : conn} {w : Wire}

/-- The bytes that a read receives wait behind those that waited before. -/
theorem readLoop_spec (results : List Recv) (hb : b.Valid BUF_SIZE) :
    (readLoop results b).2.1.Valid BUF_SIZE ∧
      (readLoop results b).2.1.pending = b.pending ++ (readLoop results b).2.2 := by
  induction results generalizing b with
  | nil =>
    rw [readLoop]
    split <;> exact ⟨hb, (List.append_nil _).symm⟩
  | cons result results ih =>
    cases result with
    | again | error =>
      rw [readLoop]
      split <;> exact ⟨hb, (List.append_nil _).symm⟩
    | bytes data =>
      rw [readLoop]
      split
      · exact ⟨hb, (List.append_nil _).symm⟩
      · split
        · exact ⟨hb, (List.append_nil _).symm⟩
        · obtain ⟨hvalid, hpending⟩ := ih (hb.put (List.length_take_le _ data))
          refine ⟨hvalid, ?_⟩
          rw [hpending, hb.pending_put, List.append_assoc]

/-- A read takes the bytes that `recv` delivers, as many as there is room for, and it
fails if `recv` does so before the buffer is full. -/
theorem readLoop_received (results : List Recv) (b : Buffer UInt8) :
    (readLoop results b).2.2 = (delivered results).1.take (BUF_SIZE - b.read_idx) ∧
      ((readLoop results b).1 = .IOERR ∨ (readLoop results b).1 = .CLOSED ↔
        (delivered results).1.length < BUF_SIZE - b.read_idx ∧ (delivered results).2 ≠ .again) := by
  induction results generalizing b with
  | nil =>
    rw [readLoop]
    split
    · simp [delivered]
    · simp only [delivered]
      split <;> simp
  | cons result results ih =>
    by_cases hfull : BUF_SIZE ≤ b.read_idx
    · rw [readLoop.eq_def, if_pos hfull]
      simp [Nat.sub_eq_zero_of_le hfull]
    · rw [readLoop.eq_def, if_neg hfull]
      have hroom : 0 < BUF_SIZE - b.read_idx := Nat.sub_pos_of_lt (Nat.not_le.mp hfull)
      cases result with
      | again =>
        simp only [delivered]
        split <;> simp
      | error => simp [delivered, hroom]
      | bytes data =>
        cases data with
        | nil => simp [delivered, hroom]
        | cons x data =>
          have hne : (x :: data).take (BUF_SIZE - b.read_idx) ≠ [] := by simpa using Nat.ne_of_gt hroom
          obtain ⟨hdata, hcode⟩ := ih (b.put ((x :: data).take (BUF_SIZE - b.read_idx)))
          have hleft : BUF_SIZE - (b.put ((x :: data).take (BUF_SIZE - b.read_idx))).read_idx =
              BUF_SIZE - b.read_idx - (x :: data).length := by
            dsimp only [Buffer.put]
            rw [List.length_take]
            omega
          rw [hleft] at hdata hcode
          simp only [if_neg hne, hdata, hcode, delivered, List.take_append, List.length_append]
          refine ⟨trivial, and_congr_left' ?_⟩
          omega

/-- The bytes that a write sends are the first of those that waited. -/
theorem writeLoop_spec (results : List Send) (hb : b.Valid BUF_SIZE) :
    (writeLoop results b).2.1.Valid BUF_SIZE ∧
      (writeLoop results b).2.2 ++ (writeLoop results b).2.1.pending = b.pending := by
  have hempty : ∀ b : Buffer UInt8, b.Valid BUF_SIZE → b.read_idx ≤ b.write_idx →
    [] ++ b.restart.pending = b.pending := by
    intro b hb hle
    rw [Buffer.pending_restart, hb.pending_eq_nil_iff.mpr hle, List.nil_append]
  induction results generalizing b with
  | nil =>
    rw [writeLoop]
    split
    next hle => exact ⟨hb.restart, hempty b hb hle⟩
    next => exact ⟨hb, rfl⟩
  | cons result results ih =>
    cases result with
    | again | error =>
      rw [writeLoop]
      split
      next hle => exact ⟨hb.restart, hempty b hb hle⟩
      next => exact ⟨hb, rfl⟩
    | count n =>
      rw [writeLoop]
      split
      next hle => exact ⟨hb.restart, hempty b hb hle⟩
      next =>
        split
        · exact ⟨hb, rfl⟩
        · obtain ⟨hvalid, hpending⟩ := ih (hb.skip (Nat.min_le_right n (b.read_idx - b.write_idx)))
          refine ⟨hvalid, ?_⟩
          rw [List.append_assoc, hpending, Buffer.pending_skip, List.take_append_drop]

/-- Both directions of a connection lose nothing and keep the order: what was sent, and
then what waits, is what was received. -/
structure conn.Lossless (c : conn) (w : Wire) : Prop where
  clt_valid : c.m_clt.Valid BUF_SIZE
  srv_valid : c.m_srv.Valid BUF_SIZE
  to_srv : w.to_srv ++ c.m_clt.pending = w.from_clt
  to_clt : w.to_clt ++ c.m_srv.pending = w.from_srv

theorem cleared_valid : cleared.Valid BUF_SIZE := ⟨List.length_replicate, Nat.le_refl 0, Nat.zero_le BUF_SIZE⟩

theorem cleared_pending : cleared.pending = [] := by rw [Buffer.pending, cleared, List.take_zero, List.drop_nil]

theorem conn.lossless_reset (c : conn) : c.reset.Lossless .silent :=
  ⟨cleared_valid, cleared_valid, cleared_pending, cleared_pending⟩

/-- Each of the four functions keeps both directions. -/
theorem conn.Lossless.exec (hc : c.Lossless w) (op : Op) : (op.exec c w).2.1.Lossless (op.exec c w).2.2 := by
  obtain ⟨hclt, hsrv, hto_srv, hto_clt⟩ := hc
  cases op with
  | read_clt results =>
    obtain ⟨hvalid, hpending⟩ := readLoop_spec results hclt
    refine ⟨hvalid, hsrv, ?_, hto_clt⟩
    simp only [Op.exec, conn.read_clt, hpending]
    rw [← List.append_assoc, hto_srv]
  | read_srv results =>
    obtain ⟨hvalid, hpending⟩ := readLoop_spec results hsrv
    refine ⟨hclt, hvalid, hto_srv, ?_⟩
    simp only [Op.exec, conn.read_srv, hpending]
    rw [← List.append_assoc, hto_clt]
  | write_srv results =>
    obtain ⟨hvalid, hpending⟩ := writeLoop_spec results hclt
    refine ⟨hvalid, hsrv, ?_, hto_clt⟩
    simp only [Op.exec, conn.write_srv, List.append_assoc, hpending, hto_srv]
  | write_clt results =>
    obtain ⟨hvalid, hpending⟩ := writeLoop_spec results hsrv
    refine ⟨hclt, hvalid, hto_srv, ?_⟩
    simp only [Op.exec, conn.write_clt, List.append_assoc, hpending, hto_clt]

end

/-- A sequence of calls after `reset`. -/
def conn.execAll (c : conn) (ops : List Op) : conn × Wire :=
  ops.foldl (fun s op => (op.exec s.1 s.2).2) (c.reset, .silent)

theorem conn.lossless_execAll (c : conn) (ops : List Op) : (c.execAll ops).1.Lossless (c.execAll ops).2 := by
  induction ops using List.reverseRecOn with
  | nil => exact c.lossless_reset
  | append_singleton ops op ih =>
    rw [execAll, List.foldl_append]
    exact ih.exec op

/-- Whatever the order of the calls and the results of the system calls are, each direction
of a connection is a queue that loses nothing, and its indices stay inside the buffer. -/
theorem directions_lossless (c : conn) (ops : List Op) :
    ((c.execAll ops).2.to_srv ++ (c.execAll ops).1.m_clt.pending = (c.execAll ops).2.from_clt ∧
      (c.execAll ops).1.m_clt.write_idx ≤ (c.execAll ops).1.m_clt.read_idx ∧
      (c.execAll ops).1.m_clt.read_idx ≤ BUF_SIZE) ∧
    (c.execAll ops).2.to_clt ++ (c.execAll ops).1.m_srv.pending = (c.execAll ops).2.from_srv ∧
      (c.execAll ops).1.m_srv.write_idx ≤ (c.execAll ops).1.m_srv.read_idx ∧
      (c.execAll ops).1.m_srv.read_idx ≤ BUF_SIZE := by
  obtain ⟨hclt, hsrv, hto_srv, hto_clt⟩ := c.lossless_execAll ops
  exact ⟨⟨hto_srv, hclt.write_le, hclt.read_le⟩, hto_clt, hsrv.write_le, hsrv.read_le⟩

end basic_data_struct.springsnail
