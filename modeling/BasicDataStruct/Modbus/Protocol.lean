import Mathlib.Data.List.TakeDrop
import BasicDataStruct.Modbus.Stack

open memory

namespace basic_data_struct.freemodbus

section Bytes

theorem toNat_ushort (hi lo : UInt8) : (ushort hi lo).toNat = hi.toNat * 256 + lo.toNat := by
  have hhi := hi.toNat_lt
  have hlo := lo.toNat_lt
  have hshift : (hi.toUInt16 <<< 8).toNat = hi.toNat <<< 8 := by
    have hlt : hi.toNat * 2 ^ 8 < 2 ^ 16 := by omega
    rw [UInt16.toNat_shiftLeft, UInt8.toNat_toUInt16, Nat.shiftLeft_eq, Nat.shiftLeft_eq]
    exact Nat.mod_eq_of_lt hlt
  rw [ushort, UInt16.toNat_or, hshift, UInt8.toNat_toUInt16, ← Nat.shiftLeft_add_eq_or_of_lt hlo, Nat.shiftLeft_eq]

/-- A value as it is sent. -/
def bytes (w : UInt16) : List UInt8 := [(w >>> 8).toUInt8, (w &&& 0xFF).toUInt8]

/-- The values in a part of a frame. -/
def words : List UInt8 → List UInt16
  | hi :: lo :: rest => ushort hi lo :: words rest
  | _ => []

theorem toNat_high (w : UInt16) : (w >>> 8).toUInt8.toNat = w.toNat / 256 := by
  have hw := w.toNat_lt
  rw [UInt16.toNat_toUInt8, UInt16.toNat_shiftRight, Nat.shiftRight_eq_div_pow]
  exact Nat.mod_eq_of_lt (by change w.toNat / 2 ^ 8 < _; omega)

theorem toNat_low (w : UInt16) : (w &&& 0xFF).toUInt8.toNat = w.toNat % 256 := by
  rw [UInt16.toNat_toUInt8, UInt16.toNat_and]
  have hand : w.toNat &&& 255 = w.toNat % 256 := Nat.and_two_pow_sub_one_eq_mod w.toNat 8
  change (w.toNat &&& 255) % 256 = _
  rw [hand, Nat.mod_mod]

theorem ushort_bytes (w : UInt16) : ushort (w >>> 8).toUInt8 (w &&& 0xFF).toUInt8 = w := by
  apply UInt16.toNat_inj.mp
  rw [toNat_ushort, toNat_high, toNat_low, Nat.div_add_mod']

theorem length_flatMap_bytes (ws : List UInt16) : (ws.flatMap bytes).length = 2 * ws.length := by
  induction ws with
  | nil => rfl
  | cons w ws ih =>
    rw [List.flatMap_cons, List.length_append, ih, List.length_cons, bytes, List.length_cons, List.length_cons,
      List.length_nil]
    omega

theorem length_words {n : Nat} {bs : List UInt8} (h : bs.length = 2 * n) : (words bs).length = n := by
  induction n generalizing bs with
  | zero =>
    rw [List.eq_nil_of_length_eq_zero h]
    rfl
  | succ n ih =>
    match bs with
    | [] => exact absurd h (by rw [List.length_nil]; omega)
    | [_] => exact absurd h (by rw [List.length_singleton]; omega)
    | hi :: lo :: rest =>
      rw [List.length_cons, List.length_cons] at h
      rw [words, List.length_cons, ih (by omega)]

end Bytes

/-- What the slave has: its identification, the input registers and the holding registers. -/
structure Device where
  id : List UInt8
  input : Nat → UInt16
  holding : Nat → UInt16

/-- A response without an exception, or an exception. -/
abbrev Reply := Except eMBException (List UInt8)

/-- The index of the first of some registers, if the slave has them all. The protocol counts them from 0, the
application from 1. -/
def place (start nregs : Nat) (address : UInt16) (count : Nat) : Option Nat :=
  if start ≤ (address + 1).toNat ∧ (address + 1).toNat + count ≤ start + nregs then some ((address + 1).toNat - start)
  else none

/-- The response with the values of some registers. -/
def readRegisters (code : UInt8) (start nregs : Nat) (regs : Nat → UInt16) (address : UInt16) (count : Nat) : Reply :=
  match place start nregs address count with
  | some i => .ok (code :: .ofNat (count * 2) :: (slice regs i count).flatMap bytes)
  | none => .error .MB_EX_ILLEGAL_DATA_ADDRESS

/-- The device after some holding registers have been written. -/
def Device.writeHolding (d : Device) (address : UInt16) (values : List UInt16) : Option Device :=
  (place REG_HOLDING_START REG_HOLDING_NREGS address values.length).map fun i =>
    { d with holding := fill d.holding i values }

/-- The bytes and the numbers in a frame. -/
def byteAt (frame : List UInt8) (i : Nat) : UInt8 := frame.getD i 0

def shortAt (frame : List UInt8) (i : Nat) : UInt16 := ushort (byteAt frame i) (byteAt frame (i + 1))

/-- The values that begin at a place in a frame. -/
def valuesAt (frame : List UInt8) (i count : Nat) : List UInt16 := words ((frame.drop i).take (2 * count))

/-- The counts of a request that writes registers are legal. -/
abbrev WriteChecks (frame : List UInt8) : Prop :=
  1 ≤ shortAt frame 3 ∧ shortAt frame 3 ≤ 0x78 ∧ byteAt frame 5 = (2 * shortAt frame 3).toUInt8

/-- The counts of a request that writes registers and reads others are legal. -/
abbrev ReadWriteChecks (frame : List UInt8) : Prop :=
  1 ≤ shortAt frame 3 ∧ shortAt frame 3 ≤ 0x7D ∧ 1 ≤ shortAt frame 7 ∧ shortAt frame 7 ≤ 0x79 ∧
    2 * (shortAt frame 7).toNat = (byteAt frame 9).toNat

namespace Device

-- The request is in the first `len` bytes of `frame`.
variable (d : Device) (len : Nat) (frame : List UInt8)

def readBits : Reply × Device :=
  if len = 5 ∧ 1 ≤ shortAt frame 3 ∧ shortAt frame 3 < 0x07D0 then (.error .MB_EX_ILLEGAL_DATA_ADDRESS, d)
  else (.error .MB_EX_ILLEGAL_DATA_VALUE, d)

def readHoldingRegisters : Reply × Device :=
  if len = 5 ∧ 1 ≤ (byteAt frame 4).toUInt16 ∧ (byteAt frame 4).toUInt16 ≤ 0x7D then
    (readRegisters 3 REG_HOLDING_START REG_HOLDING_NREGS d.holding (shortAt frame 1) (byteAt frame 4).toNat, d)
  else (.error .MB_EX_ILLEGAL_DATA_VALUE, d)

def readInputRegisters : Reply × Device :=
  if len = 5 ∧ 1 ≤ shortAt frame 3 ∧ shortAt frame 3 < 0x7D then
    (readRegisters 4 REG_INPUT_START REG_INPUT_NREGS d.input (shortAt frame 1) (shortAt frame 3).toNat, d)
  else (.error .MB_EX_ILLEGAL_DATA_VALUE, d)

def writeCoil : Reply × Device :=
  if len = 5 ∧ byteAt frame 4 = 0 ∧ (byteAt frame 3 = 0xFF ∨ byteAt frame 3 = 0) then
    (.error .MB_EX_ILLEGAL_DATA_ADDRESS, d)
  else (.error .MB_EX_ILLEGAL_DATA_VALUE, d)

def writeCoils : Reply × Device :=
  if 6 ≤ len ∧ 1 ≤ shortAt frame 3 ∧ shortAt frame 3 ≤ 0x07B0 ∧ bitBytes (shortAt frame 3) = byteAt frame 5 then
    (.error .MB_EX_ILLEGAL_DATA_ADDRESS, d)
  else (.error .MB_EX_ILLEGAL_DATA_VALUE, d)

/-- The response to a request that writes, and the device after it. -/
def afterWrite (address : UInt16) (values : List UInt16) (k : Device → Reply) : Reply × Device :=
  match d.writeHolding address values with
  | some d' => (k d', d')
  | none => (.error .MB_EX_ILLEGAL_DATA_ADDRESS, d)

def writeRegister : Reply × Device :=
  if len = 5 then d.afterWrite (shortAt frame 1) (valuesAt frame 3 1) fun _ => .ok (frame.take len)
  else (.error .MB_EX_ILLEGAL_DATA_VALUE, d)

def writeRegisters : Reply × Device :=
  if 6 ≤ len ∧ WriteChecks frame then
    d.afterWrite (shortAt frame 1) (valuesAt frame 6 (shortAt frame 3).toNat) fun _ => .ok (frame.take 5)
  else (.error .MB_EX_ILLEGAL_DATA_VALUE, d)

/-- The values are written before others are read, and stay written where those cannot be read. -/
def readWriteRegisters : Reply × Device :=
  if len < 10 then (.ok (frame.take len), d)
  else if ReadWriteChecks frame then
    d.afterWrite (shortAt frame 5) (valuesAt frame 10 (shortAt frame 7).toNat) fun d' =>
      readRegisters 23 REG_HOLDING_START REG_HOLDING_NREGS d'.holding (shortAt frame 1) (shortAt frame 3).toNat
  else (.error .MB_EX_ILLEGAL_DATA_VALUE, d)

/-- What the slave is for: the response to a request, and what the request does to the device. -/
def respond : Reply × Device :=
  match byteAt frame 0 with
  | 1 => d.readBits len frame
  | 2 => d.readBits len frame
  | 3 => d.readHoldingRegisters len frame
  | 4 => d.readInputRegisters len frame
  | 5 => d.writeCoil len frame
  | 6 => d.writeRegister len frame
  | 15 => d.writeCoils len frame
  | 16 => d.writeRegisters len frame
  | 17 => (.ok (17 :: d.id), d)
  | 23 => d.readWriteRegisters len frame
  | _ => (.error .MB_EX_ILLEGAL_FUNCTION, d)

end Device

section Stale

variable {d : Device} {pdu : List UInt8} {i : Nat}

theorem byteAt_append (stale : List UInt8) (h : i < pdu.length) : byteAt (pdu ++ stale) i = byteAt pdu i := by
  rw [byteAt, byteAt, List.getD_eq_getElem?_getD, List.getD_eq_getElem?_getD, List.getElem?_append_left h]

theorem shortAt_append (stale : List UInt8) (h : i + 1 < pdu.length) : shortAt (pdu ++ stale) i = shortAt pdu i := by
  rw [shortAt, shortAt, byteAt_append stale (by omega), byteAt_append stale h]

theorem valuesAt_append {n : Nat} (stale : List UInt8) (h : i + 2 * n ≤ pdu.length) :
    valuesAt (pdu ++ stale) i n = valuesAt pdu i n := by
  rw [valuesAt, valuesAt, List.drop_append_of_le_length (by omega),
    List.take_append_of_le_length (by rw [List.length_drop]; omega)]

/-- A request has a function code, and the values that it announces if the counts pass the checks of its handler. Any
other request is complete, legal or not. -/
structure Complete (pdu : List UInt8) : Prop where
  ne_nil : pdu ≠ []
  write : byteAt pdu 0 = 16 → 6 ≤ pdu.length → WriteChecks pdu → 6 + 2 * (shortAt pdu 3).toNat ≤ pdu.length
  readWrite : byteAt pdu 0 = 23 → 10 ≤ pdu.length → ReadWriteChecks pdu →
    10 + 2 * (shortAt pdu 7).toNat ≤ pdu.length

/-- Where the length is wrong, two checks fail alike. -/
theorem ite_and_congr {α : Type} {c p q : Prop} [Decidable c] [Decidable p] [Decidable q] {x y z : α}
    (hpq : c → (p ↔ q)) (hxy : c → q → x = y) : (if c ∧ p then x else z) = if c ∧ q then y else z := by
  by_cases hc : c
  · by_cases hq : q
    · rw [if_pos ⟨hc, (hpq hc).mpr hq⟩, if_pos ⟨hc, hq⟩, hxy hc hq]
    · rw [if_neg fun h => hq ((hpq hc).mp h.2), if_neg fun h => hq h.2]
  · rw [if_neg fun h => hc h.1, if_neg fun h => hc h.1]

/-- The bytes of earlier frames that follow a complete request in the buffer have no effect. -/
theorem Device.respond_append (hpdu : Complete pdu) (stale : List UInt8) :
    d.respond pdu.length (pdu ++ stale) = d.respond pdu.length pdu := by
  have hcode : byteAt (pdu ++ stale) 0 = byteAt pdu 0 := byteAt_append stale (List.length_pos_of_ne_nil hpdu.ne_nil)
  have hbyte : ∀ {i}, i < pdu.length → byteAt (pdu ++ stale) i = byteAt pdu i := byteAt_append stale
  have hshort : ∀ {i}, i + 1 < pdu.length → shortAt (pdu ++ stale) i = shortAt pdu i := shortAt_append stale
  have hbits : d.readBits pdu.length (pdu ++ stale) = d.readBits pdu.length pdu :=
    ite_and_congr (fun hlen => by rw [hshort (by omega)]) fun _ _ => rfl
  rw [respond, respond, hcode]
  split
  case h_1 => exact hbits
  case h_2 => exact hbits
  case h_3 =>
    exact ite_and_congr (fun hlen => by rw [hbyte (by omega)])
      fun hlen _ => by rw [hshort (by omega), hbyte (by omega)]
  case h_4 =>
    exact ite_and_congr (fun hlen => by rw [hshort (by omega)])
      fun hlen _ => by rw [hshort (by omega), hshort (by omega)]
  case h_5 => exact ite_and_congr (fun hlen => by rw [hbyte (by omega), hbyte (by omega)]) fun _ _ => rfl
  case h_6 =>
    rw [writeRegister, writeRegister]
    split
    case isTrue hlen =>
      rw [hshort (by omega), valuesAt_append stale (by omega), List.take_append_of_le_length (Nat.le_refl _)]
    case isFalse => rfl
  case h_7 => exact ite_and_congr (fun hlen => by rw [hshort (by omega), hbyte (by omega)]) fun _ _ => rfl
  case h_8 h =>
    refine ite_and_congr (fun hlen => by rw [WriteChecks, hshort (by omega), hbyte (by omega)]) fun hlen hchecks => ?_
    have hvalues := hpdu.write h hlen hchecks
    rw [hshort (by omega), hshort (by omega), valuesAt_append stale (by omega), List.take_append_of_le_length
      (by omega)]
  case h_9 => rfl
  case h_10 h =>
    rw [readWriteRegisters, readWriteRegisters, List.take_append_of_le_length (Nat.le_refl _)]
    by_cases hlen : pdu.length < 10
    · rw [if_pos hlen, if_pos hlen]
    · have hsame : ReadWriteChecks (pdu ++ stale) ↔ ReadWriteChecks pdu := by
        rw [ReadWriteChecks, hshort (by omega), hshort (by omega), hbyte (by omega)]
      rw [if_neg hlen, if_neg hlen]
      by_cases hchecks : ReadWriteChecks pdu
      · have hvalues := hpdu.readWrite h (Nat.not_lt.mp hlen) hchecks
        rw [if_pos (hsame.mpr hchecks), if_pos hchecks, hshort (by omega), hshort (by omega), hshort (by omega),
          hshort (by omega), valuesAt_append stale (by omega)]
      · rw [if_neg (mt hsame.mp hchecks), if_neg hchecks]
  case h_11 => rfl

end Stale

/-- The PDU that is sent for a response. -/
def Reply.pdu (code : UInt8) : Reply → List UInt8
  | .ok pdu => pdu
  | .error e => [code ||| 128, e.code]

section Frames

/-- A frame of the protocol on TCP. -/
def adu (tid : UInt16) (uid : UInt8) (pdu : List UInt8) : List UInt8 :=
  bytes tid ++ 0 :: 0 :: bytes (.ofNat (pdu.length + 1)) ++ uid :: pdu

/-- A request that fits a frame. -/
structure Request where
  tid : UInt16
  uid : UInt8
  pdu : List UInt8
  complete : Complete pdu
  room : pdu.length ≤ 256

namespace Request

def frame (r : Request) : List UInt8 := adu r.tid r.uid r.pdu

/-- The frame that answers a request, and the device after it. -/
def serve (d : Device) (r : Request) : List UInt8 × Device :=
  (adu r.tid r.uid ((d.respond r.pdu.length r.pdu).1.pdu (byteAt r.pdu 0)), (d.respond r.pdu.length r.pdu).2)

/-- All that is sent for some requests, and the device after them. -/
def serveAll (d : Device) : List Request → List UInt8 × Device
  | [] => ([], d)
  | r :: rs => ((r.serve d).1 ++ (serveAll (r.serve d).2 rs).1, (serveAll (r.serve d).2 rs).2)

end Request

/-- A client that sends some requests, and perhaps the beginning of another one. Calls of `send` for it fail at most as
often as one response can wait. -/
structure Session where
  requests : List Request
  cut : List UInt8
  sizes : List Nat
  sends : List (Option Nat)
  patient : sends.count none * MB_TCP_READ_CYCLE ≤ MB_TCP_READ_TIMEOUT
  incomplete : ∃ (r : Request) (more : List UInt8), more ≠ [] ∧ cut ++ more = r.frame

namespace Session

def stream (c : Session) : List UInt8 := c.requests.flatMap Request.frame ++ c.cut

def client (c : Session) : Client := ⟨c.stream, c.sizes, ⟨[], c.sends⟩⟩

/-- What is sent to each of the clients, and the device in the end. -/
def serveAll (d : Device) : List Session → List (List UInt8) × Device
  | [] => ([], d)
  | c :: cs =>
    ((Request.serveAll d c.requests).1 :: (serveAll (Request.serveAll d c.requests).2 cs).1,
      (serveAll (Request.serveAll d c.requests).2 cs).2)

/-- The calls of `eMBPoll` for some clients: three for a request, one in which the client's leaving is noticed. -/
def pollsFor : List Session → Nat
  | [] => 0
  | c :: cs => 3 * c.requests.length + 1 + pollsFor cs

end Session

end Frames

end basic_data_struct.freemodbus
