import BasicDataStruct.Machine.Exec
import BasicDataStruct.Memory.Slice

open machine machine.Exec memory

namespace basic_data_struct.freemodbus

abbrev MB_TCP_PID : Nat := 2
abbrev MB_TCP_LEN : Nat := 4
abbrev MB_TCP_UID : Nat := 6
abbrev MB_TCP_FUNC : Nat := 7
abbrev MB_TCP_BUF_SIZE : Nat := 256 + 7
abbrev MB_FUNC_OTHER_REP_SLAVEID_BUF : Nat := 32
abbrev MB_TCP_READ_TIMEOUT : Nat := 1000
abbrev MB_TCP_READ_CYCLE : Nat := 100

abbrev REG_INPUT_START : Nat := 1000
abbrev REG_INPUT_NREGS : Nat := 4
abbrev REG_HOLDING_START : Nat := 2000
abbrev REG_HOLDING_NREGS : Nat := 130

inductive eMBErrorCode where
  | MB_ENOERR
  | MB_ENOREG
  | MB_EINVAL
  | MB_EPORTERR
  | MB_ENORES
  | MB_EIO
  | MB_EILLSTATE
  | MB_ETIMEDOUT
deriving DecidableEq

inductive eMBException where
  | MB_EX_NONE
  | MB_EX_ILLEGAL_FUNCTION
  | MB_EX_ILLEGAL_DATA_ADDRESS
  | MB_EX_ILLEGAL_DATA_VALUE
  | MB_EX_SLAVE_DEVICE_FAILURE
  | MB_EX_SLAVE_BUSY
deriving DecidableEq

def eMBException.code : eMBException → UInt8
  | .MB_EX_NONE => 0
  | .MB_EX_ILLEGAL_FUNCTION => 1
  | .MB_EX_ILLEGAL_DATA_ADDRESS => 2
  | .MB_EX_ILLEGAL_DATA_VALUE => 3
  | .MB_EX_SLAVE_DEVICE_FAILURE => 4
  | .MB_EX_SLAVE_BUSY => 6

inductive eMBRegisterMode where
  | MB_REG_READ
  | MB_REG_WRITE

/-- The events that the TCP port posts. -/
inductive eMBEventType where
  | EV_FRAME_RECEIVED
  | EV_EXECUTE
deriving DecidableEq

def prveMBError2Exception : eMBErrorCode → eMBException
  | .MB_ENOERR => .MB_EX_NONE
  | .MB_ENOREG => .MB_EX_ILLEGAL_DATA_ADDRESS
  | .MB_ETIMEDOUT => .MB_EX_SLAVE_BUSY
  | _ => .MB_EX_SLAVE_DEVICE_FAILURE

/-- What has been sent to a client, and what the next calls of `send` do: fail with -1, or take a number of bytes. Calls
beyond them take all that they are given. -/
structure Outbound where
  sent : List UInt8
  sends : List (Option Nat)

/-- A client: the bytes that it has still to send before it closes the connection, how many of them each call of `recv`
finds, and what goes out to it. -/
structure Client where
  stream : List UInt8
  sizes : List Nat
  out : Outbound

/-- `ucMBSlaveID` up to `usMBSlaveIDLen`. -/
structure SlaveID where
  bytes : List UInt8
  room : bytes.length < MB_FUNC_OTHER_REP_SLAVEID_BUF

/-- The static variables of the stack, of the port and of the demo, the clients that are still to connect, and what has
been sent to those that have left. `ucMBFrame` always points to the function code in `aucTCPBuf`. -/
structure Slave where
  aucTCPBuf : Nat → UInt8
  usTCPBufPos : Nat
  usTCPFrameBytesLeft : Nat
  xClientSocket : Option Client
  eQueuedEvent : Option eMBEventType
  usLength : Nat
  ucMBSlaveID : SlaveID
  usRegInputBuf : Nat → UInt16
  usRegHoldingBuf : Nat → UInt16
  waiting : List Client
  finished : List (List UInt8)

/-- The static variables when the program starts. -/
def Slave.start (waiting : List Client) : Slave where
  aucTCPBuf _ := 0
  usTCPBufPos := 0
  usTCPFrameBytesLeft := 0
  xClientSocket := none
  eQueuedEvent := none
  usLength := 0
  ucMBSlaveID := ⟨[], by decide⟩
  usRegInputBuf _ := 0
  usRegHoldingBuf _ := 0
  waiting := waiting
  finished := []

abbrev Prog := Exec Slave

def ushort (hi lo : UInt8) : UInt16 := hi.toUInt16 <<< 8 ||| lo.toUInt16

/-- `pucFrame[i]` -/
def readFrame (i : Nat) : Prog UInt8 := do
  inBounds (MB_TCP_FUNC + i) MB_TCP_BUF_SIZE
  return (← get).aucTCPBuf (MB_TCP_FUNC + i)

def writeFrame (i : Nat) (b : UInt8) : Prog Unit := do
  inBounds (MB_TCP_FUNC + i) MB_TCP_BUF_SIZE
  modify fun s => { s with aucTCPBuf := Function.update s.aucTCPBuf (MB_TCP_FUNC + i) b }

def readShort (i : Nat) : Prog UInt16 := do
  let hi ← readFrame i
  let lo ← readFrame (i + 1)
  return ushort hi lo

/-- The loop that passes the values of registers to the stack. -/
def loadRegs (nregs : Nat) (regs : Slave → Nat → UInt16) : (usNRegs iRegIndex cur : Nat) → Prog Unit
  | 0, _, _ => return ()
  | usNRegs + 1, iRegIndex, cur => do
    inBounds iRegIndex nregs
    let value := regs (← get) iRegIndex
    writeFrame cur (value >>> 8).toUInt8
    writeFrame (cur + 1) (value &&& 0xFF).toUInt8
    loadRegs nregs regs usNRegs (iRegIndex + 1) (cur + 2)

/-- The loop that updates the holding registers. -/
def storeRegs : (usNRegs iRegIndex cur : Nat) → Prog Unit
  | 0, _, _ => return ()
  | usNRegs + 1, iRegIndex, cur => do
    inBounds iRegIndex REG_HOLDING_NREGS
    let hi ← readFrame cur
    modify fun s => { s with usRegHoldingBuf := Function.update s.usRegHoldingBuf iRegIndex (hi.toUInt16 <<< 8) }
    let lo ← readFrame (cur + 1)
    modify fun s => { s with
      usRegHoldingBuf := Function.update s.usRegHoldingBuf iRegIndex (s.usRegHoldingBuf iRegIndex ||| lo.toUInt16) }
    storeRegs usNRegs (iRegIndex + 1) (cur + 2)

/-- The callbacks of the demo. `cur` is the place of `pucRegBuffer` in the frame. -/
def eMBRegInputCB (cur : Nat) (usAddress usNRegs : UInt16) : Prog eMBErrorCode :=
  if REG_INPUT_START ≤ usAddress.toNat ∧ usAddress.toNat + usNRegs.toNat ≤ REG_INPUT_START + REG_INPUT_NREGS then do
    loadRegs REG_INPUT_NREGS Slave.usRegInputBuf usNRegs.toNat (usAddress.toNat - REG_INPUT_START) cur
    return .MB_ENOERR
  else return .MB_ENOREG

def eMBRegHoldingCB (cur : Nat) (usAddress usNRegs : UInt16) (eMode : eMBRegisterMode) : Prog eMBErrorCode :=
  if REG_HOLDING_START ≤ usAddress.toNat ∧ usAddress.toNat + usNRegs.toNat ≤
      REG_HOLDING_START + REG_HOLDING_NREGS then do
    let iRegIndex := usAddress.toNat - REG_HOLDING_START
    match eMode with
    | .MB_REG_READ => loadRegs REG_HOLDING_NREGS Slave.usRegHoldingBuf usNRegs.toNat iRegIndex cur
    | .MB_REG_WRITE => storeRegs usNRegs.toNat iRegIndex cur
    return .MB_ENOERR
  else return .MB_ENOREG

/-- The demo has no coils and no discrete inputs. -/
def eMBRegCoilsCB (_usAddress _usNCoils : UInt16) (_eMode : eMBRegisterMode) : Prog eMBErrorCode := return .MB_ENOREG

def eMBRegDiscreteCB (_usAddress _usNDiscrete : UInt16) : Prog eMBErrorCode := return .MB_ENOREG

/-- A function handler gets the length of the PDU and gives that of the response. -/
abbrev Handler := Nat → Prog (eMBException × Nat)

/-- `memcpy` to the frame. -/
def copyFrame : Nat → List UInt8 → Prog Unit
  | _, [] => return ()
  | cur, b :: bs => do
    writeFrame cur b
    copyFrame (cur + 1) bs

def eMBFuncReportSlaveID : Handler := fun _ => do
  let id := (← get).ucMBSlaveID.bytes
  copyFrame 1 id
  return (.MB_EX_NONE, 1 + id.length)

/-- The end of the handlers that read: the response begins with the function code and the number of bytes. -/
def readReply (code : UInt8) (nBytes : Nat) (callback : Nat → Prog eMBErrorCode) : Prog (eMBException × Nat) := do
  writeFrame 0 code
  writeFrame 1 (.ofNat nBytes)
  let eRegStatus ← callback 2
  if eRegStatus ≠ .MB_ENOERR then return (prveMBError2Exception eRegStatus, 2) else return (.MB_EX_NONE, 2 + nBytes)

def eMBFuncReadInputRegister : Handler := fun usLen =>
  if usLen = 4 + 1 then do
    let usRegAddress := (← readShort 1) + 1
    let usRegCount ← readShort 3
    -- The last of the 125 registers that the protocol allows is not allowed here.
    if 1 ≤ usRegCount ∧ usRegCount < 0x7D then
      readReply 4 (usRegCount.toNat * 2) fun cur => eMBRegInputCB cur usRegAddress usRegCount
    else return (.MB_EX_ILLEGAL_DATA_VALUE, usLen)
  else return (.MB_EX_ILLEGAL_DATA_VALUE, usLen)

def eMBFuncReadHoldingRegister : Handler := fun usLen =>
  if usLen = 4 + 1 then do
    let usRegAddress := (← readShort 1) + 1
    -- The second byte is assigned, not added, so that the first one is lost.
    let _ ← readFrame 3
    let usRegCount := (← readFrame 4).toUInt16
    if 1 ≤ usRegCount ∧ usRegCount ≤ 0x7D then
      readReply 3 (usRegCount.toNat * 2) fun cur => eMBRegHoldingCB cur usRegAddress usRegCount .MB_REG_READ
    else return (.MB_EX_ILLEGAL_DATA_VALUE, usLen)
  else return (.MB_EX_ILLEGAL_DATA_VALUE, usLen)

def eMBFuncWriteHoldingRegister : Handler := fun usLen =>
  if usLen = 4 + 1 then do
    let usRegAddress := (← readShort 1) + 1
    let eRegStatus ← eMBRegHoldingCB 3 usRegAddress 1 .MB_REG_WRITE
    return (prveMBError2Exception eRegStatus, usLen)
  else return (.MB_EX_ILLEGAL_DATA_VALUE, usLen)

/-- That the frame has as many bytes as the values take is not checked. -/
def eMBFuncWriteMultipleHoldingRegister : Handler := fun usLen =>
  if 5 + 1 ≤ usLen then do
    let usRegAddress := (← readShort 1) + 1
    let usRegCount ← readShort 3
    let ucRegByteCount ← readFrame 5
    if 1 ≤ usRegCount ∧ usRegCount ≤ 0x78 ∧ ucRegByteCount = (2 * usRegCount).toUInt8 then
      let eRegStatus ← eMBRegHoldingCB 6 usRegAddress usRegCount .MB_REG_WRITE
      if eRegStatus ≠ .MB_ENOERR then return (prveMBError2Exception eRegStatus, usLen) else return (.MB_EX_NONE, 5)
    else return (.MB_EX_ILLEGAL_DATA_VALUE, usLen)
  else return (.MB_EX_ILLEGAL_DATA_VALUE, usLen)

/-- A frame that is too short is answered as it is. -/
def eMBFuncReadWriteMultipleHoldingRegister : Handler := fun usLen =>
  if 9 + 1 ≤ usLen then do
    let usRegReadAddress := (← readShort 1) + 1
    let usRegReadCount ← readShort 3
    let usRegWriteAddress := (← readShort 5) + 1
    let usRegWriteCount ← readShort 7
    let ucRegWriteByteCount ← readFrame 9
    if 1 ≤ usRegReadCount ∧ usRegReadCount ≤ 0x7D ∧ 1 ≤ usRegWriteCount ∧ usRegWriteCount ≤ 0x79 ∧
        2 * usRegWriteCount.toNat = ucRegWriteByteCount.toNat then
      let eRegStatus ← eMBRegHoldingCB 10 usRegWriteAddress usRegWriteCount .MB_REG_WRITE
      if eRegStatus = .MB_ENOERR then
        readReply 23 (usRegReadCount.toNat * 2) fun cur =>
        eMBRegHoldingCB cur usRegReadAddress usRegReadCount .MB_REG_READ
      else return (prveMBError2Exception eRegStatus, usLen)
    else return (.MB_EX_ILLEGAL_DATA_VALUE, usLen)
  else return (.MB_EX_NONE, usLen)

/-- The number of bytes for so many bits. -/
def bitBytes (count : UInt16) : UInt8 :=
  if count &&& 0x0007 ≠ 0 then (count / 8 + 1).toUInt8 else (count / 8).toUInt8

/-- `eMBFuncReadCoils` and `eMBFuncReadDiscreteInputs` differ in the function code and the callback. -/
def readBits (code : UInt8) (callback : UInt16 → UInt16 → Prog eMBErrorCode) : Handler := fun usLen =>
  if usLen = 4 + 1 then do
    let usRegAddress := (← readShort 1) + 1
    let count ← readShort 3
    if 1 ≤ count ∧ count < 0x07D0 then
      readReply code (bitBytes count).toNat fun _ => callback usRegAddress count
    else return (.MB_EX_ILLEGAL_DATA_VALUE, usLen)
  else return (.MB_EX_ILLEGAL_DATA_VALUE, usLen)

def eMBFuncReadCoils : Handler := readBits 1 fun address count => eMBRegCoilsCB address count .MB_REG_READ

def eMBFuncReadDiscreteInputs : Handler := readBits 2 eMBRegDiscreteCB

def eMBFuncWriteCoil : Handler := fun usLen =>
  if usLen = 4 + 1 then do
    let usRegAddress := (← readShort 1) + 1
    let hi ← readFrame 3
    let lo ← readFrame 4
    if lo = 0 ∧ (hi = 0xFF ∨ hi = 0) then
      let eRegStatus ← eMBRegCoilsCB usRegAddress 1 .MB_REG_WRITE
      return (prveMBError2Exception eRegStatus, usLen)
    else return (.MB_EX_ILLEGAL_DATA_VALUE, usLen)
  else return (.MB_EX_ILLEGAL_DATA_VALUE, usLen)

def eMBFuncWriteMultipleCoils : Handler := fun usLen =>
  if 4 + 1 < usLen then do
    let usRegAddress := (← readShort 1) + 1
    let usCoilCnt ← readShort 3
    let ucByteCount ← readFrame 5
    if 1 ≤ usCoilCnt ∧ usCoilCnt ≤ 0x07B0 ∧ bitBytes usCoilCnt = ucByteCount then
      let eRegStatus ← eMBRegCoilsCB usRegAddress usCoilCnt .MB_REG_WRITE
      if eRegStatus ≠ .MB_ENOERR then return (prveMBError2Exception eRegStatus, usLen) else return (.MB_EX_NONE, 5)
    else return (.MB_EX_ILLEGAL_DATA_VALUE, usLen)
  else return (.MB_EX_ILLEGAL_DATA_VALUE, usLen)

/-- The entries with a handler. In the table others follow, with the function code 0. -/
def xFuncHandlers : List (UInt8 × Handler) :=
  [(17, eMBFuncReportSlaveID), (4, eMBFuncReadInputRegister), (3, eMBFuncReadHoldingRegister),
    (16, eMBFuncWriteMultipleHoldingRegister), (6, eMBFuncWriteHoldingRegister),
    (23, eMBFuncReadWriteMultipleHoldingRegister), (1, eMBFuncReadCoils), (5, eMBFuncWriteCoil),
    (15, eMBFuncWriteMultipleCoils), (2, eMBFuncReadDiscreteInputs)]

/-- The search of `eMBPoll` for a handler, and its call. -/
def execute (ucFunctionCode : UInt8) : List (UInt8 × Handler) → Handler
  | [], usLen => return (.MB_EX_ILLEGAL_FUNCTION, usLen)
  | (code, pxHandler) :: handlers, usLen =>
    if code = 0 then return (.MB_EX_ILLEGAL_FUNCTION, usLen)
    else if code = ucFunctionCode then pxHandler usLen
    else execute ucFunctionCode handlers usLen

def xMBPortEventPost (eEvent : eMBEventType) : Prog Unit := modify fun s => { s with eQueuedEvent := some eEvent }

/-- The loop of `xMBTCPPortSendResponse` on the bytes that are left. A `send` that does not fail takes at least one of
them, as on every stream socket, so that the case 0 of the source does not come up. -/
def sendLoop : (iTimeOut : Nat) → (rest sent : List UInt8) → (sends : List (Option Nat)) → Outbound
  | _, rest, sent, [] => ⟨sent ++ rest, []⟩
  | iTimeOut, rest, sent, none :: sends =>
    if 0 < iTimeOut then sendLoop (iTimeOut - MB_TCP_READ_CYCLE) rest sent sends else ⟨sent, sends⟩
  | iTimeOut, rest, sent, some n :: sends =>
    let res := max 1 n
    if rest.length ≤ res then ⟨sent ++ rest, sends⟩
    else sendLoop iTimeOut (rest.drop res) (sent ++ rest.take res) sends

def xMBTCPPortSendResponse (pucMBTCPFrame : List UInt8) (out : Outbound) : Outbound :=
  sendLoop MB_TCP_READ_TIMEOUT pucMBTCPFrame out.sent out.sends

def eMBTCPSend (usLength : Nat) : Prog Unit := do
  modify fun s => { s with
    aucTCPBuf := fill s.aucTCPBuf MB_TCP_LEN [.ofNat ((usLength + 1) / 256), .ofNat ((usLength + 1) % 256)] }
  inBounds (usLength + MB_TCP_FUNC - 1) MB_TCP_BUF_SIZE
  modify fun s => { s with
    xClientSocket := s.xClientSocket.map fun client =>
      { client with out := xMBTCPPortSendResponse (slice s.aucTCPBuf 0 (usLength + MB_TCP_FUNC)) client.out } }

/-- The frame is received: `eMBTCPReceive`, which hands it on if its protocol identifier is 0. The address that it makes
up is that of the slave. -/
def eMBTCPReceive : Prog Unit := do
  let s ← get
  modify fun s => { s with usTCPBufPos := 0, usTCPFrameBytesLeft := MB_TCP_FUNC }
  if ushort (s.aucTCPBuf MB_TCP_PID) (s.aucTCPBuf (MB_TCP_PID + 1)) = 0 then
    modify fun s' => { s' with usLength := s.usTCPBufPos - MB_TCP_FUNC }
    xMBPortEventPost .EV_EXECUTE

/-- The request is executed and answered. -/
def onExecute : Prog Unit := do
  let ucFunctionCode ← readFrame 0
  let (eException, usLength) ← execute ucFunctionCode xFuncHandlers (← get).usLength
  if eException ≠ .MB_EX_NONE then
    writeFrame 0 (ucFunctionCode ||| 128)
    writeFrame 1 eException.code
    eMBTCPSend 2
  else eMBTCPSend usLength

/-- `recv( xClientSocket, &aucTCPBuf[usTCPBufPos], usTCPFrameBytesLeft, 0 )` -/
def Client.recv (client : Client) (usTCPFrameBytesLeft : Nat) : List UInt8 × Client :=
  let n := min (max 1 (client.sizes.headD 1)) usTCPFrameBytesLeft
  (client.stream.take n, { client with stream := client.stream.drop n, sizes := client.sizes.tail })

/-- `recv` has stored its bytes, and they are counted. -/
def store (data : List UInt8) (client : Client) : Prog Unit := do
  inBounds ((← get).usTCPBufPos + data.length - 1) MB_TCP_BUF_SIZE
  modify fun s => { s with
    aucTCPBuf := fill s.aucTCPBuf s.usTCPBufPos data
    usTCPBufPos := s.usTCPBufPos + data.length
    usTCPFrameBytesLeft := s.usTCPFrameBytesLeft - data.length
    xClientSocket := some client }

/-- Once the header is there it gives the length of the frame. Where the frame is not complete, the loop goes on. -/
def checkFrame (again : Prog Unit) : Prog Unit := do
  let s ← get
  if MB_TCP_FUNC ≤ s.usTCPBufPos then
    let usLength := (ushort (s.aucTCPBuf MB_TCP_LEN) (s.aucTCPBuf (MB_TCP_LEN + 1))).toNat
    if s.usTCPBufPos < MB_TCP_UID + usLength then
      modify fun s => { s with usTCPFrameBytesLeft := usLength + MB_TCP_UID - s.usTCPBufPos }
      again
    else if s.usTCPBufPos = MB_TCP_UID + usLength then xMBPortEventPost .EV_FRAME_RECEIVED
    else fail (.exit "Assertion usTCPBufPos <= ( MB_TCP_UID + usLength ) failed" 134)
  else again

/-- The loop of `xMBPortTCPPool`. No bytes mean that the client has closed the connection. -/
def receive : (fuel : Nat) → Prog Unit
  | 0 => fail .fuel
  | fuel + 1 => do
    let s ← get
    match s.xClientSocket with
    | none => return ()
    | some client =>
      let (data, client) := client.recv s.usTCPFrameBytesLeft
      if data = [] then
        modify fun s => { s with xClientSocket := none, finished := s.finished ++ [client.out.sent] }
      else
        store data client
        checkFrame (receive fuel)

/-- The next client is accepted if there is none, and then a frame received. Where no client comes, `select` waits. -/
def xMBPortTCPPool (fuel : Nat) : Prog Unit := do
  let s ← get
  match s.xClientSocket, s.waiting with
  | some _, _ => receive fuel
  | none, [] => return ()
  | none, client :: waiting =>
    modify fun s => { s with
      xClientSocket := some client, waiting := waiting, usTCPBufPos := 0, usTCPFrameBytesLeft := MB_TCP_FUNC }
    receive fuel

def eMBPoll (fuel : Nat) : Prog Unit := do
  match (← get).eQueuedEvent with
  | none => xMBPortTCPPool fuel
  | some eEvent =>
    modify fun s => { s with eQueuedEvent := none }
    match eEvent with
    | .EV_FRAME_RECEIVED => eMBTCPReceive
    | .EV_EXECUTE => onExecute

/-- The loop of `pvPollingThread`. -/
def polls (fuel : Nat) : (n : Nat) → Prog Unit
  | 0 => return ()
  | n + 1 => do
    eMBPoll fuel
    polls fuel n

end basic_data_struct.freemodbus
