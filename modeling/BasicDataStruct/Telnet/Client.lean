import BasicDataStruct.Telnet.Fsm

open machine machine.Exec

namespace basic_data_struct.telnet

/-- The settings of a terminal that the client reads or changes. -/
structure termios where
  c_lflag : UInt32
  c_cc : Nat → UInt8

/-- The bits of `c_lflag` and the indices into `c_cc` of `<termios.h>`. -/
abbrev ICANON : UInt32 := 2

abbrev ECHO : UInt32 := 8

abbrev VINTR : Nat := 0

abbrev VQUIT : Nat := 1

abbrev VTIME : Nat := 5

abbrev VMIN : Nat := 6

abbrev VSUSP : Nat := 10

abbrev POSIX_VDISABLE : UInt8 := 0

def termios.setCc (tio : termios) (i : Nat) (v : UInt8) : termios :=
  { tio with c_cc := Function.update tio.c_cc i v }

/-- What the system answers. The argument counts the calls, so that every answer
may differ from the one before. -/
structure Env where
  /-- The value of `getenv("TERM")`. -/
  getenv : Nat → Option (List UInt8)
  /-- Whether a call of `tcgetattr` or `tcsetattr` succeeds. -/
  ttyOk : Nat → Bool
  /-- The terminal a file descriptor is open on. -/
  terminal : Nat → Nat
  /-- The descriptor `fileno(tfp)`. -/
  tfd : Nat
  /-- The terminal settings after the process was stopped and continued. -/
  resumed : Nat → termios → termios
  tgetent : Nat → Int32
  tgetstr : Nat → String → Option (List UInt8)
  strerror : Nat → String
  /-- The results of `open` and `fdopen` for the script file. -/
  openScript : Nat → Int32
  fdopen : Nat → Bool
  /-- The size that `fstat` reports. -/
  fstat : Nat → Option Int
  getsockname : Nat → Option Nat
  getpeername : Nat → Option Nat
  host : List UInt8

/-- The options of the client. In the source each is a variable of its own, a
`char` or, for `noga`, an `int`. -/
inductive Flag where
  | doecho
  | noga
  | rcvbinary
  | sndbinary
  | termtype
deriving DecidableEq

/-- The compiled transition tables. -/
structure Fsms where
  ttfsm : Fsm
  sofsm : Fsm
  subfsm : Fsm

/-- The static variables of `tcout`. `bp` counts the bytes of `buf` that capabilities have
filled. -/
structure TcoutStatics where
  init : Bool
  term : Option (List UInt8)
  bp : Nat

/-- The variables of the client, static ones included, and what it has written to
the socket (`sfp`), to the terminal (`tfp`), to the script file and to `stdout`. -/
structure Client where
  fsms : Fsms
  ttstate : Nat
  sostate : Nat
  substate : Nat
  option_cmd : UInt8
  flags : Flag → Int8
  synching : Int8
  last_char : UInt8
  term : Option (List UInt8)
  savec : UInt8 × UInt8
  tcoutStatics : TcoutStatics
  t_flushc : Int8
  t_intrc : Int8
  t_quitc : Int8
  sg_erase : Int8
  sg_kill : Int8
  oldtty : termios
  tntty : termios
  tty : Nat → termios
  scrfp : Option (List UInt8)
  scrname : Nat → UInt8
  scrindex : Nat
  calls : Nat
  sfp : List UInt8
  tfp : List UInt8
  stdout : List UInt8

/-- A system on which every call succeeds and nothing is set. -/
def quietEnv : Env where
  getenv _ := none
  ttyOk _ := true
  terminal _ := 0
  tfd := 1
  resumed _ tio := tio
  tgetent _ := 0
  tgetstr _ _ := none
  strerror _ := ""
  openScript _ := 0
  fdopen _ := true
  fstat _ := none
  getsockname _ := none
  getpeername _ := none
  host := []

namespace Client

/-- A client whose variables other than the options are zero. -/
def zero (flags : Flag → Int8) : Client where
  fsms := ⟨fun _ _ => 0, fun _ _ => 0, fun _ _ => 0⟩
  ttstate := 0
  sostate := 0
  substate := 0
  option_cmd := 0
  flags := flags
  synching := 0
  last_char := 0
  term := none
  savec := (0, 0)
  tcoutStatics := ⟨false, none, 0⟩
  t_flushc := 0
  t_intrc := 0
  t_quitc := 0
  sg_erase := 0
  sg_kill := 0
  oldtty := ⟨0, fun _ => 0⟩
  tntty := ⟨0, fun _ => 0⟩
  tty _ := ⟨0, fun _ => 0⟩
  scrfp := none
  scrname _ := 0
  scrindex := 0
  calls := 0
  sfp := []
  tfp := []
  stdout := []

def setTtstate (s : Client) (ttstate : Nat) : Client := { s with ttstate := ttstate }

def setSostate (s : Client) (sostate : Nat) : Client := { s with sostate := sostate }

def setSubstate (s : Client) (substate : Nat) : Client := { s with substate := substate }

def setOptionCmd (s : Client) (option_cmd : UInt8) : Client := { s with option_cmd := option_cmd }

def setFlag (s : Client) (flag : Flag) (v : Int8) : Client := { s with flags := Function.update s.flags flag v }

/-- The client after `text` was written to the socket. -/
def sent (s : Client) (text : List UInt8) : Client := { s with sfp := s.sfp ++ text }

/-- The client after `text` was written to the terminal and the script file. -/
def shown (s : Client) (text : List UInt8) : Client :=
  { s with scrfp := s.scrfp.map (· ++ text), tfp := s.tfp ++ text }

end Client

abbrev Prog := Exec Client

/-- An action of a transition table. -/
abbrev Action := UInt8 → Prog Int32

/-- The characters of a text. -/
def bytes (text : String) : List UInt8 := text.toList.map fun ch => .ofNat ch.toNat

/-- `!x` -/
def lnot (x : Int8) : Int8 := if x = 0 then 1 else 0

/-- `putc(b, sfp)` -/
def sputc (b : UInt8) : Prog Unit := modify (·.sent [b])

/-- `fputs(text, sfp)` -/
def sputs (text : List UInt8) : Prog Unit := modify (·.sent text)

/-- `fprintf(tfp, ...)` -/
def tprint (text : List UInt8) : Prog Unit := modify fun s => { s with tfp := s.tfp ++ text }

/-- A text on a stream with optional file scripting. -/
def xfputs (text : List UInt8) : Prog Unit := modify (·.shown text)

def xputc (ch : UInt8) : Prog Unit := xfputs [ch]

/-- The number of the next call of the system. -/
def call : Prog Nat := ⟨fun s => .ok (s.calls, { s with calls := s.calls + 1 })⟩

def tcgetattr (env : Env) (fd : Nat) : Prog (Option termios) := do
  let n ← call
  let s ← get
  return if env.ttyOk n then some (s.tty (env.terminal fd)) else none

/-- Returns whether the call succeeds. -/
def tcsetattr (env : Env) (fd : Nat) (tio : termios) : Prog Bool := do
  let n ← call
  if env.ttyOk n then
    modify fun s => { s with tty := Function.update s.tty (env.terminal fd) tio }
    return true
  else return false

/-- `errexit(format, ...)` with its message formatted. -/
def errexit {α : Type} (message : String) : Prog α := fail (.exit message 1)

/-- `errexit` after a failed call, whose error is appended to the text. -/
def errexitErrno {α : Type} (env : Env) (text : String) : Prog α := do
  let n ← call
  errexit (text ++ env.strerror n ++ "\n")

/-- The row of a transition table for the next character. -/
def transition (fsm : Client → Fsm) (state : Client → Nat) (nstates : Nat) (ttab : List (fsm_trans Action))
    (c : UInt8) : Prog (fsm_trans Action) := do
  let s ← get
  inBounds (state s) nstates
  match ttab[(fsm s (state s) c.toNat).toNat]? with
  | some pt => return pt
  | none => fail .bounds

/-- `for (i=0; i<cc; ++i)` over the bytes of a buffer. -/
def eachByte (body : UInt8 → Prog Unit) : List UInt8 → Prog Unit
  | [] => return ()
  | c :: buf => do
    body c
    eachByte body buf

end basic_data_struct.telnet
