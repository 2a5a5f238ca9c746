import BasicDataStruct.Telnet.Options

open machine machine.Exec

namespace basic_data_struct.telnet

abbrev KSREMOTE : Nat := 0

abbrev KSLOCAL : Nat := 1

abbrev KSCOLLECT : Nat := 2

abbrev NKSTATES : Nat := 3

abbrev KCESCAPE : UInt8 := 0o35

abbrev KCDCON : UInt8 := 46

abbrev KCSUSP : UInt8 := 0o32

abbrev KCSCRIPT : UInt8 := 115

abbrev KCUNSCRIPT : UInt8 := 117

abbrev KCSTATUS : UInt8 := 0o24

abbrev KCNL : UInt8 := 10

abbrev TCIP : UInt8 := 244

abbrev TCAO : UInt8 := 245

abbrev TCEC : UInt8 := 247

abbrev TCEL : UInt8 := 248

/-- The size of the buffer for the name of the script file. -/
abbrev SFBUFSZ : Nat := 2048

/-- A character of the keyboard that the network virtual terminal has a command for. -/
def nvt_key (s : Client) (c : UInt8) : Prog Unit :=
  if c.toInt8 = s.t_intrc ∨ c.toInt8 = s.t_quitc then sputs [TCIAC, TCIP]
  else if c.toInt8 = s.sg_erase then sputs [TCIAC, TCEC]
  else if c.toInt8 = s.sg_kill then sputs [TCIAC, TCEL]
  else if c.toInt8 = s.t_flushc then sputs [TCIAC, TCAO]
  else sputc c

def soputc : Action := fun c => do
  let s ← get
  if s.flags .sndbinary ≠ 0 then
    if c = TCIAC then sputc TCIAC else pure ()
    sputc c
    return 0
  else
    nvt_key s (c &&& 0x7f)
    return 0

/-- The characters of a C string in an array. -/
def cstring (text : Nat → UInt8) (size : Nat) : List UInt8 := ((List.range size).map text).takeWhile (· ≠ 0)

/-- The name of the script file, as `%s` prints it. -/
def Client.scriptName (s : Client) : List UInt8 := cstring s.scrname SFBUFSZ

/-- The terminal settings while a file name is typed. -/
def collect_settings (tio : termios) : termios :=
  ((tio.setCc VINTR POSIX_VDISABLE).setCc VQUIT POSIX_VDISABLE).setCc VSUSP POSIX_VDISABLE

/-- `if (tcgetattr(0, &t) < 0) errexit("can't get tty modes: %s\n", strerror(errno));` -/
def getModes (env : Env) : Prog termios := do
  match ← tcgetattr env 0 with
  | some tio => return tio
  | none => errexitErrno env "can't get tty modes: "

/-- `if (tcsetattr(0, TCSADRAIN, &t) < 0) errexit(...)` -/
def setModes (env : Env) (text : String) (tio : termios) : Prog Unit := do
  let ok ← tcsetattr env 0 tio
  if ok then return () else errexitErrno env text

def scrinit (env : Env) : Action := fun _ => do
  let s ← get
  if s.flags .doecho = 0 then
    tprint (bytes "\nscripting requires remote ECHO.\n")
    return -1
  else if s.scrfp.isSome then
    tprint (bytes "\nalready scripting to \"" ++ s.scriptName ++ bytes "\".\n")
    return -1
  else
    modify fun s => { s with scrindex := 0 }
    let tio ← getModes env
    modify fun s => { s with tntty := tio }
    setModes env "can't set tty modes: " (collect_settings s.oldtty)
    tprint (bytes "\nscript file: ")
    return 0

/-- `scrname[i] = c` -/
def setScrname (i : Nat) (c : UInt8) : Prog Unit := do
  inBounds i SFBUFSZ
  modify fun s => { s with scrname := Function.update s.scrname i c }

def scrgetc (env : Env) : Action := fun c => do
  let s ← get
  setScrname s.scrindex c
  modify fun s => { s with scrindex := s.scrindex + 1 }
  if SFBUFSZ ≤ s.scrindex + 1 then
    tprint (bytes "\nname too long\n")
    setModes env "tcsetattr: " s.oldtty
    return -1
  else return 0

/-- The name is complete: open the script file. -/
def open_script (env : Env) : Prog Unit := do
  let s ← get
  setScrname s.scrindex 0
  modify fun s => { s with scrindex := 0 }
  let s ← get
  let n ← call
  if env.openScript n < 0 then
    tprint (bytes "\ncan't write \"" ++ s.scriptName ++ bytes "\": " ++ bytes (env.strerror n) ++ bytes "\n")
  else
    let n ← call
    modify fun s => { s with scrfp := if env.fdopen n then some [] else none }

def scrwrap (env : Env) : Action := fun _ => do
  let s ← get
  if s.scrindex ≠ 0 then open_script env else pure ()
  let s ← get
  setModes env "tcsetattr: " s.tntty
  return 0

def unscript (env : Env) : Action := fun _ => do
  let s ← get
  if s.scrfp = none then
    tprint (bytes "\nNot scripting.\n")
    return 0
  else
    let n ← call
    match env.fstat n with
    | some size => tprint (bytes "\n\"" ++ s.scriptName ++ bytes "\": " ++ bytes (toString size) ++ bytes " bytes.\n")
    | none => pure ()
    modify fun s => { s with scrfp := none }
    return 0

def dcon (env : Env) : Action := fun _ => do
  tprint (bytes "disconnecting.\n")
  let s ← get
  let _ ← tcsetattr env 0 s.oldtty
  fail (.exit "" 0)

def suspend (env : Env) : Action := fun _ => do
  let tio ← getModes env
  modify fun s => { s with tntty := tio }
  let s ← get
  setModes env "can't set tty modes: " s.oldtty
  let n ← call
  modify fun s => { s with tty := Function.update s.tty (env.terminal 0) (env.resumed n (s.tty (env.terminal 0))) }
  let tio ← getModes env
  modify fun s => { s with oldtty := tio }
  let s ← get
  setModes env "can't set tty modes: " s.tntty
  return 0

/-- The part of `status` about one end of the connection. -/
def print_port (text : String) (port : Option Nat) : Prog Unit :=
  match port with
  | some port => tprint (bytes text ++ bytes (toString port) ++ bytes " ")
  | none => return ()

/-- The part of `status` about the options. Its heading goes to `stdout`. -/
def print_options : Prog Unit := do
  let s ← get
  if s.flags .doecho ≠ 0 ∨ s.flags .sndbinary ≠ 0 ∨ s.flags .rcvbinary ≠ 0 then
    modify fun s => { s with stdout := s.stdout ++ bytes "options in effect: " }
    tprint (if s.flags .doecho ≠ 0 then bytes "remote_echo " else [])
    tprint (if s.flags .sndbinary ≠ 0 then bytes "send_binary " else [])
    tprint (if s.flags .rcvbinary ≠ 0 then bytes "receive_binary " else [])
    tprint (bytes "\n")
  else return ()

def status (env : Env) : Action := fun _ => do
  tprint (bytes "\nconnected to \"" ++ env.host ++ bytes "\" ")
  let n ← call
  print_port "local port " (env.getsockname n)
  let n ← call
  print_port "remote port " (env.getpeername n)
  tprint (bytes "\n")
  print_options
  let s ← get
  tprint (if s.scrfp.isSome then bytes "scripting to file \"" ++ s.scriptName ++ bytes "\"\n" else [])
  return 0

def sonotsup : Action := fun c => do
  tprint (bytes "\nunsupported escape: " ++ [c] ++ bytes ".\n")
  tprint (bytes "s  - turn on scripting\t\t")
  tprint (bytes "u  - turn off scripting\n")
  tprint (bytes ".  - disconnect\t\t\t")
  tprint (bytes "^Z - suspend\n")
  tprint (bytes "^T - print status\n")
  return 0

/-- The rows of `sostab` before the invalid one. -/
def sorows (env : Env) : List (fsm_trans Action) := [
  onChar KSREMOTE KCESCAPE KSLOCAL no_op,
  onAny KSREMOTE KSREMOTE soputc,
  onChar KSLOCAL KCSCRIPT KSCOLLECT (scrinit env),
  onChar KSLOCAL KCUNSCRIPT KSREMOTE (unscript env),
  onChar KSLOCAL KCESCAPE KSREMOTE soputc,
  onChar KSLOCAL KCDCON KSREMOTE (dcon env),
  onChar KSLOCAL KCSUSP KSREMOTE (suspend env),
  onChar KSLOCAL KCSTATUS KSREMOTE (status env),
  onAny KSLOCAL KSREMOTE sonotsup,
  onChar KSCOLLECT KCNL KSREMOTE (scrwrap env),
  onAny KSCOLLECT KSCOLLECT (scrgetc env)]

def sostab (env : Env) : List (fsm_trans Action) := sorows env ++ [invalidRow]

/-- The loop body of `sowrite`. -/
def sowrite_body (env : Env) (c : UInt8) : Prog Unit := do
  let pt ← transition (·.fsms.sofsm) (·.sostate) NKSTATES (sostab env) c
  let result ← pt.ft_action c
  modify (·.setSostate (if result < 0 then KSREMOTE else pt.ft_next.toNat))

/-- The argument stands for the `cc` bytes of `buf`. -/
def sowrite (env : Env) (buf : List UInt8) : Prog Unit := eachByte (sowrite_body env) buf

end basic_data_struct.telnet
