import BasicDataStruct.Telnet.Client

open machine machine.Exec

namespace basic_data_struct.telnet

abbrev TCSB : UInt8 := 250

abbrev TCSE : UInt8 := 240

abbrev TCNOP : UInt8 := 241

abbrev TCDM : UInt8 := 242

abbrev TCWILL : UInt8 := 251

abbrev TCWONT : UInt8 := 252

abbrev TCDO : UInt8 := 253

abbrev TCDONT : UInt8 := 254

abbrev TCIAC : UInt8 := 255

abbrev TOTXBINARY : UInt8 := 0

abbrev TOECHO : UInt8 := 1

abbrev TONOGA : UInt8 := 3

abbrev TOTERMTYPE : UInt8 := 24

abbrev TT_IS : UInt8 := 0

abbrev TT_SEND : UInt8 := 1

abbrev SS_START : Nat := 0

abbrev SS_TERMTYPE : Nat := 1

abbrev SS_END : Nat := 2

abbrev NSSTATES : Nat := 3

def no_op : Action := fun _ => return 0

def recopt : Action := fun c => do
  modify (·.setOptionCmd c)
  return 0

def tnabort : Action := fun _ => errexit "invalid state reached (aborting)\n"

/-- The tests at the start of every option handler: the flag is on and the
command asks for it, or it is off and the command refuses it. -/
def settled (s : Client) (flag : Flag) (ask refuse : UInt8) : Prop :=
  if s.flags flag ≠ 0 then s.option_cmd = ask else s.option_cmd = refuse

instance (s : Client) (flag : Flag) (ask refuse : UInt8) : Decidable (settled s flag ask refuse) :=
  inferInstanceAs (Decidable (if s.flags flag ≠ 0 then s.option_cmd = ask else s.option_cmd = refuse))

/-- `flag = !flag;` -/
def flip (flag : Flag) : Prog Unit := modify fun s => s.setFlag flag (lnot (s.flags flag))

/-- Three bytes to the socket. -/
def command (cmd c : UInt8) : Prog Unit := do
  sputc TCIAC
  sputc cmd
  sputc c

/-- The answer at the end of every option handler. -/
def answer (flag : Flag) (agree deny c : UInt8) : Prog Unit := do
  let s ← get
  command (if s.flags flag ≠ 0 then agree else deny) c

/-- The option handlers that only keep a flag. -/
def toggle (flag : Flag) (ask refuse agree deny : UInt8) : Action := fun c => do
  let s ← get
  if settled s flag ask refuse then return 0
  else
    flip flag
    answer flag agree deny c
    return 0

def do_noga : Action := toggle .noga TCWILL TCWONT TCDO TCDONT

def do_txbinary : Action := toggle .rcvbinary TCWILL TCWONT TCDO TCDONT

def will_txbinary : Action := toggle .sndbinary TCDO TCDONT TCWILL TCWONT

/-- The terminal settings of `do_echo`, and its assignments to `savec`. -/
def echo_settings (tio : termios) : Prog termios := do
  let s ← get
  if s.option_cmd = TCWILL then
    modify fun s => { s with savec := (tio.c_cc VMIN, tio.c_cc VTIME) }
    return ({ tio with c_lflag := tio.c_lflag &&& ~~~(ECHO ||| ICANON) }.setCc VMIN 1).setCc VTIME 0
  else
    return ({ tio with c_lflag := tio.c_lflag ||| (ECHO ||| ICANON) }.setCc VMIN s.savec.1).setCc VTIME s.savec.2

/-- The calls of `tcgetattr` and `tcsetattr` in `do_echo`. Returns `ok`. -/
def echo_mode (env : Env) : Prog Bool := do
  match ← tcgetattr env env.tfd with
  | some tio =>
    let tio ← echo_settings tio
    tcsetattr env env.tfd tio
  | none => return false

def do_echo (env : Env) : Action := fun c => do
  let s ← get
  if settled s .doecho TCWILL TCWONT then return 0
  else
    let ok ← echo_mode env
    if ok then flip .doecho else pure ()
    answer .doecho TCDO TCDONT c
    return 0

/-- `term || (term = getenv("TERM"))` -/
def find_term (env : Env) : Prog Bool := do
  let s ← get
  if s.term.isSome then return true
  else
    let n ← call
    modify fun s => { s with term := env.getenv n }
    return (env.getenv n).isSome

/-- `if (termtype) if (!term && !(term = getenv("TERM"))) termtype = !termtype;` -/
def check_term (env : Env) : Prog Unit := do
  let s ← get
  if s.flags .termtype ≠ 0 then
    let found ← find_term env
    if found then return () else flip .termtype
  else return ()

/-- The last lines of `will_termtype`: the binary data path in both directions. -/
def binary_path : Prog Unit := do
  modify (·.setOptionCmd TCWILL)
  let _ ← do_txbinary TOTXBINARY
  modify (·.setOptionCmd TCDO)
  let _ ← will_txbinary TOTXBINARY
  return ()

def will_termtype (env : Env) : Action := fun c => do
  let s ← get
  if settled s .termtype TCDO TCDONT then return 0
  else
    flip .termtype
    check_term env
    answer .termtype TCWILL TCWONT c
    let s ← get
    if s.flags .termtype ≠ 0 then binary_path else pure ()
    return 0

def do_notsup : Action := fun c => do
  command TCDONT c
  return 0

def will_notsup : Action := fun c => do
  command TCWONT c
  return 0

def subtermtype : Action := fun _ => do
  sputs [TCIAC, TCSB, TOTERMTYPE, TT_IS]
  let s ← get
  match s.term with
  | some term => sputs term
  | none => fail .null
  sputs [TCIAC, TCSE]
  return 0

/-- The rows of `substab` before the invalid one. -/
def subrows : List (fsm_trans Action) := [
  onChar SS_START TOTERMTYPE SS_TERMTYPE no_op,
  onAny SS_START SS_END no_op,
  onChar SS_TERMTYPE TT_SEND SS_END subtermtype,
  onAny SS_TERMTYPE SS_END no_op,
  onAny SS_END SS_END no_op]

/-- The row that ends every transition table. -/
def invalidRow : fsm_trans Action := ⟨FSINVALID, TCANY, FSINVALID, tnabort⟩

def substab : List (fsm_trans Action) := subrows ++ [invalidRow]

def subopt : Action := fun c => do
  let pt ← transition (·.fsms.subfsm) (·.substate) NSSTATES substab c
  let _ ← pt.ft_action c
  modify (·.setSubstate pt.ft_next.toNat)
  return 0

def subend : Action := fun _ => do
  modify (·.setSubstate SS_START)
  return 0

end basic_data_struct.telnet
