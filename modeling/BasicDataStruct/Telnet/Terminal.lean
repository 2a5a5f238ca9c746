import BasicDataStruct.Telnet.Options

open machine machine.Exec

namespace basic_data_struct.telnet

abbrev TSDATA : Nat := 0

abbrev TSIAC : Nat := 1

abbrev TSWOPT : Nat := 2

abbrev TSDOPT : Nat := 3

abbrev TSSUBNEG : Nat := 4

abbrev TSSUBIAC : Nat := 5

abbrev NTSTATES : Nat := 6

abbrev VPLF : UInt8 := 10

abbrev VPCR : UInt8 := 13

abbrev VPBEL : UInt8 := 7

abbrev VPBS : UInt8 := 8

abbrev VPHT : UInt8 := 9

abbrev VPVT : UInt8 := 11

abbrev VPFF : UInt8 := 12

abbrev TBUFSIZE : Nat := 2048

def setStatics (statics : TcoutStatics) : Prog Unit := modify fun s => { s with tcoutStatics := statics }

/-- The start of `tcout`: the terminal's name is looked up once. -/
def tcout_init (env : Env) : Prog Unit := do
  let s ← get
  if s.tcoutStatics.init then return ()
  else
    let n ← call
    setStatics { s.tcoutStatics with init := true, term := env.getenv n }

/-- The call `tgetstr(cap, &bp)`. It copies a capability with its terminator to `bp`, which it
moves behind the copy. Nothing moves `bp` back. -/
def tgetstr (env : Env) (cap : String) : Prog (Option (List UInt8)) := do
  let n ← call
  match env.tgetstr n cap with
  | some sv =>
    let s ← get
    inBounds (s.tcoutStatics.bp + sv.length) TBUFSIZE
    setStatics { s.tcoutStatics with bp := s.tcoutStatics.bp + sv.length + 1 }
    return some sv
  | none => return none

/-- Print a terminal capability. Returns whether the terminal has it. -/
def tcout (env : Env) (cap : String) : Prog Bool := do
  tcout_init env
  let s ← get
  if s.tcoutStatics.term = none then return false
  else
    let n ← call
    if env.tgetent n ≠ 1 then return false
    else
      match ← tgetstr env cap with
      | some sv =>
        xfputs sv
        return true
      | none => return false

/-- The line control that was held back until the next character. -/
def held_control (env : Env) (last_char : UInt8) : Prog Unit := do
  if last_char = VPCR then
    let _ ← tcout env "cr"
    return ()
  else if last_char = VPLF then
    let _ ← tcout env "do"
    return ()
  else return ()

/-- The `switch` of `ttputc`. Returns `tc`. -/
def nvt_special (env : Env) (c : UInt8) : Prog Bool :=
  if c = VPLF then return true
  else if c = VPCR then return true
  else if c = VPBEL then tcout env "bl"
  else if c = VPBS then tcout env "bc"
  else if c = VPHT then tcout env "ta"
  else if c = VPVT then tcout env "do"
  else if c = VPFF then tcout env "cl"
  else return true

/-- A character other than the second one of a line end. -/
def nvt_char (env : Env) (c : UInt8) : Prog Unit := do
  if 32 ≤ c ∧ c < TCIAC then xputc c
  else
    let tc ← nvt_special env c
    if tc then return () else xputc c

def setLastChar (c : UInt8) : Prog Unit := modify fun s => { s with last_char := c }

def ttputc (env : Env) : Action := fun c => do
  let s ← get
  if s.flags .rcvbinary ≠ 0 then
    xputc c
    return 0
  else if s.synching ≠ 0 then return 0
  else if (s.last_char = VPCR ∧ c = VPLF) ∨ (s.last_char = VPLF ∧ c = VPCR) then
    xputc VPLF
    setLastChar 0
    return 0
  else
    held_control env s.last_char
    nvt_char env c
    setLastChar c
    return 0

def tcdm : Action := fun _ => do
  modify fun s => if 0 < s.synching then { s with synching := s.synching - 1 } else s
  return 0

/-- The rows of `ttstab` before the invalid one. -/
def ttrows (env : Env) : List (fsm_trans Action) := [
  onChar TSDATA TCIAC TSIAC no_op,
  onAny TSDATA TSDATA (ttputc env),
  onChar TSIAC TCIAC TSDATA (ttputc env),
  onChar TSIAC TCSB TSSUBNEG no_op,
  onChar TSIAC TCNOP TSDATA no_op,
  onChar TSIAC TCDM TSDATA tcdm,
  onChar TSIAC TCWILL TSWOPT recopt,
  onChar TSIAC TCWONT TSWOPT recopt,
  onChar TSIAC TCDO TSDOPT recopt,
  onChar TSIAC TCDONT TSDOPT recopt,
  onAny TSIAC TSDATA no_op,
  onChar TSSUBNEG TCIAC TSSUBIAC no_op,
  onAny TSSUBNEG TSSUBNEG subopt,
  onChar TSSUBIAC TCSE TSDATA subend,
  onAny TSSUBIAC TSSUBNEG subopt,
  onChar TSWOPT TOECHO TSDATA (do_echo env),
  onChar TSWOPT TONOGA TSDATA do_noga,
  onChar TSWOPT TOTXBINARY TSDATA do_txbinary,
  onAny TSWOPT TSDATA do_notsup,
  onChar TSDOPT TOTERMTYPE TSDATA (will_termtype env),
  onChar TSDOPT TOTXBINARY TSDATA will_txbinary,
  onAny TSDOPT TSDATA will_notsup]

def ttstab (env : Env) : List (fsm_trans Action) := ttrows env ++ [invalidRow]

/-- The loop body of `ttwrite`. -/
def ttwrite_body (env : Env) (c : UInt8) : Prog Unit := do
  let pt ← transition (·.fsms.ttfsm) (·.ttstate) NTSTATES (ttstab env) c
  let _ ← pt.ft_action c
  modify (·.setTtstate pt.ft_next.toNat)

/-- The argument stands for the `cc` bytes of `buf`. -/
def ttwrite (env : Env) (buf : List UInt8) : Prog Unit := eachByte (ttwrite_body env) buf

end basic_data_struct.telnet
