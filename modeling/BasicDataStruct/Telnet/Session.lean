import BasicDataStruct.Telnet.Reach

open machine machine.Exec

namespace basic_data_struct.telnet

variable {env : Env} {s t : Client} {input : Input}

/-- The handler of `SIGURG`. -/
def rcvurg : Prog Unit := modify fun s => { s with synching := s.synching + 1 }

/-- What reaches the client: a byte of the keyboard, a byte of the server, or the signal for
urgent data. -/
inductive Input where
  | key (c : UInt8)
  | byte (c : UInt8)
  | urgent

def handle (env : Env) : Input → Prog Unit
  | .key c => sowrite_body env c
  | .byte c => ttwrite_body env c
  | .urgent => rcvurg

/-- The client after an input, unless the input has stopped it. -/
def Client.after (env : Env) (s : Client) (input : Input) : Option Client :=
  match (handle env input).run s with
  | .ok (_, t) => some t
  | .error _ => none

theorem Client.after_eq_some : s.after env input = some t ↔ (handle env input).run s = .ok ((), t) := by
  rw [Client.after]
  cases (handle env input).run s with
  | error e => simp
  | ok p => simp [Prod.ext_iff]

section Keyboard

/-- The row of `sostab` that starts the collection of a name. -/
def scriptRow (env : Env) : fsm_trans Action := onChar KSLOCAL KCSCRIPT KSCOLLECT (scrinit env)

/-- The row of `sostab` that goes on with it. -/
def nameRow (env : Env) : fsm_trans Action := onAny KSCOLLECT KSCOLLECT (scrgetc env)

/-- The row of `sostab` that ends it. -/
def nameEndRow (env : Env) : fsm_trans Action := onChar KSCOLLECT KCNL KSREMOTE (scrwrap env)

/-- A property of computations that output, calls of the system, exits and the assignments to
`scrfp` and `scrindex` have. -/
structure PlainRules (Q : (α : Type) → Prog α → Prop) : Prop extends Compositional Q where
  exit : ∀ {α : Type} message code, Q α (fail (.exit message code))
  call : Q Nat call
  sputs : ∀ text, Q Unit (sputs text)
  tprint : ∀ text, Q Unit (tprint text)
  stdout : ∀ text, Q Unit (modify fun s => { s with stdout := s.stdout ++ text })
  scrfp : ∀ scrfp, Q Unit (modify fun s => { s with scrfp := scrfp })
  scrindex : ∀ g : Client → Nat, Q Unit (modify fun s => { s with scrindex := g s })

namespace PlainRules

variable {env : Env} {Q : (α : Type) → Prog α → Prop} (hq : PlainRules Q)

include hq

theorem soputc (c : UInt8) : Q Int32 (soputc c) := by
  have hend : Q Int32 (do sputc c; return 0) := hq.bind (hq.sputs [c]) fun _ => hq.pure _
  refine hq.bind hq.get fun s => hq.ite _ (hq.ite _ (hq.bind (hq.sputs _) fun _ => hend) hend) ?_
  refine hq.bind (hq.ite _ (hq.sputs _) (hq.ite _ (hq.sputs _) ?_)) fun _ => hq.pure _
  exact hq.ite _ (hq.sputs _) (hq.ite _ (hq.sputs _) (hq.sputs _))

theorem unscript (c : UInt8) : Q Int32 (unscript env c) := by
  have hend : Q Int32 (do modify fun s => { s with scrfp := none }; return 0) :=
    hq.bind (hq.scrfp _) fun _ => hq.pure _
  refine hq.bind hq.get fun s => hq.ite _ (hq.bind (hq.tprint _) fun _ => hq.pure _) (hq.bind hq.call fun n => ?_)
  cases env.fstat n with
  | none => exact hend
  | some size => exact hq.bind (hq.tprint _) fun _ => hend

theorem print_port (text : String) (port : Option Nat) : Q Unit (print_port text port) := by
  cases port with
  | none => exact hq.pure _
  | some port => exact hq.tprint _

theorem print_options : Q Unit print_options := by
  refine hq.bind hq.get fun s => hq.ite _ (hq.bind (hq.stdout _) fun _ => ?_) (hq.pure _)
  exact hq.bind (hq.tprint _) fun _ => hq.bind (hq.tprint _) fun _ => hq.bind (hq.tprint _) fun _ => hq.tprint _

theorem status (c : UInt8) : Q Int32 (status env c) := by
  refine hq.bind (hq.tprint _) fun _ => hq.bind hq.call fun n => hq.bind (hq.print_port _ _) fun _ => ?_
  refine hq.bind hq.call fun n => hq.bind (hq.print_port _ _) fun _ => hq.bind (hq.tprint _) fun _ => ?_
  exact hq.bind hq.print_options fun _ => hq.bind hq.get fun s => hq.bind (hq.tprint _) fun _ => hq.pure _

theorem sonotsup (c : UInt8) : Q Int32 (sonotsup c) :=
  hq.bind (hq.tprint _) fun _ => hq.bind (hq.tprint _) fun _ => hq.bind (hq.tprint _) fun _ =>
    hq.bind (hq.tprint _) fun _ => hq.bind (hq.tprint _) fun _ => hq.bind (hq.tprint _) fun _ => hq.pure _

theorem errexitErrno {α : Type} (text : String) : Q α (errexitErrno env text) :=
  hq.bind hq.call fun _ => hq.exit _ _

theorem getModes : Q termios (getModes env) := by
  have hget : Q (Option termios) (tcgetattr env 0) :=
    hq.bind hq.call fun _ => hq.bind hq.get fun _ => hq.pure _
  refine hq.bind hget fun found => ?_
  cases found with
  | none => exact hq.errexitErrno _
  | some tio => exact hq.pure _

/-- The statements of `open_script` after the name is ended. -/
theorem open_script_rest : Q Unit (do
    modify fun s => { s with scrindex := 0 }
    let s ← Exec.get
    let n ← telnet.call
    if env.openScript n < 0 then
      telnet.tprint (bytes "\ncan't write \"" ++ s.scriptName ++ bytes "\": " ++ bytes (env.strerror n) ++ bytes "\n")
    else
      let n ← telnet.call
      modify fun s => { s with scrfp := if env.fdopen n then some [] else none }) := by
  refine hq.bind (hq.scrindex _) fun _ => hq.bind hq.get fun s => hq.bind hq.call fun n => hq.ite _ (hq.tprint _) ?_
  exact hq.bind hq.call fun n => hq.scrfp _

theorem open_script (hname : ∀ i b, Q Unit (setScrname i b)) : Q Unit (open_script env) :=
  hq.bind hq.get fun _ => hq.bind (hname _ _) fun _ => hq.open_script_rest

/-- The rows of `sostab` that leave the terminal settings alone. -/
theorem sorows (c : UInt8) : ∀ pt ∈ sorows env, Q Int32 (pt.ft_action c) ∨ pt = scriptRow env ∨
    pt.ft_action = dcon env ∨ pt.ft_action = suspend env ∨ pt.ft_state.toNat = KSCOLLECT := by
  simp only [telnet.sorows, List.forall_mem_cons]
  exact ⟨.inl (hq.pure _), .inl (hq.soputc c), .inr (.inl rfl), .inl (hq.unscript c), .inl (hq.soputc c),
    .inr (.inr (.inl rfl)), .inr (.inr (.inr (.inl rfl))), .inl (hq.status c), .inl (hq.sonotsup c),
    .inr (.inr (.inr (.inr rfl))), .inr (.inr (.inr (.inr rfl))), by simp⟩

end PlainRules

/-- The same for the assignments to terminal settings. -/
structure KeyRules (Q : (α : Type) → Prog α → Prop) : Prop extends PlainRules Q where
  tty : ∀ g : Client → Nat → termios, Q Unit (modify fun s => { s with tty := g s })
  oldtty : ∀ tio, Q Unit (modify fun s => { s with oldtty := tio })
  tntty : ∀ tio, Q Unit (modify fun s => { s with tntty := tio })

namespace KeyRules

variable {env : Env} {Q : (α : Type) → Prog α → Prop} (hq : KeyRules Q)

include hq

theorem tcsetattr (fd : Nat) (tio : termios) : Q Bool (tcsetattr env fd tio) :=
  hq.bind hq.call fun _ => hq.ite _ (hq.bind (hq.tty _) fun _ => hq.pure _) (hq.pure _)

theorem setModes (text : String) (tio : termios) : Q Unit (setModes env text tio) :=
  hq.bind (hq.tcsetattr 0 tio) fun _ => hq.ite _ (hq.pure _) (hq.errexitErrno _)

theorem scrinit (c : UInt8) : Q Int32 (scrinit env c) := by
  have hrefuse : ∀ text, Q Int32 (do telnet.tprint text; return -1) := fun text =>
    hq.bind (hq.tprint text) fun _ => hq.pure _
  refine hq.bind hq.get fun s => hq.ite _ (hrefuse _) (hq.ite _ (hrefuse _) (hq.bind (hq.scrindex _) fun _ => ?_))
  refine hq.bind hq.getModes fun tio => hq.bind (hq.tntty tio) fun _ => ?_
  exact hq.bind (hq.setModes _ _) fun _ => hq.bind (hq.tprint _) fun _ => hq.pure _

theorem dcon (c : UInt8) : Q Int32 (dcon env c) :=
  hq.bind (hq.tprint _) fun _ => hq.bind hq.get fun _ => hq.bind (hq.tcsetattr 0 _) fun _ => hq.exit _ _

theorem suspend (c : UInt8) : Q Int32 (suspend env c) := by
  refine hq.bind hq.getModes fun tio => hq.bind (hq.tntty tio) fun _ => hq.bind hq.get fun s => ?_
  refine hq.bind (hq.setModes _ _) fun _ => hq.bind hq.call fun n => hq.bind (hq.tty _) fun _ => ?_
  refine hq.bind hq.getModes fun tio => hq.bind (hq.oldtty tio) fun _ => hq.bind hq.get fun s => ?_
  exact hq.bind (hq.setModes _ _) fun _ => hq.pure _

/-- The statements of `scrgetc` after the character is stored. -/
theorem scrgetc_rest (s : Client) : Q Int32 (do
    modify fun s => { s with scrindex := s.scrindex + 1 }
    if SFBUFSZ ≤ s.scrindex + 1 then
      telnet.tprint (bytes "\nname too long\n")
      telnet.setModes env "tcsetattr: " s.oldtty
      return -1
    else return 0) := by
  refine hq.bind (hq.scrindex _) fun _ => hq.ite _ ?_ (hq.pure _)
  exact hq.bind (hq.tprint _) fun _ => hq.bind (hq.setModes _ _) fun _ => hq.pure _

/-- The end of `scrwrap`. -/
theorem scrwrap_rest : Q Int32 (do let s ← Exec.get; telnet.setModes env "tcsetattr: " s.tntty; return 0) :=
  hq.bind hq.get fun _ => hq.bind (hq.setModes _ _) fun _ => hq.pure _

/-- The rows of `sostab` outside of the collection of a name. -/
theorem sorows (c : UInt8) : ∀ pt ∈ sorows env, Q Int32 (pt.ft_action c) ∨ pt.ft_state.toNat = KSCOLLECT := by
  intro pt hpt
  rcases hq.toPlainRules.sorows c pt hpt with hplain | rfl | hact | hact | hcollect
  · exact .inl hplain
  · exact .inl (hq.scrinit c)
  · exact .inl (hact ▸ hq.dcon c)
  · exact .inl (hact ▸ hq.suspend c)
  · exact .inr hcollect

variable (hname : ∀ i b, Q Unit (setScrname i b))

include hname

theorem scrgetc (c : UInt8) : Q Int32 (scrgetc env c) :=
  hq.bind hq.get fun s => hq.bind (hname _ c) fun _ => hq.scrgetc_rest s

theorem scrwrap (c : UInt8) : Q Int32 (scrwrap env c) :=
  hq.bind hq.get fun _ => hq.ite _ (hq.bind (hq.open_script hname) fun _ => hq.scrwrap_rest) hq.scrwrap_rest

end KeyRules

/-- The rows of `sostab` for the collection of a name. -/
theorem collect_rows (env : Env) : ∀ pt ∈ sorows env, pt.ft_state.toNat = KSCOLLECT →
    pt = nameEndRow env ∨ pt = nameRow env := by
  simp [sorows, nameEndRow, nameRow, onChar, onAny, KSREMOTE, KSLOCAL, KSCOLLECT]

theorem keyRules_avoids : KeyRules fun _ x => Avoids .bounds x where
  toCompositional := compositional_avoids _
  exit _ _ := .fail (by simp)
  call _ h := nomatch h
  sputs _ := .modify _
  tprint _ := .modify _
  stdout _ := .modify _
  scrfp _ := .modify _
  tty _ := .modify _
  oldtty _ := .modify _
  tntty _ := .modify _
  scrindex _ := .modify _

variable {env : Env} {β : Type} {f : Client → β}

/-- The commands of the keyboard do not change `f`. -/
structure Unkeyed (f : Client → β) : Prop extends Offwire f where
  tfp : ∀ (s : Client) tfp, f { s with tfp := tfp } = f s := by intros; rfl
  stdout : ∀ (s : Client) stdout, f { s with stdout := stdout } = f s := by intros; rfl
  oldtty : ∀ (s : Client) tio, f { s with oldtty := tio } = f s := by intros; rfl
  tntty : ∀ (s : Client) tio, f { s with tntty := tio } = f s := by intros; rfl
  scrfp : ∀ (s : Client) scrfp, f { s with scrfp := scrfp } = f s := by intros; rfl
  scrname : ∀ (s : Client) scrname, f { s with scrname := scrname } = f s := by intros; rfl
  scrindex : ∀ (s : Client) scrindex, f { s with scrindex := scrindex } = f s := by intros; rfl

variable (hf : Unkeyed f)

include hf

theorem Unkeyed.keyRules : KeyRules fun _ x => Keeps f x where
  toCompositional := compositional_keeps f
  exit _ _ := .fail _
  call := keeps_call hf.toOffscreen
  sputs := keeps_sputs hf.toOffwire
  tprint _ := .modify fun s => hf.tfp s _
  stdout _ := .modify fun s => hf.stdout s _
  tty _ := .modify fun s => hf.tty s _
  oldtty _ := .modify fun s => hf.oldtty s _
  tntty _ := .modify fun s => hf.tntty s _
  scrfp _ := .modify fun s => hf.scrfp s _
  scrindex _ := .modify fun s => hf.scrindex s _

theorem Unkeyed.keeps_setScrname (i : Nat) (b : UInt8) : Keeps f (setScrname i b) :=
  Keeps.bind (.ite _ (.pure _) (.fail _)) fun _ => .modify fun s => hf.scrname s _

theorem keeps_sostab (c : UInt8) : ∀ pt ∈ sostab env, Keeps f (pt.ft_action c) := by
  have hname := hf.keeps_setScrname
  intro pt hpt
  rw [sostab, List.mem_append, List.mem_singleton] at hpt
  rcases hpt with hrow | rfl
  · rcases hf.keyRules.sorows c pt hrow with hkeeps | hcollect
    · exact hkeeps
    · rcases collect_rows env pt hrow hcollect with rfl | rfl
      · exact hf.keyRules.scrwrap hname c
      · exact hf.keyRules.scrgetc hname c
  · exact .fail _

theorem keeps_so_round (hso : ∀ (s : Client) sostate, f (s.setSostate sostate) = f s) (c : UInt8) :
    Keeps f (sowrite_body env c) :=
  keeps_transition (keeps_sostab hf c) fun _ _ => .modify fun s => hso s _

end Keyboard

theorem unkeyed_fsms : Unkeyed Client.fsms := {}

/-- No input changes the compiled arrays. -/
theorem Client.fsms_after (h : s.after env input = some t) : t.fsms = s.fsms := by
  have hrun := Client.after_eq_some.mp h
  cases input with
  | key c => exact keeps_so_round unkeyed_fsms (fun _ _ => rfl) c s () t hrun
  | byte c => exact keeps_ttwrite_body c s () t hrun
  | urgent =>
    cases hrun
    rfl

end basic_data_struct.telnet
