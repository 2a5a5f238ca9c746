import BasicDataStruct.Telnet.Build

open machine machine.Exec

namespace basic_data_struct.telnet

variable {fsm : Client → Fsm} {state : Client → Nat} {nstates : Nat} {ttab : List (fsm_trans Action)} {c : UInt8}
  {s t : Client} {β : Type}

variable {f : Client → β}

section Terminal

variable {env : Env} {β : Type} {f : Client → β}

/-- The output to the terminal and its settings do not change `f`. -/
structure Offscreen (f : Client → β) : Prop where
  shown : ∀ (s : Client) text, f (s.shown text) = f s := by intros; rfl
  called : ∀ s : Client, f { s with calls := s.calls + 1 } = f s := by intros; rfl
  tcout : ∀ (s : Client) statics, f { s with tcoutStatics := statics } = f s := by intros; rfl
  last_char : ∀ (s : Client) c, f { s with last_char := c } = f s := by intros; rfl
  tty : ∀ (s : Client) tty, f { s with tty := tty } = f s := by intros; rfl
  savec : ∀ (s : Client) savec, f { s with savec := savec } = f s := by intros; rfl

variable (hf : Offscreen f)

include hf

theorem keeps_xfputs (text : List UInt8) : Keeps f (xfputs text) := Keeps.modify fun s => hf.shown s text

theorem keeps_call : Keeps f call := by
  intro s n t hrun
  cases hrun
  exact hf.called s

theorem keeps_setStatics (statics : TcoutStatics) : Keeps f (setStatics statics) :=
  Keeps.modify fun s => hf.tcout s statics

theorem keeps_tgetstr (cap : String) : Keeps f (tgetstr env cap) := by
  refine (keeps_call hf).bind fun n => ?_
  cases env.tgetstr n cap with
  | none => exact .pure _
  | some sv =>
    refine Keeps.get.bind fun s => Keeps.bind ?_ fun _ => (keeps_setStatics hf _).bind fun _ => .pure _
    exact .ite _ (.pure _) (.fail _)

theorem keeps_tcout (cap : String) : Keeps f (tcout env cap) := by
  refine Keeps.bind ?_ fun _ => Keeps.get.bind fun _ => .ite _ (.pure _) ((keeps_call hf).bind fun _ => ?_)
  · exact Keeps.get.bind fun _ => .ite _ (.pure _) ((keeps_call hf).bind fun _ => keeps_setStatics hf _)
  · refine Keeps.ite _ (.pure _) ((keeps_tgetstr hf cap).bind fun found => ?_)
    cases found with
    | none => exact .pure _
    | some sv => exact (keeps_xfputs hf sv).bind fun _ => .pure _

theorem keeps_nvt_special (c : UInt8) : Keeps f (nvt_special env c) := by
  unfold nvt_special
  exact .ite _ (.pure _) <| .ite _ (.pure _) <| .ite _ (keeps_tcout hf _) <| .ite _ (keeps_tcout hf _) <|
    .ite _ (keeps_tcout hf _) <| .ite _ (keeps_tcout hf _) <| .ite _ (keeps_tcout hf _) (.pure _)

theorem keeps_nvt_char (c : UInt8) : Keeps f (nvt_char env c) :=
  .ite _ (keeps_xfputs hf _) ((keeps_nvt_special hf c).bind fun _ => .ite _ (.pure _) (keeps_xfputs hf _))

theorem keeps_held_control (c : UInt8) : Keeps f (held_control env c) :=
  .ite _ ((keeps_tcout hf _).bind fun _ => .pure _) (.ite _ ((keeps_tcout hf _).bind fun _ => .pure _) (.pure _))

theorem keeps_setLastChar (c : UInt8) : Keeps f (setLastChar c) := Keeps.modify fun s => hf.last_char s c

theorem keeps_ttputc (c : UInt8) : Keeps f (ttputc env c) := by
  refine Keeps.get.bind fun s => .ite _ ?_ (.ite _ (.pure _) (.ite _ ?_ ?_))
  · exact (keeps_xfputs hf _).bind fun _ => .pure _
  · exact (keeps_xfputs hf _).bind fun _ => (keeps_setLastChar hf 0).bind fun _ => .pure _
  · refine (keeps_held_control hf _).bind fun _ => (keeps_nvt_char hf c).bind fun _ => ?_
    exact (keeps_setLastChar hf c).bind fun _ => .pure _

theorem keeps_tcgetattr (fd : Nat) : Keeps f (tcgetattr env fd) :=
  (keeps_call hf).bind fun _ => Keeps.get.bind fun _ => Keeps.pure _

theorem keeps_tcsetattr (fd : Nat) (tio : termios) : Keeps f (tcsetattr env fd tio) :=
  (keeps_call hf).bind fun _ => .ite _ (Keeps.bind (.modify fun s => hf.tty s _) fun _ => .pure _) (.pure _)

theorem keeps_echo_mode : Keeps f (echo_mode env) := by
  refine (keeps_tcgetattr hf _).bind fun res => ?_
  cases res with
  | none => exact .pure _
  | some tio =>
    refine Keeps.bind ?_ fun tio => keeps_tcsetattr hf _ tio
    exact Keeps.get.bind fun _ => .ite _ (Keeps.bind (.modify fun s => hf.savec s _) fun _ => .pure _) (.pure _)

end Terminal

section Negotiation

variable {env : Env} {β : Type} {f : Client → β}

/-- Nor does the output to the socket, nor the last command. -/
structure Offwire (f : Client → β) : Prop extends Offscreen f where
  sent : ∀ (s : Client) text, f (s.sent text) = f s := by intros; rfl
  setOptionCmd : ∀ (s : Client) c, f (s.setOptionCmd c) = f s := by intros; rfl

section Offwire

variable (hf : Offwire f)

include hf

theorem keeps_sputs (text : List UInt8) : Keeps f (sputs text) := Keeps.modify fun s => hf.sent s text

theorem keeps_command (cmd c : UInt8) : Keeps f (command cmd c) :=
  (keeps_sputs hf _).bind fun _ => (keeps_sputs hf _).bind fun _ => keeps_sputs hf _

theorem keeps_answer (flag : Flag) (agree deny c : UInt8) : Keeps f (answer flag agree deny c) :=
  Keeps.get.bind fun _ => keeps_command hf _ _

theorem keeps_recopt (c : UInt8) : Keeps f (recopt c) :=
  Keeps.bind (.modify fun s => hf.setOptionCmd s c) fun _ => .pure _

theorem keeps_refusal (cmd c : UInt8) : Keeps f (do command cmd c; return (0 : Int32)) :=
  (keeps_command hf cmd c).bind fun _ => .pure _

theorem keeps_subtermtype (c : UInt8) : Keeps f (subtermtype c) := by
  refine (keeps_sputs hf _).bind fun _ => Keeps.get.bind fun s => ?_
  cases s.term with
  | none => exact (Keeps.fail _).bind fun _ => (keeps_sputs hf _).bind fun _ => .pure _
  | some term => exact (keeps_sputs hf _).bind fun _ => (keeps_sputs hf _).bind fun _ => .pure _

variable {flag : Flag} (hflag : ∀ (s : Client) v, f (s.setFlag flag v) = f s)

include hflag

theorem keeps_toggle (ask refuse agree deny c : UInt8) : Keeps f (toggle flag ask refuse agree deny c) := by
  refine Keeps.get.bind fun _ => .ite _ (.pure _) (Keeps.bind (.modify fun s => hflag s _) fun _ => ?_)
  exact (keeps_answer hf flag agree deny c).bind fun _ => .pure _

omit hflag

theorem keeps_do_echo (hecho : ∀ (s : Client) v, f (s.setFlag .doecho v) = f s) (c : UInt8) :
    Keeps f (do_echo env c) := by
  refine Keeps.get.bind fun _ => .ite _ (.pure _) ((keeps_echo_mode hf.toOffscreen).bind fun ok => ?_)
  refine Keeps.ite _ ?_ ?_
  · exact Keeps.bind (.modify fun s => hecho s _) fun _ => (keeps_answer hf _ _ _ _).bind fun _ => .pure _
  · exact (Keeps.pure ()).bind fun _ => (keeps_answer hf _ _ _ _).bind fun _ => .pure _

theorem keeps_binary_path (hrcv : ∀ (s : Client) v, f (s.setFlag .rcvbinary v) = f s)
    (hsnd : ∀ (s : Client) v, f (s.setFlag .sndbinary v) = f s) : Keeps f binary_path := by
  refine Keeps.bind (.modify fun s => hf.setOptionCmd s _) fun _ => (keeps_toggle hf hrcv _ _ _ _ _).bind fun _ => ?_
  exact Keeps.bind (.modify fun s => hf.setOptionCmd s _) fun _ =>
    (keeps_toggle hf hsnd _ _ _ _ _).bind fun _ => .pure _

end Offwire

/-- Nor do the options: nothing but a data mark may change `f` outside of subnegotiations. -/
structure Unmarked (f : Client → β) : Prop extends Offwire f where
  setFlag : ∀ (s : Client) flag v, f (s.setFlag flag v) = f s := by intros; rfl
  term : ∀ (s : Client) term, f { s with term := term } = f s := by intros; rfl

/-- Nor does a data mark. -/
structure Unnegotiated (f : Client → β) : Prop extends Unmarked f where
  synching : ∀ (s : Client) n, f { s with synching := n } = f s := by intros; rfl

theorem keeps_tcdm (hf : Unnegotiated f) (c : UInt8) : Keeps f (tcdm c) := by
  refine Keeps.bind (.modify fun s => ?_) fun _ => .pure _
  split
  · exact hf.synching s _
  · rfl

section Unmarked

variable (hf : Unmarked f)

include hf

theorem keeps_flip (flag : Flag) : Keeps f (flip flag) := Keeps.modify fun s => hf.setFlag s flag _

theorem keeps_check_term : Keeps f (check_term env) := by
  refine Keeps.get.bind fun _ => .ite _ (Keeps.bind ?_ fun _ => .ite _ (.pure _) (keeps_flip hf _)) (.pure _)
  refine Keeps.get.bind fun _ => .ite _ (.pure _) ((keeps_call hf.toOffscreen).bind fun _ => ?_)
  exact Keeps.bind (.modify fun s => hf.term s _) fun _ => .pure _

theorem keeps_will_termtype (c : UInt8) : Keeps f (will_termtype env c) := by
  refine Keeps.get.bind fun _ => .ite _ (.pure _)
    ((keeps_flip hf _).bind fun _ => (keeps_check_term hf).bind fun _ => ?_)
  refine (keeps_answer hf.toOffwire _ _ _ _).bind fun _ => Keeps.get.bind fun _ => .ite _ ?_ ?_
  · exact (keeps_binary_path hf.toOffwire (hf.setFlag · .rcvbinary) (hf.setFlag · .sndbinary)).bind fun _ => .pure _
  · exact (Keeps.pure ()).bind fun _ => .pure _

/-- The rows of `ttstab` outside of subnegotiations, apart from the one for a data mark. -/
theorem keeps_unmarked_ttrows (c : UInt8) :
    ∀ pt ∈ ttrows env, Keeps f (pt.ft_action c) ∨ pt = onChar TSIAC TCDM TSDATA tcdm ∨
      pt.ft_state.toNat = TSSUBNEG ∨ pt.ft_state.toNat = TSSUBIAC := by
  have hputc : Keeps f (ttputc env c) := keeps_ttputc hf.toOffscreen c
  have hno : Keeps f (no_op c) := Keeps.pure _
  have hrec := keeps_recopt hf.toOffwire c
  have htoggle : ∀ flag ask refuse agree deny, Keeps f (toggle flag ask refuse agree deny c) :=
    fun flag ask refuse agree deny => keeps_toggle hf.toOffwire (hf.setFlag · flag) ask refuse agree deny c
  have hrefusal : ∀ cmd, Keeps f (do command cmd c; return (0 : Int32)) := fun cmd => keeps_refusal hf.toOffwire cmd c
  simp only [ttrows, List.forall_mem_cons]
  exact ⟨.inl hno, .inl hputc, .inl hputc, .inl hno, .inl hno, .inr (.inl trivial), .inl hrec, .inl hrec,
    .inl hrec, .inl hrec, .inl hno, .inr (.inr (.inl rfl)), .inr (.inr (.inl rfl)), .inr (.inr (.inr rfl)),
    .inr (.inr (.inr rfl)), .inl (keeps_do_echo hf.toOffwire (hf.setFlag · .doecho) c), .inl (htoggle _ _ _ _ _),
    .inl (htoggle _ _ _ _ _), .inl (hrefusal _), .inl (keeps_will_termtype hf c), .inl (htoggle _ _ _ _ _),
    .inl (hrefusal _), by simp⟩

end Unmarked

/-- The rows of `ttstab` outside of subnegotiations. -/
theorem keeps_ttrows (hf : Unnegotiated f) (c : UInt8) :
    ∀ pt ∈ ttrows env, Keeps f (pt.ft_action c) ∨ pt.ft_state.toNat = TSSUBNEG ∨ pt.ft_state.toNat = TSSUBIAC := by
  intro pt hpt
  rcases keeps_unmarked_ttrows hf.toUnmarked c pt hpt with hkeeps | rfl | hsub
  · exact .inl hkeeps
  · exact .inl (keeps_tcdm hf c)
  · exact .inr hsub

end Negotiation

theorem unnegotiated_fsms : Unnegotiated Client.fsms := {}

section

variable {env : Env}

/-- The selected row is a row of the table. -/
theorem mem_of_run_transition {pt : fsm_trans Action}
    (hrun : (transition fsm state nstates ttab c).run s = .ok (pt, t)) : pt ∈ ttab ∧ t = s := by
  rw [transition, run_bind_of_ok (run_get s)] at hrun
  by_cases hlt : state s < nstates
  · rw [run_bind_of_ok (run_inBounds hlt s)] at hrun
    cases hrow : ttab[(fsm s (state s) c.toNat).toNat]? with
    | none => simp [hrow] at hrun
    | some row =>
      simp only [hrow, run_pure, Except.ok.injEq, Prod.mk.injEq] at hrun
      obtain ⟨hpt, hs⟩ := hrun
      exact ⟨hpt ▸ List.mem_of_getElem? hrow, hs.symm⟩
  · rw [inBounds, if_neg hlt, run_bind, run_fail] at hrun
    simp at hrun

/-- A step of a machine keeps what all actions of its table keep. -/
theorem keeps_transition {α : Type} {next : fsm_trans Action → Int32 → Prog α}
    (haction : ∀ pt ∈ ttab, Keeps f (pt.ft_action c)) (hnext : ∀ pt res, Keeps f (next pt res)) :
    Keeps f (do
      let pt ← transition fsm state nstates ttab c
      let res ← pt.ft_action c
      next pt res) := by
  intro s a t hrun
  obtain ⟨pt, u, htrans, hrest⟩ := run_bind_eq_ok_iff.mp hrun
  obtain ⟨hmem, hu⟩ := mem_of_run_transition htrans
  subst hu
  exact ((haction pt hmem).bind fun res => hnext pt res) u a t hrest

/-- Subnegotiations only write to the socket and move the inner machine. -/
theorem keeps_subopt (hf : Offwire f)
    (hsub : ∀ (s : Client) substate, f (s.setSubstate substate) = f s) (c : UInt8) : Keeps f (subopt c) := by
  have hno : Keeps f (no_op c) := Keeps.pure _
  have habort : Keeps f (tnabort c) := Keeps.fail _
  refine keeps_transition ?_ fun _ _ => Keeps.bind (.modify fun s => hsub s _) fun _ => .pure _
  simp only [substab, subrows, invalidRow, List.cons_append, List.nil_append, List.forall_mem_cons]
  exact ⟨hno, hno, keeps_subtermtype hf c, hno, hno, habort, by simp⟩

theorem keeps_subend (hsub : ∀ (s : Client) substate, f (s.setSubstate substate) = f s)
    (c : UInt8) : Keeps f (subend c) :=
  Keeps.bind (.modify fun s => hsub s _) fun _ => .pure _

/-- The rows of `ttstab` inside of subnegotiations. -/
theorem subnegotiation_rows (env : Env) :
    ∀ pt ∈ ttrows env, pt.ft_state.toNat = TSSUBNEG ∨ pt.ft_state.toNat = TSSUBIAC →
      pt.ft_action = no_op ∧ pt.ft_next.toNat = TSSUBIAC ∨ pt.ft_action = subopt ∧ pt.ft_next.toNat = TSSUBNEG ∨
        pt.ft_action = subend := by
  simp [ttrows, onChar, onAny, TSDATA, TSIAC, TSWOPT, TSDOPT, TSSUBNEG, TSSUBIAC]

/-- Every action of `ttstab` but the one for a data mark keeps what neither the options nor
the inner machine change. -/
theorem keeps_unmarked_ttstab (hf : Unmarked f)
    (hsub : ∀ (s : Client) substate, f (s.setSubstate substate) = f s) (c : UInt8) :
    ∀ pt ∈ ttstab env, Keeps f (pt.ft_action c) ∨ pt = onChar TSIAC TCDM TSDATA tcdm := by
  intro pt hpt
  rw [ttstab, List.mem_append, List.mem_singleton] at hpt
  rcases hpt with hrow | rfl
  · rcases keeps_unmarked_ttrows hf c pt hrow with hkeeps | hmark | hrow'
    · exact .inl hkeeps
    · exact .inr hmark
    · rcases subnegotiation_rows env pt hrow hrow' with ⟨hact, _⟩ | ⟨hact, _⟩ | hact
      · exact .inl (hact ▸ Keeps.pure _)
      · exact .inl (hact ▸ keeps_subopt hf.toOffwire hsub c)
      · exact .inl (hact ▸ keeps_subend hsub c)
  · exact .inl (Keeps.fail _)

section

variable {β : Type} {f : Client → β} (hf : Unnegotiated f)
  (hsub : ∀ (s : Client) substate, f (s.setSubstate substate) = f s)

include hf hsub

theorem keeps_ttstab (c : UInt8) : ∀ pt ∈ ttstab env, Keeps f (pt.ft_action c) := by
  intro pt hpt
  rcases keeps_unmarked_ttstab hf.toUnmarked hsub c pt hpt with hkeeps | rfl
  · exact hkeeps
  · exact keeps_tcdm hf c

theorem keeps_tt_round (htt : ∀ (s : Client) ttstate, f (s.setTtstate ttstate) = f s) (c : UInt8) :
    Keeps f (ttwrite_body env c) :=
  keeps_transition (keeps_ttstab hf hsub c) fun _ _ => .modify fun s => htt s _

end

theorem keeps_ttwrite_body (c : UInt8) : Keeps Client.fsms (ttwrite_body env c) :=
  keeps_tt_round unnegotiated_fsms (fun _ _ => rfl) (fun _ _ => rfl) c

theorem keeps_ttwrite (buf : List UInt8) : Keeps Client.fsms (ttwrite env buf) := by
  rw [ttwrite]
  induction buf with
  | nil => exact .pure _
  | cons c buf ih => exact (keeps_ttwrite_body c).bind fun _ => ih

/-- What holds between the states before and after every byte holds between those before and after a stream. -/
theorem rel_ttwrite {R : Client → Client → Prop} (hrefl : ∀ s, R s s) (htrans : ∀ s t u, R s t → R t u → R s u)
    (hbyte : ∀ c s t, Built env s.fsms → (ttwrite_body env c).run s = .ok ((), t) → R s t) {buf : List UInt8}
    (hb : Built env s.fsms) (hrun : (ttwrite env buf).run s = .ok ((), t)) : R s t := by
  rw [ttwrite] at hrun
  induction buf generalizing s with
  | nil =>
    rw [eachByte, run_pure] at hrun
    cases hrun
    exact hrefl _
  | cons c buf ih =>
    obtain ⟨_, u, hrun_c, hrest⟩ := run_bind_eq_ok_iff.mp hrun
    exact htrans s u t (hbyte c s u hb hrun_c) (ih (keeps_ttwrite_body c s () u hrun_c ▸ hb) hrest)

end

/-- The variables of the client as they are when the program starts. The terminal
settings and the special characters are those of the user's terminal. -/
structure Client.Fresh (s : Client) : Prop where
  option_cmd : s.option_cmd = 0
  flags : ∀ flag, s.flags flag = 0
  synching : s.synching = 0
  last_char : s.last_char = 0
  term : s.term = none
  savec : s.savec = (0, 0)
  tcoutStatics : s.tcoutStatics = ⟨false, none, 0⟩
  scrfp : s.scrfp = none
  scrindex : s.scrindex = 0
  sfp : s.sfp = []
  tfp : s.tfp = []

theorem zero_fresh : (Client.zero fun _ => 0).Fresh :=
  ⟨rfl, fun _ => rfl, rfl, rfl, rfl, rfl, rfl, rfl, rfl, rfl, rfl⟩

/-- A state that a client reaches from `fsmbuild` by receiving bytes. -/
def Reachable (env : Env) (t : Client) : Prop :=
  ∃ s₀ s buf, s₀.Fresh ∧ (fsmbuild env).run s₀ = .ok ((), s) ∧ (ttwrite env buf).run s = .ok ((), t)

/-- In every reachable state the arrays are those that `fsmbuild` has made. -/
theorem Reachable.fromBuild {env : Env} (ht : Reachable env t) : FromBuild env t.fsms := by
  obtain ⟨s₀, s, buf, _, hbuild, hrun⟩ := ht
  exact ⟨s₀, s, hbuild, (keeps_ttwrite buf s () t hrun).symm⟩

end basic_data_struct.telnet
