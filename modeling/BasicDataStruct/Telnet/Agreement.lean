import BasicDataStruct.Telnet.Refusal

open machine machine.Exec

namespace basic_data_struct.telnet

variable {v : Int8} {res : Int32} {c : UInt8} {pt : fsm_trans Action} {buf : List UInt8}

/-- The message that tells the peer that an option is on. -/
def Flag.on : Flag → Message
  | .doecho => ⟨.DO, TOECHO⟩
  | .noga => ⟨.DO, TONOGA⟩
  | .rcvbinary => ⟨.DO, TOTXBINARY⟩
  | .sndbinary => ⟨.WILL, TOTXBINARY⟩
  | .termtype => ⟨.WILL, TOTERMTYPE⟩

/-- The message that tells the peer that an option is off. -/
def Flag.off : Flag → Message
  | .doecho => ⟨.DONT, TOECHO⟩
  | .noga => ⟨.DONT, TONOGA⟩
  | .rcvbinary => ⟨.DONT, TOTXBINARY⟩
  | .sndbinary => ⟨.WONT, TOTXBINARY⟩
  | .termtype => ⟨.WONT, TOTERMTYPE⟩

/-- The last message about an option. -/
def lastTold (log : List Message) (flag : Flag) : Option Message :=
  (log.filter fun m => m = flag.on ∨ m = flag.off).getLast?

def Cmd.ofCode (c : UInt8) : Option Cmd :=
  if c = TCWILL then some .WILL
  else if c = TCWONT then some .WONT
  else if c = TCDO then some .DO
  else if c = TCDONT then some .DONT
  else none

/-- The messages at the start of a text for the socket. -/
def commands : List UInt8 → List Message
  | iac :: code :: option :: text =>
    if iac = TCIAC then
      match Cmd.ofCode code with
      | some cmd => ⟨cmd, option⟩ :: commands text
      | none => []
    else []
  | _ => []

/-- The messages that the client sends while it receives the bytes. What it writes
for one byte is either a row of messages or a subnegotiation. -/
def told (env : Env) : List UInt8 → Client → List Message
  | [], _ => []
  | c :: buf, s =>
    match (ttwrite_body env c).run s with
    | .ok (_, t) => commands (t.sfp.drop s.sfp.length) ++ told env buf t
    | .error _ => []

/-- Where a reader of the socket is. -/
inductive Reading where
  | data
  | iac
  | option (cmd : Cmd)
  | subneg
  | subiac

/-- The messages that the peer reads in a text, by the same rules as `ttstab`. -/
def heard : Reading → List UInt8 → List Message
  | _, [] => []
  | .data, c :: text => if c = TCIAC then heard .iac text else heard .data text
  | .iac, c :: text =>
    if c = TCSB then heard .subneg text
    else
      match Cmd.ofCode c with
      | some cmd => heard (.option cmd) text
      | none => heard .data text
  | .option cmd, c :: text => ⟨cmd, c⟩ :: heard .data text
  | .subneg, c :: text => if c = TCIAC then heard .subiac text else heard .subneg text
  | .subiac, c :: text => if c = TCSE then heard .data text else heard .subneg text

/-- How messages change the options: the last message about an option decides it. -/
def Agreed (before : Flag → Int8) (msgs : List Message) (after : Flag → Int8) : Prop :=
  ∀ flag, match lastTold msgs flag with
    | some m => after flag ≠ 0 ↔ m = flag.on
    | none => after flag = before flag

/-- The name of the terminal comes from the environment. -/
def Known (env : Env) (s : Client) : Prop := ∀ name, s.term = some name → ∃ n, env.getenv n = some name

/-- The environment names no terminal with a command escape. -/
def Env.Clean (env : Env) : Prop := ∀ n name, env.getenv n = some name → TCIAC ∉ name

/-- Between `s` and `t` the client writes `text`, which tells the peer `msgs`. -/
structure Utters (env : Env) (s t : Client) (text : List UInt8) (msgs : List Message) : Prop where
  sfp : t.sfp = s.sfp ++ text
  flags : Agreed s.flags msgs t.flags
  known : Known env s → Known env t
  heard : Known env s → env.Clean → ∀ rest, heard .data (text ++ rest) = msgs ++ heard .data rest

section

variable {env : Env} {s t u : Client} {flag : Flag} {m : Message} {msgs msgs' : List Message} {text text' : List UInt8}

theorem Cmd.ofCode_code (cmd : Cmd) : Cmd.ofCode cmd.code = some cmd := by cases cmd <;> rfl

theorem Cmd.code_ne_sb (cmd : Cmd) : cmd.code ≠ TCSB := by cases cmd <;> decide

theorem commands_bytes (m : Message) (text : List UInt8) : commands (m.bytes ++ text) = m :: commands text := by
  change commands (TCIAC :: m.cmd.code :: m.option :: text) = _
  rw [commands, if_pos rfl, Cmd.ofCode_code]

theorem commands_flatMap (msgs : List Message) : commands (msgs.flatMap Message.bytes) = msgs := by
  induction msgs with
  | nil => rfl
  | cons m msgs ih => rw [List.flatMap_cons, commands_bytes, ih]

theorem heard_bytes (m : Message) (rest : List UInt8) : heard .data (m.bytes ++ rest) = m :: heard .data rest := by
  change heard .data (TCIAC :: m.cmd.code :: m.option :: rest) = _
  rw [heard, if_pos rfl, heard, if_neg m.cmd.code_ne_sb, Cmd.ofCode_code]
  rfl

theorem lastTold_append (log msgs : List Message) (flag : Flag) :
    lastTold (log ++ msgs) flag = (lastTold msgs flag).or (lastTold log flag) := by
  rw [lastTold, List.filter_append, List.getLast?_append]
  rfl

theorem Agreed.refl (flags : Flag → Int8) : Agreed flags [] flags := fun _ => rfl

theorem Agreed.trans {f g h : Flag → Int8} (hfg : Agreed f msgs g) (hgh : Agreed g msgs' h) :
    Agreed f (msgs ++ msgs') h := by
  intro flag
  have hfirst := hfg flag
  have hsecond := hgh flag
  rw [lastTold_append]
  cases hlast : lastTold msgs' flag with
  | some m =>
    rw [hlast] at hsecond
    exact hsecond
  | none =>
    rw [hlast] at hsecond
    rw [Option.none_or]
    cases hbefore : lastTold msgs flag with
    | some m =>
      rw [hbefore] at hfirst
      exact hsecond ▸ hfirst
    | none =>
      rw [hbefore] at hfirst
      exact hsecond.trans hfirst

theorem Utters.trans (hst : Utters env s t text msgs) (htu : Utters env t u text' msgs') :
    Utters env s u (text ++ text') (msgs ++ msgs') where
  sfp := by rw [htu.sfp, hst.sfp, List.append_assoc]
  flags := hst.flags.trans htu.flags
  known := htu.known ∘ hst.known
  heard := by
    intro hknown hclean rest
    rw [List.append_assoc, hst.heard hknown hclean, htu.heard (hst.known hknown) hclean, List.append_assoc]

/-- What the client has said to the peer and what it may say. -/
def Client.spoken (s : Client) : (Flag → Int8) × List UInt8 × Option (List UInt8) := (s.flags, s.sfp, s.term)

/-- A client that only changes other variables says nothing. -/
theorem utters_nothing (hsame : t.spoken = s.spoken) : Utters env s t [] [] := by
  obtain ⟨hflags, hsfp, hterm⟩ : t.flags = s.flags ∧ t.sfp = s.sfp ∧ t.term = s.term := by
    simpa only [Client.spoken, Prod.mk.injEq] using hsame
  refine ⟨by rw [hsfp, List.append_nil], hflags ▸ Agreed.refl s.flags, ?_, fun _ _ _ => rfl⟩
  intro hknown name hname
  exact hknown name (hterm ▸ hname)

theorem offscreen_spoken : Offscreen Client.spoken := {}

/-- A message is about one option only. -/
theorem lastTold_singleton (hm : m = flag.on ∨ m = flag.off) (flag' : Flag) :
    lastTold [m] flag' = if flag' = flag then some m else none := by
  rcases hm with rfl | rfl
  · cases flag <;> cases flag' <;> rfl
  · cases flag <;> cases flag' <;> rfl

/-- The answer of a handler whose option is now `v`. -/
def Flag.answered (flag : Flag) (v : Int8) : Message := if v ≠ 0 then flag.on else flag.off

theorem Flag.answered_cases (flag : Flag) (v : Int8) : flag.answered v = flag.on ∨ flag.answered v = flag.off := by
  unfold Flag.answered
  split
  · exact .inl rfl
  · exact .inr rfl

theorem Flag.answered_eq_on {flag : Flag} : v ≠ 0 ↔ flag.answered v = flag.on := by
  unfold Flag.answered
  split
  case isTrue hv => simp [hv]
  case isFalse hv =>
    have hne : flag.off ≠ flag.on := by cases flag <;> decide
    simp [hv, hne]

theorem Agreed.answered (before : Flag → Int8) (flag : Flag) (v : Int8) :
    Agreed before [flag.answered v] (Function.update before flag v) := by
  intro flag'
  rw [lastTold_singleton (flag.answered_cases v)]
  by_cases heq : flag' = flag
  · rw [if_pos heq, heq]
    simpa only [Function.update_self] using Flag.answered_eq_on
  · rw [if_neg heq]
    exact Function.update_of_ne heq v before

/-- A handler that sets its option and answers. -/
theorem utters_answered (hflags : t.flags = Function.update s.flags flag v)
    (hsfp : t.sfp = s.sfp ++ (flag.answered v).bytes) (hknown : Known env s → Known env t) :
    Utters env s t (flag.answered v).bytes [flag.answered v] where
  sfp := hsfp
  flags := hflags ▸ Agreed.answered s.flags flag v
  known := hknown
  heard := fun _ _ rest => heard_bytes _ rest

/-- The client tells the peer some messages and nothing else. -/
def Tells (env : Env) (s t : Client) : Prop := ∃ msgs : List Message, Utters env s t (msgs.flatMap Message.bytes) msgs

theorem Tells.trans (hst : Tells env s t) (htu : Tells env t u) : Tells env s u := by
  obtain ⟨msgs, hmsgs⟩ := hst
  obtain ⟨msgs', hmsgs'⟩ := htu
  exact ⟨msgs ++ msgs', by rw [List.flatMap_append]; exact hmsgs.trans hmsgs'⟩

theorem tells_nothing (hsame : t.spoken = s.spoken) : Tells env s t := ⟨[], utters_nothing hsame⟩

theorem tells_answered (flag : Flag) (hflags : t.flags = Function.update s.flags flag v)
    (hsfp : t.sfp = s.sfp ++ (flag.answered v).bytes) (hknown : Known env s → Known env t) : Tells env s t := by
  refine ⟨[flag.answered v], ?_⟩
  rw [List.flatMap_cons, List.flatMap_nil, List.append_nil]
  exact utters_answered hflags hsfp hknown

/-- The bytes of an answer are those that `answer` writes. -/
theorem run_answer_flag (flag : Flag) (s : Client) :
    (answer flag flag.on.cmd.code flag.off.cmd.code flag.on.option).run s =
      .ok ((), s.sent (flag.answered (s.flags flag)).bytes) := by
  rw [run_answer, Flag.answered]
  split
  · rfl
  · cases flag <;> rfl

theorem run_answer_echo (s : Client) : (answer .doecho TCDO TCDONT TOECHO).run s =
    .ok ((), s.sent (Flag.doecho.answered (s.flags .doecho)).bytes) := run_answer_flag .doecho s

theorem run_answer_termtype (s : Client) : (answer .termtype TCWILL TCWONT TOTERMTYPE).run s =
    .ok ((), s.sent (Flag.termtype.answered (s.flags .termtype)).bytes) := run_answer_flag .termtype s

/-- The handlers that only keep a flag. -/
theorem tells_toggle (flag : Flag) {ask refuse : UInt8}
    (hrun : (toggle flag ask refuse flag.on.cmd.code flag.off.cmd.code flag.on.option).run s = .ok (res, t)) :
    Tells env s t := by
  rw [toggle, run_bind_of_ok (run_get s)] at hrun
  by_cases hsettled : settled s flag ask refuse
  · rw [if_pos hsettled, run_pure] at hrun
    cases hrun
    exact tells_nothing rfl
  · rw [if_neg hsettled, flip, run_bind_of_ok (run_modify _ s), run_bind_of_ok (run_answer_flag flag _),
      run_pure] at hrun
    cases hrun
    rw [setFlag_flags]
    exact tells_answered flag rfl rfl id

theorem tells_do_echo (hrun : (do_echo env TOECHO).run s = .ok (res, t)) : Tells env s t := by
  rw [do_echo, run_bind_of_ok (run_get s)] at hrun
  by_cases hsettled : settled s .doecho TCWILL TCWONT
  · rw [if_pos hsettled, run_pure] at hrun
    cases hrun
    exact tells_nothing rfl
  · rw [if_neg hsettled] at hrun
    obtain ⟨ok, u, hmode, hrest⟩ := run_bind_eq_ok_iff.mp hrun
    have hsilent : Tells env s u := tells_nothing (keeps_echo_mode offscreen_spoken s ok u hmode)
    refine hsilent.trans ?_
    -- whether or not the terminal could be switched, the answer tells the value the flag then has
    cases ok with
    | true =>
      dsimp only at hrest
      rw [if_pos rfl, flip, run_bind_of_ok (run_modify _ u), run_bind_of_ok (run_answer_echo _), run_pure] at hrest
      cases hrest
      rw [setFlag_flags]
      exact tells_answered .doecho rfl rfl id
    | false =>
      dsimp only at hrest
      rw [if_neg (by decide), run_bind_of_ok (run_answer_echo _), run_pure] at hrest
      cases hrest
      exact tells_answered .doecho (Function.update_eq_self ..).symm rfl id

/-- The name that `find_term` stores comes from the environment. -/
theorem known_find_term {found : Bool} (hrun : (find_term env).run s = .ok (found, t)) :
    t.flags = s.flags ∧ t.sfp = s.sfp ∧ (Known env s → Known env t) := by
  rw [find_term, run_bind_of_ok (run_get s)] at hrun
  by_cases hterm : s.term.isSome = true
  · rw [if_pos hterm, run_pure] at hrun
    cases hrun
    exact ⟨rfl, rfl, id⟩
  · rw [if_neg hterm, run_bind_of_ok (run_call s), run_bind_of_ok (run_modify _ _), run_pure] at hrun
    cases hrun
    exact ⟨rfl, rfl, fun _ name hname => ⟨s.calls, hname⟩⟩

/-- `check_term` changes at most the flag that `will_termtype` has just turned on. -/
theorem known_check_term (hrun : (check_term env).run s = .ok ((), t)) :
    ∃ v, t.flags = Function.update s.flags .termtype v ∧ t.sfp = s.sfp ∧ (Known env s → Known env t) := by
  rw [check_term, run_bind_of_ok (run_get s)] at hrun
  by_cases hon : s.flags .termtype ≠ 0
  · rw [if_pos hon] at hrun
    obtain ⟨found, u, hfind, hrest⟩ := run_bind_eq_ok_iff.mp hrun
    obtain ⟨hflags, hsfp, hknown⟩ := known_find_term hfind
    cases found with
    | true =>
      rw [if_pos rfl, run_pure] at hrest
      cases hrest
      exact ⟨s.flags .termtype, by rw [hflags, Function.update_eq_self], hsfp, hknown⟩
    | false =>
      rw [if_neg (by decide), flip, run_modify] at hrest
      cases hrest
      refine ⟨lnot (u.flags .termtype), ?_, hsfp, hknown⟩
      change Function.update u.flags .termtype _ = _
      rw [hflags]
  · rw [if_neg hon, run_pure] at hrun
    cases hrun
    exact ⟨s.flags .termtype, (Function.update_eq_self ..).symm, rfl, id⟩

theorem tells_binary_path (hrun : binary_path.run s = .ok ((), t)) : Tells env s t := by
  rw [binary_path, run_bind_of_ok (run_modify _ s)] at hrun
  obtain ⟨_, u, hdo, hrest⟩ := run_bind_eq_ok_iff.mp hrun
  rw [run_bind_of_ok (run_modify _ u)] at hrest
  obtain ⟨_, v, hwill, hend⟩ := run_bind_eq_ok_iff.mp hrest
  rw [run_pure] at hend
  cases hend
  have hask : Tells env s (s.setOptionCmd TCWILL) := tells_nothing rfl
  have hreceive : Tells env (s.setOptionCmd TCWILL) u := tells_toggle .rcvbinary hdo
  have hrequest : Tells env u (u.setOptionCmd TCDO) := tells_nothing rfl
  have hsend : Tells env (u.setOptionCmd TCDO) t := tells_toggle .sndbinary hwill
  exact ((hask.trans hreceive).trans hrequest).trans hsend

theorem tells_will_termtype (hrun : (will_termtype env TOTERMTYPE).run s = .ok (res, t)) : Tells env s t := by
  rw [will_termtype, run_bind_of_ok (run_get s)] at hrun
  by_cases hsettled : settled s .termtype TCDO TCDONT
  · rw [if_pos hsettled, run_pure] at hrun
    cases hrun
    exact tells_nothing rfl
  · rw [if_neg hsettled, flip, run_bind_of_ok (run_modify _ s)] at hrun
    obtain ⟨_, u, hcheck, hrest⟩ := run_bind_eq_ok_iff.mp hrun
    obtain ⟨v, hflags, hsfp, hknown⟩ := known_check_term hcheck
    change u.flags = Function.update (Function.update s.flags .termtype _) .termtype v at hflags
    rw [Function.update_idem] at hflags
    change u.sfp = s.sfp at hsfp
    have hv : u.flags .termtype = v := by rw [hflags, Function.update_self]
    rw [run_bind_of_ok (run_answer_termtype u), run_bind_of_ok (run_get _), hv] at hrest
    -- the flag after the roll-back is what the answer tells
    have hanswer : Tells env s (u.sent (Flag.termtype.answered v).bytes) := by
      refine tells_answered .termtype hflags ?_ hknown
      rw [← hsfp]
      rfl
    refine hanswer.trans ?_
    dsimp only at hrest
    split at hrest
    · obtain ⟨_, w, hpath, hend⟩ := run_bind_eq_ok_iff.mp hrest
      rw [run_pure] at hend
      cases hend
      exact tells_binary_path hpath
    · rw [run_pure] at hrest
      cases hrest
      exact tells_nothing rfl

/-- A message about no option of the client changes nothing. -/
theorem tells_refusal (hm : ∀ flag : Flag, m ≠ flag.on ∧ m ≠ flag.off) (s : Client) : Tells env s (s.sent m.bytes) := by
  refine ⟨[m], ?_, ?_, id, fun _ _ rest => ?_⟩
  · rw [List.flatMap_cons, List.flatMap_nil, List.append_nil]
    rfl
  · intro flag
    have hnone : lastTold [m] flag = none := by simp [lastTold, (hm flag).1, (hm flag).2]
    rw [hnone]
    rfl
  · rw [List.flatMap_cons, List.flatMap_nil, List.append_nil]
    exact heard_bytes m rest

theorem tells_wopt_handler (hrun : (wopt_handler env c c).run s = .ok (res, t)) : Tells env s t := by
  by_cases hecho : c = TOECHO
  · subst hecho
    exact tells_do_echo hrun
  by_cases hnoga : c = TONOGA
  · subst hnoga
    exact tells_toggle .noga hrun
  by_cases hbin : c = TOTXBINARY
  · subst hbin
    exact tells_toggle .rcvbinary hrun
  rw [wopt_handler, if_neg hecho, if_neg hnoga, if_neg hbin, do_notsup, run_bind_of_ok (run_command TCDONT c s),
    run_pure] at hrun
  cases hrun
  refine tells_refusal (m := ⟨.DONT, c⟩) (fun flag => ?_) s
  cases flag <;> simp [Flag.on, Flag.off, hecho, hnoga, hbin]

theorem tells_dopt_handler (hrun : (dopt_handler env c c).run s = .ok (res, t)) : Tells env s t := by
  by_cases hterm : c = TOTERMTYPE
  · subst hterm
    exact tells_will_termtype hrun
  by_cases hbin : c = TOTXBINARY
  · subst hbin
    exact tells_toggle .sndbinary hrun
  rw [dopt_handler, if_neg hterm, if_neg hbin, will_notsup, run_bind_of_ok (run_command TCWONT c s), run_pure] at hrun
  cases hrun
  refine tells_refusal (m := ⟨.WONT, c⟩) (fun flag => ?_) s
  cases flag <;> simp [Flag.on, Flag.off, hterm, hbin]

theorem heard_subneg {name : List UInt8} (hname : TCIAC ∉ name) (rest : List UInt8) :
    heard .subneg (name ++ TCIAC :: TCSE :: rest) = heard .data rest := by
  induction name with
  | nil => rw [List.nil_append, heard, if_pos rfl, heard, if_pos rfl]
  | cons c name ih =>
    rw [List.mem_cons, not_or] at hname
    rw [List.cons_append, heard, if_neg (Ne.symm hname.1), ih hname.2]

/-- The answer to a request for the terminal type. -/
def termtypeAnswer (term : List UInt8) : List UInt8 := [TCIAC, TCSB, TOTERMTYPE, TT_IS] ++ (term ++ [TCIAC, TCSE])

theorem run_subtermtype {term : List UInt8} (hterm : s.term = some term) (c : UInt8) :
    (subtermtype c).run s = .ok (0, s.sent (termtypeAnswer term)) := by
  have hsame : (s.sent [TCIAC, TCSB, TOTERMTYPE, TT_IS]).term = some term := hterm
  rw [subtermtype, sputs, run_bind_of_ok (run_modify _ s), run_bind_of_ok (run_get _)]
  dsimp only
  rw [hsame]
  dsimp only
  rw [sputs, run_bind_of_ok (run_modify _ _), sputs, run_bind_of_ok (run_modify _ _), run_pure]
  simp only [Client.sent, termtypeAnswer, List.append_assoc]

/-- Without a name of the terminal there is nothing to send. -/
theorem run_subtermtype_null (hterm : s.term = none) (c : UInt8) : (subtermtype c).run s = .error .null := by
  have hsame : (s.sent [TCIAC, TCSB, TOTERMTYPE, TT_IS]).term = none := hterm
  rw [subtermtype, sputs, run_bind_of_ok (run_modify _ s), run_bind_of_ok (run_get _)]
  dsimp only
  rw [hsame]
  rfl

/-- A subnegotiation holds no message. -/
theorem utters_subtermtype (env : Env) (hrun : (subtermtype c).run s = .ok (res, t)) :
    ∃ text, Utters env s t text (commands text) := by
  cases hterm : s.term with
  | none =>
    rw [run_subtermtype_null hterm] at hrun
    cases hrun
  | some name =>
    rw [run_subtermtype hterm] at hrun
    cases hrun
    refine ⟨termtypeAnswer name, rfl, Agreed.refl _, id, fun hknown hclean rest => ?_⟩
    obtain ⟨n, hn⟩ := hknown name hterm
    have hplain : TCIAC ∉ TOTERMTYPE :: TT_IS :: name := by
      rw [List.mem_cons, List.mem_cons, not_or, not_or]
      exact ⟨by decide, by decide, hclean n name hn⟩
    calc heard .data (termtypeAnswer name ++ rest)
        = heard .data (TCIAC :: TCSB :: (TOTERMTYPE :: TT_IS :: name ++ TCIAC :: TCSE :: rest)) := by
          simp only [termtypeAnswer, List.cons_append, List.nil_append, List.append_assoc]
      _ = heard .subneg (TOTERMTYPE :: TT_IS :: name ++ TCIAC :: TCSE :: rest) := by
          rw [heard, if_pos rfl, heard, if_pos rfl]
      _ = heard .data rest := heard_subneg hplain rest

theorem utters_subopt (hrun : (subopt c).run s = .ok (res, t)) : ∃ text, Utters env s t text (commands text) := by
  obtain ⟨pt, u, htrans, hrest⟩ := run_bind_eq_ok_iff.mp hrun
  obtain ⟨hmem, hu⟩ := mem_of_run_transition htrans
  subst hu
  obtain ⟨_, v, haction, hend⟩ := run_bind_eq_ok_iff.mp hrest
  rw [run_bind_of_ok (run_modify _ v), run_pure] at hend
  cases hend
  have hrow : pt.ft_action = no_op ∨ pt.ft_action = subtermtype ∨ pt.ft_action = tnabort := by
    revert hmem pt
    simp [substab, subrows, invalidRow, onChar, onAny]
  have hstate : Utters env v (v.setSubstate pt.ft_next.toNat) [] [] := utters_nothing rfl
  rcases hrow with hrow | hrow | hrow
  · rw [hrow, no_op, run_pure] at haction
    cases haction
    exact ⟨[], hstate⟩
  · rw [hrow] at haction
    obtain ⟨text, hsaid⟩ := utters_subtermtype env haction
    have hboth := hsaid.trans hstate
    rw [List.append_nil, List.append_nil] at hboth
    exact ⟨text, hboth⟩
  · rw [hrow, tnabort, errexit, run_fail] at haction
    cases haction

theorem keeps_spoken_recopt (c : UInt8) : Keeps Client.spoken (recopt c) :=
  Keeps.bind (.modify fun _ => rfl) fun _ => .pure _

theorem keeps_spoken_subend (c : UInt8) : Keeps Client.spoken (subend c) :=
  Keeps.bind (.modify fun _ => rfl) fun _ => .pure _

theorem keeps_spoken_tcdm (c : UInt8) : Keeps Client.spoken (tcdm c) := by
  refine Keeps.bind (.modify fun s => ?_) fun _ => .pure _
  split
  · rfl
  · rfl

/-- Outside of an option, the client is silent or answers a subnegotiation. -/
def Aside (pt : fsm_trans Action) (c : UInt8) : Prop :=
  Keeps Client.spoken (pt.ft_action c) ∨ pt.ft_action = subopt

theorem aside_ttrows (env : Env) (c : UInt8) :
    ∀ pt ∈ ttrows env, pt.ft_state.toNat = TSWOPT ∨ pt.ft_state.toNat = TSDOPT ∨ Aside pt c := by
  have hno : Keeps Client.spoken (no_op c) := Keeps.pure _
  have hputc : Keeps Client.spoken (ttputc env c) := keeps_ttputc offscreen_spoken c
  have hdm := keeps_spoken_tcdm c
  have hrec := keeps_spoken_recopt c
  simp only [ttrows, List.forall_mem_cons]
  exact ⟨.inr (.inr (.inl hno)), .inr (.inr (.inl hputc)), .inr (.inr (.inl hputc)), .inr (.inr (.inl hno)),
    .inr (.inr (.inl hno)), .inr (.inr (.inl hdm)), .inr (.inr (.inl hrec)), .inr (.inr (.inl hrec)),
    .inr (.inr (.inl hrec)), .inr (.inr (.inl hrec)), .inr (.inr (.inl hno)), .inr (.inr (.inl hno)),
    .inr (.inr (.inr rfl)), .inr (.inr (.inl (keeps_spoken_subend c))), .inr (.inr (.inr rfl)), .inl rfl, .inl rfl,
    .inl rfl, .inl rfl, .inr (.inl rfl), .inr (.inl rfl), .inr (.inl rfl), by simp⟩

theorem Tells.utters (htells : Tells env s t) : ∃ text, Utters env s t text (commands text) := by
  obtain ⟨msgs, hsaid⟩ := htells
  exact ⟨msgs.flatMap Message.bytes, by rwa [commands_flatMap]⟩

/-- A row that is selected outside of an option. -/
theorem selected_aside
    (hrow : (ttstab env)[rowIndex (ttrows env) s.ttstate c.toNat]? = some pt) (hwopt : s.ttstate ≠ TSWOPT)
    (hdopt : s.ttstate ≠ TSDOPT) :
    Keeps Client.spoken (pt.ft_action c) ∨ pt.ft_action = subopt ∨ pt = invalidRow := by
  rcases selected_cases hrow with ⟨hmem, hfits⟩ | hlast
  · have hstate : pt.ft_state.toNat = s.ttstate := hfits.elim And.left And.left
    rcases aside_ttrows env c pt hmem with hw | hd | hsilent | hsub
    · exact absurd (hstate.symm.trans hw) hwopt
    · exact absurd (hstate.symm.trans hd) hdopt
    · exact .inl hsilent
    · exact .inr (.inl hsub)
  · exact .inr (.inr hlast)

/-- What the client says when its action is selected. -/
theorem utters_action (hrow : (ttstab env)[rowIndex (ttrows env) s.ttstate c.toNat]? = some pt)
    (haction : (pt.ft_action c).run s = .ok (res, t)) : ∃ text, Utters env s t text (commands text) := by
  by_cases hwopt : s.ttstate = TSWOPT
  · obtain ⟨row, hrow', hact, _⟩ := tt_wopt env c
    rw [hwopt, hrow', Option.some_inj] at hrow
    rw [← hrow, hact] at haction
    exact (tells_wopt_handler haction).utters
  by_cases hdopt : s.ttstate = TSDOPT
  · obtain ⟨row, hrow', hact, _⟩ := tt_dopt env c
    rw [hdopt, hrow', Option.some_inj] at hrow
    rw [← hrow, hact] at haction
    exact (tells_dopt_handler haction).utters
  rcases selected_aside hrow hwopt hdopt with hsilent | hsub | hlast
  · exact ⟨[], utters_nothing (hsilent s res t haction)⟩
  · rw [hsub] at haction
    exact utters_subopt haction
  · rw [hlast] at haction
    cases haction

/-- One received byte. -/
theorem utters_ttwrite_body (hb : Built env s.fsms) (hrun : (ttwrite_body env c).run s = .ok ((), t)) :
    ∃ text, Utters env s t text (commands text) := by
  obtain ⟨pt, res, u, hrow, haction, rfl⟩ := ttwrite_body_eq_ok hb hrun
  obtain ⟨text, hsaid⟩ := utters_action hrow haction
  have hboth := hsaid.trans (utters_nothing (t := u.setTtstate pt.ft_next.toNat) rfl)
  rw [List.append_nil, List.append_nil] at hboth
  exact ⟨text, hboth⟩

/-- A stream of received bytes. -/
theorem utters_ttwrite (hb : Built env s.fsms) (hrun : (ttwrite env buf).run s = .ok ((), t)) :
    ∃ text, Utters env s t text (told env buf s) := by
  rw [ttwrite] at hrun
  induction buf generalizing s with
  | nil =>
    rw [eachByte, run_pure] at hrun
    cases hrun
    exact ⟨[], utters_nothing rfl⟩
  | cons c buf ih =>
    obtain ⟨_, u, hbyte, hrest⟩ := run_bind_eq_ok_iff.mp hrun
    obtain ⟨text, hsaid⟩ := utters_ttwrite_body hb hbyte
    have hbu : Built env u.fsms := keeps_ttwrite_body c s () u hbyte ▸ hb
    obtain ⟨text', hsaid'⟩ := ih hbu hrest
    have hwritten : u.sfp.drop s.sfp.length = text := by rw [hsaid.sfp, List.drop_left]
    refine ⟨text ++ text', ?_⟩
    rw [told, hbyte]
    dsimp only
    rw [hwritten]
    exact hsaid.trans hsaid'

/-- The options of a client that has begun with all of them off. -/
theorem flags_iff_lastTold (hb : Built env s.fsms) (hoff : ∀ flag, s.flags flag = 0)
    (hrun : (ttwrite env buf).run s = .ok ((), t)) (flag : Flag) :
    t.flags flag ≠ 0 ↔ lastTold (told env buf s) flag = some flag.on := by
  obtain ⟨text, hsaid⟩ := utters_ttwrite hb hrun
  have hflag := hsaid.flags flag
  cases hlast : lastTold (told env buf s) flag with
  | some m =>
    rw [hlast] at hflag
    change t.flags flag ≠ 0 ↔ m = flag.on at hflag
    rw [hflag, Option.some_inj]
  | none =>
    rw [hlast] at hflag
    have hzero : t.flags flag = 0 := hflag.trans (hoff flag)
    simp [hzero]

/-- Whatever a client receives, its options are what it has last told the peer. The
peer reads the same messages on the socket, unless the name of the terminal, which
is sent as it is, has a command escape in it. -/
theorem flags_agree_told (env : Env) {s₀ s t : Client} (hfresh : s₀.Fresh)
    (hbuild : (fsmbuild env).run s₀ = .ok ((), s)) (buf : List UInt8) (hrun : (ttwrite env buf).run s = .ok ((), t)) :
    (∀ flag, t.flags flag ≠ 0 ↔ lastTold (told env buf s) flag = some flag.on) ∧
      (env.Clean → heard .data t.sfp = told env buf s) := by
  obtain ⟨fsms, hb, rfl⟩ := fsmbuild_eq_ok hbuild
  obtain ⟨text, hsaid⟩ := utters_ttwrite hb hrun
  refine ⟨flags_iff_lastTold hb hfresh.flags hrun, fun hclean => ?_⟩
  · have hknown : Known env (s₀.built fsms) := by
      intro name hname
      have hnone : (s₀.built fsms).term = none := hfresh.term
      rw [hnone] at hname
      cases hname
    have hsfp : t.sfp = text := by
      have hempty : (s₀.built fsms).sfp = [] := hfresh.sfp
      rw [hsaid.sfp, hempty, List.nil_append]
    have hread := hsaid.heard hknown hclean []
    rw [List.append_nil] at hread
    rw [hsfp, hread]
    exact List.append_nil _

/-- A client that is offered to suppress go-aheads. -/
theorem flags_agree_told_example : ∃ s t, (fsmbuild quietEnv).run (Client.zero fun _ => 0) = .ok ((), s) ∧
    (ttwrite quietEnv [TCIAC, TCWILL, TONOGA]).run s = .ok ((), t) ∧ t.flags .noga ≠ 0 ∧
    lastTold (told quietEnv [TCIAC, TCWILL, TONOGA] s) .noga = some ⟨.DO, TONOGA⟩ := by
  obtain ⟨fsms, hbuild, hb⟩ := run_fsmbuild quietEnv (Client.zero fun _ => 0)
  generalize hs : (Client.zero fun _ => 0).built fsms = s at hbuild
  have hb' : Built quietEnv s.fsms := hs ▸ hb
  have hdata : s.ttstate = TSDATA := hs ▸ rfl
  have hoff : (s.received .WILL).flags .noga = 0 := hs ▸ rfl
  have hask : (do_noga TONOGA).run (s.received .WILL) =
      .ok (0, ((s.received .WILL).setFlag .noga 1).sent [TCIAC, TCDO, TONOGA]) :=
    run_toggle_ask TCDO TCDONT hoff rfl (by decide)
  have hrun := run_receive hb' hdata ⟨.WILL, TONOGA⟩ hask
  have hon : (((s.received .WILL).setFlag .noga 1).sent [TCIAC, TCDO, TONOGA]).flags .noga ≠ 0 := by
    change ((s.received .WILL).setFlag .noga 1).flags .noga ≠ 0
    rw [setFlag_flags]
    decide
  exact ⟨s, _, hbuild, hrun, hon, ((flags_agree_told quietEnv zero_fresh hbuild _ hrun).1 .noga).mp hon⟩

end

end basic_data_struct.telnet
