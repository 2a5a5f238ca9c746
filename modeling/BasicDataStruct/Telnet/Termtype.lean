import BasicDataStruct.Telnet.Subnegotiation
import Mathlib.Data.List.Induction

open machine machine.Exec

namespace basic_data_struct.telnet

variable {buf done : List UInt8} {c : UInt8} {pt : fsm_trans Action} {r : Reading} {env : Env} {s t : Client}

variable {cmd : Cmd} {res : Int32}

/-- The byte `c` makes `ttwrite` call `subopt`, and `subopt` call `subtermtype`. -/
def CallsSubtermtype (env : Env) (s : Client) (c : UInt8) : Prop :=
  ∃ pt pt' : fsm_trans Action,
    (transition (·.fsms.ttfsm) (·.ttstate) NTSTATES (ttstab env) c).run s = .ok (pt, s) ∧ pt.ft_action = subopt ∧
    (transition (·.fsms.subfsm) (·.substate) NSSTATES substab c).run s = .ok (pt', s) ∧ pt'.ft_action = subtermtype

/-- While a client that was in the state `s` receives `buf`, it is in the state `t` behind the bytes `done`, and the
next byte makes it call `subtermtype`. -/
def Requested (env : Env) (s : Client) (buf done : List UInt8) (t : Client) : Prop :=
  ∃ c rest, buf = done ++ c :: rest ∧ (ttwrite env done).run s = .ok ((), t) ∧ CallsSubtermtype env t c

/-- The option has been on at some time before the end of `done`. -/
def WasOn (env : Env) (s : Client) (done : List UInt8) (flag : Flag) : Prop :=
  ∃ before t, before <+: done ∧ (ttwrite env before).run s = .ok ((), t) ∧ t.flags flag ≠ 0

/-- A reader of a stream behind the next byte, by the rules of the protocol. -/
def Reading.next : Reading → UInt8 → Reading
  | .data, c => if c = TCIAC then .iac else .data
  | .iac, c => if c = TCSB then .subneg else (Cmd.ofCode c).elim .data .option
  | .option _, _ => .data
  | .subneg, c => if c = TCIAC then .subiac else .subneg
  | .subiac, c => if c = TCSE then .data else .subneg

/-- The bytes `done` of the server have a `DO TERMINAL-TYPE` in them, and `getenv` gives a name
when the client comes to it. -/
def Asked (env : Env) (s : Client) (done : List UInt8) : Prop :=
  ∃ before rest u, done = before ++ TOTERMTYPE :: rest ∧ before.foldl .next .data = Reading.option .DO ∧
    (ttwrite env before).run s = .ok ((), u) ∧ (env.getenv u.calls).isSome

/-- The first machine of the client is where the reader is. -/
def Reading.Tracks (s : Client) : Reading → Prop
  | .data => s.ttstate = TSDATA
  | .iac => s.ttstate = TSIAC
  | .option cmd => s.ttstate = cmd.state ∧ s.option_cmd = cmd.code
  | .subneg => s.ttstate = TSSUBNEG
  | .subiac => s.ttstate = TSSUBIAC

section

variable {env : Env} {s t u : Client} {done : List UInt8} {flag : Flag}

/-- A run over a stream begins with one over the start of the stream. -/
theorem ttwrite_append_eq_ok {rest : List UInt8} (hrun : (ttwrite env (buf ++ rest)).run s = .ok ((), u)) :
    ∃ t, (ttwrite env buf).run s = .ok ((), t) ∧ (ttwrite env rest).run t = .ok ((), u) := by
  rw [ttwrite, run_eachByte_append] at hrun
  obtain ⟨_, t, hbuf, hrest⟩ := run_bind_eq_ok_iff.mp hrun
  exact ⟨t, hbuf, hrest⟩

/-- The rows for a command lead back to the data, but for those of negotiation and subnegotiation. -/
theorem iac_rows (env : Env) : ∀ pt ∈ ttrows env, pt.ft_state.toNat = TSIAC → pt.ft_next.toNat = TSDATA ∨
    ∃ c : UInt8, pt.ft_char = .ofNat c.toNat ∧ (c = TCSB ∨ Cmd.ofCode c ≠ none) := by
  intro pt hpt hstate
  simp only [ttrows, List.mem_cons, List.not_mem_nil, or_false] at hpt
  rcases hpt with rfl | rfl | rfl | rfl | rfl | rfl | rfl | rfl | rfl | rfl | rfl | rfl | rfl | rfl | rfl | rfl | rfl |
    rfl | rfl | rfl | rfl | rfl
  all_goals first
    | exact .inl rfl
    | exact absurd hstate (by decide)
    | exact .inr ⟨_, rfl, by decide⟩

theorem next_iac (hsb : c ≠ TCSB) (hcmd : Cmd.ofCode c = none)
    (hrow : (ttstab env)[rowIndex (ttrows env) TSIAC c.toNat]? = some pt) :
    pt.ft_next.toNat = TSDATA ∨ pt = invalidRow := by
  rcases selected_cases hrow with ⟨hmem, hfits⟩ | hlast
  · rcases iac_rows env pt hmem (hfits.elim And.left And.left) with hnext | ⟨c', hchar, hother⟩
    · exact .inl hnext
    · rcases hfits with ⟨_, _, hc⟩ | ⟨_, hany⟩
      · rw [hchar, toInt_ofChar] at hc
        obtain rfl := UInt8.toNat_inj.mp (Int.ofNat_inj.mp hc)
        exact absurd hother (not_or.mpr ⟨hsb, not_not_intro hcmd⟩)
      · exact absurd (hchar.symm.trans hany) (ofChar_ne_any c')
  · exact .inr hlast

theorem Cmd.code_of_ofCode (h : Cmd.ofCode c = some cmd) : c = cmd.code := by
  unfold Cmd.ofCode at h
  repeat' split at h
  all_goals cases h
  all_goals assumption

/-- The machine follows the reader. -/
theorem Reading.Tracks.byte (hr : r.Tracks s) (hb : Built env s.fsms)
    (hrun : (ttwrite_body env c).run s = .ok ((), t)) : (r.next c).Tracks t := by
  obtain ⟨pt, res, u, hrow, haction, rfl⟩ := ttwrite_body_eq_ok hb hrun
  cases r with
  | data =>
    rw [show s.ttstate = TSDATA from hr] at hrow
    by_cases hc : c = TCIAC
    · subst hc
      cases hrow
      rfl
    · rw [tt_data env hc] at hrow
      cases hrow
      rw [Reading.next, if_neg hc]
      rfl
  | iac =>
    rw [show s.ttstate = TSIAC from hr] at hrow
    rw [Reading.next]
    by_cases hsb : c = TCSB
    · rw [hsb, tt_iac_sb] at hrow
      cases hrow
      rw [if_pos hsb]
      rfl
    rw [if_neg hsb]
    cases hcmd : Cmd.ofCode c with
    | none =>
      rcases next_iac hsb hcmd hrow with hnext | rfl
      · exact hnext
      · cases haction
    | some cmd =>
      obtain rfl := Cmd.code_of_ofCode hcmd
      obtain ⟨row, hrow', hact, hnext⟩ := tt_iac_cmd env cmd
      cases hrow'.symm.trans hrow
      rw [hact] at haction
      cases haction
      exact ⟨hnext, rfl⟩
  | option cmd =>
    rw [hr.1] at hrow
    obtain ⟨row, hrow', -, hnext⟩ := tt_option env ⟨cmd, c⟩
    cases hrow'.symm.trans hrow
    exact congrArg UInt8.toNat hnext
  | subneg =>
    rw [show s.ttstate = TSSUBNEG from hr] at hrow
    by_cases hc : c = TCIAC
    · rw [hc, tt_subneg_iac] at hrow
      cases hrow
      rw [Reading.next, if_pos hc]
      rfl
    · rw [tt_subneg env hc] at hrow
      cases hrow
      rw [Reading.next, if_neg hc]
      rfl
  | subiac =>
    rw [show s.ttstate = TSSUBIAC from hr] at hrow
    by_cases hc : c = TCSE
    · rw [hc, tt_subiac_se] at hrow
      cases hrow
      rw [Reading.next, if_pos hc]
      rfl
    · rw [tt_subiac env hc] at hrow
      cases hrow
      rw [Reading.next, if_neg hc]
      rfl

/-- The name and the option. -/
def Client.naming (s : Client) : Option (List UInt8) × Int8 := (s.term, s.flags .termtype)

/-- What a byte does to them: a `DO` turns the option on if there is a name, and a `DONT` turns it off. -/
def nameStep (env : Env) (calls : Nat) : Reading → UInt8 → Option (List UInt8) × Int8 → Option (List UInt8) × Int8
  | .option .DO, c, (term, termtype) =>
    if c = TOTERMTYPE ∧ termtype = 0 then
      (term.or (env.getenv calls), if (term.or (env.getenv calls)).isSome then 1 else 0)
    else (term, termtype)
  | .option .DONT, c, (term, termtype) => (term, if c = TOTERMTYPE then 0 else termtype)
  | _, _, n => n

theorem offwire_naming : Offwire Client.naming := {}

/-- The other options do not count. -/
theorem naming_setFlag (hne : flag ≠ .termtype) (s : Client) (v : Int8) : (s.setFlag flag v).naming = s.naming := by
  have hflag : Function.update s.flags flag v .termtype = s.flags .termtype := by
    exact Function.update_of_ne hne.symm v s.flags
  exact Prod.ext rfl hflag

theorem find_term_eq_ok {found : Bool} (hrun : (find_term env).run s = .ok (found, t)) :
    found = t.term.isSome ∧ t.flags = s.flags ∧ t.term = s.term.or (env.getenv s.calls) := by
  rw [find_term, run_bind_of_ok (run_get s)] at hrun
  cases hterm : s.term with
  | some name =>
    rw [hterm, if_pos Option.isSome_some, run_pure] at hrun
    cases hrun
    exact ⟨hterm ▸ rfl, rfl, hterm⟩
  | none =>
    rw [hterm, if_neg (by decide), run_bind_of_ok (run_call s), run_bind_of_ok (run_modify _ _), run_pure] at hrun
    cases hrun
    exact ⟨rfl, rfl, rfl⟩

/-- The option stays on only if there is a name. -/
theorem check_term_eq_ok (hon : s.flags .termtype ≠ 0) (hrun : (check_term env).run s = .ok ((), t)) :
    t.naming = (s.term.or (env.getenv s.calls),
      if (s.term.or (env.getenv s.calls)).isSome then s.flags .termtype else 0) := by
  rw [check_term, run_bind_of_ok (run_get s), if_pos hon] at hrun
  obtain ⟨found, u, hfind, hrest⟩ := run_bind_eq_ok_iff.mp hrun
  obtain ⟨hfound, hflags, hterm⟩ := find_term_eq_ok hfind
  rw [← hterm, ← hfound]
  cases found with
  | true =>
    rw [if_pos rfl, run_pure] at hrest
    cases hrest
    exact Prod.ext rfl (congrFun hflags _)
  | false =>
    rw [if_neg (by decide), flip, run_modify] at hrest
    cases hrest
    have hoff : (u.setFlag .termtype (lnot (u.flags .termtype))).flags .termtype = 0 := by
      rw [setFlag_flags, hflags]
      exact if_neg hon
    exact Prod.ext rfl hoff

/-- What is left of `will_termtype` behind `check_term` only answers and sets up the binary data path. -/
theorem will_termtype_eq_ok (hrun : (will_termtype env TOTERMTYPE).run s = .ok (res, t)) :
    (settled s .termtype TCDO TCDONT ∧ t = s) ∨ (¬settled s .termtype TCDO TCDONT ∧
      ∃ u, (check_term env).run (s.setFlag .termtype (lnot (s.flags .termtype))) = .ok ((), u) ∧
        t.naming = u.naming) := by
  rw [will_termtype, run_bind_of_ok (run_get s)] at hrun
  by_cases hsettled : settled s .termtype TCDO TCDONT
  · rw [if_pos hsettled, run_pure] at hrun
    cases hrun
    exact .inl ⟨hsettled, rfl⟩
  rw [if_neg hsettled, flip, run_bind_of_ok (run_modify _ s)] at hrun
  obtain ⟨_, u, hcheck, hrest⟩ := run_bind_eq_ok_iff.mp hrun
  have hpath : Keeps Client.naming binary_path :=
    keeps_binary_path offwire_naming (naming_setFlag (by decide)) (naming_setFlag (by decide))
  have hanswers : Keeps Client.naming (do
      answer .termtype TCWILL TCWONT TOTERMTYPE
      let s ← get
      if s.flags .termtype ≠ 0 then binary_path else pure ()
      return (0 : Int32)) := by
    refine (keeps_answer offwire_naming _ _ _ _).bind fun _ => Keeps.get.bind fun _ => .ite _ ?_ ?_
    · exact hpath.bind fun _ => .pure _
    · exact (Keeps.pure ()).bind fun _ => .pure _
  exact .inr ⟨hsettled, u, hcheck, hanswers u res t hrest⟩

theorem naming_will_termtype (hcmd : s.option_cmd = cmd.code) (hdopt : cmd.state = TSDOPT)
    (hrun : (will_termtype env TOTERMTYPE).run s = .ok (res, t)) :
    t.naming = nameStep env s.calls (.option cmd) TOTERMTYPE s.naming := by
  have hflip : (s.setFlag .termtype (lnot (s.flags .termtype))).flags .termtype = lnot (s.flags .termtype) :=
    setFlag_flags ..
  have hresult := will_termtype_eq_ok hrun
  rw [settled, hcmd] at hresult
  by_cases hoff : s.flags .termtype = 0
  · rw [if_neg (not_not_intro hoff)] at hresult
    rw [hoff, show lnot 0 = 1 from rfl] at hflip hresult
    cases cmd with
    | WILL | WONT => exact absurd hdopt (by decide)
    | DO =>
      rcases hresult with ⟨hdont, _⟩ | ⟨_, u, hcheck, hsame⟩
      · exact absurd hdont (by decide)
      rw [hsame, check_term_eq_ok (by rw [hflip]; decide) hcheck, hflip]
      exact (if_pos ⟨rfl, hoff⟩).symm
    | DONT =>
      rcases hresult with ⟨_, rfl⟩ | ⟨hopen, _⟩
      · exact Prod.ext rfl hoff
      · exact absurd rfl hopen
  · rw [if_pos hoff] at hresult
    cases cmd with
    | WILL | WONT => exact absurd hdopt (by decide)
    | DO =>
      rcases hresult with ⟨_, rfl⟩ | ⟨hopen, _⟩
      · exact (if_neg fun h => hoff h.2).symm
      · exact absurd rfl hopen
    | DONT =>
      rcases hresult with ⟨hdo, _⟩ | ⟨_, u, hcheck, hsame⟩
      · exact absurd hdo (by decide)
      have hzero : (s.setFlag .termtype (lnot (s.flags .termtype))).flags .termtype = 0 := hflip.trans (if_neg hoff)
      rw [check_term, run_bind_of_ok (run_get _), if_neg (not_not_intro hzero), run_pure] at hcheck
      cases hcheck
      exact hsame.trans (Prod.ext rfl hzero)

theorem keeps_naming_wopt_handler (c : UInt8) : Keeps Client.naming (wopt_handler env c c) := by
  unfold wopt_handler
  split
  · exact keeps_do_echo offwire_naming (naming_setFlag (by decide)) c
  · split
    · exact keeps_toggle offwire_naming (naming_setFlag (by decide)) _ _ _ _ c
    · split
      · exact keeps_toggle offwire_naming (naming_setFlag (by decide)) _ _ _ _ c
      · exact keeps_refusal offwire_naming _ c

theorem keeps_naming_dopt_handler (hterm : c ≠ TOTERMTYPE) : Keeps Client.naming (dopt_handler env c c) := by
  unfold dopt_handler
  rw [if_neg hterm]
  split
  · exact keeps_toggle offwire_naming (naming_setFlag (by decide)) _ _ _ _ c
  · exact keeps_refusal offwire_naming _ c

/-- Only `will_termtype` changes the name and the option. -/
theorem Reading.Tracks.naming {r : Reading} {c : UInt8} (hr : r.Tracks s) (hb : Built env s.fsms)
    (hrun : (ttwrite_body env c).run s = .ok ((), t)) : t.naming = nameStep env s.calls r c s.naming := by
  obtain ⟨pt, res, u, hrow, haction, rfl⟩ := ttwrite_body_eq_ok hb hrun
  change u.naming = _
  have haside (hwopt : s.ttstate ≠ TSWOPT) (hdopt : s.ttstate ≠ TSDOPT) : u.naming = s.naming := by
    rcases selected_aside hrow hwopt hdopt with hsilent | hsub | rfl
    · have hsame := hsilent s res u haction
      simp only [Client.spoken, Prod.mk.injEq] at hsame
      exact Prod.ext hsame.2.2 (congrFun hsame.1 _)
    · rw [hsub] at haction
      exact keeps_subopt offwire_naming (fun _ _ => rfl) c s res u haction
    · cases haction
  cases r with
  | data | iac | subneg | subiac =>
    have hstate : s.ttstate = _ := hr
    exact haside (by rw [hstate]; decide) (by rw [hstate]; decide)
  | option cmd =>
    obtain ⟨hstate, hcmd⟩ := hr
    obtain ⟨row, hrow', hact, -⟩ := tt_option env ⟨cmd, c⟩
    rw [hstate] at hrow
    cases hrow'.symm.trans hrow
    rw [hact] at haction
    by_cases hdopt : cmd.state = TSDOPT ∧ c = TOTERMTYPE
    · obtain ⟨hdopt, rfl⟩ := hdopt
      cases cmd with
      | WILL | WONT => exact absurd hdopt (by decide)
      | DO | DONT => exact naming_will_termtype hcmd hdopt haction
    · cases cmd with
      | WILL | WONT => exact keeps_naming_wopt_handler c s res u haction
      | DO =>
        have hc : c ≠ TOTERMTYPE := fun hc => hdopt ⟨rfl, hc⟩
        exact (keeps_naming_dopt_handler hc s res u haction).trans (if_neg fun h => hc h.1).symm
      | DONT =>
        have hc : c ≠ TOTERMTYPE := fun hc => hdopt ⟨rfl, hc⟩
        rw [keeps_naming_dopt_handler hc s res u haction]
        exact Prod.ext rfl (if_neg hc).symm

/-- What every byte keeps of the name and the option, a stream keeps, and the machine follows the reader. -/
theorem Reading.Tracks.run {P : Option (List UInt8) × Int8 → Prop} {r : Reading} {buf : List UInt8}
    (hP : ∀ calls r c n, P n → P (nameStep env calls r c n)) (hr : r.Tracks s) (hb : Built env s.fsms) (hs : P s.naming)
    (hrun : (ttwrite env buf).run s = .ok ((), t)) : (buf.foldl .next r).Tracks t ∧ P t.naming := by
  induction buf generalizing r s with
  | nil =>
    rw [ttwrite, eachByte, run_pure] at hrun
    cases hrun
    exact ⟨hr, hs⟩
  | cons c buf ih =>
    obtain ⟨_, u, hbyte, hrest⟩ := run_bind_eq_ok_iff.mp hrun
    have hu : P u.naming := hr.naming hb hbyte ▸ hP _ _ _ _ hs
    exact ih (hr.byte hb hbyte) (keeps_ttwrite_body c s () u hbyte ▸ hb) hu hrest

theorem tracks_ttwrite {buf : List UInt8} (hb : Built env s.fsms) (htt : s.ttstate = TSDATA)
    (hrun : (ttwrite env buf).run s = .ok ((), t)) : (buf.foldl Reading.next .data).Tracks t :=
  (Reading.Tracks.run (P := fun _ => True) (r := .data) (fun _ _ _ _ _ => trivial) htt hb trivial hrun).1

/-- A name is not forgotten. -/
theorem isSome_nameStep (calls : Nat) (r : Reading) (c : UInt8) (n : Option (List UInt8) × Int8) (hn : n.1.isSome) :
    (nameStep env calls r c n).1.isSome := by
  unfold nameStep
  split <;> grind

/-- The option is not on without a name. -/
theorem named_nameStep (calls : Nat) (r : Reading) (c : UInt8) (n : Option (List UInt8) × Int8)
    (hn : n.2 ≠ 0 → n.1.isSome) : (nameStep env calls r c n).2 ≠ 0 → (nameStep env calls r c n).1.isSome := by
  unfold nameStep
  split <;> grind

theorem nameStep_unnamed {calls : Nat} {r : Reading} {c : UInt8}
    (h : ¬(r = .option .DO ∧ c = TOTERMTYPE ∧ (env.getenv calls).isSome)) :
    nameStep env calls r c (none, 0) = (none, 0) := by
  unfold nameStep
  split
  case h_1 heq =>
    cases heq
    split
    case isTrue hc =>
      have hnone : env.getenv calls = none := Option.not_isSome_iff_eq_none.mp fun hname => h ⟨rfl, hc.1, hname⟩
      rw [hnone]
      rfl
    case isFalse => rfl
  case h_2 heq =>
    cases heq
    exact Prod.ext rfl (ite_self _)
  case h_3 => rfl

theorem Asked.append (hasked : Asked env s done) (rest : List UInt8) : Asked env s (done ++ rest) := by
  obtain ⟨before, rest', u, rfl, hreads, hrun, hname⟩ := hasked
  exact ⟨before, rest' ++ rest, u, by simp, hreads, hrun, hname⟩

/-- Until the server asks while there is a name, the client has no name and the option is off. -/
theorem asked_or_unnamed (hb : Built env s.fsms) (htt : s.ttstate = TSDATA) (hs : s.naming = (none, 0))
    (hrun : (ttwrite env done).run s = .ok ((), t)) : Asked env s done ∨ t.naming = (none, 0) := by
  induction done using List.reverseRecOn generalizing t with
  | nil =>
    rw [ttwrite, eachByte, run_pure] at hrun
    cases hrun
    exact .inr hs
  | append_singleton done c ih =>
    obtain ⟨u, hdone, hlast⟩ := ttwrite_append_eq_ok hrun
    obtain ⟨_, v, hbyte, hend⟩ := run_bind_eq_ok_iff.mp hlast
    rw [eachByte, run_pure] at hend
    cases hend
    rcases ih hdone with hasked | hu
    · exact .inl (hasked.append [c])
    have hbu : Built env u.fsms := keeps_ttwrite done s () u hdone ▸ hb
    have hv := (tracks_ttwrite hb htt hdone).naming hbu hbyte
    rw [hu] at hv
    by_cases hasks : done.foldl Reading.next .data = .option .DO ∧ c = TOTERMTYPE ∧ (env.getenv u.calls).isSome
    · obtain ⟨hreads, rfl, hname⟩ := hasks
      exact .inl ⟨done, [], u, rfl, hreads, hdone, hname⟩
    · exact .inr (hv.trans (nameStep_unnamed hasks))

/-- The client has agreed to the option exactly if the server has asked for it when there was a name. -/
theorem wasOn_iff_asked (hb : Built env s.fsms) (htt : s.ttstate = TSDATA) (hs : s.naming = (none, 0))
    (hrun : (ttwrite env done).run s = .ok ((), t)) : WasOn env s done .termtype ↔ Asked env s done := by
  constructor
  · rintro ⟨before, u, ⟨rest, rfl⟩, hbefore, hon⟩
    rcases asked_or_unnamed hb htt hs hbefore with hasked | hu
    · exact hasked.append rest
    · exact absurd (Prod.mk.inj hu).2 hon
  · rintro ⟨before, rest, u, rfl, hreads, hbefore, hname⟩
    by_cases hon : u.flags .termtype ≠ 0
    · exact ⟨before, u, ⟨_, rfl⟩, hbefore, hon⟩
    obtain ⟨u', hbefore', hrest⟩ := ttwrite_append_eq_ok hrun
    cases hbefore.symm.trans hbefore'
    obtain ⟨_, v, hbyte, _⟩ := run_bind_eq_ok_iff.mp hrest
    have hbu : Built env u.fsms := keeps_ttwrite before s () u hbefore ▸ hb
    have htracks : (before.foldl Reading.next .data).Tracks u := tracks_ttwrite hb htt hbefore
    rw [hreads] at htracks
    have hrun_v : (ttwrite env (before ++ [TOTERMTYPE])).run s = .ok ((), v) := by
      rw [run_ttwrite_append hbefore, ttwrite, eachByte, run_bind_of_ok hbyte]
      rfl
    refine ⟨before ++ [TOTERMTYPE], v, ⟨rest, by simp⟩, hrun_v, ?_⟩
    have hsome : (u.term.or (env.getenv u.calls)).isSome := by rw [Option.isSome_or, hname, Bool.or_true]
    have hv := htracks.naming hbu hbyte
    rw [Client.naming, Client.naming, not_not.mp hon, nameStep, if_pos ⟨rfl, rfl⟩, if_pos hsome] at hv
    rw [(Prod.mk.inj hv).2]
    decide

/-- An option that has been on has left a name. -/
theorem WasOn.named (hb : Built env s.fsms) (htt : s.ttstate = TSDATA) (hoff : s.flags .termtype = 0)
    (hrun : (ttwrite env done).run s = .ok ((), t))
    (hon : WasOn env s done .termtype) : t.term ≠ none := by
  obtain ⟨before, u, ⟨rest, rfl⟩, hrun_u, hflag⟩ := hon
  obtain ⟨u', hrun_u', hrest⟩ := ttwrite_append_eq_ok hrun
  rw [hrun_u] at hrun_u'
  cases hrun_u'
  obtain ⟨htracks, hnamed⟩ := Reading.Tracks.run (r := .data) named_nameStep htt hb (fun h => absurd hoff h) hrun_u
  have hbu : Built env u.fsms := keeps_ttwrite before s () u hrun_u ▸ hb
  have hterm : t.term.isSome := (htracks.run isSome_nameStep hbu (hnamed hflag) hrest).2
  exact Option.isSome_iff_ne_none.mp hterm

end

/-- Whenever `subtermtype` runs, the client has agreed to the option before and there is a name to send, exactly if
the server never requests the terminal type before a `DO TERMINAL-TYPE` that finds a name in the environment. Nothing is
assumed about the stream, nor about what the calls of the client return. -/
theorem subtermtype_agreed_iff (env : Env) {s₀ s : Client} (hfresh : s₀.Fresh)
    (hbuild : (fsmbuild env).run s₀ = .ok ((), s)) (buf : List UInt8) :
    (∀ done t, Requested env s buf done t → WasOn env s done .termtype ∧ t.term ≠ none) ↔
      ∀ done t, Requested env s buf done t → Asked env s done := by
  obtain ⟨fsms, hb, rfl⟩ := fsmbuild_eq_ok hbuild
  have hoff : (s₀.built fsms).naming = (none, 0) := Prod.ext hfresh.term (hfresh.flags _)
  refine forall_congr' fun done => forall_congr' fun t => imp_congr_right fun hrequested => ?_
  obtain ⟨c, rest, _, hrun, _⟩ := hrequested
  rw [← wasOn_iff_asked hb rfl hoff hrun]
  exact and_iff_left_of_imp fun hon => hon.named hb rfl (Prod.mk.inj hoff).2 hrun

section Unasked

variable {env : Env} {s : Client}

/-- The start of a request for the terminal type. -/
theorem run_request_start (hb : Built env s.fsms) (htt : s.ttstate = TSDATA) (hsub : s.substate = SS_START) :
    (ttwrite env [TCIAC, TCSB, TOTERMTYPE]).run s = .ok ((), (s.setTtstate TSSUBNEG).setSubstate SS_TERMTYPE) := by
  have hstart : (s.setTtstate TSSUBNEG).substate < NSSTATES := hsub ▸ (by decide : SS_START < NSSTATES)
  have hnext : subNext (s.setTtstate TSSUBNEG).substate TOTERMTYPE = SS_TERMTYPE := if_pos ⟨hsub, rfl⟩
  have haction := run_subopt_silent (s := s.setTtstate TSSUBNEG) hb hstart (c := TOTERMTYPE)
    fun h => absurd h.2 (by decide)
  rw [hnext] at haction
  have hoption := run_ttwrite_body (s := s.setTtstate TSSUBNEG) hb (rfl : _ = TSSUBNEG) (by decide)
    (tt_subneg env (by decide)) haction
  refine (run_ttwrite_append (run_subneg_open hb htt) [TOTERMTYPE]).trans ?_
  rw [ttwrite, eachByte, run_bind_of_ok hoption]
  rfl

/-- The rest of the request calls `subtermtype`. -/
theorem callsSubtermtype (hb : Built env s.fsms) :
    CallsSubtermtype env ((s.setTtstate TSSUBNEG).setSubstate SS_TERMTYPE) TT_SEND := by
  have hinside : TSSUBNEG < NTSTATES := by decide
  have hknown : SS_TERMTYPE < NSSTATES := by decide
  exact ⟨onAny TSSUBNEG TSSUBNEG subopt, onChar SS_TERMTYPE TT_SEND SS_END subtermtype,
    run_transition hb.ttfsm hinside (tt_subneg env (by decide)), rfl, run_transition hb.subfsm hknown sub_send, rfl⟩

end Unasked

/-- A server that asks for the terminal type at once makes the client write a name that it does not have. -/
theorem subtermtype_unasked : ∃ s t, (fsmbuild quietEnv).run (Client.zero fun _ => 0) = .ok ((), s) ∧
    Requested quietEnv s [TCIAC, TCSB, TOTERMTYPE, TT_SEND] [TCIAC, TCSB, TOTERMTYPE] t ∧
    ¬WasOn quietEnv s [TCIAC, TCSB, TOTERMTYPE] .termtype ∧ t.term = none := by
  obtain ⟨fsms, hbuild, hb⟩ := run_fsmbuild quietEnv (Client.zero fun _ => 0)
  have hrun := run_request_start (s := (Client.zero fun _ => 0).built fsms) hb rfl rfl
  refine ⟨_, _, hbuild, ⟨TT_SEND, [], rfl, hrun, callsSubtermtype hb⟩, fun hon => ?_, rfl⟩
  exact hon.named hb rfl rfl hrun rfl

section Agreed

/-- An environment with the name of a terminal. -/
def namedEnv : Env := { quietEnv with getenv _ := some [118, 116] }

/-- `subopt` is no action that always returns. -/
theorem not_callsSubtermtype (hb : Built env s.fsms)
    (hrow : (ttstab env)[rowIndex (ttrows env) s.ttstate c.toNat]? = some pt) (htotal : Total (pt.ft_action c)) :
    ¬CallsSubtermtype env s c := by
  rintro ⟨row, _, htrans, hact, _⟩
  obtain ⟨hrow', _⟩ := transition_eq_ok hb.ttfsm htrans
  cases hrow.symm.trans hrow'
  rw [hact] at htotal
  obtain ⟨_, _, hrun⟩ := htotal (s.setSubstate NSSTATES)
  cases hrun

theorem asked_of_prefix (hname : ∀ n, (env.getenv n).isSome)
    (hrun : (ttwrite env (TCIAC :: TCDO :: TOTERMTYPE :: done)).run s = .ok ((), t)) :
    Asked env s (TCIAC :: TCDO :: TOTERMTYPE :: done) := by
  have hsplit : (ttwrite env ([TCIAC, TCDO] ++ TOTERMTYPE :: done)).run s = .ok ((), t) := hrun
  obtain ⟨u, hbefore, _⟩ := ttwrite_append_eq_ok hsplit
  exact ⟨[TCIAC, TCDO], done, u, rfl, rfl, hbefore, hname _⟩

/-- In a stream that begins with `DO TERMINAL-TYPE` no request is before it. -/
theorem asked_of_requested (hb : Built env s.fsms) (htt : s.ttstate = TSDATA) (hname : ∀ n, (env.getenv n).isSome)
    (hreq : Requested env s (TCIAC :: TCDO :: TOTERMTYPE :: buf) done t) : Asked env s done := by
  obtain ⟨c, rest, hbuf, hrun, hcalls⟩ := hreq
  have htracks : (done.foldl Reading.next .data).Tracks t := tracks_ttwrite hb htt hrun
  have hbt : Built env t.fsms := keeps_ttwrite done s () t hrun ▸ hb
  match done, hbuf with
  | [], hbuf =>
    cases hbuf
    have hstate : t.ttstate = TSDATA := htracks
    exact absurd hcalls (not_callsSubtermtype hbt (hstate ▸ tt_data_iac env) (.pure _))
  | [_], hbuf =>
    cases hbuf
    have hstate : t.ttstate = TSIAC := htracks
    obtain ⟨row, hrow, hact, _⟩ := tt_iac_cmd env .DO
    refine absurd hcalls (not_callsSubtermtype hbt (hstate ▸ hrow) ?_)
    rw [hact]
    exact fun s => ⟨_, _, rfl⟩
  | [_, _], hbuf =>
    cases hbuf
    have hstate : t.ttstate = TSDOPT := htracks.1
    obtain ⟨row, hrow, hact, _⟩ := tt_option env ⟨.DO, TOTERMTYPE⟩
    exact absurd hcalls (not_callsSubtermtype hbt (hstate ▸ hrow) (hact ▸ total_handler env _ _))
  | _ :: _ :: _ :: done, hbuf =>
    cases hbuf
    exact asked_of_prefix hname hrun

end Agreed

/-- A server that asks for the option first gets the name. -/
theorem subtermtype_agreed_iff_asked : ∃ s t, (fsmbuild namedEnv).run (Client.zero fun _ => 0) = .ok ((), s) ∧
    Requested namedEnv s [TCIAC, TCDO, TOTERMTYPE, TCIAC, TCSB, TOTERMTYPE, TT_SEND]
      [TCIAC, TCDO, TOTERMTYPE, TCIAC, TCSB, TOTERMTYPE] t ∧
    WasOn namedEnv s [TCIAC, TCDO, TOTERMTYPE, TCIAC, TCSB, TOTERMTYPE] .termtype ∧ t.term ≠ none := by
  obtain ⟨fsms, hbuild, hb⟩ := run_fsmbuild namedEnv (Client.zero fun _ => 0)
  have hwill : ((⟨.DO, TOTERMTYPE⟩ : Message).handler namedEnv TOTERMTYPE).run
      (((Client.zero fun _ => 0).built fsms).received .DO) = .ok (0, _) := rfl
  have hdo := run_receive (s := (Client.zero fun _ => 0).built fsms) hb rfl ⟨.DO, TOTERMTYPE⟩ hwill
  have hstart : (ttwrite namedEnv [TCIAC, TCDO, TOTERMTYPE, TCIAC, TCSB, TOTERMTYPE]).run _ = .ok ((), _) :=
    (run_ttwrite_append hdo [TCIAC, TCSB, TOTERMTYPE]).trans (run_request_start hb rfl rfl)
  have hreq : Requested namedEnv _ [TCIAC, TCDO, TOTERMTYPE, TCIAC, TCSB, TOTERMTYPE, TT_SEND] _ _ :=
    ⟨TT_SEND, [], rfl, hstart, callsSubtermtype hb⟩
  refine ⟨_, _, hbuild, hreq, ?_⟩
  exact (subtermtype_agreed_iff namedEnv zero_fresh hbuild _).mpr
    (fun _ _ hreq => asked_of_requested hb rfl (fun _ => rfl) hreq) _ _ hreq

end basic_data_struct.telnet
