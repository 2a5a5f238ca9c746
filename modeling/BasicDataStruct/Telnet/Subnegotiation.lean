import BasicDataStruct.Telnet.Agreement

open machine machine.Exec

namespace basic_data_struct.telnet

/-- The state behind a byte of a payload. -/
def subNext (substate : Nat) (c : UInt8) : Nat :=
  if substate = SS_START ∧ c = TOTERMTYPE then SS_TERMTYPE else SS_END

/-- What is sent for a byte of a payload. -/
def subReply (term : List UInt8) (substate : Nat) (c : UInt8) : List UInt8 :=
  if substate = SS_TERMTYPE ∧ c = TT_SEND then termtypeAnswer term else []

/-- What is sent for a payload. -/
def payloadReply (term : List UInt8) : Nat → List UInt8 → List UInt8
  | _, [] => []
  | substate, c :: q => subReply term substate c ++ payloadReply term (subNext substate c) q

theorem payloadReply_end (term q : List UInt8) : payloadReply term SS_END q = [] := by
  induction q with
  | nil => rfl
  | cons c q ih => exact ih

/-- Only the first two bytes of a payload count. -/
theorem payloadReply_start (term q : List UInt8) :
    payloadReply term SS_START q = if [TOTERMTYPE, TT_SEND] <+: q then termtypeAnswer term else [] := by
  match q with
  | [] => rfl
  | [c] =>
    have hshort : ¬[TOTERMTYPE, TT_SEND] <+: [c] := fun h => absurd h.length_le (Nat.not_succ_le_self 1)
    rw [if_neg hshort]
    rfl
  | c :: d :: q =>
    have hfirst : payloadReply term SS_START (c :: d :: q) = payloadReply term (subNext SS_START c) (d :: q) := rfl
    have hasks : [TOTERMTYPE, TT_SEND] <+: c :: d :: q ↔ c = TOTERMTYPE ∧ d = TT_SEND := by
      rw [List.cons_prefix_cons, List.cons_prefix_cons, and_iff_left List.nil_prefix, eq_comm, eq_comm (a := d)]
    rw [hfirst, subNext]
    by_cases hc : c = TOTERMTYPE
    · rw [if_pos ⟨rfl, hc⟩, payloadReply, subReply]
      by_cases hd : d = TT_SEND
      · rw [if_pos ⟨rfl, hd⟩, if_pos (hasks.mpr ⟨hc, hd⟩)]
        exact (congrArg _ (payloadReply_end term q)).trans (List.append_nil _)
      · rw [if_neg fun h => hd h.2, if_neg fun h => hd (hasks.mp h).2]
        exact payloadReply_end term q
    · rw [if_neg fun h => hc h.2, if_neg fun h => hc (hasks.mp h).1]
      exact payloadReply_end term (d :: q)

section Rows

variable {c : UInt8}

theorem tt_iac_sb (env : Env) :
    (ttstab env)[rowIndex (ttrows env) TSIAC TCSB.toNat]? = some (onChar TSIAC TCSB TSSUBNEG no_op) := by
  have hindex : rowIndex (ttrows env) TSIAC TCSB.toNat = 3 := rfl
  rw [hindex]
  rfl

theorem tt_subneg_iac (env : Env) :
    (ttstab env)[rowIndex (ttrows env) TSSUBNEG TCIAC.toNat]? = some (onChar TSSUBNEG TCIAC TSSUBIAC no_op) := by
  have hindex : rowIndex (ttrows env) TSSUBNEG TCIAC.toNat = 11 := rfl
  rw [hindex]
  rfl

theorem tt_subneg (env : Env) (hc : c ≠ TCIAC) :
    (ttstab env)[rowIndex (ttrows env) TSSUBNEG c.toNat]? = some (onAny TSSUBNEG TSSUBNEG subopt) := by
  have hindex : rowIndex (ttrows env) TSSUBNEG c.toNat = 12 := by
    simp [rowIndex, lastNamed, firstAny, ttrows, UInt8.toNat_inj, hc.symm, TSDATA, TSIAC, TSWOPT, TSDOPT, TSSUBNEG,
      TSSUBIAC]
  rw [hindex]
  rfl

theorem tt_subiac_se (env : Env) :
    (ttstab env)[rowIndex (ttrows env) TSSUBIAC TCSE.toNat]? = some (onChar TSSUBIAC TCSE TSDATA subend) := by
  have hindex : rowIndex (ttrows env) TSSUBIAC TCSE.toNat = 13 := rfl
  rw [hindex]
  rfl

theorem tt_subiac (env : Env) (hc : c ≠ TCSE) :
    (ttstab env)[rowIndex (ttrows env) TSSUBIAC c.toNat]? = some (onAny TSSUBIAC TSSUBNEG subopt) := by
  have hindex : rowIndex (ttrows env) TSSUBIAC c.toNat = 14 := by
    simp [rowIndex, lastNamed, firstAny, ttrows, UInt8.toNat_inj, hc.symm, TSDATA, TSIAC, TSWOPT, TSDOPT, TSSUBNEG,
      TSSUBIAC]
  rw [hindex]
  rfl

theorem sub_send : substab[rowIndex subrows SS_TERMTYPE TT_SEND.toNat]? =
    some (onChar SS_TERMTYPE TT_SEND SS_END subtermtype) := rfl

/-- Every other byte of a payload only changes the state. -/
theorem sub_silent {substate : Nat} (hlt : substate < NSSTATES) (hsend : ¬(substate = SS_TERMTYPE ∧ c = TT_SEND)) :
    ∃ pt, substab[rowIndex subrows substate c.toNat]? = some pt ∧ pt.ft_action = no_op ∧
      pt.ft_next.toNat = subNext substate c := by
  obtain rfl | rfl | rfl : substate = SS_START ∨ substate = SS_TERMTYPE ∨ substate = SS_END := by
    have hthree : NSSTATES = 3 := rfl
    simp only [SS_START, SS_TERMTYPE, SS_END]
    omega
  · by_cases hc : c = TOTERMTYPE
    · subst hc
      exact ⟨_, rfl, rfl, rfl⟩
    · have hindex : rowIndex subrows SS_START c.toNat = 1 := by
        simp [rowIndex, lastNamed, firstAny, subrows, UInt8.toNat_inj, Ne.symm hc, SS_START, SS_TERMTYPE, SS_END]
      rw [hindex, subNext, if_neg fun h => hc h.2]
      exact ⟨_, rfl, rfl, rfl⟩
  · have hc : c ≠ TT_SEND := fun hc => hsend ⟨rfl, hc⟩
    have hindex : rowIndex subrows SS_TERMTYPE c.toNat = 3 := by
      simp [rowIndex, lastNamed, firstAny, subrows, UInt8.toNat_inj, Ne.symm hc, SS_START, SS_TERMTYPE, SS_END]
    rw [hindex]
    exact ⟨_, rfl, rfl, rfl⟩
  · have hindex : rowIndex subrows SS_END c.toNat = 4 := by
      simp [rowIndex, lastNamed, firstAny, subrows, SS_START, SS_TERMTYPE, SS_END]
    rw [hindex]
    exact ⟨_, rfl, rfl, rfl⟩

end Rows

section Payload

variable {env : Env} {s : Client} {term : List UInt8}

theorem subNext_lt (substate : Nat) (c : UInt8) : subNext substate c < NSSTATES := by
  unfold subNext
  split
  · decide
  · decide

theorem run_sub_transition (hb : Built env s.fsms) (hlt : s.substate < NSSTATES) {c : UInt8} {pt : fsm_trans Action}
    (hrow : substab[rowIndex subrows s.substate c.toNat]? = some pt) :
    (transition (·.fsms.subfsm) (·.substate) NSSTATES substab c).run s = .ok (pt, s) :=
    run_transition hb.subfsm hlt hrow

theorem run_subopt_silent (hb : Built env s.fsms) (hlt : s.substate < NSSTATES) {c : UInt8}
    (hsend : ¬(s.substate = SS_TERMTYPE ∧ c = TT_SEND)) :
    (subopt c).run s = .ok (0, s.setSubstate (subNext s.substate c)) := by
  obtain ⟨pt, hrow, haction, hnext⟩ := sub_silent hlt hsend
  rw [subopt, run_bind_of_ok (run_sub_transition hb hlt hrow), haction, run_bind_of_ok (run_no_op c s), hnext]
  rfl

theorem run_subopt (hb : Built env s.fsms) (hlt : s.substate < NSSTATES) (hterm : s.term = some term) (c : UInt8) :
    (subopt c).run s = .ok (0, (s.sent (subReply term s.substate c)).setSubstate (subNext s.substate c)) := by
  rw [subReply]
  by_cases hsend : s.substate = SS_TERMTYPE ∧ c = TT_SEND
  · obtain ⟨hstate, rfl⟩ := hsend
    have hrow : substab[rowIndex subrows s.substate TT_SEND.toNat]? =
        some (onChar SS_TERMTYPE TT_SEND SS_END subtermtype) := hstate ▸ sub_send
    have haction : (subtermtype TT_SEND).run s = .ok (0, s.sent (termtypeAnswer term)) := run_subtermtype hterm _
    rw [subopt, run_bind_of_ok (run_sub_transition hb hlt hrow), if_pos ⟨hstate, rfl⟩, hstate]
    dsimp only [onChar]
    rw [run_bind_of_ok haction]
    rfl
  · have hsent : s.sent [] = s := congrArg (fun text => { s with sfp := text }) (List.append_nil s.sfp)
    rw [if_neg hsend, hsent, run_subopt_silent hb hlt hsend]

theorem run_ttwrite_subiac (hb : Built env s.fsms) (htt : s.ttstate = TSSUBNEG) :
    (ttwrite_body env TCIAC).run s = .ok ((), s.setTtstate TSSUBIAC) :=
  run_ttwrite_body hb htt (by decide) (tt_subneg_iac env) (run_no_op TCIAC s)

/-- The wire form of a byte inside a subnegotiation. -/
theorem run_payload_byte (hb : Built env s.fsms) (htt : s.ttstate = TSSUBNEG) (hlt : s.substate < NSSTATES)
    (hterm : s.term = some term) (c : UInt8) : (ttwrite env (stuffByte c)).run s =
      .ok ((), (s.sent (subReply term s.substate c)).setSubstate (subNext s.substate c)) := by
  have hend : ((s.sent (subReply term s.substate c)).setSubstate (subNext s.substate c)).setTtstate TSSUBNEG =
      (s.sent (subReply term s.substate c)).setSubstate (subNext s.substate c) := Client.setTtstate_self htt
  rw [ttwrite, stuffByte]
  by_cases hc : c = TCIAC
  · subst hc
    have haction := run_subopt (s := s.setTtstate TSSUBIAC) hb hlt hterm TCIAC
    have hsecond := run_ttwrite_body (s := s.setTtstate TSSUBIAC) hb (rfl : _ = TSSUBIAC) (by decide)
      (tt_subiac env (by decide)) haction
    rw [if_pos rfl, eachByte, run_bind_of_ok (run_ttwrite_subiac hb htt), eachByte, run_bind_of_ok hsecond, eachByte,
      run_pure, ← hend]
    rfl
  · have hfirst := run_ttwrite_body hb htt (by decide) (tt_subneg env hc) (run_subopt hb hlt hterm c)
    rw [if_neg hc, eachByte, run_bind_of_ok hfirst, eachByte, run_pure, ← hend]
    rfl

theorem run_payload (q : List UInt8) (hb : Built env s.fsms) (htt : s.ttstate = TSSUBNEG)
    (hlt : s.substate < NSSTATES) (hterm : s.term = some term) : (ttwrite env (q.flatMap stuffByte)).run s =
      .ok ((), (s.sent (payloadReply term s.substate q)).setSubstate (q.foldl subNext s.substate)) := by
  induction q generalizing s with
  | nil =>
    rw [List.flatMap_nil, payloadReply, Client.sent, List.append_nil]
    rfl
  | cons c q ih =>
    have hfirst := run_payload_byte hb htt hlt hterm c
    have hrest := ih (s := (s.sent (subReply term s.substate c)).setSubstate (subNext s.substate c)) hb htt
      (subNext_lt _ c) hterm
    rw [ttwrite] at hfirst hrest ⊢
    rw [List.flatMap_cons, run_eachByte_append, run_bind_of_ok hfirst, hrest, payloadReply]
    simp only [Client.sent, Client.setSubstate, List.append_assoc, List.foldl_cons]

theorem run_subneg_open (hb : Built env s.fsms) (htt : s.ttstate = TSDATA) :
    (ttwrite env [TCIAC, TCSB]).run s = .ok ((), s.setTtstate TSSUBNEG) := by
  have hsb := run_ttwrite_body (s := s.setTtstate TSIAC) hb (rfl : _ = TSIAC) (by decide) (tt_iac_sb env)
    (run_no_op TCSB _)
  rw [ttwrite, eachByte, run_bind_of_ok (run_ttwrite_iac hb htt), eachByte, run_bind_of_ok hsb, eachByte, run_pure]
  rfl

theorem run_subneg_close (hb : Built env s.fsms) (htt : s.ttstate = TSSUBNEG) :
    (ttwrite env [TCIAC, TCSE]).run s = .ok ((), (s.setSubstate SS_START).setTtstate TSDATA) := by
  have hend : (subend TCSE).run (s.setTtstate TSSUBIAC) = .ok (0, (s.setTtstate TSSUBIAC).setSubstate SS_START) := rfl
  have hse := run_ttwrite_body (s := s.setTtstate TSSUBIAC) hb (rfl : _ = TSSUBIAC) (by decide) (tt_subiac_se env) hend
  rw [ttwrite, eachByte, run_bind_of_ok (run_ttwrite_subiac hb htt), eachByte, run_bind_of_ok hse, eachByte, run_pure]
  rfl

theorem run_ttwrite_append {t : Client} {buf : List UInt8} (hbuf : (ttwrite env buf).run s = .ok ((), t))
    (rest : List UInt8) : (ttwrite env (buf ++ rest)).run s = (ttwrite env rest).run t := by
  rw [ttwrite, run_eachByte_append]
  exact run_bind_of_ok hbuf _

/-- A whole subnegotiation leaves the client as it was, apart from the answer. -/
theorem run_subnegotiation (q : List UInt8) (hb : Built env s.fsms) (htt : s.ttstate = TSDATA)
    (hsub : s.substate = SS_START) (hterm : s.term = some term) :
    (ttwrite env ([TCIAC, TCSB] ++ (q.flatMap stuffByte ++ [TCIAC, TCSE]))).run s =
      .ok ((), s.sent (payloadReply term SS_START q)) := by
  have hstart : (s.setTtstate TSSUBNEG).substate < NSSTATES := hsub ▸ (by decide : SS_START < NSSTATES)
  have hpayload := run_payload (s := s.setTtstate TSSUBNEG) q hb rfl hstart hterm
  have hkept : s = (s.setTtstate TSDATA).setSubstate SS_START := by
    rw [← htt, ← hsub]
    rfl
  rw [run_ttwrite_append (run_subneg_open hb htt), run_ttwrite_append hpayload]
  refine (run_subneg_close (s := ((s.setTtstate TSSUBNEG).sent _).setSubstate _) hb rfl).trans ?_
  rw [hkept]
  rfl

end Payload

section Reach

variable {env : Env} {s t : Client}

theorem unnegotiated_substate : Unnegotiated Client.substate := {}

/-- Outside of subnegotiations the inner machine is in its first state. -/
def Client.SubAtStart (s : Client) : Prop :=
  s.ttstate ≠ TSSUBNEG → s.ttstate ≠ TSSUBIAC → s.substate = SS_START

theorem Client.SubAtStart.ttwrite_body {c : UInt8} (hs : s.SubAtStart) (hb : Built env s.fsms)
    (hrun : (ttwrite_body env c).run s = .ok ((), t)) : t.SubAtStart := by
  obtain ⟨pt, res, u, hrow, haction, rfl⟩ := ttwrite_body_eq_ok hb hrun
  rcases selected_cases hrow with ⟨hmem, hfits⟩ | hlast
  · have hstate : pt.ft_state.toNat = s.ttstate := hfits.elim And.left And.left
    by_cases hsub : pt.ft_state.toNat = TSSUBNEG ∨ pt.ft_state.toNat = TSSUBIAC
    · -- a subnegotiation goes on, or its end resets the inner machine
      rcases subnegotiation_rows env pt hmem hsub with ⟨_, hnext⟩ | ⟨_, hnext⟩ | hact
      · exact fun _ h => absurd hnext h
      · exact fun h _ => absurd hnext h
      · rw [hact, subend, run_bind_of_ok (run_modify _ s), run_pure] at haction
        cases haction
        exact fun _ _ => rfl
    · rw [hstate, not_or] at hsub
      have hkeeps := (keeps_ttrows unnegotiated_substate c pt hmem).resolve_right (by rwa [hstate, not_or])
      exact fun _ _ => (hkeeps s res u haction).trans (hs hsub.1 hsub.2)
  · rw [hlast] at haction
    cases haction

theorem Reachable.subAtStart (ht : Reachable env t) : t.SubAtStart := by
  obtain ⟨s₀, s, buf, _, hbuild, hrun⟩ := ht
  obtain ⟨fsms, hb, rfl⟩ := fsmbuild_eq_ok hbuild
  have hkept : (s₀.built fsms).SubAtStart → t.SubAtStart :=
    rel_ttwrite (R := fun s t => s.SubAtStart → t.SubAtStart) (fun _ => id) (fun _ _ _ hst htu => htu ∘ hst)
      (fun _ _ _ hb hrun hs => hs.ttwrite_body hb hrun) hb hrun
  exact hkept fun _ _ => rfl

end Reach

/-- A subnegotiation is answered once if its payload asks for the terminal type, and not at all otherwise, and it
leaves no other trace, however its bytes are split into calls. In every reachable state outside of subnegotiations
the inner machine is ready for the next one. -/
theorem subnegotiation_answered (env : Env) :
    (∀ (s : Client) (q term : List UInt8) (bufs : List (List UInt8)), FromBuild env s.fsms → s.ttstate = TSDATA →
      s.substate = SS_START → s.term = some term →
      bufs.flatten = [TCIAC, TCSB] ++ q.flatMap stuffByte ++ [TCIAC, TCSE] →
      ∃ t, (inCalls (ttwrite env) bufs).run s = .ok ((), t) ∧
        t.sfp = s.sfp ++ (if [TOTERMTYPE, TT_SEND] <+: q then termtypeAnswer term else []) ∧ t.tfp = s.tfp ∧
        t.scrfp = s.scrfp ∧ t.ttstate = TSDATA ∧ t.substate = SS_START) ∧
    ∀ t, Reachable env t → t.ttstate ≠ TSSUBNEG → t.ttstate ≠ TSSUBIAC → t.substate = SS_START := by
  refine ⟨fun s q term bufs hfrom htt hsub hterm hbufs => ?_, fun t ht => ht.subAtStart⟩
  have hrun := run_subnegotiation q hfrom.built htt hsub hterm
  rw [payloadReply_start, ttwrite] at hrun
  refine ⟨s.sent (if [TOTERMTYPE, TT_SEND] <+: q then termtypeAnswer term else []), ?_, rfl, rfl, rfl, htt, hsub⟩
  rw [← hrun, ← List.append_assoc, ← hbufs]
  exact run_inCalls _ s bufs

/-- A request whose payload goes on with the end of a subnegotiation, escaped. -/
theorem subnegotiation_answered_vt : ∃ s t, FromBuild quietEnv s.fsms ∧ s.term = some (bytes "vt") ∧
    (inCalls (ttwrite quietEnv) [[TCIAC, TCSB, TOTERMTYPE, TT_SEND], [TCIAC, TCIAC, TCSE, TCIAC, TCSE]]).run s =
      .ok ((), t) ∧ t.sfp = s.sfp ++ termtypeAnswer (bytes "vt") := by
  obtain ⟨fsms, hbuild, _⟩ := run_fsmbuild quietEnv { Client.zero (fun _ => 0) with term := some (bytes "vt") }
  generalize hs : ({ Client.zero (fun _ => 0) with term := some (bytes "vt") } : Client).built fsms = s at hbuild
  have hfrom : FromBuild quietEnv s.fsms := ⟨_, s, hbuild, rfl⟩
  have hterm : s.term = some (bytes "vt") := hs ▸ rfl
  obtain ⟨t, hrun, hsfp, _⟩ := (subnegotiation_answered quietEnv).1 s [TOTERMTYPE, TT_SEND, TCIAC, TCSE] (bytes "vt")
    [[TCIAC, TCSB, TOTERMTYPE, TT_SEND], [TCIAC, TCIAC, TCSE, TCIAC, TCSE]] hfrom (hs ▸ rfl) (hs ▸ rfl) hterm rfl
  refine ⟨s, t, hfrom, hterm, hrun, hsfp.trans ?_⟩
  rw [if_pos ⟨[TCIAC, TCSE], rfl⟩]

end basic_data_struct.telnet
