import BasicDataStruct.Telnet.Compile
import BasicDataStruct.Telnet.Keyboard
import BasicDataStruct.Telnet.Terminal

open machine machine.Exec

namespace basic_data_struct.telnet

variable {env : Env} {s t : Client} {fsm : Client → Fsm} {state : Client → Nat} {nstates : Nat}
  {rows : List (fsm_trans Action)} {c : UInt8} {pt : fsm_trans Action}

def Client.setTtfsm (s : Client) (fsm : Fsm) : Client := { s with fsms := { s.fsms with ttfsm := fsm } }

def Client.setSofsm (s : Client) (fsm : Fsm) : Client := { s with fsms := { s.fsms with sofsm := fsm } }

def Client.setSubfsm (s : Client) (fsm : Fsm) : Client := { s with fsms := { s.fsms with subfsm := fsm } }

/-- A call with `ttfsm` as its array. -/
def onTtfsm (x : Exec Fsm Unit) : Prog Unit := zoom (·.fsms.ttfsm) Client.setTtfsm x

/-- A call with `sofsm` as its array. -/
def onSofsm (x : Exec Fsm Unit) : Prog Unit := zoom (·.fsms.sofsm) Client.setSofsm x

/-- A call with `subfsm` as its array. -/
def onSubfsm (x : Exec Fsm Unit) : Prog Unit := zoom (·.fsms.subfsm) Client.setSubfsm x

def fsmbuild (env : Env) : Prog Unit := do
  onTtfsm (fsminit (ttstab env) NTSTATES)
  modify (·.setTtstate TSDATA)
  onSofsm (fsminit (sostab env) NKSTATES)
  modify (·.setSostate KSREMOTE)
  onSubfsm (fsminit substab NSSTATES)
  modify (·.setSubstate SS_START)

section

variable {x : Exec Fsm Unit} {s : Client} {fsm : Fsm}

theorem run_onTtfsm (hx : x.run s.fsms.ttfsm = .ok ((), fsm)) : (onTtfsm x).run s = .ok ((), s.setTtfsm fsm) :=
  run_zoom hx

theorem run_onSofsm (hx : x.run s.fsms.sofsm = .ok ((), fsm)) : (onSofsm x).run s = .ok ((), s.setSofsm fsm) :=
  run_zoom hx

theorem run_onSubfsm (hx : x.run s.fsms.subfsm = .ok ((), fsm)) : (onSubfsm x).run s = .ok ((), s.setSubfsm fsm) :=
  run_zoom hx

end

/-- The three arrays mean what their tables mean. -/
structure Built (env : Env) (fsms : Fsms) : Prop where
  ttfsm : Compiles NTSTATES (ttrows env) fsms.ttfsm
  sofsm : Compiles NKSTATES (sorows env) fsms.sofsm
  subfsm : Compiles NSSTATES subrows fsms.subfsm

theorem invalidRow_state : invalidRow.ft_state = FSINVALID := rfl

theorem ttrows_wellFormed (env : Env) : WellFormed NTSTATES (ttrows env) where
  nstates_le := by decide
  length_le := by simp [ttrows]
  state_lt := by
    simp only [ttrows, onChar, onAny, List.forall_mem_cons]
    decide
  char_lt := by simp [ttrows, onChar, onAny, ofChar_nonneg, ofChar_lt, -Int16.toInt_ofNat']

theorem sorows_wellFormed (env : Env) : WellFormed NKSTATES (sorows env) where
  nstates_le := by decide
  length_le := by simp [sorows]
  state_lt := by
    simp only [sorows, onChar, onAny, List.forall_mem_cons]
    decide
  char_lt := by simp [sorows, onChar, onAny, ofChar_nonneg, ofChar_lt, -Int16.toInt_ofNat']

theorem subrows_wellFormed : WellFormed NSSTATES subrows where
  nstates_le := by decide
  length_le := by simp [subrows]
  state_lt := by
    simp only [subrows, onChar, onAny, List.forall_mem_cons]
    decide
  char_lt := by simp [subrows, onChar, onAny, ofChar_nonneg, ofChar_lt, -Int16.toInt_ofNat']

/-- The client after `fsmbuild` with the compiled arrays. -/
def Client.built (s : Client) (fsms : Fsms) : Client :=
  { s with fsms := fsms, ttstate := TSDATA, sostate := KSREMOTE, substate := SS_START }

/-- `fsmbuild` compiles the tables, resets the states and leaves the rest alone. -/
theorem run_fsmbuild (env : Env) (s : Client) :
    ∃ fsms, (fsmbuild env).run s = .ok ((), s.built fsms) ∧ Built env fsms := by
  obtain ⟨tt, htt, hcompt⟩ := run_fsminit (ttrows_wellFormed env) invalidRow_state s.fsms.ttfsm
  rw [← ttstab] at htt
  generalize ht : (s.setTtfsm tt).setTtstate TSDATA = t
  obtain ⟨so, hso, hcomps⟩ := run_fsminit (sorows_wellFormed env) invalidRow_state t.fsms.sofsm
  rw [← sostab] at hso
  generalize hu : (t.setSofsm so).setSostate KSREMOTE = u
  obtain ⟨sub, hsub, hcompu⟩ := run_fsminit subrows_wellFormed invalidRow_state u.fsms.subfsm
  rw [← substab] at hsub
  refine ⟨⟨tt, so, sub⟩, ?_, hcompt, hcomps, hcompu⟩
  rw [fsmbuild, run_bind_of_ok (run_onTtfsm htt), run_bind_of_ok (run_modify _ _), ht, run_bind_of_ok (run_onSofsm hso),
    run_bind_of_ok (run_modify _ _), hu, run_bind_of_ok (run_onSubfsm hsub), run_modify, ← hu, ← ht]
  rfl

/-- A compiled array selects the row that its table means. -/
theorem fsmbuild_eq_ok (hrun : (fsmbuild env).run s = .ok ((), t)) : ∃ fsms, Built env fsms ∧ t = s.built fsms := by
  obtain ⟨fsms, hbuild, hb⟩ := run_fsmbuild env s
  rw [hrun] at hbuild
  cases hbuild
  exact ⟨fsms, hb, rfl⟩

theorem run_transition (hcomp : Compiles nstates rows (fsm s)) (hstate : state s < nstates)
    (hrow : (rows ++ [invalidRow])[rowIndex rows (state s) c.toNat]? = some pt) :
    (transition fsm state nstates (rows ++ [invalidRow]) c).run s = .ok (pt, s) := by
  have hindex := hcomp (state s) c.toNat hstate c.toNat_lt
  rw [transition, run_bind_of_ok (run_get s), run_bind_of_ok (run_inBounds hstate s), hindex, hrow, run_pure]

/-- There is always a row. -/
theorem exists_selected (rows : List (fsm_trans Action)) (s c : Nat) :
    ∃ row, (rows ++ [invalidRow])[rowIndex rows s c]? = some row := by
  have hle := rowIndex_le rows s c
  refine ⟨_, List.getElem?_eq_getElem ?_⟩
  rw [List.length_append, List.length_singleton]
  omega

/-- Only the row that the table means is selected. -/
theorem transition_eq_ok (hcomp : Compiles nstates rows (fsm s))
    (hrun : (transition fsm state nstates (rows ++ [invalidRow]) c).run s = .ok (pt, t)) :
    (rows ++ [invalidRow])[rowIndex rows (state s) c.toNat]? = some pt ∧ t = s := by
  have hstate : state s < nstates := by
    by_contra hle
    rw [transition, run_bind_of_ok (run_get s), inBounds, if_neg hle, run_bind, run_fail] at hrun
    cases hrun
  obtain ⟨row, hrow⟩ := exists_selected rows (state s) c.toNat
  rw [run_transition hcomp hstate hrow] at hrun
  cases hrun
  exact ⟨hrow, rfl⟩

/-- The arrays are ones that `fsmbuild` has made. -/
def FromBuild (env : Env) (fsms : Fsms) : Prop := ∃ s t, (fsmbuild env).run s = .ok ((), t) ∧ t.fsms = fsms

theorem FromBuild.built {fsms : Fsms} (hfrom : FromBuild env fsms) : Built env fsms := by
  obtain ⟨s, t, hrun, rfl⟩ := hfrom
  obtain ⟨fsms, hb, rfl⟩ := fsmbuild_eq_ok hrun
  exact hb

section

variable {env : Env} {s t : Client} {c : UInt8} {pt : fsm_trans Action} {result : Int32}

/-- A round of `ttwrite`: the action of the selected row, then its next state. -/
theorem run_ttwrite_body (hb : Built env s.fsms) {state : Nat} (hs : s.ttstate = state) (hlt : state < NTSTATES)
    (hrow : (ttstab env)[rowIndex (ttrows env) state c.toNat]? = some pt)
    (haction : (pt.ft_action c).run s = .ok (result, t)) :
    (ttwrite_body env c).run s = .ok ((), t.setTtstate pt.ft_next.toNat) := by
  subst hs
  have htrans : (transition (·.fsms.ttfsm) (·.ttstate) NTSTATES (ttstab env) c).run s = .ok (pt, s) :=
    run_transition hb.ttfsm hlt hrow
  rw [ttwrite_body, run_bind_of_ok htrans, run_bind_of_ok haction, run_modify]

/-- Every round of `ttwrite` that succeeds is of that kind. -/
theorem ttwrite_body_eq_ok (hb : Built env s.fsms) (hrun : (ttwrite_body env c).run s = .ok ((), t)) :
    ∃ pt result u, (ttstab env)[rowIndex (ttrows env) s.ttstate c.toNat]? = some pt ∧
      (pt.ft_action c).run s = .ok (result, u) ∧ t = u.setTtstate pt.ft_next.toNat := by
  obtain ⟨pt, u, htrans, hrest⟩ := run_bind_eq_ok_iff.mp hrun
  obtain ⟨hrow, hu⟩ := transition_eq_ok hb.ttfsm htrans
  subst hu
  obtain ⟨result, v, haction, hend⟩ := run_bind_eq_ok_iff.mp hrest
  rw [run_modify] at hend
  cases hend
  exact ⟨pt, result, v, hrow, haction, rfl⟩

/-- A round of `sowrite`. A negative result of the action ends local commands. -/
theorem run_sowrite_body (hb : Built env s.fsms) {state : Nat} (hs : s.sostate = state) (hlt : state < NKSTATES)
    (hrow : (sostab env)[rowIndex (sorows env) state c.toNat]? = some pt)
    (haction : (pt.ft_action c).run s = .ok (result, t)) :
    (sowrite_body env c).run s = .ok ((), t.setSostate (if result < 0 then KSREMOTE else pt.ft_next.toNat)) := by
  subst hs
  have htrans : (transition (·.fsms.sofsm) (·.sostate) NKSTATES (sostab env) c).run s = .ok (pt, s) :=
    run_transition hb.sofsm hlt hrow
  rw [sowrite_body, run_bind_of_ok htrans, run_bind_of_ok haction, run_modify]

/-- Every round of `sowrite` that succeeds is of that kind. -/
theorem sowrite_body_eq_ok (hb : Built env s.fsms) (hrun : (sowrite_body env c).run s = .ok ((), t)) :
    ∃ pt result u, (sostab env)[rowIndex (sorows env) s.sostate c.toNat]? = some pt ∧
      (pt.ft_action c).run s = .ok (result, u) ∧ t = u.setSostate
        (if result < 0 then KSREMOTE else pt.ft_next.toNat) := by
  obtain ⟨pt, u, htrans, hrest⟩ := run_bind_eq_ok_iff.mp hrun
  obtain ⟨hrow, hu⟩ := transition_eq_ok hb.sofsm htrans
  subst hu
  obtain ⟨result, v, haction, hend⟩ := run_bind_eq_ok_iff.mp hrest
  rw [run_modify] at hend
  cases hend
  exact ⟨pt, result, v, hrow, haction, rfl⟩

end

end basic_data_struct.telnet
