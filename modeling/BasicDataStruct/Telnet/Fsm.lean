import BasicDataStruct.Machine.Range

open machine machine.Exec

namespace basic_data_struct.telnet

/-- The number of valid characters. -/
abbrev NCHRS : Nat := 256

/-- Match any character. -/
abbrev TCANY : Int16 := 257

/-- An invalid state number. -/
abbrev FSINVALID : UInt8 := 0xff

/-- An invalid transition index. -/
abbrev TINVALID : UInt8 := 0xff

/-- A row of a transition table, with actions of the type `α`. -/
structure fsm_trans (α : Type) where
  ft_state : UInt8
  ft_char : Int16
  ft_next : UInt8
  ft_action : α

/-- `{ state, c, next, action }` -/
def onChar {α : Type} (state : Nat) (c : UInt8) (next : Nat) (action : α) : fsm_trans α :=
  ⟨.ofNat state, .ofNat c.toNat, .ofNat next, action⟩

/-- `{ state, TCANY, next, action }` -/
def onAny {α : Type} (state next : Nat) (action : α) : fsm_trans α :=
  ⟨.ofNat state, TCANY, .ofNat next, action⟩

/-- `unsigned char fsm[][NCHRS]` -/
abbrev Fsm := Nat → Nat → UInt8

def Fsm.set (fsm : Fsm) (sn cn : Nat) (v : UInt8) : Fsm := fun i j => if i = sn ∧ j = cn then v else fsm i j

/-- `fsm[sn][cn]` in an array with `nstates` rows. -/
def entry (nstates sn cn : Nat) : Exec Fsm UInt8 := do
  inBounds sn nstates
  inBounds cn NCHRS
  return (← get) sn cn

/-- `fsm[sn][cn] = v` -/
def setEntry (nstates sn cn : Nat) (v : UInt8) : Exec Fsm Unit := do
  inBounds sn nstates
  inBounds cn NCHRS
  modify (·.set sn cn v)

/-- `for (cn=0; cn<NCHRS; ++cn) for (sn=0; sn<nstates; ++sn)` -/
def sweep (nstates : Nat) (body : Nat → Nat → Exec Fsm Unit) : Exec Fsm Unit :=
  forRange (fun cn _ => forRange (fun sn _ => body sn cn) 0 nstates ()) 0 NCHRS ()

/-- `if (fsm[sn][cn] == TINVALID) fsm[sn][cn] = ti;` -/
def claim_entry (nstates : Nat) (ti : UInt8) (sn cn : Nat) : Exec Fsm Unit := do
  if (← entry nstates sn cn) = TINVALID then setEntry nstates sn cn ti else return ()

/-- One row of the table. -/
def row_body {α : Type} (nstates : Nat) (row : fsm_trans α) (ti : UInt8) : Exec Fsm Unit :=
  if row.ft_char = TCANY then forRange (fun cn _ => claim_entry nstates ti row.ft_state.toNat cn) 0 NCHRS ()
  else if row.ft_char < 0 then fail .bounds
  else setEntry nstates row.ft_state.toNat row.ft_char.toInt.toNat ti

/-- The rows up to the invalid one. Returns the index of that one. -/
def rows_loop {α : Type} (nstates : Nat) : List (fsm_trans α) → (ti : Nat) → Exec Fsm Nat
  | [], _ => fail .bounds
  | row :: ttab, ti => do
    if row.ft_state = FSINVALID then return ti
    else
      row_body nstates row (.ofNat ti)
      rows_loop nstates ttab (ti + 1)

@[irreducible]
def fsminit {α : Type} (ttab : List (fsm_trans α)) (nstates : Nat) : Exec Fsm Unit := do
  sweep nstates fun sn cn => setEntry nstates sn cn TINVALID
  let ti ← rows_loop nstates ttab 0
  sweep nstates (claim_entry nstates (.ofNat ti))

section

variable {nstates sn cn : Nat} {fsm : Fsm}

theorem run_entry (hs : sn < nstates) (hc : cn < NCHRS) : (entry nstates sn cn).run fsm = .ok (fsm sn cn, fsm) := by
  rw [entry, run_bind_of_ok (run_inBounds hs fsm), run_bind_of_ok (run_inBounds hc fsm), run_bind_of_ok (run_get fsm),
    run_pure]

theorem run_setEntry (hs : sn < nstates) (hc : cn < NCHRS) (v : UInt8) :
    (setEntry nstates sn cn v).run fsm = .ok ((), fsm.set sn cn v) := by
  rw [setEntry, run_bind_of_ok (run_inBounds hs fsm), run_bind_of_ok (run_inBounds hc fsm), run_modify]

/-- What a row with the index `ti` that matches any character does to an entry. -/
def claimed (ti e : UInt8) : UInt8 := if e = TINVALID then ti else e

theorem run_claim_entry (hs : sn < nstates) (hc : cn < NCHRS) (ti : UInt8) :
    (claim_entry nstates ti sn cn).run fsm = .ok ((), fsm.set sn cn (claimed ti (fsm sn cn))) := by
  rw [claim_entry, run_bind_of_ok (run_entry hs hc), claimed]
  by_cases hfree : fsm sn cn = TINVALID
  · rw [if_pos hfree, if_pos hfree, run_setEntry hs hc]
  · rw [if_neg hfree, if_neg hfree, run_pure]
    have hsame : fsm.set sn cn (fsm sn cn) = fsm := by
      funext i j
      unfold Fsm.set
      split
      · next heq => rw [heq.1, heq.2]
      · rfl
    rw [hsame]

/-- A sweep applies to every entry what its body does to one. -/
theorem run_sweep {body : Nat → Nat → Exec Fsm Unit} (u : UInt8 → UInt8)
    (hbody : ∀ sn cn fsm, sn < nstates → cn < NCHRS →
      (body sn cn).run fsm = .ok ((), fsm.set sn cn (u (fsm sn cn)))) :
    (sweep nstates body).run fsm = .ok ((), fun i j => if i < nstates ∧ j < NCHRS then u (fsm i j) else fsm i j) := by
  let column (cn : Nat) : Fsm := fun i j => if i < nstates ∧ j < cn then u (fsm i j) else fsm i j
  have hcolumn : ∀ cn, 0 ≤ cn → cn < 0 + NCHRS →
      (forRange (fun sn _ => body sn cn) 0 nstates ()).run (column cn) = .ok ((), column (cn + 1)) := by
    intro cn _ hcn
    let cell (sn : Nat) : Fsm := fun i j => if i < sn ∧ j = cn then u (fsm i j) else column cn i j
    have hcell : ∀ sn, 0 ≤ sn → sn < 0 + nstates → (body sn cn).run (cell sn) = .ok ((), cell (sn + 1)) := by
      intro sn _ hsn
      rw [hbody sn cn (cell sn) (by omega) (by omega)]
      congr 2
      funext i j
      simp only [Fsm.set, cell, column]
      grind
    have hrun : (forRange (fun sn _ => body sn cn) 0 nstates ()).run (cell 0) = .ok ((), cell (0 + nstates)) :=
      run_forRange cell hcell
    have hstart : cell 0 = column cn := by
      funext i j
      simp [cell]
    have hend : cell (0 + nstates) = column (cn + 1) := by
      funext i j
      simp only [cell, column]
      grind
    rwa [hstart, hend] at hrun
  have hrun : (sweep nstates body).run (column 0) = .ok ((), column (0 + NCHRS)) := run_forRange column hcolumn
  have hstart : column 0 = fsm := by
    funext i j
    simp [column]
  rw [hstart, Nat.zero_add] at hrun
  exact hrun

end

end basic_data_struct.telnet
