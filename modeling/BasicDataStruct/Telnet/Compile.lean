import BasicDataStruct.Telnet.Fsm

open machine machine.Exec

namespace basic_data_struct.telnet

variable {α : Type}

variable {row last : fsm_trans α} {rows : List (fsm_trans α)} {c ti : Nat}

/-- The rows of a table before its invalid one: their indices fit into a
character, and their states and characters are indices of the array. -/
structure WellFormed (nstates : Nat) (rows : List (fsm_trans α)) : Prop where
  nstates_le : nstates ≤ 255
  length_le : rows.length ≤ 254
  state_lt : ∀ row ∈ rows, row.ft_state.toNat < nstates
  char_lt : ∀ row ∈ rows, row.ft_char ≠ TCANY → 0 ≤ row.ft_char.toInt ∧ row.ft_char.toInt < NCHRS

theorem toInt_ofChar (c : UInt8) : (Int16.ofNat c.toNat).toInt = c.toNat := by
  have hc := c.toNat_lt
  exact Int16.toInt_ofNat_of_lt (by omega)

theorem ofChar_nonneg (c : UInt8) : 0 ≤ (Int16.ofNat c.toNat).toInt := by
  rw [toInt_ofChar]
  exact Int.natCast_nonneg _

theorem ofChar_lt (c : UInt8) : (Int16.ofNat c.toNat).toInt < 256 := by
  rw [toInt_ofChar]
  exact Int.ofNat_lt.mpr c.toNat_lt

theorem ofChar_ne_any (c : UInt8) : Int16.ofNat c.toNat ≠ TCANY := by
  intro hany
  have hlt := ofChar_lt c
  rw [hany] at hlt
  exact absurd hlt (by decide)

/-- The row names the state `s` and the character `c`. -/
def Names (s c : Nat) (row : fsm_trans α) : Prop :=
  row.ft_state.toNat = s ∧ row.ft_char ≠ TCANY ∧ row.ft_char.toInt = c

/-- The row matches any character in the state `s`. -/
def Matches (s : Nat) (row : fsm_trans α) : Prop := row.ft_state.toNat = s ∧ row.ft_char = TCANY

instance (s c : Nat) (row : fsm_trans α) : Decidable (Names s c row) := inferInstanceAs (Decidable (_ ∧ _ ∧ _))

instance (s : Nat) (row : fsm_trans α) : Decidable (Matches s row) := inferInstanceAs (Decidable (_ ∧ _))

section

variable {s c state next : Nat} {k : UInt8} {action : α}

@[simp] theorem names_onChar : Names s c (onChar state k next action) ↔ state % 256 = s ∧ k.toNat = c := by
  have hany : Int16.ofNat k.toNat ≠ TCANY := ofChar_ne_any k
  unfold Names onChar
  rw [toInt_ofChar, UInt8.toNat_ofNat', Int.natCast_inj]
  exact ⟨fun ⟨hstate, _, hchar⟩ => ⟨hstate, hchar⟩, fun ⟨hstate, hchar⟩ => ⟨hstate, hany, hchar⟩⟩

@[simp] theorem not_names_onAny : ¬ Names s c (onAny state next action) := fun h => h.2.1 rfl

@[simp] theorem not_matches_onChar : ¬ Matches s (onChar state k next action) := fun h => ofChar_ne_any k h.2

@[simp] theorem matches_onAny : Matches s (onAny state next action) ↔ state % 256 = s := by
  simp [Matches, onAny]

end

/-- The index of the last row that names `s` and `c`, counted from `ti`. -/
def lastNamed (s c : Nat) : List (fsm_trans α) → (ti : Nat) → Option Nat
  | [], _ => none
  | row :: rows, ti => (lastNamed s c rows (ti + 1)).or (if Names s c row then some ti else none)

/-- The index of the first row that matches any character in `s`. -/
def firstAny (s : Nat) : List (fsm_trans α) → (ti : Nat) → Option Nat
  | [], _ => none
  | row :: rows, ti => if Matches s row then some ti else firstAny s rows (ti + 1)

/-- Which row a table means for a state and a character: the last row that names
them, else the first that matches any character, else the invalid row at the end. -/
def rowIndex (rows : List (fsm_trans α)) (s c : Nat) : Nat :=
  (lastNamed s c rows 0).getD ((firstAny s rows 0).getD rows.length)

/-- What a row does to the entry of `s` and `c`. -/
def applied (s c : Nat) (row : fsm_trans α) (ti e : UInt8) : UInt8 :=
  if Names s c row then ti else if Matches s row ∧ c < NCHRS then claimed ti e else e

section

variable {nstates : Nat}

/-- A row sets the entry it names, or the unclaimed entries of its state. -/
theorem run_row_body (fsm : Fsm) (hstate : row.ft_state.toNat < nstates)
    (hchar : row.ft_char ≠ TCANY → 0 ≤ row.ft_char.toInt ∧ row.ft_char.toInt < NCHRS) (ti : UInt8) :
    (row_body nstates row ti).run fsm = .ok ((), fun s c => applied s c row ti (fsm s c)) := by
  unfold row_body
  by_cases hany : row.ft_char = TCANY
  · rw [if_pos hany]
    let g (cn : Nat) : Fsm := fun s c => if s = row.ft_state.toNat ∧ c < cn then claimed ti (fsm s c) else fsm s c
    have hg : ∀ cn, 0 ≤ cn → cn < 0 + NCHRS →
        (claim_entry nstates ti row.ft_state.toNat cn).run (g cn) = .ok ((), g (cn + 1)) := by
      intro cn _ hcn
      rw [run_claim_entry hstate (by omega)]
      congr 2
      funext s c
      simp only [Fsm.set, g]
      grind
    have hrun : (forRange (fun cn _ => claim_entry nstates ti row.ft_state.toNat cn) 0 NCHRS ()).run (g 0) =
        .ok ((), g (0 + NCHRS)) := run_forRange g hg
    have hstart : g 0 = fsm := by
      funext s c
      simp [g]
    have hend : g (0 + NCHRS) = fun s c => applied s c row ti (fsm s c) := by
      funext s c
      simp only [g, applied, Names, Matches]
      grind
    rwa [hstart, hend] at hrun
  · obtain ⟨hpos, hlt⟩ := hchar hany
    have hnonneg : ¬ row.ft_char < 0 := by
      rw [Int16.lt_iff_toInt_lt]
      simpa using hpos
    rw [if_neg hany, if_neg hnonneg, run_setEntry hstate (by omega)]
    congr 2
    funext s c
    simp only [Fsm.set, applied, Names, Matches]
    grind

/-- The index that `lastNamed` finds, or that there is none to find. -/
theorem lastNamed_spec (s c : Nat) (rows : List (fsm_trans α)) (ti : Nat) :
    match lastNamed s c rows ti with
    | some i => ∃ k row, i = ti + k ∧ rows[k]? = some row ∧ Names s c row ∧
        ∀ j row', k < j → rows[j]? = some row' → ¬Names s c row'
    | none => ∀ row ∈ rows, ¬Names s c row := by
  induction rows generalizing ti with
  | nil => simp [lastNamed]
  | cons row rows ih =>
    have hrest := ih (ti + 1)
    rw [lastNamed]
    cases hlast : lastNamed s c rows (ti + 1) with
    | some i =>
      rw [hlast] at hrest
      obtain ⟨k, row', hi, hrow, hnames, hlater⟩ := hrest
      refine ⟨k + 1, row', by omega, hrow, hnames, fun j row'' hj hrow'' => ?_⟩
      obtain ⟨j, rfl⟩ := Nat.exists_eq_succ_of_ne_zero (Nat.ne_zero_of_lt hj)
      exact hlater j row'' (Nat.lt_of_succ_lt_succ hj) hrow''
    | none =>
      rw [hlast] at hrest
      rw [Option.none_or]
      by_cases hnames : Names s c row
      · rw [if_pos hnames]
        refine ⟨0, row, rfl, rfl, hnames, fun j row' hj hrow' => ?_⟩
        obtain ⟨j, rfl⟩ := Nat.exists_eq_succ_of_ne_zero (Nat.ne_zero_of_lt hj)
        exact hrest row' (List.mem_of_getElem? hrow')
      · rw [if_neg hnames]
        exact List.forall_mem_cons.mpr ⟨hnames, hrest⟩

/-- The index that `firstAny` finds, or that there is none to find. -/
theorem firstAny_spec (s : Nat) (rows : List (fsm_trans α)) (ti : Nat) :
    match firstAny s rows ti with
    | some i => ∃ k row, i = ti + k ∧ rows[k]? = some row ∧ Matches s row ∧
        ∀ j row', j < k → rows[j]? = some row' → ¬Matches s row'
    | none => ∀ row ∈ rows, ¬Matches s row := by
  induction rows generalizing ti with
  | nil => simp [firstAny]
  | cons row rows ih =>
    have hrest := ih (ti + 1)
    rw [firstAny]
    by_cases hmatches : Matches s row
    · rw [if_pos hmatches]
      exact ⟨0, row, rfl, rfl, hmatches, fun j _ hj => absurd hj (Nat.not_lt_zero j)⟩
    · rw [if_neg hmatches]
      cases hfirst : firstAny s rows (ti + 1) with
      | some i =>
        rw [hfirst] at hrest
        obtain ⟨k, row', hi, hrow, hmatches', hbefore⟩ := hrest
        refine ⟨k + 1, row', by omega, hrow, hmatches', fun j row'' hj hrow'' => ?_⟩
        cases j with
        | zero => exact Option.some.inj hrow'' ▸ hmatches
        | succ j => exact hbefore j row'' (Nat.lt_of_succ_lt_succ hj) hrow''
      | none =>
        rw [hfirst] at hrest
        exact List.forall_mem_cons.mpr ⟨hmatches, hrest⟩

/-- The row with the index `i` is the last one that names `s` and `c`, or the first one that matches any character in
`s` if none names them, or the invalid row behind the others if there is neither. -/
def Means (rows : List (fsm_trans α)) (s c i : Nat) : Prop :=
  (∃ row, rows[i]? = some row ∧ Names s c row ∧ ∀ j row', i < j → rows[j]? = some row' → ¬Names s c row') ∨
    (∀ row ∈ rows, ¬Names s c row) ∧
      ((∃ row, rows[i]? = some row ∧ Matches s row ∧ ∀ j row', j < i → rows[j]? = some row' → ¬Matches s row') ∨
        (∀ row ∈ rows, ¬Matches s row) ∧ i = rows.length)

theorem rowIndex_means (rows : List (fsm_trans α)) (s c : Nat) : Means rows s c (rowIndex rows s c) := by
  have hnamed := lastNamed_spec s c rows 0
  have hany := firstAny_spec s rows 0
  unfold rowIndex
  cases hlast : lastNamed s c rows 0 with
  | some i =>
    rw [hlast] at hnamed
    obtain ⟨k, row, hk, hrow, hnames, hlater⟩ := hnamed
    rw [Nat.zero_add] at hk
    subst hk
    exact .inl ⟨row, hrow, hnames, hlater⟩
  | none =>
    rw [hlast] at hnamed
    cases hfirst : firstAny s rows 0 with
    | some i =>
      rw [hfirst] at hany
      obtain ⟨k, row, hk, hrow, hmatches, hbefore⟩ := hany
      rw [Nat.zero_add] at hk
      subst hk
      exact .inr ⟨hnamed, .inl ⟨row, hrow, hmatches, hbefore⟩⟩
    | none =>
      rw [hfirst] at hany
      exact .inr ⟨hnamed, .inr ⟨hany, rfl⟩⟩

/-- The row that a table means is one for the state and the character, or there is
no such row. -/
theorem rowIndex_cases (rows : List (fsm_trans α)) (s c : Nat) :
    (∃ row, rows[rowIndex rows s c]? = some row ∧ (Names s c row ∨ Matches s row)) ∨
      rowIndex rows s c = rows.length := by
  rcases rowIndex_means rows s c with ⟨row, hrow, hnames, _⟩ | ⟨_, ⟨row, hrow, hmatches, _⟩ | ⟨_, hlast⟩⟩
  · exact .inl ⟨row, hrow, .inl hnames⟩
  · exact .inl ⟨row, hrow, .inr hmatches⟩
  · exact .inr hlast

theorem rowIndex_le (rows : List (fsm_trans α)) (s c : Nat) : rowIndex rows s c ≤ rows.length := by
  rcases rowIndex_cases rows s c with ⟨row, hrow, _⟩ | hlast
  · obtain ⟨hlt, _⟩ := List.getElem?_eq_some_iff.mp hrow
    exact Nat.le_of_lt hlt
  · exact Nat.le_of_eq hlast

/-- What a table with a last row selects. -/
theorem selected_cases {s : Nat} (hrow : (rows ++ [last])[rowIndex rows s c]? = some row) :
    (row ∈ rows ∧ (Names s c row ∨ Matches s row)) ∨ row = last := by
  rcases rowIndex_cases rows s c with ⟨row', hrow', hfits⟩ | hlast
  · obtain ⟨hlt, _⟩ := List.getElem?_eq_some_iff.mp hrow'
    rw [List.getElem?_append_left hlt, hrow', Option.some_inj] at hrow
    rw [← hrow]
    exact .inl ⟨List.mem_of_getElem? hrow', hfits⟩
  · rw [hlast, List.getElem?_concat_length, Option.some_inj] at hrow
    exact .inr hrow.symm

/-- What the rows from the index `ti` on make of an entry `e`. -/
def resolved (s c : Nat) (rows : List (fsm_trans α)) (ti : Nat) (e : UInt8) : UInt8 :=
  ((lastNamed s c rows ti).map UInt8.ofNat).getD
    (if e = TINVALID then ((firstAny s rows ti).map UInt8.ofNat).getD TINVALID else e)

theorem toNat_ofNat_index (hti : ti ≤ 254) : (UInt8.ofNat ti).toNat = ti :=
  UInt8.toNat_ofNat_of_lt' (by rw [UInt8.size]; omega)

theorem ofNat_ne_tinvalid (hti : ti ≤ 254) : UInt8.ofNat ti ≠ TINVALID := by
  intro heq
  have hnat := congrArg UInt8.toNat heq
  rw [toNat_ofNat_index hti] at hnat
  have hmax : TINVALID.toNat = 255 := rfl
  omega

/-- The first row acts on an entry before the others do. -/
theorem resolved_cons (s : Nat) (hc : c < NCHRS) (row : fsm_trans α) (rows : List (fsm_trans α))
    (hti : ti ≤ 254) (e : UInt8) :
    resolved s c (row :: rows) ti e = resolved s c rows (ti + 1) (applied s c row (.ofNat ti) e) := by
  have hne := ofNat_ne_tinvalid hti
  unfold resolved applied
  rw [lastNamed, firstAny]
  cases lastNamed s c rows (ti + 1) with
  | some i => rfl
  | none =>
    rw [Option.none_or, Option.map_none, Option.getD_none]
    by_cases hnames : Names s c row
    · rw [if_pos hnames, if_pos hnames, if_neg hne, Option.map_some, Option.getD_some]
    rw [if_neg hnames, if_neg hnames, Option.map_none, Option.getD_none]
    by_cases hmatch : Matches s row
    · have hboth : Matches s row ∧ c < NCHRS := ⟨hmatch, hc⟩
      rw [if_pos hmatch, if_pos hboth, claimed, Option.map_some, Option.getD_some]
      by_cases hfree : e = TINVALID
      · rw [if_pos hfree, if_neg hne]
      · rw [if_neg hfree, if_neg hfree]
    · rw [if_neg hmatch, if_neg (fun hboth : Matches s row ∧ c < NCHRS => hmatch hboth.1)]

/-- The loop over the rows resolves every entry. -/
theorem run_rows_loop (rest : List (fsm_trans α))
    (hlast : last.ft_state = FSINVALID) (hvalid : ∀ row ∈ rows, row.ft_state ≠ FSINVALID)
    (hstate : ∀ row ∈ rows, row.ft_state.toNat < nstates)
    (hchar : ∀ row ∈ rows, row.ft_char ≠ TCANY → 0 ≤ row.ft_char.toInt ∧ row.ft_char.toInt < NCHRS)
    (fsm : Fsm) (ti : Nat) (hti : ti + rows.length ≤ 254) :
    ∃ fsm', (rows_loop nstates (rows ++ last :: rest) ti).run fsm = .ok (ti + rows.length, fsm') ∧
      ∀ s c, c < NCHRS → fsm' s c = resolved s c rows ti (fsm s c) := by
  induction rows generalizing ti fsm with
  | nil =>
    refine ⟨fsm, ?_, fun s c _ => ?_⟩
    · rw [List.nil_append, rows_loop, if_pos hlast, run_pure, List.length_nil, Nat.add_zero]
    · simp only [resolved, lastNamed, firstAny, Option.map_none, Option.getD_none]
      split
      · next hfree => exact hfree
      · rfl
  | cons row rows ih =>
    rw [List.length_cons] at hti
    have hrow := run_row_body fsm (hstate row List.mem_cons_self) (hchar row List.mem_cons_self) (.ofNat ti)
    obtain ⟨fsm', hrun, hfsm⟩ := ih (fun r hr => hvalid r (List.mem_cons_of_mem _ hr))
      (fun r hr => hstate r (List.mem_cons_of_mem _ hr)) (fun r hr => hchar r (List.mem_cons_of_mem _ hr))
      (fun s c => applied s c row (.ofNat ti) (fsm s c)) (ti + 1) (by omega)
    refine ⟨fsm', ?_, fun s c hc => ?_⟩
    · rw [List.cons_append, rows_loop, if_neg (hvalid row List.mem_cons_self), run_bind_of_ok hrow, hrun,
        List.length_cons, Nat.add_assoc, Nat.add_comm 1]
    · rw [hfsm s c hc, resolved_cons s hc row rows (by omega)]

/-- The array means what the table means. -/
def Compiles (nstates : Nat) (rows : List (fsm_trans α)) (fsm : Fsm) : Prop :=
  ∀ s c, s < nstates → c < NCHRS → (fsm s c).toNat = rowIndex rows s c

theorem toNat_resolved (hlen : rows.length ≤ 254) (s c : Nat) :
    (claimed (.ofNat rows.length) (resolved s c rows 0 TINVALID)).toNat = rowIndex rows s c := by
  have hle := rowIndex_le rows s c
  have hofNat : claimed (.ofNat rows.length) (resolved s c rows 0 TINVALID) = .ofNat (rowIndex rows s c) := by
    unfold resolved rowIndex claimed
    cases hnamed : lastNamed s c rows 0 with
    | some i =>
      have hi : rowIndex rows s c = i := by rw [rowIndex, hnamed, Option.getD_some]
      exact if_neg (ofNat_ne_tinvalid (by omega))
    | none =>
      cases hany : firstAny s rows 0 with
      | some i =>
        have hi : rowIndex rows s c = i := by rw [rowIndex, hnamed, Option.getD_none, hany, Option.getD_some]
        exact if_neg (ofNat_ne_tinvalid (by omega))
      | none => rfl
  rw [hofNat, toNat_ofNat_index (by omega)]

/-- `fsminit` compiles the rows before the first invalid one. -/
theorem run_fsminit_rows (rest : List (fsm_trans α))
    (hlen : rows.length ≤ 254) (hvalid : ∀ row ∈ rows, row.ft_state ≠ FSINVALID)
    (hstate : ∀ row ∈ rows, row.ft_state.toNat < nstates)
    (hchar : ∀ row ∈ rows, row.ft_char ≠ TCANY → 0 ≤ row.ft_char.toInt ∧ row.ft_char.toInt < NCHRS)
    (hlast : last.ft_state = FSINVALID) (fsm : Fsm) :
    ∃ fsm', (fsminit (rows ++ last :: rest) nstates).run fsm = .ok ((), fsm') ∧ Compiles nstates rows fsm' := by
  have hclear : (sweep nstates fun sn cn => setEntry nstates sn cn TINVALID).run fsm =
      .ok ((), fun i j => if i < nstates ∧ j < NCHRS then TINVALID else fsm i j) :=
    run_sweep (fun _ => TINVALID) fun sn cn fsm hs hc => run_setEntry hs hc TINVALID
  obtain ⟨fsm₁, hrows, hfsm₁⟩ := run_rows_loop rest hlast hvalid hstate hchar
    (fun i j => if i < nstates ∧ j < NCHRS then TINVALID else fsm i j) 0 (by rw [Nat.zero_add]; exact hlen)
  rw [Nat.zero_add] at hrows
  have hclaim : (sweep nstates (claim_entry nstates (.ofNat rows.length))).run fsm₁ =
      .ok ((), fun i j => if i < nstates ∧ j < NCHRS then claimed (.ofNat rows.length) (fsm₁ i j) else fsm₁ i j) :=
    run_sweep _ fun sn cn fsm hs hc => run_claim_entry hs hc _
  refine ⟨fun i j => if i < nstates ∧ j < NCHRS then claimed (.ofNat rows.length) (fsm₁ i j) else fsm₁ i j, ?_,
    fun s c hs hc => ?_⟩
  · rw [fsminit, run_bind_of_ok hclear, run_bind_of_ok hrows]
    exact hclaim
  · have hin : s < nstates ∧ c < NCHRS := ⟨hs, hc⟩
    dsimp only
    rw [if_pos hin, hfsm₁ s c hc, if_pos hin, toNat_resolved hlen]

/-- `fsminit` compiles every well-formed table. -/
theorem run_fsminit (hwf : WellFormed nstates rows) (hlast : last.ft_state = FSINVALID) (fsm : Fsm) :
    ∃ fsm', (fsminit (rows ++ [last]) nstates).run fsm = .ok ((), fsm') ∧ Compiles nstates rows fsm' := by
  refine run_fsminit_rows [] hwf.length_le (fun row hrow heq => ?_) hwf.state_lt hwf.char_lt hlast fsm
  have hlt := hwf.state_lt row hrow
  have hle := hwf.nstates_le
  have hmax : FSINVALID.toNat = 255 := rfl
  rw [heq] at hlt
  omega

/-- For every table, whatever stands behind its first invalid row, every entry of the array is the index of the row
that the table means. -/
theorem fsminit_means (nstates : Nat) (rows rest : List (fsm_trans α)) (last : fsm_trans α) (fsm : Fsm)
    (hlen : rows.length ≤ 254) (hvalid : ∀ row ∈ rows, row.ft_state ≠ FSINVALID)
    (hstate : ∀ row ∈ rows, row.ft_state.toNat < nstates)
    (hchar : ∀ row ∈ rows, row.ft_char = TCANY ∨ 0 ≤ row.ft_char.toInt ∧ row.ft_char.toInt ≤ 255)
    (hlast : last.ft_state = FSINVALID) :
    ∃ fsm', (fsminit (rows ++ last :: rest) nstates).run fsm = .ok ((), fsm') ∧
      ∀ s < nstates, ∀ c : UInt8, Means rows s c.toNat (fsm' s c.toNat).toNat := by
  have hindex : ∀ row ∈ rows, row.ft_char ≠ TCANY → 0 ≤ row.ft_char.toInt ∧ row.ft_char.toInt < NCHRS := by
    intro row hrow hne
    obtain ⟨hnonneg, hle⟩ := (hchar row hrow).resolve_left hne
    exact ⟨hnonneg, Int.lt_add_one_of_le hle⟩
  obtain ⟨fsm', hrun, hcompiles⟩ := run_fsminit_rows rest hlen hvalid hstate hindex hlast fsm
  refine ⟨fsm', hrun, fun s hs c => ?_⟩
  rw [hcompiles s c.toNat hs c.toNat_lt]
  exact rowIndex_means rows s c.toNat

/-- Two rows for one character, with a row for any character between them. -/
theorem fsminit_means_three :
    ∃ fsm', (fsminit ([onChar 0 7 0 (), onAny 0 0 (), onChar 0 7 0 ()] ++ onAny 255 255 () :: []) 1).run
      (fun _ _ => 0) = .ok ((), fsm') ∧
    ∀ s < 1, ∀ c : UInt8, Means [onChar 0 7 0 (), onAny 0 0 (), onChar 0 7 0 ()] s c.toNat (fsm' s c.toNat).toNat := by
  refine fsminit_means 1 [onChar 0 7 0 (), onAny 0 0 (), onChar 0 7 0 ()] [] (onAny 255 255 ()) (fun _ _ => 0)
    (by decide) ?_ ?_ ?_ rfl
  · decide
  · decide
  · decide

end

end basic_data_struct.telnet
