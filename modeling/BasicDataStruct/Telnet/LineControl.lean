import BasicDataStruct.Telnet.Refusal

open machine machine.Exec

namespace basic_data_struct.telnet

variable {cap : String} {sv : List UInt8} {c : UInt8}

/-- The variables behind the answers of `tcout`. -/
structure Termcap extends TcoutStatics where
  calls : Nat

namespace Termcap

/-- After the start of `tcout`. -/
def looked (env : Env) (tc : Termcap) : Termcap :=
  if tc.init then tc else ⟨⟨true, env.getenv tc.calls, tc.bp⟩, tc.calls + 1⟩

/-- The capability that a call of `tcout` finds. -/
def answer (env : Env) (tc : Termcap) (cap : String) : Option (List UInt8) :=
  if (tc.looked env).term = none then none
  else if env.tgetent (tc.looked env).calls ≠ 1 then none
  else env.tgetstr ((tc.looked env).calls + 1) cap

/-- There is room in `buf` for the capability and its terminator. -/
def fits (env : Env) (tc : Termcap) (cap : String) : Bool :=
  (tc.answer env cap).all fun sv => tc.bp + sv.length < TBUFSIZE

/-- After a call of `tcout`. -/
def asked (env : Env) (tc : Termcap) (cap : String) : Termcap :=
  if (tc.looked env).term = none then tc.looked env
  else if env.tgetent (tc.looked env).calls ≠ 1 then { tc.looked env with calls := (tc.looked env).calls + 1 }
  else { tc.looked env with
    bp := tc.bp + ((tc.answer env cap).map fun sv => sv.length + 1).getD 0
    calls := (tc.looked env).calls + 2 }

end Termcap

namespace Client

def termcap (s : Client) : Termcap := ⟨s.tcoutStatics, s.calls⟩

def setTermcap (s : Client) (tc : Termcap) : Client := { s with tcoutStatics := tc.toTcoutStatics, calls := tc.calls }

def setLast (s : Client) (c : UInt8) : Client := { s with last_char := c }

end Client

/-- What a stream of data asks the terminal to do. -/
inductive Item where
  | newline
  | char (c : UInt8)
  | control (cap : String) (c : UInt8)

/-- Two characters that end a line together. -/
abbrev LineEnd (last_char c : UInt8) : Prop := (last_char = VPCR ∧ c = VPLF) ∨ (last_char = VPLF ∧ c = VPCR)

/-- A line control that is not the first half of a line end. -/
def heldItems (last_char : UInt8) : List Item :=
  if last_char = VPCR then [.control "cr" VPCR] else if last_char = VPLF then [.control "do" VPLF] else []

/-- A character other than a line control. -/
def charItems (c : UInt8) : List Item :=
  if 32 ≤ c ∧ c < TCIAC then [.char c]
  else if c = VPBEL then [.control "bl" c]
  else if c = VPBS then [.control "bc" c]
  else if c = VPHT then [.control "ta" c]
  else if c = VPVT then [.control "do" c]
  else if c = VPFF then [.control "cl" c]
  else []

/-- A stream, cut into line ends, controls and characters. A line control at its end waits
for the next byte. -/
def items : List UInt8 → List Item
  | [] => []
  | [c] => charItems c
  | c :: d :: bytes => if LineEnd c d then .newline :: items bytes else charItems c ++ heldItems c ++ items (d :: bytes)

/-- The byte of a stream that still waits. -/
def pending (last_char : UInt8) : List UInt8 := if last_char = VPCR ∨ last_char = VPLF then [last_char] else []

/-- The text of an item, given the capability that was found for it: a control without a
capability is the control character itself. -/
def Item.text : Item → Option (List UInt8) → List UInt8
  | .newline, _ => [VPLF]
  | .char c, _ => [c]
  | .control _ c, found => found.getD [c]

/-- The text that `ttputc` prints for an item. -/
def Item.printed : Item → Option (List UInt8) → List UInt8
  | .newline, _ => [VPLF]
  | .char c, _ => [c]
  | .control _ c, found => found.getD (if c = VPCR ∨ c = VPLF then [] else [c])

namespace Item

/-- A carriage return or a line feed that is not part of a line end. -/
def IsLineControl : Item → Prop
  | .control _ c => c = VPCR ∨ c = VPLF
  | _ => False

/-- The capability that `tcout` finds for an item. -/
def found (env : Env) (tc : Termcap) : Item → Option (List UInt8)
  | .control cap _ => tc.answer env cap
  | _ => none

/-- Only a control calls `tcout`. -/
def fits (env : Env) (tc : Termcap) : Item → Bool
  | .control cap _ => tc.fits env cap
  | _ => true

def after (env : Env) (tc : Termcap) : Item → Termcap
  | .control cap _ => tc.asked env cap
  | _ => tc

end Item

/-- The text of a sequence of items, with the answers of `tcout` in their order. -/
def render (env : Env) (text : Item → Option (List UInt8) → List UInt8) : Termcap → List Item → List UInt8
  | _, [] => []
  | tc, item :: rest => text item (item.found env tc) ++ render env text (item.after env tc) rest

/-- Every carriage return and line feed among the items finds its capability. -/
def LineControlsFound (env : Env) : Termcap → List Item → Prop
  | _, [] => True
  | tc, item :: rest =>
    (item.IsLineControl → (item.found env tc).isSome) ∧ LineControlsFound env (item.after env tc) rest

/-- The capabilities that are found for the items fit into `buf`, one behind the other. -/
def AreaHolds (env : Env) : Termcap → List Item → Prop
  | _, [] => True
  | tc, item :: rest => item.fits env tc = true ∧ AreaHolds env (item.after env tc) rest

/-- The bytes of a stream, one after the other. -/
def putAll (env : Env) (bytes : List UInt8) : Prog Unit := eachByte (fun c => do let _ ← ttputc env c; return ()) bytes

section Scan

/-- The items of one call of `ttputc`. -/
def byteItems (last_char c : UInt8) : List Item :=
  if LineEnd last_char c then [.newline] else heldItems last_char ++ charItems c

/-- What is held back after it. -/
def nextLast (last_char c : UInt8) : UInt8 := if LineEnd last_char c then 0 else c

/-- The items of the calls for a stream. -/
def scanItems : UInt8 → List UInt8 → List Item
  | _, [] => []
  | last_char, c :: bytes => byteItems last_char c ++ scanItems (nextLast last_char c) bytes

variable {last_char c : UInt8}

theorem charItems_of_control (h : c = VPCR ∨ c = VPLF) : charItems c = [] := by
  rcases h with rfl | rfl <;> rfl

theorem heldItems_of_not_control (h : ¬ (c = VPCR ∨ c = VPLF)) : heldItems c = [] := by
  rw [heldItems, if_neg (mt .inl h), if_neg (mt .inr h)]

theorem control_of_lineEnd (h : LineEnd last_char c) : last_char = VPCR ∨ last_char = VPLF := h.imp And.left And.left

theorem scanItems_plain (h : ¬ (last_char = VPCR ∨ last_char = VPLF)) (bytes : List UInt8) :
    scanItems last_char (c :: bytes) = charItems c ++ scanItems c bytes := by
  have hend : ¬ LineEnd last_char c := mt control_of_lineEnd h
  rw [scanItems, byteItems, nextLast, if_neg hend, if_neg hend, heldItems_of_not_control h, List.nil_append]

/-- A character and the scan after it are the items from that character on. -/
theorem charItems_append_scanItems (c : UInt8) : ∀ bytes, charItems c ++ scanItems c bytes = items (c :: bytes)
  | [] => List.append_nil _
  | d :: bytes => by
    by_cases hend : LineEnd c d
    · rw [charItems_of_control (control_of_lineEnd hend), scanItems, byteItems, nextLast, items, if_pos hend,
        if_pos hend, if_pos hend, List.nil_append, List.singleton_append]
      -- nothing is held back after a line end
      match bytes with
      | [] => rfl
      | e :: bytes => rw [scanItems_plain (by decide), charItems_append_scanItems e bytes]
    · rw [scanItems, byteItems, nextLast, items, if_neg hend, if_neg hend, if_neg hend,
        ← charItems_append_scanItems d bytes, List.append_assoc, List.append_assoc]

/-- The calls see the items of the stream with the byte that still waits in front. -/
theorem scanItems_eq_items (last_char : UInt8) (bytes : List UInt8) :
    scanItems last_char bytes = items (pending last_char ++ bytes) := by
  rw [pending]
  by_cases hctl : last_char = VPCR ∨ last_char = VPLF
  · rw [if_pos hctl, List.singleton_append, ← charItems_append_scanItems, charItems_of_control hctl, List.nil_append]
  · rw [if_neg hctl, List.nil_append]
    cases bytes with
    | nil => rfl
    | cons c bytes => rw [scanItems_plain hctl, charItems_append_scanItems]

end Scan

/-- What `ttputc` does for an item. -/
def Client.put (env : Env) (s : Client) (item : Item) : Except Fault Client :=
  if item.fits env s.termcap then
    .ok ((s.setTermcap (item.after env s.termcap)).shown (item.printed (item.found env s.termcap)))
  else .error .bounds

section Tcout

variable (env : Env) (s : Client)

theorem run_tcout_init : (tcout_init env).run s = .ok ((), s.setTermcap (s.termcap.looked env)) := by
  have hinit : s.termcap.init = s.tcoutStatics.init := rfl
  rw [tcout_init, run_bind_of_ok (run_get s), run_ite, Termcap.looked, hinit]
  split <;> rfl

theorem Termcap.looked_bp (tc : Termcap) : (tc.looked env).bp = tc.bp := by
  rw [looked]
  split <;> rfl

theorem run_tgetstr_some (hsv : env.tgetstr s.calls cap = some sv)
    (hroom : s.tcoutStatics.bp + sv.length < TBUFSIZE) : (tgetstr env cap).run s =
      .ok (some sv, { s.called with tcoutStatics.bp := s.tcoutStatics.bp + sv.length + 1 }) := by
  rw [tgetstr, run_bind_of_ok (run_call s), hsv]
  exact run_bind_of_ok (run_inBounds hroom s.called) _

theorem run_tgetstr_full (hsv : env.tgetstr s.calls cap = some sv)
    (hfull : ¬ s.tcoutStatics.bp + sv.length < TBUFSIZE) : (tgetstr env cap).run s = .error .bounds := by
  rw [tgetstr, run_bind_of_ok (run_call s), hsv]
  exact run_bind_of_error ((run_ite _ _ _ s.called).trans (if_neg hfull)) _

theorem run_tgetstr_none (hsv : env.tgetstr s.calls cap = none) : (tgetstr env cap).run s = .ok (none, s.called) := by
  rw [tgetstr, run_bind_of_ok (run_call s), hsv]
  rfl

/-- `tcout` shows the capability, or overruns its buffer where it does not fit. -/
theorem run_tcout (cap : String) :
    (tcout env cap).run s = if s.termcap.fits env cap then
      .ok ((s.termcap.answer env cap).isSome,
        (s.setTermcap (s.termcap.asked env cap)).shown ((s.termcap.answer env cap).getD []))
    else .error .bounds := by
  rw [tcout, run_bind_of_ok (run_tcout_init env s), run_bind_of_ok (run_get _), run_ite, Termcap.fits, Termcap.asked,
    Termcap.answer, ← Termcap.looked_bp env]
  generalize s.termcap.looked env = tc
  have hnone (t : Client) : (pure false : Prog Bool).run t = .ok (false, t.shown []) := by
    rw [run_pure, t.shown_nil]
  have hterm_eq : (s.setTermcap tc).tcoutStatics.term = tc.term := rfl
  have hcalls : (s.setTermcap tc).calls = tc.calls := rfl
  rw [hterm_eq]
  by_cases hterm : tc.term = none
  · rw [if_pos hterm, if_pos hterm, if_pos hterm]
    exact hnone _
  rw [if_neg hterm, if_neg hterm, if_neg hterm, run_bind_of_ok (run_call _), run_ite, hcalls]
  by_cases hent : env.tgetent tc.calls ≠ 1
  · rw [if_pos hent, if_pos hent, if_pos hent]
    exact hnone _
  rw [if_neg hent, if_neg hent, if_neg hent]
  cases hsv : env.tgetstr (tc.calls + 1) cap with
  | none => exact (run_bind_of_ok (run_tgetstr_none env (s.setTermcap tc).called hsv) _).trans (hnone _)
  | some sv =>
    by_cases hroom : tc.bp + sv.length < TBUFSIZE
    · rw [Option.all_some, if_pos (decide_eq_true hroom)]
      exact run_bind_of_ok (run_tgetstr_some env (s.setTermcap tc).called hsv hroom) _
    · rw [Option.all_some, if_neg (by simpa using hroom)]
      exact run_bind_of_error (run_tgetstr_full env (s.setTermcap tc).called hsv hroom) _

/-- The result of `tcout` is discarded. -/
theorem run_tcout_discarded (hctl : c = VPCR ∨ c = VPLF) : (tcout env cap >>= fun _ => pure ()).run s =
      Prod.mk () <$> [Item.control cap c].foldlM (Client.put env) s := by
  rw [List.foldlM_cons, Client.put, Item.fits]
  by_cases hfits : s.termcap.fits env cap = true
  · rw [run_bind_of_ok ((run_tcout env s cap).trans (if_pos hfits)), if_pos hfits, Item.printed, if_pos hctl]
    rfl
  · rw [run_bind_of_error ((run_tcout env s cap).trans (if_neg hfits)), if_neg hfits]
    rfl

theorem run_held_control (last_char : UInt8) :
    (held_control env last_char).run s = Prod.mk () <$> (heldItems last_char).foldlM (Client.put env) s := by
  rw [held_control, heldItems, run_ite]
  by_cases hcr : last_char = VPCR
  · rw [if_pos hcr, if_pos hcr]
    exact run_tcout_discarded env s (.inl rfl)
  rw [if_neg hcr, if_neg hcr, run_ite]
  by_cases hlf : last_char = VPLF
  · rw [if_pos hlf, if_pos hlf]
    exact run_tcout_discarded env s (.inr rfl)
  · rw [if_neg hlf, if_neg hlf]
    rfl

/-- The result of `tcout` decides whether the character is printed as it is. -/
theorem run_tcout_or_char (cap : String) (hcr : c ≠ VPCR) (hlf : c ≠ VPLF) :
    (tcout env cap >>= fun tc => if tc = true then pure () else xputc c).run s =
      Prod.mk () <$> [Item.control cap c].foldlM (Client.put env) s := by
  rw [List.foldlM_cons, Client.put, Item.fits]
  by_cases hfits : s.termcap.fits env cap = true
  · rw [run_bind_of_ok ((run_tcout env s cap).trans (if_pos hfits)), if_pos hfits, Item.printed,
      if_neg (not_or.mpr ⟨hcr, hlf⟩), Item.found]
    cases s.termcap.answer env cap with
    | some sv => rfl
    | none => exact congrArg (fun t => Except.ok ((), t)) (Client.shown_shown _ [] [c])
  · rw [run_bind_of_error ((run_tcout env s cap).trans (if_neg hfits)), if_neg hfits]
    rfl

theorem run_nvt_char (c : UInt8) :
    (nvt_char env c).run s = Prod.mk () <$> (charItems c).foldlM (Client.put env) s := by
  rw [nvt_char, charItems, run_ite]
  by_cases hprint : 32 ≤ c ∧ c < TCIAC
  · rw [if_pos hprint, if_pos hprint]
    rfl
  rw [if_neg hprint, if_neg hprint, nvt_special]
  by_cases hlf : c = VPLF
  · rw [if_pos hlf, hlf]
    rfl
  by_cases hcr : c = VPCR
  · rw [if_neg hlf, if_pos hcr, hcr]
    rfl
  rw [if_neg hlf, if_neg hcr]
  by_cases hbel : c = VPBEL
  · rw [if_pos hbel, if_pos hbel]
    exact run_tcout_or_char env s "bl" hcr hlf
  rw [if_neg hbel, if_neg hbel]
  by_cases hbs : c = VPBS
  · rw [if_pos hbs, if_pos hbs]
    exact run_tcout_or_char env s "bc" hcr hlf
  rw [if_neg hbs, if_neg hbs]
  by_cases hht : c = VPHT
  · rw [if_pos hht, if_pos hht]
    exact run_tcout_or_char env s "ta" hcr hlf
  rw [if_neg hht, if_neg hht]
  by_cases hvt : c = VPVT
  · rw [if_pos hvt, if_pos hvt]
    exact run_tcout_or_char env s "do" hcr hlf
  rw [if_neg hvt, if_neg hvt]
  by_cases hff : c = VPFF
  · rw [if_pos hff, if_pos hff]
    exact run_tcout_or_char env s "cl" hcr hlf
  · rw [if_neg hff, if_neg hff]
    rfl

/-- A character in the mode of the Network Virtual Terminal. -/
theorem run_ttputc_nvt (hbin : s.flags .rcvbinary = 0) (hsync : s.synching = 0) (c : UInt8) :
    (ttputc env c).run s = (fun t => (0, t.setLast (nextLast s.last_char c))) <$>
      (byteItems s.last_char c).foldlM (Client.put env) s := by
  rw [ttputc, run_bind_of_ok (run_get s), if_neg (not_not_intro hbin), if_neg (not_not_intro hsync), run_ite, byteItems,
    nextLast]
  by_cases hend : LineEnd s.last_char c
  · rw [if_pos hend, if_pos hend, if_pos hend]
    rfl
  · rw [if_neg hend, if_neg hend, if_neg hend, List.foldlM_append, run_bind, run_held_control]
    cases (heldItems s.last_char).foldlM (Client.put env) s with
    | error e => rfl
    | ok t =>
      change (nvt_char env c >>= _).run t = _ <$> (charItems c).foldlM (Client.put env) t
      rw [run_bind, run_nvt_char]
      cases (charItems c).foldlM (Client.put env) t <;> rfl

end Tcout

section Stream

variable (env : Env) {s t : Client} {its : List Item}

/-- The modes of the terminal stay as they are, and the text of the items is shown. -/
theorem foldlM_put_eq_ok (h : its.foldlM (Client.put env) s = .ok t) :
    t.flags = s.flags ∧ t.synching = s.synching ∧ t.tfp = s.tfp ++ render env Item.printed s.termcap its := by
  induction its generalizing s with
  | nil =>
    cases h
    exact ⟨rfl, rfl, (List.append_nil _).symm⟩
  | cons item its ih =>
    rw [List.foldlM_cons, Client.put] at h
    split at h
    · obtain ⟨hflags, hsynching, htfp⟩ := ih h
      exact ⟨hflags, hsynching, htfp.trans (List.append_assoc _ _ _)⟩
    · cases h

/-- The items are shown as long as `buf` has room. -/
theorem foldlM_put_iff (its : List Item) (s : Client) :
    (∃ t, its.foldlM (Client.put env) s = .ok t) ↔ AreaHolds env s.termcap its := by
  induction its generalizing s with
  | nil => exact iff_of_true ⟨s, rfl⟩ trivial
  | cons item its ih =>
    rw [List.foldlM_cons, Client.put, AreaHolds]
    split
    next hfits => exact (ih _).trans (and_iff_right hfits).symm
    next hfull => exact iff_of_false (fun ⟨t, h⟩ => nomatch h) fun h => hfull h.1

theorem foldlM_put_setLast (its : List Item) (s : Client) (c : UInt8) :
    its.foldlM (Client.put env) (s.setLast c) = (·.setLast c) <$> its.foldlM (Client.put env) s := by
  induction its generalizing s with
  | nil => rfl
  | cons item its ih =>
    have hput : (s.setLast c).put env item = (·.setLast c) <$> s.put env item := by
      rw [Client.put, Client.put, apply_ite (Functor.map (Client.setLast · c))]
      rfl
    rw [List.foldlM_cons, List.foldlM_cons, hput]
    cases s.put env item with
    | error e => rfl
    | ok t => exact ih t

/-- A printable character is shown, after what was held back. -/
theorem ttputc_shows (s : Client) (hbin : s.flags .rcvbinary = 0) (hsync : s.synching = 0)
    (hroom : AreaHolds env s.termcap (heldItems s.last_char)) (hle : 32 ≤ c) (hlt : c < TCIAC) :
    ∃ t text, (ttputc env c).run s = .ok (0, t) ∧ t.tfp = s.tfp ++ text ++ [c] := by
  have hend : ¬ LineEnd s.last_char c := by
    rintro (⟨_, rfl⟩ | ⟨_, rfl⟩) <;> exact absurd hle (by decide)
  obtain ⟨u, hheld⟩ := (foldlM_put_iff env _ s).mpr hroom
  obtain ⟨-, -, htfp⟩ := foldlM_put_eq_ok env hheld
  refine ⟨(u.shown [c]).setLast c, _, ?_, congrArg (· ++ [c]) htfp⟩
  rw [run_ttputc_nvt env s hbin hsync, byteItems, if_neg hend, charItems, if_pos ⟨hle, hlt⟩, List.foldlM_append, hheld,
    nextLast, if_neg hend]
  rfl

/-- The items of a stream are put on the terminal in their order. -/
theorem run_putAll (bytes : List UInt8) {s : Client} (hbin : s.flags .rcvbinary = 0) (hsync : s.synching = 0) :
    (putAll env bytes).run s = (fun t => ((), t.setLast (bytes.foldl nextLast s.last_char))) <$>
      (scanItems s.last_char bytes).foldlM (Client.put env) s := by
  induction bytes generalizing s with
  | nil => rfl
  | cons c bytes ih =>
    rw [putAll, eachByte, run_bind, run_bind, run_ttputc_nvt env s hbin hsync c, scanItems, List.foldlM_append]
    cases hput : (byteItems s.last_char c).foldlM (Client.put env) s with
    | error e => rfl
    | ok t =>
      obtain ⟨hflags, hsynching, -⟩ := foldlM_put_eq_ok env hput
      have hrest := ih (s := t.setLast (nextLast s.last_char c)) ((congrFun hflags _).trans hbin)
        (hsynching.trans hsync)
      rw [foldlM_put_setLast] at hrest
      exact hrest.trans (Functor.map_map _ _ _)

end Stream

namespace Item

/-- No text is longer than the one that stands for it. -/
theorem printed_length_le (item : Item) (found : Option (List UInt8)) :
    (item.printed found).length ≤ (item.text found).length := by
  cases item with
  | newline => exact Nat.le_refl _
  | char c => exact Nat.le_refl _
  | control cap c =>
    cases found with
    | some sv => exact Nat.le_refl _
    | none =>
      rw [Item.printed, Item.text, Option.getD_none, Option.getD_none]
      split <;> simp

theorem printed_eq_text_iff (item : Item) (found : Option (List UInt8)) :
    item.printed found = item.text found ↔ (item.IsLineControl → found.isSome) := by
  cases item with
  | newline => exact iff_of_true rfl False.elim
  | char c => exact iff_of_true rfl False.elim
  | control cap c =>
    rw [Item.printed, Item.text, Item.IsLineControl]
    cases found with
    | some sv => exact iff_of_true rfl fun _ => rfl
    | none =>
      rw [Option.getD_none, Option.getD_none]
      split <;> simp_all

end Item

theorem append_eq_append_iff_of_length_le {α : Type} {a b a' b' : List α} (ha : a.length ≤ a'.length)
    (hb : b.length ≤ b'.length) : a ++ b = a' ++ b' ↔ a = a' ∧ b = b' := by
  constructor
  · intro h
    have hlength := congrArg List.length h
    rw [List.length_append, List.length_append] at hlength
    exact List.append_inj h (by omega)
  · rintro ⟨rfl, rfl⟩
    rfl

section Loss

variable (env : Env)

theorem render_printed_length_le (tc : Termcap) (its : List Item) :
    (render env Item.printed tc its).length ≤ (render env Item.text tc its).length := by
  induction its generalizing tc with
  | nil => exact Nat.le_refl _
  | cons item its ih =>
    rw [render, render, List.length_append, List.length_append]
    exact Nat.add_le_add (item.printed_length_le _) (ih _)

/-- A control that is lost makes the output shorter, so that the outputs agree only when
none is lost. -/
theorem render_printed_eq_iff (tc : Termcap) (its : List Item) :
    render env Item.printed tc its = render env Item.text tc its ↔ LineControlsFound env tc its := by
  induction its generalizing tc with
  | nil => exact iff_of_true rfl trivial
  | cons item its ih =>
    rw [render, render,
      append_eq_append_iff_of_length_le (item.printed_length_le _) (render_printed_length_le env _ its),
      item.printed_eq_text_iff, ih, LineControlsFound]

end Loss

/-- In the mode of the Network Virtual Terminal the output is the text of the items of the
stream exactly when every carriage return and line feed on its own finds its capability, and
the capabilities of all controls fit into the static buffer of `tcout`, behind those that it
has got before. Without that room a capability is written past the end of the buffer. -/
theorem line_controls_shown_iff (env : Env) (s : Client) (hbin : s.flags .rcvbinary = 0) (hsync : s.synching = 0)
    (bytes : List UInt8) :
    (∃ t, (putAll env bytes).run s = .ok ((), t) ∧
        t.tfp = s.tfp ++ render env Item.text s.termcap (items (pending s.last_char ++ bytes))) ↔
      AreaHolds env s.termcap (items (pending s.last_char ++ bytes)) ∧
        LineControlsFound env s.termcap (items (pending s.last_char ++ bytes)) := by
  rw [← scanItems_eq_items, ← render_printed_eq_iff, ← foldlM_put_iff, run_putAll env bytes hbin hsync]
  constructor
  · rintro ⟨t, hrun, htext⟩
    cases hput : (scanItems s.last_char bytes).foldlM (Client.put env) s with
    | error e =>
      rw [hput] at hrun
      cases hrun
    | ok u =>
      rw [hput] at hrun
      cases hrun
      obtain ⟨-, -, htfp⟩ := foldlM_put_eq_ok env hput
      exact ⟨⟨u, rfl⟩, List.append_cancel_left (htfp.symm.trans htext)⟩
  · rintro ⟨⟨t, hrun⟩, htext⟩
    obtain ⟨-, -, htfp⟩ := foldlM_put_eq_ok env hrun
    refine ⟨t.setLast (bytes.foldl nextLast s.last_char), ?_, htfp.trans (congrArg _ htext)⟩
    rw [hrun]
    rfl

/-- A terminal with a capability for every control. -/
def capableEnv : Env := { quietEnv with
  getenv _ := some []
  tgetent _ := 1
  tgetstr _ _ := some [27] }

/-- The capability of a carriage return, a character and a line end. -/
theorem line_controls_shown_capable :
    ∃ t, (putAll capableEnv [VPCR, 65, VPCR, VPLF]).run (Client.zero fun _ => 0) = .ok ((), t) ∧
      t.tfp = [27, 65, VPLF] := by
  exact (line_controls_shown_iff capableEnv (Client.zero fun _ => 0) rfl rfl [VPCR, 65, VPCR, VPLF]).mpr
    ⟨⟨rfl, rfl, rfl, trivial⟩, fun _ => rfl, False.elim, False.elim, trivial⟩

/-- Without a terminal name a line feed before a character is lost. -/
theorem line_feed_lost : (Client.zero fun _ => 0).flags .rcvbinary = 0 ∧ (Client.zero fun _ => 0).synching = 0 ∧
    ∃ t, (putAll quietEnv [VPLF, 65]).run (Client.zero fun _ => 0) = .ok ((), t) ∧ t.tfp = [65] ∧
      render quietEnv Item.text (Client.zero fun _ => 0).termcap
        (items (pending (Client.zero fun _ => 0).last_char ++ [VPLF, 65])) = [VPLF, 65] :=
  ⟨rfl, rfl, _, rfl, rfl, rfl⟩

end basic_data_struct.telnet
