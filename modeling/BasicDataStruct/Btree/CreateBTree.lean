import BasicDataStruct.Btree.Node
import BasicDataStruct.Btree.Notation

open machine machine.Exec

namespace basic_data_struct.btree

variable {n : Nat} {c : Int8}

/-- The locals of `CreateBTree` and the pointer `*bt`. The variables `p` and `k`
and the entries of the stack have no value before they are assigned. -/
structure Parser where
  bt : Ptr
  p : Option Ptr
  s : Nat → Option Ptr
  top : Int
  k : Option Int

def Parser.init : Parser := ⟨none, none, fun _ => none, -1, none⟩

/-- `s[top]` for reading. -/
def Parser.entry (l : Parser) : Prog Ptr :=
  if 0 ≤ l.top ∧ l.top < MS then assigned (l.s l.top.toNat) else fail .bounds

/-- `s[top]=p` -/
def Parser.setEntry (l : Parser) (p : Ptr) : Prog Parser :=
  if 0 ≤ l.top ∧ l.top < MS then return { l with s := Function.update l.s l.top.toNat (some p) } else fail .bounds

/-- `case '(':` -/
def open_case (l : Parser) : Prog Parser := do
  if l.top = MS - 1 then fail (.exit "栈空间太小,需要增加MS的值！\n" 1)
  else
    let l := { l with top := l.top + 1 }
    let p ← assigned l.p
    let l ← l.setEntry p
    return { l with k := some 1 }

/-- `case')':` -/
def close_case (l : Parser) : Prog Parser :=
  if l.top = -1 then fail (.exit "二叉树广义表字符串有错！\n" 1) else return { l with top := l.top - 1 }

/-- `case',':` -/
def comma_case (l : Parser) : Prog Parser := return { l with k := some 2 }

/-- The letters of the `default:` case. -/
def letter_case (c : Int8) (l : Parser) : Prog Parser := do
  let p ← newNode c
  if l.bt = none then return { l with bt := p, p := some p }
  else
    let k ← assigned l.k
    let parent ← l.entry
    store parent fun node => if k = 1 then node.setLeft p else node.setRight p
    return { l with p := some p }

/-- The `switch` statement. -/
def char_body (c : Int8) (l : Parser) : Prog Parser :=
  if c = blank then return l
  else if c = lparen then open_case l
  else if c = rparen then close_case l
  else if c = comma then comma_case l
  else if isLetter c then letter_case c l
  else fail (.exit "二叉树广义表字符串错！\n" 1)

/-- `a[i]` for a string of the characters `a` and a terminating NUL. -/
def charAt (a : List Int8) (i : Int32) : Prog Int8 :=
  if 0 ≤ i.toInt ∧ i.toInt ≤ a.length then return a.getD i.toInt.toNat 0 else fail .bounds

/-- The body of the `while` loop. -/
def parse_body (a : List Int8) (locals : Int32 × Parser) : Prog ((Int32 × Parser) ⊕ Parser) := do
  let c ← charAt a locals.1
  if c = 0 then return .inr locals.2
  else
    let l ← char_body c locals.2
    return .inl (locals.1 + 1, l)

/-- Returns what the caller finds in `*bt`. -/
def CreateBTree (fuel : Nat) (a : List Int8) : Prog Ptr := do
  let l ← loop (parse_body a) fuel (0, .init)
  return l.bt

section

variable {l : Parser} {h : Heap BT}

/-- An opening parenthesis with `n` open ones before it pushes the last node. -/
theorem run_char_body_lparen {p : Ptr} (htop : l.top = n - 1) (hn : n < MS) (hp : l.p = some p) :
    (char_body lparen l).run h =
      .ok (⟨l.bt, some p, Function.update l.s n (some p), n, some 1⟩, h) := by
  have hroom : l.top ≠ MS - 1 := by omega
  have hnext : l.top + 1 = n := by omega
  have hindex : 0 ≤ (n : Int) ∧ (n : Int) < MS := ⟨by omega, by omega⟩
  change (open_case l).run h = _
  unfold open_case Parser.setEntry
  dsimp only
  rw [if_neg hroom, hp, assigned_some, run_pure_bind, hnext, if_pos hindex, run_pure_bind, run_pure, Int.toNat_natCast]

/-- A closing parenthesis pops the stack. -/
theorem run_char_body_rparen (htop : l.top = n) :
    (char_body rparen l).run h = .ok (⟨l.bt, l.p, l.s, n - 1, l.k⟩, h) := by
  have hopen : l.top ≠ -1 := by omega
  change (close_case l).run h = _
  unfold close_case
  rw [if_neg hopen, run_pure, htop]

theorem run_char_body_comma : (char_body comma l).run h = .ok (⟨l.bt, l.p, l.s, l.top, some 2⟩, h) := rfl

theorem char_body_letter (hc : isLetter c = true) (l : Parser) : char_body c l = letter_case c l := by
  unfold char_body
  rw [if_neg (isLetter_ne hc (by decide)), if_neg (isLetter_ne hc (by decide)), if_neg (isLetter_ne hc (by decide)),
    if_neg (isLetter_ne hc (by decide)), if_pos hc]

/-- The first letter becomes the root. -/
theorem run_char_body_root (hc : isLetter c = true) (hbt : l.bt = none) :
    ∃ h', (char_body c l).run h = .ok (⟨some h.next, some (some h.next), l.s, l.top, l.k⟩, h') ∧
      h'.cells h.next = some ⟨c, none, none⟩ ∧ (∀ a, a ≠ h.next → h'.cells a = h.cells a) ∧
      h'.next = h.next + 1 := by
  obtain ⟨h', hnew, hcell, hframe, hnext⟩ := run_newNode h c
  refine ⟨h', ?_, hcell, hframe, hnext⟩
  rw [char_body_letter hc, letter_case, run_bind_of_ok hnew, if_pos hbt, run_pure]

/-- `s[top]->left=p` or `s[top]->right=p`, as the flag `k` says. -/
def BT.setChild (k : Int) (p : Ptr) (node : BT) : BT := if k = 1 then node.setLeft p else node.setRight p

/-- Every other letter becomes a child of the node on top of the stack. -/
theorem run_char_body_child {a : Nat} {k : Int} {node : BT} (hc : isLetter c = true) (hbt : l.bt ≠ none)
    (htop : l.top = n) (hn : n < MS) (hs : l.s n = some (some a)) (hk : l.k = some k) (ha : h.cells a = some node) :
    ∃ h', (char_body c l).run h = .ok (⟨l.bt, some (some h.next), l.s, l.top, l.k⟩, h') ∧
      h'.cells h.next = some ⟨c, none, none⟩ ∧ h'.cells a = some (node.setChild k (some h.next)) ∧
      (∀ x, x ≠ a → x ≠ h.next → h'.cells x = h.cells x) ∧ h'.next = h.next + 1 := by
  obtain ⟨h', hnew, hcell, hframe, hnext⟩ := run_newNode h c
  have hne : a ≠ h.next := Heap.next_ne_of_some ha
  have ha' : h'.cells a = some node := by rw [hframe a hne, ha]
  have hentry : l.entry.run h' = .ok (some a, h') := by
    unfold Parser.entry
    rw [if_pos ⟨by omega, by omega⟩, htop, Int.toNat_natCast, hs, assigned_some, run_pure]
  refine ⟨h'.alter a (BT.setChild k (some h.next)), ?_, ?_, ?_, ?_, hnext⟩
  · rw [char_body_letter hc, letter_case, run_bind_of_ok hnew, if_neg hbt, hk, assigned_some, run_pure_bind,
      run_bind_of_ok hentry]
    exact run_bind_of_ok (run_store ha' _) _
  · rw [Heap.alter_cells_of_ne _ _ (Ne.symm hne), hcell]
  · rw [Heap.alter_cells_same, ha', Option.map_some]
  · intro x hxa hxn
    rw [Heap.alter_cells_of_ne _ _ hxa, hframe x hxn]

end

end basic_data_struct.btree
