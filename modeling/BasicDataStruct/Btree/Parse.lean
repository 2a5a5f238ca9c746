import BasicDataStruct.Btree.CreateBTree

open machine machine.Exec

namespace basic_data_struct.btree

variable {l l' : Parser} {h h' : Heap BT} {t : BinTree} {p : Ptr} {lo : Nat}

/-- The characters of a text, one after the other. -/
def feed : List Int8 → Parser → Prog Parser
  | [], l => return l
  | c :: text, l => do feed text (← char_body c l)

theorem run_feed_cons {c : Int8} (hc : (char_body c l).run h = .ok (l', h'))
    (text : List Int8) : (feed (c :: text) l).run h = (feed text l').run h' := by
  rw [feed, run_bind_of_ok hc]

theorem run_feed_append {text : List Int8} (hrun : (feed text l).run h = .ok (l', h')) (rest : List Int8) :
    (feed (text ++ rest) l).run h = (feed rest l').run h' := by
  induction text generalizing l h with
  | nil =>
    rw [feed, run_pure] at hrun
    cases hrun
    rw [List.nil_append]
  | cons c text ih =>
    rw [List.cons_append, feed, run_bind]
    rw [feed, run_bind] at hrun
    cases hc : (char_body c l).run h with
    | error e => simp [hc] at hrun
    | ok res =>
      simp only [hc] at hrun
      exact ih hrun

/-- Blanks do nothing. -/
theorem feed_filter (text : List Int8) (l : Parser) : feed (text.filter (· ≠ blank)) l = feed text l := by
  induction text generalizing l with
  | nil => rfl
  | cons c text ih =>
    by_cases hc : c = blank
    · subst hc
      rw [List.filter_cons_of_neg (by simp), ih]
      rfl
    · rw [List.filter_cons_of_pos (by simpa using hc), feed, feed]
      simp only [ih]

/-- The tree `t` is stored at `p` in nodes whose addresses are `lo` or above. -/
def Stored (h : Heap BT) (lo : Nat) : BinTree → Ptr → Prop
  | .empty, p => p = none
  | .node data left right, p => ∃ a pl pr, p = some a ∧ lo ≤ a ∧ h.cells a = some ⟨data, pl, pr⟩ ∧
      Stored h lo left pl ∧ Stored h lo right pr

/-- The heap has grown, and of its old nodes only `a` may have changed. -/
structure Grown (h h' : Heap BT) (a : Nat) : Prop where
  next_le : h.next ≤ h'.next
  cells : ∀ x, x ≠ a → x < h.next → h'.cells x = h.cells x

theorem Grown.trans {h'' : Heap BT} {a : Nat} (hg : Grown h h' a) (hg' : Grown h' h'' a) : Grown h h'' a where
  next_le := Nat.le_trans hg.next_le hg'.next_le
  cells x hxa hx := by
    have hle := hg.next_le
    rw [hg'.cells x hxa (by omega), hg.cells x hxa hx]

/-- The parser is back where it was: the same root, the same stack below `n`. -/
structure Resumed (n : Nat) (l l' : Parser) : Prop where
  bt : l'.bt = l.bt
  top : l'.top = l.top
  stack : ∀ j, j < n → l'.s j = l.s j

/-- The tree `t` is stored at `p` in the nodes with the addresses from `lo` on, in
preorder. -/
def Laid (h : Heap BT) : BinTree → Ptr → Nat → Prop
  | .empty, p, _ => p = none
  | .node data left right, p, lo => ∃ pl pr, p = some lo ∧ h.cells lo = some ⟨data, pl, pr⟩ ∧
      Laid h left pl (lo + 1) ∧ Laid h right pr (lo + 1 + left.size)

theorem Laid.congr (ht : Laid h t p lo)
    (hcells : ∀ a, lo ≤ a → a < lo + t.size → h'.cells a = h.cells a) : Laid h' t p lo := by
  induction t generalizing p lo with
  | empty => exact ht
  | node data left right ihl ihr =>
    obtain ⟨pl, pr, hp, hcell, hl, hr⟩ := ht
    rw [BinTree.size] at hcells
    refine ⟨pl, pr, hp, ?_, ihl hl fun a hlo hhi => ?_, ihr hr fun a hlo hhi => ?_⟩
    · rw [hcells lo (Nat.le_refl lo) (by omega), hcell]
    · exact hcells a (by omega) (by omega)
    · exact hcells a (by omega) (by omega)

theorem Laid.stored {lo' : Nat} (ht : Laid h t p lo) (hle : lo' ≤ lo) : Stored h lo' t p := by
  induction t generalizing p lo with
  | empty => exact ht
  | node data left right ihl ihr =>
    obtain ⟨pl, pr, hp, hcell, hl, hr⟩ := ht
    exact ⟨lo, pl, pr, hp, hle, hcell, ihl hl (by omega), ihr hr (by omega)⟩

/-- Reading a text below the node `a`, with the flag `k` for the side, hangs the
tree `t` on that side of `a`. -/
def Reads (text : List Int8) (t : BinTree) : Prop :=
  ∀ (n m a : Nat) (k : Int) (node : BT) (l : Parser) (h : Heap BT), OpenAtMost m text → n + 1 + m ≤ MS →
    l.bt ≠ none → l.top = n → l.s n = some (some a) → l.k = some k → h.cells a = some node →
    node = node.setChild k none →
    ∃ l' h' p, (feed text l).run h = .ok (l', h') ∧ Resumed (n + 1) l l' ∧ Grown h h' a ∧
      h'.cells a = some (node.setChild k p) ∧ Laid h' t p h.next ∧ h'.next = h.next + t.size

/-- Reading what follows the letter of a new node `r` hangs its children below it. -/
def ReadsBelow (text : List Int8) (left right : BinTree) : Prop :=
  ∀ (n m r : Nat) (data : Int8) (l : Parser) (h : Heap BT), OpenAtMost m text → n + m ≤ MS → l.bt ≠ none →
    l.top = n - 1 → l.p = some (some r) → h.cells r = some ⟨data, none, none⟩ →
    ∃ l' h' pl pr, (feed text l).run h = .ok (l', h') ∧ Resumed n l l' ∧ Grown h h' r ∧
      h'.cells r = some ⟨data, pl, pr⟩ ∧ Laid h' left pl h.next ∧ Laid h' right pr (h.next + left.size) ∧
      h'.next = h.next + left.size + right.size

theorem reads_empty : Reads [] .empty := by
  intro n m a k node l h _ _ _ _ _ _ ha hnode
  exact ⟨l, h, none, rfl, ⟨rfl, rfl, fun _ _ => rfl⟩, ⟨Nat.le_refl _, fun _ _ _ => rfl⟩, hnode ▸ ha, rfl, rfl⟩

theorem readsBelow_nil : ReadsBelow [] .empty .empty := by
  intro n m r data l h _ _ _ _ _ hcell
  exact ⟨l, h, none, none, rfl, ⟨rfl, rfl, fun _ _ => rfl⟩, ⟨Nat.le_refl _, fun _ _ _ => rfl⟩, hcell, rfl, rfl, rfl⟩

section

variable {text textL textR : List Int8} {left right : BinTree} {n m r : Nat} {data : Int8} {l : Parser}
  {h : Heap BT}

/-- The parenthesis behind a new node `r` and its left child. -/
theorem run_first_child (hreads : Reads textL left) (hopen : OpenAtMost m (lparen :: textL)) (hroom : n + m ≤ MS)
    (hbt : l.bt ≠ none) (htop : l.top = n - 1) (hp : l.p = some (some r))
    (hcell : h.cells r = some ⟨data, none, none⟩) :
    ∃ l' h' pl, (feed (lparen :: textL) l).run h = .ok (l', h') ∧
      Resumed (n + 1) ⟨l.bt, l.p, Function.update l.s n (some (some r)), n, some 1⟩ l' ∧ Grown h h' r ∧
      h'.cells r = some ⟨data, pl, none⟩ ∧ Laid h' left pl h.next ∧ h'.next = h.next + left.size := by
  obtain ⟨hone, hrest⟩ := OpenAtMost.tail (d := 1) hopen rfl
  rw [run_feed_cons (run_char_body_lparen htop (by omega) hp)]
  obtain ⟨l', h', pl, hrun, hres, hgrown, hcell', hlaid, hnext⟩ :=
    hreads n (m - 1) r 1 _ ⟨l.bt, some (some r), Function.update l.s n (some (some r)), n, some 1⟩ h hrest (by omega)
      hbt rfl (Function.update_self ..) rfl hcell rfl
  exact ⟨l', h', pl, hrun, ⟨hres.bt, hres.top, hres.stack⟩, hgrown, hcell', hlaid, hnext⟩

/-- The closing parenthesis takes the parser back to where it was before `r`. -/
theorem Resumed.close (hres : Resumed (n + 1) ⟨l.bt, l.p, Function.update l.s n (some (some r)), n, some 1⟩ l')
    (htop : l.top = n - 1) : Resumed n l ⟨l'.bt, l'.p, l'.s, n - 1, l'.k⟩ where
  bt := hres.bt
  top := htop.symm
  stack j hj := (hres.stack j (by omega)).trans (Function.update_of_ne (by omega) _ _)

theorem readsBelow_one (hreads : Reads textL left) : ReadsBelow (lparen :: (textL ++ [rparen])) left .empty := by
  intro n m r data l h hopen hroom hbt htop hp hcell
  rw [← List.cons_append] at hopen ⊢
  obtain ⟨l1, h1, pl, hrun, hres, hgrown, hcell1, hlaid, hnext⟩ :=
    run_first_child hreads hopen.left hroom hbt htop hp hcell
  refine ⟨_, h1, pl, none, ?_, hres.close htop, hgrown, hcell1, hlaid, rfl, hnext⟩
  rw [run_feed_append hrun, run_feed_cons (run_char_body_rparen hres.top)]
  rfl

theorem readsBelow_two (hleft : Reads textL left) (hbalance : textL.count lparen = textL.count rparen)
    (hright : Reads textR right) :
    ReadsBelow (lparen :: (textL ++ comma :: (textR ++ [rparen]))) left right := by
  intro n m r data l h hopen hroom hbt htop hp hcell
  rw [← List.cons_append] at hopen ⊢
  have hpast : (lparen :: textL).count lparen = (lparen :: textL).count rparen + 1 := by
    rw [List.count_cons_self, List.count_cons_of_ne (by decide), hbalance]
  obtain ⟨hone, hopenR⟩ := hopen.right hpast
  obtain ⟨-, hopenR⟩ := OpenAtMost.tail (d := 0) hopenR rfl
  obtain ⟨l1, h1, pl, hrun1, hres1, hgrown1, hcell1, hlaid1, hnext1⟩ :=
    run_first_child hleft hopen.left hroom hbt htop hp hcell
  have hslot : l1.s n = some (some r) := (hres1.stack n (Nat.lt_succ_self n)).trans (Function.update_self ..)
  have htop1 : l1.top = n := hres1.top
  obtain ⟨l2, h2, pr, hrun2, hres2, hgrown2, hcell2, hlaid2, hnext2⟩ :=
    hright n (m - 1) r 2 _ ⟨l1.bt, l1.p, l1.s, l1.top, some 2⟩ h1 hopenR.left (by omega)
      (hres1.bt ▸ hbt) htop1 hslot rfl hcell1 rfl
  have hres : Resumed (n + 1) ⟨l.bt, l.p, Function.update l.s n (some (some r)), n, some 1⟩ l2 :=
    ⟨hres2.bt.trans hres1.bt, hres2.top.trans hres1.top, fun j hj => (hres2.stack j hj).trans (hres1.stack j hj)⟩
  refine ⟨_, h2, pl, pr, ?_, hres.close htop, hgrown1.trans hgrown2, hcell2, ?_, hnext1 ▸ hlaid2, by omega⟩
  · rw [run_feed_append hrun1, run_feed_cons run_char_body_comma, run_feed_append hrun2,
      run_feed_cons (run_char_body_rparen hres.top)]
    rfl
  · have hlt := Heap.lt_next_of_some hcell
    exact hlaid1.congr fun a hlo hhi => hgrown2.cells a (by omega) (by omega)

/-- A letter below a node, with what follows it. -/
theorem ReadsBelow.reads (hdata : isLetter data = true) (hbelow : ReadsBelow text left right) :
    Reads (data :: text) (.node data left right) := by
  intro n m a k node l h hopen hroom hbt htop hs hk ha hnode
  obtain ⟨h1, hrun1, hcell1, ha1, hframe1, hnext1⟩ := run_char_body_child hdata hbt htop (by omega) hs hk ha
  have hlt := Heap.lt_next_of_some ha
  obtain ⟨-, hopen'⟩ := hopen.tail (count_letter hdata)
  obtain ⟨l', h', pl, pr, hrun, hres, hgrown, hcell, hl, hr, hnext⟩ :=
    hbelow (n + 1) m h.next data ⟨l.bt, some (some h.next), l.s, l.top, l.k⟩ h1 hopen' hroom hbt
      (by rw [htop]; omega) rfl hcell1
  rw [hnext1] at hl hr hnext
  refine ⟨l', h', some h.next, ?_, ⟨hres.bt, hres.top, hres.stack⟩, ⟨by omega, fun x hxa hx => ?_⟩, ?_,
    ⟨pl, pr, rfl, hcell, hl, hr⟩, ?_⟩
  · rw [run_feed_cons hrun1, hrun]
  · rw [hgrown.cells x (by omega) (by omega), hframe1 x hxa (by omega)]
  · rw [hgrown.cells a (by omega) (by omega), ha1]
  · rw [hnext, BinTree.size]
    omega

/-- Every generalised list is read below every node. -/
theorem GenList.reads (hg : GenList text t) : Reads text t := by
  induction hg with
  | empty => exact reads_empty
  | leaf hc => exact readsBelow_nil.reads hc
  | one hc _ ih => exact (readsBelow_one ih).reads hc
  | two hc hl _ ihl ihr => exact (readsBelow_two ihl hl.count_eq ihr).reads hc

/-- The list of a node is its letter and the list of its children. -/
theorem GenList.exists_readsBelow (hg : GenList text (.node data left right)) :
    ∃ below, text = data :: below ∧ isLetter data = true ∧ ReadsBelow below left right := by
  cases hg with
  | leaf hc => exact ⟨_, rfl, hc, readsBelow_nil⟩
  | one hc hl => exact ⟨_, rfl, hc, readsBelow_one hl.reads⟩
  | two hc hl hr => exact ⟨_, rfl, hc, readsBelow_two hl.reads hl.count_eq hr.reads⟩

/-- Read from the start, a generalised list builds its tree in new nodes, and all
parentheses are closed again. -/
theorem GenList.run_feed (hg : GenList text t) (hopen : OpenAtMost MS text) (h : Heap BT) :
    ∃ l h', (feed text .init).run h = .ok (l, h') ∧ l.top = -1 ∧ Laid h' t l.bt h.next := by
  cases t with
  | empty =>
    cases hg
    exact ⟨.init, h, rfl, rfl, rfl⟩
  | node data left right =>
    obtain ⟨below, rfl, hdata, hbelow⟩ := hg.exists_readsBelow
    obtain ⟨h1, hrun1, hcell1, _, hnext1⟩ := run_char_body_root (l := .init) (h := h) hdata rfl
    obtain ⟨-, hopen'⟩ := hopen.tail (count_letter hdata)
    obtain ⟨l', h', pl, pr, hrun, hres, _, hcell, hl, hr, _⟩ :=
      hbelow 0 MS h.next data ⟨some h.next, some (some h.next), Parser.init.s, Parser.init.top, Parser.init.k⟩ h1 hopen'
        (by omega) (by simp) rfl rfl hcell1
    rw [hnext1] at hl hr
    exact ⟨l', h', by rw [run_feed_cons hrun1, hrun], hres.top, pl, pr, hres.bt, hcell, hl, hr⟩

end

end basic_data_struct.btree
