import BasicDataStruct.Btree.Rebuild

open machine machine.Exec

namespace basic_data_struct.btree

variable {text before before' : List Int8} {c d c' : Int8} {a : Nat} {h' : Heap BT}

/-- Behind the text `before` the character `c` lets the program stop with one of
its messages: the stack is full, no parenthesis is open, or the character does
not belong to the notation. -/
def ExitAt (before : List Int8) (c : Int8) : Prop :=
  (c = lparen ∧ before.count lparen = before.count rparen + MS) ∨
  (c = rparen ∧ before.count lparen = before.count rparen) ∨
  c ≠ blank ∧ c ≠ lparen ∧ c ≠ rparen ∧ c ≠ comma ∧ isLetter c = false

/-- Behind `before` the character `c` lets the program read `p` before any letter
has given it a value, or use `s[top]` outside of all parentheses. -/
def UndefinedAt (before : List Int8) (c : Int8) : Prop :=
  (c = lparen ∧ before.any isLetter = false) ∨
  (isLetter c = true ∧ before.any isLetter = true ∧ before.count lparen = before.count rparen)

/-- No character of the text does either. -/
def Smooth (text : List Int8) : Prop :=
  ∀ before c, before ++ [c] <+: text → ¬ ExitAt before c ∧ ¬ UndefinedAt before c

theorem smooth_nil : Smooth [] := by
  intro before c hpre
  simp at hpre

theorem smooth_snoc (hsmooth : Smooth text) (hexit : ¬ ExitAt text c)
    (hundef : ¬ UndefinedAt text c) : Smooth (text ++ [c]) := by
  intro before d hpre
  rcases List.prefix_concat_iff.mp hpre with heq | hpre
  · obtain ⟨rfl, hd⟩ := List.append_inj' heq rfl
    cases hd
    exact ⟨hexit, hundef⟩
  · exact hsmooth before d hpre

/-- What the locals are behind a text that was read without an incident. -/
structure Scanned (before : List Int8) (l : Parser) (h : Heap BT) : Prop where
  top : l.top = (before.count lparen : Int) - before.count rparen - 1
  closed : before.count rparen ≤ before.count lparen
  room : before.count lparen ≤ before.count rparen + MS
  root : l.bt ≠ none ↔ before.any isLetter = true
  last : l.p = none ∧ before.any isLetter = false ∨
    ∃ a, l.p = some (some a) ∧ (h.cells a).isSome ∧ before.any isLetter = true
  flag : lparen ∈ before → l.k ≠ none
  stack : ∀ j, before.count rparen + j < before.count lparen → ∃ a, l.s j = some (some a) ∧ (h.cells a).isSome

theorem scanned_nil (h : Heap BT) : Scanned [] .init h where
  top := rfl
  closed := Nat.le_refl 0
  room := Nat.zero_le _
  root := by simp [Parser.init]
  last := .inl ⟨rfl, rfl⟩
  flag := by simp
  stack j hj := by simp at hj

variable {before : List Int8} {l : Parser} {h : Heap BT}

theorem count_snoc_of_ne (hne : c ≠ d) : (before ++ [c]).count d = before.count d := by
  rw [List.count_append, List.count_cons_of_ne hne, List.count_nil, Nat.add_zero]

theorem mem_of_mem_snoc (hne : c ≠ d) (hin : d ∈ before ++ [c]) : d ∈ before := by
  rcases List.mem_append.mp hin with hin | hin
  · exact hin
  · exact absurd (List.mem_singleton.mp hin).symm hne

/-- A character that is neither a parenthesis nor a letter changes at most `k`. -/
theorem Scanned.skip (hs : Scanned before l h) (hl : c ≠ lparen) (hr : c ≠ rparen)
    (hc : isLetter c = false) (k : Option Int) (hk : l.k ≠ none → k ≠ none) :
    Scanned (before ++ [c]) { l with k := k } h := by
  have hcl : (before ++ [c]).count lparen = before.count lparen := count_snoc_of_ne hl
  have hcr : (before ++ [c]).count rparen = before.count rparen := count_snoc_of_ne hr
  have hany : (before ++ [c]).any isLetter = before.any isLetter := by
    simp [hc]
  constructor
  · rw [hcl, hcr]
    exact hs.top
  · rw [hcl, hcr]
    exact hs.closed
  · rw [hcl, hcr]
    exact hs.room
  · rw [hany]
    exact hs.root
  · rw [hany]
    exact hs.last
  · exact fun hin => hk (hs.flag (mem_of_mem_snoc hl hin))
  · rw [hcl, hcr]
    exact hs.stack

/-- What becomes of the character `c` behind `before`. -/
inductive CharStep (before : List Int8) (c : Int8) (l : Parser) (h : Heap BT) : Prop where
  | exit (hexit : ExitAt before c) (msg : String) (hrun : (char_body c l).run h = .error (.exit msg 1))
  | undefined (hexit : ¬ ExitAt before c) (hundef : UndefinedAt before c) (e : Fault)
      (he : e = .uninit ∨ e = .bounds) (hrun : (char_body c l).run h = .error e)
  | next (hexit : ¬ ExitAt before c) (hundef : ¬ UndefinedAt before c) (l' : Parser) (h' : Heap BT)
      (hrun : (char_body c l).run h = .ok (l', h')) (hs : Scanned (before ++ [c]) l' h')

section Step

variable (hs : Scanned before l h)
include hs

/-- An opening parenthesis pushes the last node. -/
theorem Scanned.opened {n : Nat} (hn : before.count lparen = before.count rparen + n) (hroom : n < MS)
    (ha : (h.cells a).isSome) (hany : before.any isLetter = true) :
    Scanned (before ++ [lparen]) ⟨l.bt, some (some a), Function.update l.s n (some (some a)), n, some 1⟩ h := by
  have hcl : (before ++ [lparen]).count lparen = before.count rparen + (n + 1) := by
    rw [List.count_append, hn]
    rfl
  have hcr : (before ++ [lparen]).count rparen = before.count rparen := count_snoc_of_ne (by decide)
  have hsame : (before ++ [lparen]).any isLetter = before.any isLetter := by
    simp [show isLetter lparen = false by decide]
  refine ⟨?_, by omega, by omega, hsame ▸ hs.root, .inr ⟨a, rfl, ha, hsame.trans hany⟩,
    fun _ => Option.some_ne_none 1, fun j hj => ?_⟩
  · rw [hcl, hcr]
    push_cast
    omega
  · by_cases hjn : j = n
    · subst hjn
      exact ⟨a, Function.update_self .., ha⟩
    · obtain ⟨b, hb, hcell⟩ := hs.stack j (by omega)
      exact ⟨b, (Function.update_of_ne hjn _ _).trans hb, hcell⟩

theorem Scanned.step_lparen : CharStep before lparen l h := by
  have htop := hs.top
  have hroom := hs.room
  by_cases hfull : before.count lparen = before.count rparen + MS
  · refine .exit (.inl ⟨rfl, hfull⟩) "栈空间太小,需要增加MS的值！\n" ?_
    change (open_case l).run h = _
    rw [open_case, if_pos (by omega), run_fail]
  have hexit : ¬ ExitAt before lparen := by
    rintro (⟨-, hcount⟩ | ⟨hc, -⟩ | ⟨-, hc, -⟩)
    · exact hfull hcount
    · exact absurd hc (by decide)
    · exact hc rfl
  rcases hs.last with ⟨hp, hany⟩ | ⟨a, hp, ha, hany⟩
  · refine .undefined hexit (.inl ⟨rfl, hany⟩) .uninit (.inl rfl) ?_
    change (open_case l).run h = _
    rw [open_case, if_neg (by omega)]
    simp only [hp]
    rfl
  obtain ⟨n, hn⟩ : ∃ n, before.count lparen = before.count rparen + n := Nat.exists_eq_add_of_le hs.closed
  refine .next hexit ?_ _ h (run_char_body_lparen (n := n) (by omega) (by omega) hp)
    (hs.opened hn (by omega) ha hany)
  rintro (⟨-, hnone⟩ | ⟨hc, -⟩)
  · rw [hany] at hnone
    cases hnone
  · exact absurd hc (by decide)

theorem Scanned.step_rparen : CharStep before rparen l h := by
  have htop := hs.top
  by_cases hnone : before.count lparen = before.count rparen
  · refine .exit (.inr (.inl ⟨rfl, hnone⟩)) "二叉树广义表字符串有错！\n" ?_
    change (close_case l).run h = _
    rw [close_case, if_pos (by omega), run_fail]
  have hclosed := hs.closed
  obtain ⟨n, hn⟩ : ∃ n, before.count lparen = before.count rparen + n + 1 :=
    Nat.exists_eq_add_of_lt (by omega)
  have hcl : (before ++ [rparen]).count lparen = before.count lparen := count_snoc_of_ne (by decide)
  have hcr : (before ++ [rparen]).count rparen = before.count rparen + 1 := by
    rw [List.count_append]
    rfl
  have hany : (before ++ [rparen]).any isLetter = before.any isLetter := by
    simp [show isLetter rparen = false by decide]
  have hroom := hs.room
  refine .next ?_ ?_ _ h (run_char_body_rparen (n := n) (by omega))
    ⟨?_, by omega, by omega, hany ▸ hs.root, hany ▸ hs.last, fun hin => hs.flag (mem_of_mem_snoc (by decide) hin),
      fun j hj => hs.stack j (by omega)⟩
  · rintro (⟨hc, -⟩ | ⟨-, hcount⟩ | ⟨-, -, hc, -⟩)
    · exact absurd hc (by decide)
    · exact hnone hcount
    · exact hc rfl
  · rintro (⟨hc, -⟩ | ⟨hc, -⟩)
    · exact absurd hc (by decide)
    · exact absurd hc (by decide)
  · rw [hcl, hcr]
    push_cast
    omega

/-- A letter leaves the new node in `p`, and the stack as it is. -/
theorem Scanned.letter (hc : isLetter c = true) {bt : Ptr} (hbt : bt ≠ none)
    (ha : (h'.cells a).isSome) (hold : ∀ b, (h.cells b).isSome → (h'.cells b).isSome) :
    Scanned (before ++ [c]) ⟨bt, some (some a), l.s, l.top, l.k⟩ h' := by
  have hopen : c ≠ lparen := isLetter_ne hc (by decide)
  have hcl : (before ++ [c]).count lparen = before.count lparen := count_snoc_of_ne hopen
  have hcr : (before ++ [c]).count rparen = before.count rparen := count_snoc_of_ne (isLetter_ne hc (by decide))
  have hany : (before ++ [c]).any isLetter = true := by simp [hc]
  refine ⟨?_, ?_, ?_, by simp [hany, hbt], .inr ⟨a, rfl, ha, hany⟩, fun hin => hs.flag (mem_of_mem_snoc hopen hin),
    fun j hj => ?_⟩
  · rw [hcl, hcr]
    exact hs.top
  · rw [hcl, hcr]
    exact hs.closed
  · rw [hcl, hcr]
    exact hs.room
  · rw [hcl, hcr] at hj
    obtain ⟨b, hb, hcell⟩ := hs.stack j hj
    exact ⟨b, hb, hold b hcell⟩

/-- A further letter outside of all parentheses has no node to hang below. -/
theorem Scanned.run_second_root (hc : isLetter c = true) (hany : before.any isLetter = true)
    (hnone : before.count lparen = before.count rparen) :
    ∃ e, (e = .uninit ∨ e = .bounds) ∧ (char_body c l).run h = .error e := by
  obtain ⟨h', hnew, -⟩ := run_newNode h c
  have htop : l.top = -1 := by
    have := hs.top
    omega
  rw [char_body_letter hc, letter_case, run_bind_of_ok hnew, if_neg (hs.root.mpr hany)]
  cases l.k with
  | none => exact ⟨.uninit, .inl rfl, rfl⟩
  | some k =>
    refine ⟨.bounds, .inr rfl, ?_⟩
    rw [assigned_some, run_pure_bind, run_bind, Parser.entry, if_neg (by omega), run_fail]

theorem Scanned.step_letter (hc : isLetter c = true) : CharStep before c l h := by
  have hexit : ¬ ExitAt before c := by
    rintro (⟨heq, -⟩ | ⟨heq, -⟩ | ⟨-, -, -, -, hno⟩)
    · exact isLetter_ne hc (by decide) heq
    · exact isLetter_ne hc (by decide) heq
    · rw [hc] at hno
      cases hno
  have hopen : c ≠ lparen := isLetter_ne hc (by decide)
  by_cases hany : before.any isLetter = true
  · by_cases hnone : before.count lparen = before.count rparen
    · obtain ⟨e, he, hrun⟩ := hs.run_second_root hc hany hnone
      exact .undefined hexit (.inr ⟨hc, hany, hnone⟩) e he hrun
    have hclosed := hs.closed
    have hroom := hs.room
    have htop := hs.top
    obtain ⟨n, hn⟩ : ∃ n, before.count lparen = before.count rparen + n + 1 := Nat.exists_eq_add_of_lt (by omega)
    obtain ⟨a, ha, hcell⟩ := hs.stack n (by omega)
    obtain ⟨node, hnode⟩ := Option.isSome_iff_exists.mp hcell
    obtain ⟨k, hk⟩ := Option.ne_none_iff_exists'.mp (hs.flag (List.count_pos_iff.mp (by omega)))
    obtain ⟨h', hrun, hnew, ha', hframe, -⟩ :=
      run_char_body_child (n := n) hc (hs.root.mpr hany) (by omega) (by omega) ha hk hnode
    refine .next hexit ?_ _ h' hrun (hs.letter hc (hs.root.mpr hany) (by simp [hnew]) fun b hb => ?_)
    · rintro (⟨heq, -⟩ | ⟨-, -, heq⟩)
      · exact hopen heq
      · exact hnone heq
    · by_cases hba : b = a
      · simp [hba, ha']
      · obtain ⟨v, hv⟩ := Option.isSome_iff_exists.mp hb
        rw [hframe b hba (Heap.next_ne_of_some hv)]
        exact hb
  · have hroot : l.bt = none := by
      by_contra hne
      exact hany (hs.root.mp hne)
    obtain ⟨h', hrun, hnew, hframe, -⟩ := run_char_body_root (h := h) hc hroot
    refine .next hexit ?_ _ h' hrun (hs.letter hc (Option.some_ne_none _) (by simp [hnew]) fun b hb => ?_)
    · rintro (⟨heq, -⟩ | ⟨-, hyes, -⟩)
      · exact hopen heq
      · exact hany hyes
    · obtain ⟨v, hv⟩ := Option.isSome_iff_exists.mp hb
      rw [hframe b (Heap.next_ne_of_some hv)]
      exact hb

/-- Every character does one of three things. -/
theorem Scanned.step (c : Int8) : CharStep before c l h := by
  have hplain : ∀ {d : Int8}, d = blank ∨ d = comma → ¬ ExitAt before d ∧ ¬ UndefinedAt before d := by
    intro d hd
    constructor
    · rintro (⟨rfl, -⟩ | ⟨rfl, -⟩ | ⟨hb, -, -, hcomma, -⟩)
      · exact absurd hd (by decide)
      · exact absurd hd (by decide)
      · exact hd.elim hb hcomma
    · rintro (⟨rfl, -⟩ | ⟨hletter, -⟩)
      · exact absurd hd (by decide)
      · rcases hd with rfl | rfl <;> exact absurd hletter (by decide)
  by_cases hblank : c = blank
  · subst hblank
    exact .next (hplain (.inl rfl)).1 (hplain (.inl rfl)).2 l h rfl
      (hs.skip (by decide) (by decide) (by decide) l.k id)
  by_cases hlp : c = lparen
  · exact hlp ▸ hs.step_lparen
  by_cases hrp : c = rparen
  · exact hrp ▸ hs.step_rparen
  by_cases hcomma : c = comma
  · subst hcomma
    exact .next (hplain (.inr rfl)).1 (hplain (.inr rfl)).2 _ h run_char_body_comma
      (hs.skip (by decide) (by decide) (by decide) (some 2) fun _ => Option.some_ne_none 2)
  by_cases hc : isLetter c = true
  · exact hs.step_letter hc
  · have hc' : isLetter c = false := by simpa using hc
    refine .exit (.inr (.inr ⟨hblank, hlp, hrp, hcomma, hc'⟩)) "二叉树广义表字符串错！\n" ?_
    rw [char_body, if_neg hblank, if_neg hlp, if_neg hrp, if_neg hcomma, if_neg hc, run_fail]

end Step

theorem run_feed_snoc (text : List Int8) (c : Int8) (l : Parser) (h : Heap BT) :
    (feed (text ++ [c]) l).run h = (feed text l >>= char_body c).run h := by
  induction text generalizing l h with
  | nil =>
    rw [List.nil_append, feed, feed, run_pure_bind, run_bind]
    cases (char_body c l).run h <;> rfl
  | cons d text ih =>
    rw [List.cons_append, feed, feed, run_bind, run_bind, run_bind]
    cases (char_body d l).run h with
    | error e => rfl
    | ok res => exact ih res.1 res.2

/-- What becomes of a whole text: it is read to its end, or its first character
that is not read decides. -/
inductive Verdict (text : List Int8) (h : Heap BT) : Prop where
  | smooth (hsmooth : Smooth text) (l : Parser) (h' : Heap BT) (hrun : (feed text .init).run h = .ok (l, h'))
      (hs : Scanned text l h')
  | exit (before : List Int8) (c : Int8) (hpre : before ++ [c] <+: text) (hsmooth : Smooth before)
      (hexit : ExitAt before c) (msg : String) (hrun : (feed text .init).run h = .error (.exit msg 1))
  | undefined (before : List Int8) (c : Int8) (hpre : before ++ [c] <+: text) (hsmooth : Smooth before)
      (hexit : ¬ ExitAt before c) (hundef : UndefinedAt before c) (e : Fault) (he : e = .uninit ∨ e = .bounds)
      (hrun : (feed text .init).run h = .error e)

theorem verdict (text : List Int8) (h : Heap BT) : Verdict text h := by
  induction text using List.reverseRecOn with
  | nil => exact .smooth smooth_nil .init h rfl (scanned_nil h)
  | append_singleton text c ih =>
    have hsnoc := run_feed_snoc text c .init h
    rw [run_bind] at hsnoc
    cases ih with
    | exit before d hpre hsmooth hexit msg hrun =>
      rw [hrun] at hsnoc
      exact .exit before d (hpre.trans (List.prefix_append _ _)) hsmooth hexit msg hsnoc
    | undefined before d hpre hsmooth hexit hundef e he hrun =>
      rw [hrun] at hsnoc
      exact .undefined before d (hpre.trans (List.prefix_append _ _)) hsmooth hexit hundef e he hsnoc
    | smooth hsmooth l h' hrun hs =>
      rw [hrun] at hsnoc
      cases hs.step c with
      | exit hexit msg hc => exact .exit text c (List.prefix_refl _) hsmooth hexit msg (hsnoc.trans hc)
      | undefined hexit hundef e he hc =>
        exact .undefined text c (List.prefix_refl _) hsmooth hexit hundef e he (hsnoc.trans hc)
      | next hexit hundef l'' h'' hc hs' =>
        exact .smooth (smooth_snoc hsmooth hexit hundef) l'' h'' (hsnoc.trans hc) hs'

/-- No incident lies in front of another one. -/
theorem first_le (hpre : before ++ [c] <+: text)
    (hpre' : before' ++ [c'] <+: text) (hsmooth' : Smooth before') (hbad : ExitAt before c ∨ UndefinedAt before c) :
    before'.length ≤ before.length := by
  by_contra hlt
  have hinside : before ++ [c] <+: before' := by
    refine List.prefix_of_prefix_length_le hpre ((List.prefix_append _ _).trans hpre') ?_
    rw [List.length_append, List.length_singleton]
    omega
  obtain ⟨hexit, hundef⟩ := hsmooth' before c hinside
  exact hbad.elim hexit hundef

/-- The first incident of a text is determined. -/
theorem first_unique (hpre : before ++ [c] <+: text)
    (hpre' : before' ++ [c'] <+: text) (hsmooth : Smooth before) (hsmooth' : Smooth before')
    (hbad : ExitAt before c ∨ UndefinedAt before c) (hbad' : ExitAt before' c' ∨ UndefinedAt before' c') :
    before = before' ∧ c = c' := by
  have hlength : before.length = before'.length :=
    Nat.le_antisymm (first_le hpre' hpre hsmooth hbad') (first_le hpre hpre' hsmooth' hbad)
  have hsame : before ++ [c] = before' ++ [c'] := by
    have hinside := List.prefix_of_prefix_length_le hpre hpre' (by simp [hlength])
    exact hinside.eq_of_length (by simp [hlength])
  obtain ⟨hb, hc⟩ := List.append_inj' hsame rfl
  exact ⟨hb, List.singleton_inj.mp hc⟩

/-- The parser stops with one of its messages exactly when the first incident of
the text is one at which it looks. -/
theorem feed_exit_iff (text : List Int8) (h : Heap BT) :
    (∃ msg, (feed text .init).run h = .error (.exit msg 1)) ↔
      ∃ before c, before ++ [c] <+: text ∧ Smooth before ∧ ExitAt before c := by
  constructor
  · rintro ⟨msg, hrun⟩
    cases verdict text h with
    | smooth _ l h' hok _ =>
      rw [hrun] at hok
      cases hok
    | exit before c hpre hsmooth hexit _ _ => exact ⟨before, c, hpre, hsmooth, hexit⟩
    | undefined _ _ _ _ _ _ e he herr =>
      rw [hrun] at herr
      rcases he with rfl | rfl <;> cases herr
  · rintro ⟨before, c, hpre, hsmooth, hexit⟩
    cases verdict text h with
    | smooth hall _ _ _ _ => exact absurd hexit (hall before c hpre).1
    | exit _ _ _ _ _ msg hrun => exact ⟨msg, hrun⟩
    | undefined before' c' hpre' hsmooth' hno hundef _ _ _ =>
      obtain ⟨rfl, rfl⟩ := first_unique hpre hpre' hsmooth hsmooth' (.inl hexit) (.inr hundef)
      exact absurd hexit hno

/-- A text that was read to its end has at most `MS` parentheses open. -/
theorem Smooth.openAtMost (hsmooth : Smooth text) (h : Heap BT) : OpenAtMost MS text := by
  intro before hpre
  have hbefore : Smooth before := fun x c hx => hsmooth x c (hx.trans hpre)
  cases verdict before h with
  | smooth _ _ _ _ hs => exact hs.room
  | exit x c hx _ hexit _ _ => exact absurd hexit (hbefore x c hx).1
  | undefined x c hx _ _ hundef _ _ _ => exact absurd hundef (hbefore x c hx).2

/-- The nodes at and below `p` in preorder, with their addresses and labels. -/
inductive Preorder (h : Heap BT) : Ptr → List (Nat × Int8) → Prop where
  | null : Preorder h none []
  | node {a : Nat} {data : Int8} {left right : Ptr} {nodesL nodesR : List (Nat × Int8)}
      (hcell : h.cells a = some ⟨data, left, right⟩) (hleft : Preorder h left nodesL)
      (hright : Preorder h right nodesR) : Preorder h (some a) ((a, data) :: (nodesL ++ nodesR))

/-- A tree in consecutive nodes. -/
theorem Laid.preorder {t : BinTree} {p : Ptr} {lo : Nat} (ht : Laid h t p lo) :
    ∃ nodes, Preorder h p nodes ∧ nodes.map Prod.snd = t.labels ∧ nodes.map Prod.fst = List.range' lo t.size := by
  induction t generalizing p lo with
  | empty =>
    obtain rfl := ht
    exact ⟨[], .null, rfl, rfl⟩
  | node data left right ihl ihr =>
    obtain ⟨pl, pr, rfl, hcell, hl, hr⟩ := ht
    obtain ⟨nodesL, hleft, hlabelsL, haddrsL⟩ := ihl hl
    obtain ⟨nodesR, hright, hlabelsR, haddrsR⟩ := ihr hr
    refine ⟨_, .node hcell hleft hright, ?_, ?_⟩
    · rw [List.map_cons, List.map_append, hlabelsL, hlabelsR, BinTree.labels]
    · have hsize : (BinTree.node data left right).size = left.size + right.size + 1 := by
        rw [BinTree.size]
        omega
      rw [List.map_cons, List.map_append, haddrsL, haddrsR, hsize, List.range'_succ, List.range'_append_1]

/-- `CreateBTree` stops with one of its messages. -/
def Exits (a : List Int8) (h : Heap BT) : Prop :=
  ∃ msg n, ∀ fuel, n < fuel → (CreateBTree fuel a).run h = .error (.exit msg 1)

/-- `CreateBTree` accepts the text `a` rightly: without its blanks it is a
generalised list, the loop ends without a use of `s[top]` outside of the stack or
of a variable without a value, no parenthesis is left open, and the nodes of the
tree, all of them different, have the letters of the text as their labels. -/
def Accepts (a : List Int8) (h : Heap BT) : Prop :=
  (∃ t, GenList (a.filter (· ≠ blank)) t) ∧
  ∃ n l h' nodes, (∀ fuel, n < fuel → (loop (parse_body a) fuel (0, .init)).run h = .ok (l, h')) ∧ l.top = -1 ∧
    Preorder h' l.bt nodes ∧ nodes.map Prod.snd = a.filter isLetter ∧ (nodes.map Prod.fst).Nodup

/-- A text that is read to its end has at most `MS` parentheses open. -/
theorem openAtMost_of_feed {l : Parser} (hrun : (feed text .init).run h = .ok (l, h')) : OpenAtMost MS text := by
  cases verdict text h with
  | smooth hsmooth _ _ _ _ => exact hsmooth.openAtMost h
  | exit _ _ _ _ _ _ herr => cases hrun.symm.trans herr
  | undefined _ _ _ _ _ _ _ _ herr => cases hrun.symm.trans herr

section Text

variable {a : List Int8} (hzero : ∀ c ∈ a, c ≠ 0)
include hzero

theorem run_CreateBTree_exit_iff {fuel : Nat} (hfuel : a.length < fuel) (msg : String) :
    (CreateBTree fuel a).run h = .error (.exit msg 1) ↔
      (feed (a.take (2 ^ 31)) .init).run h = .error (.exit msg 1) := by
  rw [CreateBTree, run_bind, run_loop_text hzero h hfuel]
  cases (feed (a.take (2 ^ 31)) .init).run h with
  | error e => simp only [Except.error.injEq]
  | ok res =>
    by_cases hfits : a.length < 2 ^ 31
    · simp only [if_pos hfits, run_pure, reduceCtorEq]
    · simp only [if_neg hfits, reduceCtorEq, Except.error.injEq]

/-- The first incident decides whether `CreateBTree` stops with a message, if it
comes before the index runs over. -/
theorem exits_iff : Exits a h ↔
    ∃ before c, before ++ [c] <+: a ∧ before.length < 2 ^ 31 ∧ Smooth before ∧ ExitAt before c := by
  have hexits : Exits a h ↔ ∃ msg, (feed (a.take (2 ^ 31)) .init).run h = .error (.exit msg 1) := by
    constructor
    · rintro ⟨msg, n, hrun⟩
      exact ⟨msg, (run_CreateBTree_exit_iff hzero (by omega) msg).mp (hrun (n + a.length + 1) (by omega))⟩
    · rintro ⟨msg, hrun⟩
      exact ⟨msg, a.length, fun fuel hfuel => (run_CreateBTree_exit_iff hzero hfuel msg).mpr hrun⟩
  have hfront : ∀ before : List Int8, ∀ c, before ++ [c] <+: a.take (2 ^ 31) ↔
      before ++ [c] <+: a ∧ before.length < 2 ^ 31 := by
    intro before c
    rw [List.prefix_take_iff, List.length_append, List.length_singleton, Nat.succ_le_iff]
  rw [hexits, feed_exit_iff]
  simp only [hfront, and_assoc]

theorem accepts_iff : Accepts a h ↔ (∃ t, GenList (a.filter (· ≠ blank)) t) ∧
    OpenAtMost MS (a.filter (· ≠ blank)) ∧ a.length < 2 ^ 31 := by
  constructor
  · rintro ⟨hg, n, l, h', nodes, hrun, -⟩
    obtain ⟨hfits, hfeed⟩ := (run_loop_ok_iff hzero (by omega)).mp (hrun (n + a.length + 1) (by omega))
    rw [← feed_filter] at hfeed
    exact ⟨hg, openAtMost_of_feed hfeed, hfits⟩
  · rintro ⟨⟨t, hg⟩, hopen, hfits⟩
    obtain ⟨l, h', hfeed, htop, hlaid⟩ := hg.run_feed_text hopen h
    obtain ⟨nodes, hpre, hlabels, haddrs⟩ := hlaid.preorder
    refine ⟨⟨t, hg⟩, a.length, l, h', nodes, fun fuel hfuel => ?_, htop, hpre, ?_, ?_⟩
    · exact (run_loop_ok_iff hzero hfuel).mpr ⟨hfits, hfeed⟩
    · rw [hlabels, ← hg.filter_isLetter, List.filter_filter]
      refine List.filter_congr fun c _ => ?_
      by_cases hc : isLetter c = true
      · simp [hc, isLetter_ne hc (show blank < 65 by decide)]
      · simp [hc]
    · rw [haddrs]
      exact List.nodup_range'

end Text

/-- For every NUL-terminated text, `CreateBTree` stops with one of its messages or
accepts the text rightly exactly in these two cases: the first incident of the
text is one at which the program looks (not a parenthesis before any letter, nor
a second letter outside of all parentheses), or the text without its blanks is a
generalised list with at most `MS` open parentheses; in both cases before the
`int` index runs over. -/
theorem CreateBTree_total_iff (a : List Int8) (hzero : ∀ c ∈ a, c ≠ 0) (h : Heap BT) :
    Exits a h ∨ Accepts a h ↔
      (∃ before c, before ++ [c] <+: a ∧ before.length < 2 ^ 31 ∧ Smooth before ∧ ExitAt before c) ∨
      ((∃ t, GenList (a.filter (· ≠ blank)) t) ∧ OpenAtMost MS (a.filter (· ≠ blank)) ∧ a.length < 2 ^ 31) := by
  rw [exits_iff hzero, accepts_iff hzero]

/-- The text `A(B, )`, in which the list of the second child is empty. -/
theorem CreateBTree_total_blank :
    Exits [65, 40, 66, 44, 32, 41] (.empty fun _ => default) ∨
      Accepts [65, 40, 66, 44, 32, 41] (.empty fun _ => default) := by
  have hlist : GenList [65, 40, 66, 44, 41] (.node 65 (.node 66 .empty .empty) .empty) :=
    .two (by decide) (.leaf (by decide)) .empty
  exact (CreateBTree_total_iff [65, 40, 66, 44, 32, 41] (by simp) _).mpr (.inr ⟨⟨_, hlist⟩, by decide, by decide⟩)

/-- On the text `AB` the variable `k` is read before it has a value, and the text
`A(` is accepted with its parenthesis left open. -/
theorem CreateBTree_wrong :
    (∀ fuel, 2 < fuel → (CreateBTree fuel [65, 66]).run (.empty fun _ => default) = .error .uninit) ∧
    ∃ l h', (∀ fuel, 2 < fuel → (loop (parse_body [65, 40]) fuel (0, .init)).run (.empty fun _ => default) =
      .ok (l, h')) ∧ l.top = 0 := by
  constructor
  · intro fuel hfuel
    rw [CreateBTree, run_bind, run_loop_text (by simp) _ hfuel]
    rfl
  · obtain ⟨l, h', hfeed, htop⟩ :
      ∃ l h', (feed [65, 40] .init).run (.empty fun _ => default) = .ok (l, h') ∧ l.top = 0 :=
      ⟨_, _, rfl, rfl⟩
    exact ⟨l, h', fun fuel hfuel => (run_loop_ok_iff (by simp) hfuel).mpr ⟨by decide, hfeed⟩, htop⟩

end basic_data_struct.btree
