import Mathlib.Data.List.Infix

namespace basic_data_struct.btree

variable {c : Int8}

/-- The characters of the notation that are not letters. -/
abbrev blank : Int8 := 32

abbrev lparen : Int8 := 40

abbrev rparen : Int8 := 41

abbrev comma : Int8 := 44

/-- The size of the parser's stack. -/
abbrev MS : Nat := 10

/-- `(c>='a'&&c<='z')||(c>='A'&&c<='Z')` -/
def isLetter (c : Int8) : Bool := (97 ≤ c && c ≤ 122) || (65 ≤ c && c ≤ 90)

/-- A binary tree labelled with characters. -/
inductive BinTree where
  | empty
  | node (data : Int8) (left right : BinTree)
deriving DecidableEq

namespace BinTree

/-- The generalised-list notation of a tree. -/
def print : BinTree → List Int8
  | empty => []
  | node data left right =>
    if left = empty ∧ right = empty then [data]
    else if right = empty then data :: lparen :: (left.print ++ [rparen])
    else data :: lparen :: (left.print ++ comma :: (right.print ++ [rparen]))

/-- Every label is an ASCII letter. -/
def Letters : BinTree → Prop
  | empty => True
  | node data left right => isLetter data = true ∧ left.Letters ∧ right.Letters

/-- The notation of the children of a node: what follows its label. -/
def children (left right : BinTree) : List Int8 :=
  if left = empty ∧ right = empty then []
  else lparen :: (left.print ++ ((if right = empty then [] else comma :: right.print) ++ [rparen]))

theorem print_node (data : Int8) (left right : BinTree) :
    (node data left right).print = data :: children left right := by
  rw [print, children]
  by_cases hleaf : left = empty ∧ right = empty
  · rw [if_pos hleaf, if_pos hleaf]
  · rw [if_neg hleaf, if_neg hleaf]
    split
    · rw [List.nil_append]
    · rw [List.cons_append]

/-- The labels in preorder. -/
def labels : BinTree → List Int8
  | empty => []
  | node data left right => data :: (left.labels ++ right.labels)

def size : BinTree → Nat
  | empty => 0
  | node _ left right => 1 + left.size + right.size

end BinTree

theorem isLetter_bounds (hc : isLetter c = true) : 65 ≤ c := by
  unfold isLetter at hc
  simp only [Bool.or_eq_true, Bool.and_eq_true, decide_eq_true_eq] at hc
  rcases hc with hlower | hupper
  · exact Int8.le_trans (by decide) hlower.1
  · exact hupper.1

/-- A letter is none of the other characters of the notation. -/
theorem isLetter_ne {d : Int8} (hc : isLetter c = true) (hd : d < 65) : c ≠ d := by
  intro heq
  rw [heq] at hc
  exact Int8.not_le.mpr hd (isLetter_bounds hc)

/-- A letter neither opens nor closes a parenthesis. -/
theorem count_letter (hc : isLetter c = true) : [c].count lparen = [c].count rparen + 0 := by
  rw [List.count_cons_of_ne (isLetter_ne hc (by decide)), List.count_cons_of_ne (isLetter_ne hc (by decide))]
  rfl

/-- A prefix of a text never has more than `n` parentheses open. -/
def OpenAtMost (n : Nat) (text : List Int8) : Prop :=
  ∀ before, before <+: text → before.count lparen ≤ before.count rparen + n

instance (n : Nat) (text : List Int8) : Decidable (OpenAtMost n text) :=
  decidable_of_iff (∀ before ∈ text.inits, before.count lparen ≤ before.count rparen + n) <| by
    simp only [List.mem_inits, OpenAtMost]

section OpenAtMost

variable {n d : Nat} {text rest : List Int8}

theorem OpenAtMost.left (h : OpenAtMost n (text ++ rest)) : OpenAtMost n text :=
  fun before hpre => h before (hpre.trans (List.prefix_append text rest))

/-- After a text that leaves `d` parentheses open, `d` fewer may be opened. -/
theorem OpenAtMost.right (h : OpenAtMost n (text ++ rest)) (hd : text.count lparen = text.count rparen + d) :
    d ≤ n ∧ OpenAtMost (n - d) rest := by
  have hle := h text (List.prefix_append text rest)
  refine ⟨by omega, fun before hpre => ?_⟩
  have hboth := h (text ++ before) ((List.prefix_append_right_inj text).mpr hpre)
  rw [List.count_append, List.count_append] at hboth
  omega

theorem OpenAtMost.tail (h : OpenAtMost n (c :: rest)) (hd : [c].count lparen = [c].count rparen + d) :
    d ≤ n ∧ OpenAtMost (n - d) rest :=
  OpenAtMost.right (List.singleton_append ▸ h) hd

end OpenAtMost

/-- The generalised lists and the trees that they denote: a letter, and behind it
in parentheses the lists of its two children. The list of an absent child is
empty, and the comma may be left out when there is no right child. -/
inductive GenList : List Int8 → BinTree → Prop where
  | empty : GenList [] .empty
  | leaf {c : Int8} (hc : isLetter c = true) : GenList [c] (.node c .empty .empty)
  | one {c : Int8} {text : List Int8} {left : BinTree} (hc : isLetter c = true) (hl : GenList text left) :
      GenList (c :: lparen :: (text ++ [rparen])) (.node c left .empty)
  | two {c : Int8} {textL textR : List Int8} {left right : BinTree} (hc : isLetter c = true)
      (hl : GenList textL left) (hr : GenList textR right) :
      GenList (c :: lparen :: (textL ++ comma :: (textR ++ [rparen]))) (.node c left right)

/-- The notation of a tree is a generalised list that denotes it. -/
theorem genList_print {t : BinTree} (ht : t.Letters) : GenList t.print t := by
  induction t with
  | empty => exact .empty
  | node data left right ihl ihr =>
    obtain ⟨hdata, hl, hr⟩ := ht
    rw [BinTree.print_node, BinTree.children]
    by_cases hleaf : left = .empty ∧ right = .empty
    · rw [if_pos hleaf, hleaf.1, hleaf.2]
      exact .leaf hdata
    · rw [if_neg hleaf]
      by_cases hright : right = .empty
      · rw [if_pos hright, hright]
        exact .one hdata (ihl hl)
      · rw [if_neg hright]
        exact .two hdata (ihl hl) (ihr hr)

namespace GenList

variable {text : List Int8} {t : BinTree}

/-- No character of a list is the terminating NUL. -/
theorem ne_zero_of_mem (hg : GenList text t) (hc : c ∈ text) : c ≠ 0 := by
  induction hg with
  | empty => simp at hc
  | leaf hd =>
    rw [List.mem_singleton.mp hc]
    exact isLetter_ne hd (by decide)
  | one hd _ ih =>
    simp only [List.mem_cons, List.mem_append, List.not_mem_nil, or_false] at hc
    rcases hc with rfl | rfl | hc | rfl
    · exact isLetter_ne hd (by decide)
    · decide
    · exact ih hc
    · decide
  | two hd _ _ ihl ihr =>
    simp only [List.mem_cons, List.mem_append, List.not_mem_nil, or_false] at hc
    rcases hc with rfl | rfl | hc | rfl | hc | rfl
    · exact isLetter_ne hd (by decide)
    · decide
    · exact ihl hc
    · decide
    · exact ihr hc
    · decide

/-- In a list every parenthesis is closed. -/
theorem count_eq (hg : GenList text t) : text.count lparen = text.count rparen := by
  have hother : ∀ {c : Int8} (rest : List Int8), isLetter c = true →
      (c :: rest).count lparen = rest.count lparen ∧ (c :: rest).count rparen = rest.count rparen := fun rest hc =>
    ⟨List.count_cons_of_ne (isLetter_ne hc (by decide)), List.count_cons_of_ne (isLetter_ne hc (by decide))⟩
  induction hg with
  | empty => rfl
  | leaf hc => rw [(hother [] hc).1, (hother [] hc).2, List.count_nil, List.count_nil]
  | one hc _ ih =>
    rw [(hother _ hc).1, (hother _ hc).2, List.count_cons_self, List.count_cons_of_ne (by decide), List.count_append,
      List.count_append, ih]
    rfl
  | two hc _ _ ihl ihr =>
    rw [(hother _ hc).1, (hother _ hc).2, List.count_cons_self, List.count_cons_of_ne (by decide), List.count_append,
      List.count_append, List.count_cons_of_ne (by decide), List.count_cons_of_ne (by decide), List.count_append,
      List.count_append, ihl, ihr]
    rfl

/-- The letters of a list are the labels of its tree, in preorder. -/
theorem filter_isLetter (hg : GenList text t) : text.filter isLetter = t.labels := by
  induction hg with
  | empty => rfl
  | leaf hc => rw [List.filter_cons_of_pos hc, List.filter_nil]; rfl
  | one hc _ ih =>
    rw [List.filter_cons_of_pos hc, List.filter_cons_of_neg (by decide), List.filter_append, ih]
    rfl
  | two hc _ _ ihl ihr =>
    rw [List.filter_cons_of_pos hc, List.filter_cons_of_neg (by decide), List.filter_append, ihl,
      List.filter_cons_of_neg (by decide), List.filter_append, ihr, BinTree.labels]
    simp [List.filter_cons_of_neg (show ¬ isLetter rparen = true by decide)]

end GenList

end basic_data_struct.btree
