import BasicDataStruct.Download.ParseUrl

open machine stdio

namespace basic_data_struct.download

variable {seg : Segment} {k i : Nat} {gethostbyname : Resolver}

abbrev Segment := List UInt8

abbrev DOT : Segment := [46]

abbrev DOTDOT : Segment := [46, 46]

/-- `strcpy(stack1[p1++],seg)`, with `char stack1[256][256]` and `char seg[256]`. -/
def storeSegment (stack1 : List Segment) (seg : Segment) : Except Fault (List Segment) :=
  if seg.length < 256 ∧ stack1.length < 256 then .ok (stack1 ++ [seg]) else .error .bounds

/-- The loop that splits the redirect, from `redirect[i]` on. -/
def splitSegments (seg : Segment) (stack1 : List Segment) : List UInt8 → Except Fault (List Segment)
  | [] => storeSegment stack1 seg
  | c :: redirect =>
    if c = SLASH then do
      let stack1 ← storeSegment stack1 seg
      splitSegments [] stack1 redirect
    else splitSegments (seg ++ [c]) stack1 redirect

/-- `stack2` with its index. A row above the index keeps what was stored there. -/
structure Stack where
  stack2 : List Segment
  p2 : Int

def Stack.init : Stack := { stack2 := List.replicate 256 [], p2 := 0 }

/-- `stack2[i]`. -/
def Stack.row (s : Stack) (i : Int) : Except Fault Segment :=
  if 0 ≤ i then
    match s.stack2[i.toNat]? with
    | some seg => .ok seg
    | none => .error .bounds
  else .error .bounds

/-- `strcpy(stack2[p2++],seg)`. -/
def Stack.push (s : Stack) (seg : Segment) : Except Fault Stack :=
  if 0 ≤ s.p2 ∧ s.p2 < s.stack2.length then
    .ok { stack2 := s.stack2.set s.p2.toNat seg, p2 := s.p2 + 1 }
  else .error .bounds

/-- A round of the loop that resolves the dots. The test of the index lets it go down to -1. -/
def Stack.resolve (s : Stack) (seg : Segment) : Except Fault Stack :=
  if seg = DOTDOT ∧ s.p2 > -1 then .ok { s with p2 := s.p2 - 1 }
  else if seg ≠ DOT then s.push seg
  else .ok s

/-- `while(old_url[i]!='/') i--;` -/
def lastSlash (old_url : List UInt8) : Nat → Except Fault Nat
  | 0 => if old_url[0]? = some SLASH then .ok 0 else .error .bounds
  | i + 1 => if old_url[i + 1]? = some SLASH then .ok (i + 1) else lastSlash old_url i

/-- The copy of the old address up to its last slash. The index `i` is an `int`. -/
def baseDirectory (old_url : List UInt8) : Except Fault (List UInt8) := do
  let i := (Int32.ofInt (old_url.length - 1)).toInt
  if i < 0 then .error .bounds
  else
    let i ← lastSlash old_url i.toNat
    return old_url.take (i + 1)

/-- `sprintf(new_url,"%s://%s:%d/",..)`. The host is the address that was found. -/
def serverRoot (gethostbyname : Resolver) (old_url : List UInt8) : Except Fault (List UInt8) := do
  let temp_urlinfo ← parse_url gethostbyname old_url
  match temp_urlinfo.host, temp_urlinfo.port with
  | some host, some port =>
    return temp_urlinfo.schema ++ (ascii "://" ++ (host ++ (COLON :: integer port.toInt32.toInt))) ++ [SLASH]
  | _, _ => .error .uninit

/-- The part of the new address in front of the segments. -/
def joinPrefix (gethostbyname : Resolver) (old_url : List UInt8) (seg : Segment) : Except Fault (List UInt8) :=
  if seg = [] then serverRoot gethostbyname old_url else baseDirectory old_url

/-- The two `strcat` of the last loop. -/
def Stack.append (s : Stack) (new_url : List UInt8) (j : Nat) : Except Fault (List UInt8) := do
  let seg ← s.row j
  return new_url ++ (seg ++ [SLASH])

/-- The segments behind `new_url`. -/
def Stack.join (s : Stack) (new_url : List UInt8) : Except Fault (List UInt8) := do
  let new_url ← (List.range (s.p2 - 1).toNat).foldlM s.append new_url
  let seg ← s.row (s.p2 - 1)
  return new_url ++ seg

def join_url (gethostbyname : Resolver) (old_url redirect : List UInt8) : Except Fault (List UInt8) := do
  if ascii "://" <:+: redirect then return redirect
  else
    let stack1 ← splitSegments [] [] redirect
    let s ← stack1.foldlM Stack.resolve Stack.init
    let seg ← s.row 0
    let new_url ← joinPrefix gethostbyname old_url seg
    s.join new_url

/-- A segment comes: `.` is dropped, and `..` cancels the segment before it. -/
def cancel (segments : List Segment) (seg : Segment) : List Segment :=
  if seg = DOTDOT then segments.dropLast else if seg = DOT then segments else segments ++ [seg]

/-- The segments that are left of a redirect. -/
def resolved (segments : List Segment) : List Segment := segments.foldl cancel []

/-- Every `..` has a segment before it. -/
def Cancellable (segments : List Segment) : Prop :=
  ∀ front rest, segments = front ++ DOTDOT :: rest → resolved front ≠ []

/-- An absolute address by its parts. -/
structure AbsoluteUrl where
  schema : List UInt8
  host : List UInt8
  port : Option (List UInt8)
  rest : List UInt8
  schema_free : COLON ∉ schema
  host_free : SLASH ∉ host
  port_digits : ∀ digits ∈ port, ∀ b ∈ digits, isDigit b = true
  -- a path, a query or a fragment
  rest_head : ∀ c ∈ rest.head?, c ∈ [SLASH, 63, 35]

def AbsoluteUrl.text (u : AbsoluteUrl) : List UInt8 :=
  u.schema ++ (ascii "://" ++ (u.host ++ ((u.port.elim [] (COLON :: ·)) ++ u.rest)))

/-- Scheme, host and port. -/
def AbsoluteUrl.root (u : AbsoluteUrl) : List UInt8 :=
  u.schema ++ (ascii "://" ++ (u.host ++ COLON :: u.port.getD (ascii "80")))

/-- An address up to its last slash. -/
def directory (url : List UInt8) : List UInt8 := (url.reverse.dropWhile (· ≠ SLASH)).reverse

/-- Where a redirect leads. -/
def AbsoluteUrl.target (u : AbsoluteUrl) (redirect : List UInt8) : List UInt8 :=
  (if redirect.head? = some SLASH then u.root else directory u.text) ++
    [SLASH].intercalate (resolved (redirect.splitOn SLASH))

/-- The index of the last character, as an `int`, is not in front of the last slash. -/
def SlashInReach (url : List UInt8) : Prop :=
  ((directory url).length : Int) ≤ (Int32.ofInt (url.length - 1)).toInt + 1

section Split

theorem splitOn_cons (c : UInt8) (text : List UInt8) : (c :: text).splitOn SLASH =
    if c = SLASH then [] :: text.splitOn SLASH else (text.splitOn SLASH).modifyHead (c :: ·) := by
  simp only [List.splitOn, List.splitOnP_cons_eq_if_modifyHead, beq_iff_eq]

/-- The splitting loop with the segment and the segments it has read. -/
theorem splitSegments_eq (redirect : List UInt8) (seg : Segment) (stack1 : List Segment)
    (hcount : stack1.length + (redirect.splitOn SLASH).length ≤ 256)
    (hlength : ∀ s ∈ (redirect.splitOn SLASH).modifyHead (seg ++ ·), s.length < 256) :
    splitSegments seg stack1 redirect = .ok (stack1 ++ (redirect.splitOn SLASH).modifyHead (seg ++ ·)) := by
  induction redirect generalizing seg stack1 with
  | nil =>
    simp only [List.splitOn_nil, List.modifyHead_cons, List.append_nil, List.forall_mem_singleton,
      List.length_singleton] at hcount hlength ⊢
    exact if_pos ⟨hlength, hcount⟩
  | cons c redirect ih =>
    rw [splitOn_cons] at hcount hlength ⊢
    rw [splitSegments]
    by_cases hc : c = SLASH
    · simp only [if_pos hc, List.modifyHead_cons, List.append_nil, List.forall_mem_cons, List.length_cons]
        at hcount hlength ⊢
      have hid : (redirect.splitOn SLASH).modifyHead ([] ++ ·) = redirect.splitOn SLASH :=
        congrFun List.modifyHead_id _
      have hstore : storeSegment stack1 seg = .ok (stack1 ++ [seg]) := if_pos ⟨hlength.1, by omega⟩
      have hrest := ih [] (stack1 ++ [seg]) (by simp; omega) (hid.symm ▸ hlength.2)
      rw [hid, List.append_assoc, List.singleton_append] at hrest
      rw [hstore]
      exact hrest
    · have hcons : ((redirect.splitOn SLASH).modifyHead (c :: ·)).modifyHead (seg ++ ·) =
          (redirect.splitOn SLASH).modifyHead (seg ++ [c] ++ ·) := by
        rw [List.modifyHead_modifyHead]
        exact congrArg (List.modifyHead · _) (funext fun s => List.append_cons seg c s)
      simp only [if_neg hc, hcons, List.length_modifyHead] at hcount hlength ⊢
      exact ih (seg ++ [c]) stack1 hcount hlength

/-- The segments of a redirect that fits into `stack1`. -/
theorem splitSegments_redirect {redirect : List UInt8} (hcount : (redirect.splitOn SLASH).length ≤ 256)
    (hlength : ∀ s ∈ redirect.splitOn SLASH, s.length < 256) :
    splitSegments [] [] redirect = .ok (redirect.splitOn SLASH) := by
  have hid : (redirect.splitOn SLASH).modifyHead ([] ++ ·) = redirect.splitOn SLASH :=
    congrFun List.modifyHead_id _
  have h := splitSegments_eq redirect [] [] (by simpa using hcount) (hid.symm ▸ hlength)
  rwa [hid, List.nil_append] at h

end Split

section Resolve

variable {s : Stack} {segments kept : List Segment}

/-- The stack holds these segments. -/
structure Stack.Holds (s : Stack) (segments : List Segment) : Prop where
  length : s.stack2.length = 256
  p2 : s.p2 = segments.length
  rows : s.stack2.take segments.length = segments

theorem Stack.holds_init : Stack.init.Holds [] := ⟨List.length_replicate, rfl, rfl⟩

theorem Stack.Holds.push (h : s.Holds kept) (seg : Segment) (hroom : kept.length < 256) :
    ∃ s', s.push seg = .ok s' ∧ s'.Holds (kept ++ [seg]) := by
  have hp2 : s.p2.toNat = kept.length := by simp [h.p2]
  have hin : 0 ≤ s.p2 ∧ s.p2 < s.stack2.length := by
    rw [h.p2, h.length]
    omega
  refine ⟨_, if_pos hin, ⟨by simp [h.length], by simp [h.p2], ?_⟩⟩
  have hlt : kept.length < s.stack2.length := h.length ▸ hroom
  simp only [hp2, List.length_append, List.length_singleton]
  rw [List.take_add_one, List.take_set_of_le (Nat.le_refl _), h.rows, List.getElem?_set_self hlt]
  rfl

theorem Stack.Holds.pop (h : s.Holds kept) (hkept : kept ≠ []) :
    Stack.Holds { s with p2 := s.p2 - 1 } kept.dropLast := by
  have hpos : 0 < kept.length := List.length_pos_iff.mpr hkept
  refine ⟨h.length, ?_, ?_⟩
  · simp only [h.p2, List.length_dropLast]
    omega
  · have htake : (s.stack2.take kept.length).take (kept.length - 1) = s.stack2.take (kept.length - 1) := by
      rw [List.take_take, Nat.min_eq_left (Nat.sub_le _ _)]
    rw [List.length_dropLast, List.dropLast_eq_take, ← htake, h.rows]

theorem Stack.Holds.resolve (h : s.Holds kept) (seg : Segment) (hroom : kept.length < 256)
    (hcancel : seg = DOTDOT → kept ≠ []) : ∃ s', s.resolve seg = .ok s' ∧ s'.Holds (cancel kept seg) := by
  rw [Stack.resolve, cancel]
  have hp2 : s.p2 > -1 := by
    rw [h.p2]
    omega
  by_cases hdd : seg = DOTDOT
  · rw [if_pos ⟨hdd, hp2⟩, if_pos hdd]
    exact ⟨_, rfl, h.pop (hcancel hdd)⟩
  · rw [if_neg fun hboth => hdd hboth.1, if_neg hdd]
    by_cases hd : seg = DOT
    · rw [if_neg (not_not.mpr hd), if_pos hd]
      exact ⟨s, rfl, h⟩
    · rw [if_pos hd, if_neg hd]
      exact h.push seg hroom

theorem foldlM_append_singleton {α β : Type} (f : β → α → Except Fault β) (b : β) (l : List α) (a : α) :
    (l ++ [a]).foldlM f b = l.foldlM f b >>= (f · a) := by
  rw [List.foldlM_append]
  simp only [List.foldlM_cons, List.foldlM_nil, bind_pure]

theorem resolved_append (segments : List Segment) (seg : Segment) :
    resolved (segments ++ [seg]) = cancel (resolved segments) seg := by
  rw [resolved, List.foldl_append]
  rfl

theorem length_resolved_le (segments : List Segment) : (resolved segments).length ≤ segments.length := by
  induction segments using List.reverseRecOn with
  | nil => exact Nat.le_refl _
  | append_singleton segments seg ih =>
    rw [resolved_append, cancel]
    split
    · simp
      omega
    · split <;> simp <;> omega

theorem Cancellable.init (h : Cancellable (segments ++ [seg])) : Cancellable segments :=
  fun front rest heq => h front (rest ++ [seg]) (by simp [heq])

/-- Every `..` finds a segment: the stack is what the redirect resolves to. -/
theorem foldlM_resolve (hcancel : Cancellable segments) (hcount : segments.length ≤ 256) :
    ∃ s, segments.foldlM Stack.resolve Stack.init = .ok s ∧ s.Holds (resolved segments) := by
  induction segments using List.reverseRecOn with
  | nil => exact ⟨_, rfl, Stack.holds_init⟩
  | append_singleton segments seg ih =>
    rw [List.length_append, List.length_singleton] at hcount
    obtain ⟨s, hs, hholds⟩ := ih hcancel.init (by omega)
    have hlength := length_resolved_le segments
    obtain ⟨s', hs', hholds'⟩ :=
      hholds.resolve seg (by omega) fun hseg => hcancel segments [] (by rw [hseg])
    refine ⟨s', ?_, resolved_append segments seg ▸ hholds'⟩
    rw [foldlM_append_singleton, hs]
    exact hs'

/-- The index is below the stack: a segment that is not dropped faults. -/
theorem Stack.resolve_underflow (h : s.p2 = -1) (seg : Segment) :
    s.resolve seg = .error .bounds ∨ s.resolve seg = .ok s := by
  have hnot : ¬(seg = DOTDOT ∧ s.p2 > -1) := by omega
  rw [Stack.resolve, if_neg hnot]
  split
  · exact .inl (if_neg (by omega))
  · exact .inr rfl

theorem eq_dotdot_of_not_cancellable (hinit : Cancellable segments)
    (h : ¬Cancellable (segments ++ [seg])) : seg = DOTDOT ∧ resolved segments = [] := by
  simp only [Cancellable, not_forall, not_not] at h
  obtain ⟨front, rest, heq, hempty⟩ := h
  rcases List.eq_nil_or_concat' rest with rfl | ⟨rest, last, rfl⟩
  · obtain ⟨rfl, hseg⟩ := List.append_inj' heq rfl
    exact ⟨(List.cons.inj hseg).1, hempty⟩
  · rw [← List.cons_append, ← List.append_assoc] at heq
    exact absurd hempty (hinit front rest (List.append_inj' heq rfl).1)

/-- Some `..` finds none: the index goes below the stack and stays there. -/
theorem foldlM_resolve_underflow (hcancel : ¬Cancellable segments) (hcount : segments.length ≤ 256) :
    segments.foldlM Stack.resolve Stack.init = .error .bounds ∨
      ∃ s, segments.foldlM Stack.resolve Stack.init = .ok s ∧ s.p2 = -1 := by
  induction segments using List.reverseRecOn with
  | nil => exact absurd (fun front rest h => by simp at h) hcancel
  | append_singleton segments seg ih =>
    rw [List.length_append, List.length_singleton] at hcount
    rw [foldlM_append_singleton]
    by_cases hinit : Cancellable segments
    · obtain ⟨rfl, hempty⟩ := eq_dotdot_of_not_cancellable hinit hcancel
      obtain ⟨s, hs, hholds⟩ := foldlM_resolve hinit (by omega)
      have hp2 : s.p2 = 0 := by simp [hholds.p2, hempty]
      refine .inr ⟨{ s with p2 := s.p2 - 1 }, ?_, by simp [hp2]⟩
      rw [hs]
      exact if_pos ⟨rfl, by omega⟩
    · rcases ih hinit (by omega) with herror | ⟨s, hs, hp2⟩
      · rw [herror]
        exact .inl rfl
      · rw [hs]
        exact (Stack.resolve_underflow hp2 seg).imp id fun hsame => ⟨s, hsame, hp2⟩

end Resolve

section Join

variable {s : Stack} {kept : List Segment}

theorem intercalate_append_singleton (segments : List Segment) (seg : Segment) :
    [SLASH].intercalate (segments ++ [seg]) = (segments.map (· ++ [SLASH])).flatten ++ seg := by
  induction segments with
  | nil => exact List.intercalate_singleton
  | cons a segments ih =>
    have hcons : ∃ b rest, segments ++ [seg] = b :: rest := List.exists_cons_of_ne_nil (by simp)
    obtain ⟨b, rest, hrest⟩ := hcons
    rw [List.cons_append, hrest, List.intercalate_cons_cons, ← hrest, ih]
    simp

theorem Stack.Holds.row (h : s.Holds kept) {j : Nat} (hj : kept[j]? = some seg) : s.row j = .ok seg := by
  have hlt : j < kept.length := (List.getElem?_eq_some_iff.mp hj).1
  have hrow : s.stack2[j]? = some seg := by
    rw [← h.rows, List.getElem?_take_of_lt hlt] at hj
    exact hj
  rw [Stack.row, if_pos (Int.natCast_nonneg j), Int.toNat_natCast, hrow]

theorem Stack.Holds.foldlM_append (h : s.Holds kept) (new_url : List UInt8) (hk : k ≤ kept.length) :
    (List.range k).foldlM s.append new_url = .ok (new_url ++ ((kept.take k).map (· ++ [SLASH])).flatten) := by
  induction k with
  | zero => simp [pure, Except.pure]
  | succ k ih =>
    obtain ⟨seg, hseg⟩ : ∃ seg, kept[k]? = some seg := ⟨kept[k], List.getElem?_eq_getElem hk⟩
    rw [List.range_succ, foldlM_append_singleton, ih (by omega), List.take_add_one, hseg]
    simp [bind, Except.bind, Stack.append, h.row hseg, pure, Except.pure]

theorem Stack.Holds.join (h : s.Holds kept) (hkept : kept ≠ []) (new_url : List UInt8) :
    s.join new_url = .ok (new_url ++ [SLASH].intercalate kept) := by
  obtain ⟨segments, seg, rfl⟩ := List.eq_nil_or_concat' kept |>.resolve_left hkept
  have hp2 : s.p2 - 1 = segments.length := by simp [h.p2]
  have hseg : (segments ++ [seg])[segments.length]? = some seg := by simp
  rw [Stack.join, hp2, Int.toNat_natCast, h.foldlM_append new_url (by simp), List.take_left]
  simp [bind, Except.bind, h.row hseg, intercalate_append_singleton, pure, Except.pure]

theorem Stack.join_error (h : s.p2 ≤ 0) (new_url : List UInt8) : s.join new_url = .error .bounds := by
  have hloop : (s.p2 - 1).toNat = 0 := by omega
  have hrow : s.row (s.p2 - 1) = .error .bounds := if_neg (by omega)
  rw [Stack.join, hloop, hrow]
  rfl

end Join

section Directory

variable {url front rest : List UInt8}

theorem directory_append (hrest : SLASH ∉ rest) : directory (front ++ SLASH :: rest) = front ++ [SLASH] := by
  have hdrop : ∀ b ∈ rest.reverse, decide (b ≠ SLASH) = true :=
    fun b hb => decide_eq_true fun h => hrest (h ▸ List.mem_reverse.mp hb)
  rw [directory, List.reverse_append, List.reverse_cons, List.append_assoc, List.dropWhile_append_of_pos hdrop]
  simp

theorem exists_last_slash (h : SLASH ∈ url) : ∃ front rest, url = front ++ SLASH :: rest ∧ SLASH ∉ rest := by
  obtain ⟨rest, front, heq, hrest⟩ := List.eq_append_cons_of_mem (List.mem_reverse.mpr h)
  exact ⟨front.reverse, rest.reverse, by simpa using congrArg List.reverse heq, mt List.mem_reverse.mp hrest⟩

theorem lastSlash_of_slash (h : url[i]? = some SLASH) : lastSlash url i = .ok i := by
  cases i with
  | zero => exact if_pos h
  | succ i => exact if_pos h

/-- The way back to the last slash. -/
theorem lastSlash_append (hrest : SLASH ∉ rest) (hi : front.length ≤ i) :
    lastSlash (front ++ SLASH :: rest) i = .ok front.length := by
  have hslash : (front ++ SLASH :: rest)[front.length]? = some SLASH := by simp
  induction i with
  | zero =>
    rw [Nat.le_zero.mp hi] at hslash ⊢
    exact lastSlash_of_slash hslash
  | succ i ih =>
    rcases Nat.lt_or_ge i front.length with hlt | hge
    · rw [Nat.le_antisymm hi hlt] at hslash ⊢
      exact lastSlash_of_slash hslash
    · have hbehind : (front ++ SLASH :: rest)[i + 1]? ≠ some SLASH := by
        rw [List.getElem?_append_right hi, Nat.succ_sub hge, List.getElem?_cons_succ]
        exact fun h => hrest (List.mem_of_getElem? h)
      rw [lastSlash, if_neg hbehind]
      exact ih hge

theorem le_of_lastSlash (h : lastSlash url i = .ok k) : k ≤ i ∧ url[k]? = some SLASH := by
  induction i with
  | zero =>
    rw [lastSlash] at h
    split at h
    next hslash =>
      cases h
      exact ⟨Nat.le_refl _, hslash⟩
    next => exact nomatch h
  | succ i ih =>
    rw [lastSlash] at h
    split at h
    next hslash =>
      cases h
      exact ⟨Nat.le_refl _, hslash⟩
    next => exact ⟨Nat.le_succ_of_le (ih h).1, (ih h).2⟩

theorem baseDirectory_eq_ok {text : List UInt8} (h : baseDirectory url = .ok text) :
    ∃ k : Nat, k ≤ (Int32.ofInt (url.length - 1)).toInt ∧ url[k]? = some SLASH ∧ text = url.take (k + 1) := by
  simp only [baseDirectory] at h
  split at h
  · exact nomatch h
  next hi =>
    cases hlast : lastSlash url (Int32.ofInt (url.length - 1)).toInt.toNat with
    | error e =>
      rw [hlast] at h
      exact nomatch h
    | ok k =>
      rw [hlast] at h
      cases h
      obtain ⟨hk, hslash⟩ := le_of_lastSlash hlast
      exact ⟨k, by omega, hslash, rfl⟩

/-- The old address is copied up to its last slash. -/
theorem baseDirectory_eq_iff (hurl : SLASH ∈ url) : baseDirectory url = .ok (directory url) ↔ SlashInReach url := by
  obtain ⟨front, rest, rfl, hrest⟩ := exists_last_slash hurl
  rw [SlashInReach, directory_append hrest]
  constructor
  · intro h
    obtain ⟨k, hk, -, htake⟩ := baseDirectory_eq_ok h
    have hlength := congrArg List.length htake
    rw [List.length_take] at hlength
    omega
  · intro h
    rw [List.length_append, List.length_singleton] at h
    have hfront : front.length ≤ (Int32.ofInt ((front ++ SLASH :: rest).length - 1)).toInt.toNat := by omega
    simp only [baseDirectory]
    rw [if_neg (by omega), lastSlash_append hrest hfront]
    simp [bind, Except.bind, pure, Except.pure, List.take_append]

theorem serverRoot_slash {text : List UInt8} (h : serverRoot gethostbyname url = .ok text) :
    ∃ front, text = front ++ [SLASH] := by
  simp only [serverRoot] at h
  cases hparse : parse_url gethostbyname url with
  | error e =>
    rw [hparse] at h
    exact nomatch h
  | ok info =>
    rw [hparse] at h
    simp only [bind, Except.bind] at h
    split at h
    · cases h
      exact ⟨_, rfl⟩
    · exact nomatch h

/-- What stands in front of the segments ends with a slash. -/
theorem joinPrefix_slash {text : List UInt8}
    (h : joinPrefix gethostbyname url seg = .ok text) : ∃ front, text = front ++ [SLASH] := by
  rw [joinPrefix] at h
  split at h
  · exact serverRoot_slash h
  · obtain ⟨k, -, hslash, rfl⟩ := baseDirectory_eq_ok h
    rw [List.take_add_one, hslash]
    exact ⟨_, rfl⟩

end Directory

section Target

variable {gethostbyname : Resolver} {old_url redirect : List UInt8}

/-- What `join_url` returns for a relative redirect, and when it returns at all. -/
theorem join_url_eq_ok_iff (hrelative : ¬ascii "://" <:+: redirect) (hcount : (redirect.splitOn SLASH).length ≤ 256)
    (hlength : ∀ s ∈ redirect.splitOn SLASH, s.length < 256) (text : List UInt8) :
    join_url gethostbyname old_url redirect = .ok text ↔ Cancellable (redirect.splitOn SLASH) ∧
      ∃ seg rest new_url, resolved (redirect.splitOn SLASH) = seg :: rest ∧
        joinPrefix gethostbyname old_url seg = .ok new_url ∧
        text = new_url ++ [SLASH].intercalate (resolved (redirect.splitOn SLASH)) := by
  rw [join_url, if_neg hrelative, splitSegments_redirect hcount hlength]
  change (redirect.splitOn SLASH).foldlM Stack.resolve Stack.init >>= _ = _ ↔ _
  generalize redirect.splitOn SLASH = segments at hcount
  simp only [bind_eq_ok_iff]
  constructor
  · rintro ⟨s, hs, first, hfirst, new_url, hbegin, hjoin⟩
    by_cases hcancel : Cancellable segments
    · obtain ⟨s', hs', hholds⟩ := foldlM_resolve hcancel hcount
      obtain rfl : s' = s := Except.ok.inj (hs'.symm.trans hs)
      cases hresolved : resolved segments with
      | nil =>
        have hp2 : s'.p2 ≤ 0 := by simp [hholds.p2, hresolved]
        rw [Stack.join_error hp2] at hjoin
        exact nomatch hjoin
      | cons seg rest =>
        rw [hresolved] at hholds
        have hrow : s'.row 0 = .ok seg := hholds.row (j := 0) rfl
        obtain rfl : seg = first := Except.ok.inj (hrow.symm.trans hfirst)
        rw [hholds.join (List.cons_ne_nil _ _)] at hjoin
        exact ⟨hcancel, seg, rest, new_url, rfl, hbegin, (Except.ok.inj hjoin).symm⟩
    · rcases foldlM_resolve_underflow hcancel hcount with herror | ⟨s', hs', hp2⟩
      · exact nomatch herror.symm.trans hs
      · obtain rfl : s' = s := Except.ok.inj (hs'.symm.trans hs)
        rw [Stack.join_error (by omega)] at hjoin
        exact nomatch hjoin
  · rintro ⟨hcancel, seg, rest, new_url, hresolved, hbegin, rfl⟩
    obtain ⟨s, hs, hholds⟩ := foldlM_resolve hcancel hcount
    have hrow : s.row 0 = .ok seg := hholds.row (j := 0) (by rw [hresolved]; rfl)
    exact ⟨s, hs, seg, hrow, new_url, hbegin, hholds.join (by simp [hresolved]) new_url⟩

theorem root_ne_slash (u : AbsoluteUrl) (front : List UInt8) : u.root ≠ front ++ [SLASH] := by
  intro h
  have hport : SLASH ∈ COLON :: u.port.getD (ascii "80") := by
    have hlast := congrArg List.getLast? h
    rw [AbsoluteUrl.root, ← List.append_assoc, ← List.append_assoc, List.getLast?_append_of_ne_nil _ (by simp),
      List.getLast?_append_of_ne_nil _ (by simp)] at hlast
    exact List.mem_of_getLast? hlast
  have hdigits : ∀ b ∈ u.port.getD (ascii "80"), isDigit b = true := by
    cases hp : u.port with
    | none => exact List.all_eq_true.mp (by decide)
    | some digits => exact u.port_digits digits hp
  rcases List.mem_cons.mp hport with hcolon | hdigit
  · exact absurd hcolon (by decide)
  · exact absurd (hdigits _ hdigit) (by decide)

theorem slash_mem_text (u : AbsoluteUrl) : SLASH ∈ u.text := by
  simp [AbsoluteUrl.text, ascii]

/-- The address that `join_url` builds is the target of the redirect exactly if the redirect does not begin with a
slash, every `..` has a segment before it, something is left of the redirect, and in front of an empty first
segment the address of the server is the directory of the old address. -/
theorem join_url_target_iff (gethostbyname : Resolver) (u : AbsoluteUrl) (redirect : List UInt8)
    (hrelative : ¬ascii "://" <:+: redirect) (hcount : (redirect.splitOn SLASH).length ≤ 255)
    (hlength : ∀ s ∈ redirect.splitOn SLASH, s.length ≤ 255) :
    join_url gethostbyname u.text redirect = .ok (u.target redirect) ↔
      redirect.head? ≠ some SLASH ∧ Cancellable (redirect.splitOn SLASH) ∧
        ∃ seg rest, resolved (redirect.splitOn SLASH) = seg :: rest ∧
          if seg = [] then serverRoot gethostbyname u.text = .ok (directory u.text) else SlashInReach u.text := by
  have hbegin (seg : Segment) : joinPrefix gethostbyname u.text seg = .ok (directory u.text) ↔
      if seg = [] then serverRoot gethostbyname u.text = .ok (directory u.text) else SlashInReach u.text := by
    rw [joinPrefix]
    split
    · exact Iff.rfl
    · exact baseDirectory_eq_iff (slash_mem_text u)
  rw [join_url_eq_ok_iff hrelative (by omega) (fun s hs => Nat.lt_succ_of_le (hlength s hs)), AbsoluteUrl.target]
  constructor
  · rintro ⟨hcancel, seg, rest, new_url, hresolved, hnew, htext⟩
    obtain rfl := List.append_cancel_right htext
    by_cases hslash : redirect.head? = some SLASH
    · obtain ⟨front, hfront⟩ := joinPrefix_slash hnew
      rw [if_pos hslash] at hfront
      exact absurd hfront (root_ne_slash u front)
    · rw [if_neg hslash] at hnew
      exact ⟨hslash, hcancel, seg, rest, hresolved, (hbegin seg).mp hnew⟩
  · rintro ⟨hslash, hcancel, seg, rest, hresolved, hseg⟩
    rw [if_neg hslash]
    exact ⟨hcancel, seg, rest, _, hresolved, (hbegin seg).mpr hseg, rfl⟩

/-- `http://h:80/d/x`. -/
def deepUrl : AbsoluteUrl where
  schema := ascii "http"
  host := ascii "h"
  port := some (ascii "80")
  rest := ascii "/d/x"
  schema_free := by decide
  host_free := by decide
  port_digits := by
    rintro _ ⟨⟩
    exact List.all_eq_true.mp (by decide)
  rest_head := by
    rintro _ ⟨⟩
    decide

/-- A `..` that has a segment to cancel. -/
theorem join_url_target_sibling :
    join_url (fun _ => none) deepUrl.text (ascii "a/../b") = .ok (ascii "http://h:80/d/b") := by
  have hsplit : (ascii "a/../b").splitOn SLASH = [ascii "a", DOTDOT, ascii "b"] := by decide
  have hcancel : Cancellable ((ascii "a/../b").splitOn SLASH) := by
    rw [hsplit]
    rintro (_ | ⟨seg, _ | ⟨_, _ | ⟨_, _⟩⟩⟩) rest heq
    · exact absurd (List.cons.inj heq).1 (by decide)
    · rw [← (List.cons.inj heq).1]
      decide
    · exact absurd (List.cons.inj (List.cons.inj (List.cons.inj heq).2).2).1 (by decide)
    · simp at heq
  exact (join_url_target_iff (fun _ => none) deepUrl (ascii "a/../b") (by decide) (by decide) (by decide)).mpr
    ⟨by decide, hcancel, ascii "b", [], by decide, by rw [if_neg (by decide), SlashInReach]; decide⟩

/-- A slash too many behind the server, and a `..` that leaves the stack. -/
theorem join_url_misses : join_url some deepUrl.text (ascii "/a") = .ok (ascii "http://h:80//a") ∧
    deepUrl.target (ascii "/a") = ascii "http://h:80/a" ∧
    join_url some deepUrl.text DOTDOT = .error .bounds := by
  decide +kernel

end Target

end basic_data_struct.download
