import BasicDataStruct.Http.Body

open crlf runs socket stdio

namespace basic_data_struct.http

variable {Q : Prop} {n start position k : Nat} {body data rest part : List UInt8}

/-- Rounds of `read` and `process_read` until there is an answer, each with the pieces that `recv` delivers in it,
and the rounds that are left. A connection for which `read` fails is closed. -/
def http_conn.serve (c : http_conn) : List (List (List UInt8)) → Answer × List (List (List UInt8))
  | [] => (.returns .NO_REQUEST, [])
  | pieces :: rounds =>
    match c.read (pieces.map .bytes) with
    | (false, _) => (.returns .CLOSED_CONNECTION, rounds)
    | (true, c) =>
      match c.process_read with
      | (.returns .NO_REQUEST, c) => c.serve rounds
      | (answer, _) => (answer, rounds)

/-- The rounds behind a call of `process_read`. -/
def respond (result : Answer × http_conn) (rounds : List (List (List UInt8))) : Answer × List (List (List UInt8)) :=
  match result with
  | (.returns .NO_REQUEST, c) => c.serve rounds
  | (answer, _) => (answer, rounds)

/-- The bytes of rounds. -/
def bytesOf (rounds : List (List (List UInt8))) : List UInt8 := rounds.flatten.flatten

/-- The answer of these rounds is the one that the request gets when it is read at once, and `do_request` is not
reached before the last byte. -/
def Request.Served (r : Request) (rounds : List (List (List UInt8))) : Prop :=
  (http_conn.init.serve rounds).1 = (http_conn.init.serve [[r.bytes]]).1 ∧
    ∀ left, http_conn.init.serve rounds = (.do_request, left) → bytesOf left = []

/-- All rounds that end inside the body, which begins behind `start` bytes, end at harmless places. The rounds begin
behind `position` bytes. -/
def HarmlessCuts (start : Nat) (body : List UInt8) (position : Nat) (rounds : List (List (List UInt8))) : Prop :=
  ∀ done left, rounds = done ++ left → ∀ k, 0 < k → k < body.length →
    position + (bytesOf done).length = start + k → Harmless body k

/-- The answer to a request of `n` bytes with a body: the byte behind it has to be in the buffer. -/
def bodyAnswer (n : Nat) : Answer := if n < READ_BUFFER_SIZE then .do_request else .out_of_bounds

/-- The answer is `answer` exactly if `Q` holds, and otherwise one that the parser returns; and `do_request` is not
reached before the last byte. -/
def AnswersIff (answer : Answer) (Q : Prop) (result : Answer × List (List (List UInt8))) : Prop :=
  (∀ left, result = (.do_request, left) → bytesOf left = []) ∧ (result.1 = answer ↔ Q) ∧
    (result.1 = answer ∨ ∃ code, result.1 = .returns code)

theorem answersIff_of_last {answer : Answer} {left : List (List (List UInt8))} (hleft : bytesOf left = [])
    (hq : Q) : AnswersIff answer Q (answer, left) := by
  refine ⟨fun left' h => ?_, iff_of_true rfl hq, .inl rfl⟩
  obtain ⟨-, rfl⟩ := Prod.mk.inj h
  exact hleft

theorem answersIff_of_returns {result : Answer × List (List (List UInt8))}
    (hreturns : ∃ code, result.1 = .returns code) (hq : ¬Q) : AnswersIff (bodyAnswer n) Q result := by
  obtain ⟨code, hcode⟩ := hreturns
  refine ⟨fun left h => ?_, iff_of_false (fun h => ?_) hq, .inr ⟨code, hcode⟩⟩
  · rw [h] at hcode
    cases hcode
  · rw [hcode, bodyAnswer] at h
    split at h <;> cases h

def http_conn.receive (c : http_conn) (data : List UInt8) : http_conn :=
  { c with toScanner := c.toScanner.receive data }

section

variable {c : http_conn} {pieces : List (List UInt8)} {rounds : List (List (List UInt8))}

theorem bytesOf_cons (pieces : List (List UInt8)) (rounds : List (List (List UInt8))) :
    bytesOf (pieces :: rounds) = pieces.flatten ++ bytesOf rounds := by
  rw [bytesOf, List.flatten_cons, List.flatten_append, bytesOf]

theorem http_conn.length_receive (c : http_conn) (data : List UInt8) :
    (c.receive data).buffer.length = c.buffer.length + data.length := List.length_append

/-- The pieces of a round that fit are all received. -/
theorem http_conn.recvLoop_pieces (hne : ∀ data ∈ pieces, data ≠ [])
    (hfits : c.buffer.length + pieces.flatten.length ≤ READ_BUFFER_SIZE) :
    c.recvLoop (pieces.map .bytes) = (true, c.receive pieces.flatten) := by
  induction pieces generalizing c with
  | nil => simp only [List.map_nil, http_conn.recvLoop, List.flatten_nil, http_conn.receive, Scanner.receive,
      List.append_nil]
  | cons data pieces ih =>
    rw [List.forall_mem_cons] at hne
    rw [List.flatten_cons, List.length_append] at hfits
    have hdata : data.take (READ_BUFFER_SIZE - c.read_index) = data := by
      rw [List.take_of_length_le]
      rw [Scanner.read_index]
      omega
    rw [List.map_cons, http_conn.recvLoop]
    simp only [hdata, if_neg hne.1]
    refine (ih (c := c.receive data) hne.2 ?_).trans ?_
    · rw [http_conn.length_receive]
      omega
    · simp only [http_conn.receive, Scanner.receive, List.flatten_cons, List.append_assoc]

theorem http_conn.serve_cons (hne : ∀ data ∈ pieces, data ≠ []) (hroom : c.buffer.length < READ_BUFFER_SIZE)
    (hfits : c.buffer.length + pieces.flatten.length ≤ READ_BUFFER_SIZE) :
    c.serve (pieces :: rounds) = respond (readLoop.run (c.receive pieces.flatten, .LINE_OK)) rounds := by
  have hread : c.read (pieces.map .bytes) = (true, c.receive pieces.flatten) := by
    rw [http_conn.read, Scanner.read_index, if_neg (Nat.not_le.mpr hroom), http_conn.recvLoop_pieces hne hfits]
  rw [http_conn.serve, hread]
  rfl

/-- A connection with a full buffer is closed. -/
theorem http_conn.serve_full (hfull : READ_BUFFER_SIZE ≤ c.buffer.length) :
    c.serve (pieces :: rounds) = (.returns .CLOSED_CONNECTION, rounds) := by
  have hread : c.read (pieces.map .bytes) = (false, c) := if_pos hfull
  rw [http_conn.serve, hread]

/-- A connection that is late gets no further than to an error code. -/
theorem http_conn.Late.serve (hc : c.Late n) (hne : ∀ pieces ∈ rounds, ∀ data ∈ pieces, data ≠ [])
    (hlate : c.buffer.length + (bytesOf rounds).length < n + c.checked_index)
    (hfits : c.buffer.length + (bytesOf rounds).length ≤ READ_BUFFER_SIZE) :
    ∃ code, (c.serve rounds).1 = .returns code := by
  induction rounds generalizing c with
  | nil => exact ⟨_, rfl⟩
  | cons pieces rounds ih =>
    rw [List.forall_mem_cons] at hne
    rw [bytesOf_cons, List.length_append] at hlate hfits
    by_cases hroom : c.buffer.length < READ_BUFFER_SIZE
    · have hreceived : (c.receive pieces.flatten).Late n := by
        refine ⟨hc.state, hc.content_length, ?_, ?_, ?_, hc.small⟩
        · rw [http_conn.length_receive]
          exact Nat.lt_of_le_of_lt (by omega) hlate
        · rw [http_conn.length_receive]
          exact Nat.le_trans hc.checked_le (Nat.le_add_right _ _)
        · rw [http_conn.length_receive]
          omega
      obtain ⟨d, hrun, hd, hchecked, hlength⟩ := hreceived.run .LINE_OK
      have hchecked' : c.checked_index ≤ d.checked_index := hchecked
      rw [http_conn.length_receive] at hlength
      rw [http_conn.serve_cons hne.1 hroom (by omega), hrun]
      exact ih hd hne.2 (by omega) (by omega)
    · exact ⟨_, congrArg Prod.fst (http_conn.serve_full (Nat.not_lt.mp hroom))⟩

theorem harmlessCuts_cons :
    HarmlessCuts start body position (pieces :: rounds) ↔
      (∀ k, 0 < k → k < body.length → position = start + k → Harmless body k) ∧
        HarmlessCuts start body (position + pieces.flatten.length) rounds := by
  constructor
  · intro h
    refine ⟨fun k hpos hlt hk => h [] _ rfl k hpos hlt hk, ?_⟩
    rintro done left rfl k hpos hlt hk
    refine h (pieces :: done) left rfl k hpos hlt ?_
    rw [bytesOf_cons, List.length_append]
    omega
  · rintro ⟨hfirst, hrest⟩ done left hrounds k hpos hlt hk
    cases done with
    | nil => exact hfirst k hpos hlt hk
    | cons pieces' done =>
      cases hrounds
      refine hrest done left rfl k hpos hlt ?_
      rw [bytesOf_cons, List.length_append] at hk
      omega

/-- Behind the body there are no cuts inside it. -/
theorem harmlessCuts_of_le (h : start + body.length ≤ position) : HarmlessCuts start body position rounds := by
  intro done left _ k _ hlt hk
  omega

theorem http_conn.AtBody.receive (hc : c.AtBody start body k) (hdata : body.drop k = data ++ rest) :
    (c.receive data).AtBody start body (k + data.length) ∧ body.drop (k + data.length) = rest := by
  have hrest : body.drop (k + data.length) = rest := by
    rw [← List.drop_drop, hdata, List.drop_left]
  have htake : body.take k ++ data = body.take (k + data.length) := by
    rw [List.take_add, hdata, List.take_left]
  have hle : k + data.length ≤ body.length := by
    have hlength := congrArg List.length hdata
    have hk := hc.le
    rw [List.length_drop, List.length_append] at hlength
    omega
  obtain ⟨before, hbefore, hholds⟩ := hc.holds
  refine ⟨⟨hc.state, hc.content_length, ⟨before, hbefore, ?_⟩, hle, hc.fits⟩, hrest⟩
  rw [← htake]
  exact hholds.receive data

theorem http_conn.AtBody.respond_complete (hc : c.AtBody start body body.length)
    (hbytes : bytesOf rounds = []) (hq : Q) :
    AnswersIff (bodyAnswer (start + body.length)) Q (respond (readLoop.run (c, .LINE_OK)) rounds) := by
  obtain ⟨d, hrun⟩ := hc.run_complete
  have hanswer : respond (bodyAnswer (start + body.length), d) rounds = (bodyAnswer (start + body.length), rounds) := by
    rw [bodyAnswer]
    split <;> rfl
  rw [hrun, ← bodyAnswer, hanswer]
  exact answersIff_of_last hbytes hq

theorem http_conn.AtBody.respond_harmful (hc : c.AtBody start body k)
    (hk : k < body.length) (hpos : 0 < k) (hcut : ¬Harmless body k)
    (hne : ∀ pieces ∈ rounds, ∀ data ∈ pieces, data ≠ []) (hbytes : body.drop k = bytesOf rounds) :
    ∃ code, (respond (readLoop.run (c, .LINE_OK)) rounds).1 = .returns code := by
  obtain ⟨d, hrun, hd, hchecked, hlength⟩ := hc.run_harmful hk hpos hcut
  rw [hc.indices.1] at hlength
  have hleft : (bytesOf rounds).length = body.length - k := by rw [← hbytes, List.length_drop]
  have hfits := hc.fits
  rw [hrun]
  exact hd.serve hne (by omega) (by omega)

/-- The rounds of a connection that waits for a body get its answer exactly if all cuts are harmless. -/
theorem http_conn.AtBody.respond_iff (hc : c.AtBody start body k)
    (hne : ∀ pieces ∈ rounds, ∀ data ∈ pieces, data ≠ []) (hbytes : body.drop k = bytesOf rounds) :
    AnswersIff (bodyAnswer (start + body.length)) (HarmlessCuts start body (start + k) rounds)
      (respond (readLoop.run (c, .LINE_OK)) rounds) := by
  induction rounds generalizing c k with
  | nil =>
    have hk : k = body.length := Nat.le_antisymm hc.le (List.drop_eq_nil_iff.mp hbytes)
    subst hk
    exact hc.respond_complete rfl (harmlessCuts_of_le (Nat.le_refl _))
  | cons pieces rounds ih =>
    rcases Nat.lt_or_eq_of_le hc.le with hk | rfl
    · by_cases hcut : 0 < k → Harmless body k
      · have hfits := hc.fits
        have hlength := hc.indices.1
        rw [List.forall_mem_cons] at hne
        rw [bytesOf_cons] at hbytes
        obtain ⟨hreceived, hrest⟩ := hc.receive hbytes
        have hle := hreceived.le
        have hstep : respond (readLoop.run (c, .LINE_OK)) (pieces :: rounds) =
            respond (readLoop.run (c.receive pieces.flatten, .LINE_OK)) rounds := by
          rw [hc.run_harmless hk hcut]
          exact http_conn.serve_cons hne.1 (by omega) (by omega)
        have hcuts : HarmlessCuts start body (start + k) (pieces :: rounds) ↔
            HarmlessCuts start body (start + (k + pieces.flatten.length)) rounds := by
          rw [harmlessCuts_cons, Nat.add_assoc]
          refine and_iff_right fun j hpos _ hj => ?_
          rw [← Nat.add_left_cancel hj] at hpos ⊢
          exact hcut hpos
        rw [hstep, hcuts]
        exact ih hreceived hne.2 hrest
      · rw [Classical.not_imp] at hcut
        refine answersIff_of_returns (hc.respond_harmful hk hcut.1 hcut.2 hne hbytes) fun h => ?_
        exact hcut.2 (h [] _ rfl k hcut.1 hk rfl)
    · rw [List.drop_length] at hbytes
      exact hc.respond_complete hbytes.symm (harmlessCuts_of_le (Nat.le_refl _))

/-- A connection that has read `done` and waits for the rest of the head. -/
structure http_conn.InHead (c : http_conn) (done : List UInt8) : Prop where
  state : c.m_check_state ≠ .CONTENT
  length : c.buffer.length = done.length
  holds : ∃ before line rest, c.Holds before line rest ∧
    ∀ bytes, readLines judge c.toHead line (rest ++ bytes) = readLines judge .init [] (done ++ bytes)

theorem http_conn.init_inHead : http_conn.init.InHead [] :=
  ⟨by decide, rfl, [], [], [], ⟨rfl, rfl, rfl, (fun _ hb => nomatch hb), (fun h => nomatch h)⟩, fun bytes => rfl⟩

/-- A call of `process_read` before the end of the head. -/
theorem http_conn.InHead.run {done : List UInt8} (hc : c.InHead done) (data : List UInt8) :
    match readLines judge .init [] (done ++ data) with
    | .waits _ _ _ => ∃ d, readLoop.run (c.receive data, .LINE_OK) = (.returns .NO_REQUEST, d) ∧ d.InHead (done ++ data)
    | .broken _ => True
    | .stops .bad_request _ => ∃ d, readLoop.run (c.receive data, .LINE_OK) = (.returns .BAD_REQUEST, d)
    | .stops .do_request _ => ∃ d, readLoop.run (c.receive data, .LINE_OK) = (.do_request, d)
    | .stops (.content h) rest => ∃ d before, readLoop.run (c.receive data, .LINE_OK) = readLoop.run (d, .LINE_OK) ∧
        d.Holds before [] rest ∧ d.toHead = h ∧ d.buffer.length = (done ++ data).length := by
  obtain ⟨before, line, rest, hholds, hread⟩ := hc.holds
  have hlength : (c.receive data).buffer.length = (done ++ data).length := by
    rw [http_conn.length_receive, hc.length, List.length_append]
  have hspec := readLoop_spec (c := c.receive data) hc.state (hholds.receive data) .LINE_OK
  rw [show (c.receive data).toHead = c.toHead from rfl, hread] at hspec
  cases hresult : readLines judge .init [] (done ++ data) with
  | waits h line' rest' =>
    simp only [hresult] at hspec ⊢
    obtain ⟨d, before', hrun, hd, rfl, hstate, hlength'⟩ := hspec
    refine ⟨d, hrun, hstate, hlength'.trans hlength, before', line', rest', hd, fun bytes => ?_⟩
    rw [readLines_append judge .init [] (done ++ data), hresult, Outcome.resume]
  | broken h => trivial
  | stops stop rest' =>
    cases stop with
    | bad_request =>
      simp only [hresult] at hspec ⊢
      exact hspec
    | do_request =>
      simp only [hresult] at hspec ⊢
      exact hspec
    | content h =>
      simp only [hresult] at hspec ⊢
      obtain ⟨d, before', hrun, hd, hhead, hlength'⟩ := hspec
      exact ⟨d, before', hrun, hd, hhead, hlength'.trans hlength⟩

end

/-- The answer to a request that is taken and read at once. -/
def Request.answer (r : Request) : Answer := if r.body = [] then .do_request else bodyAnswer r.bytes.length

section

variable {r : Request} {c : http_conn} {rounds : List (List (List UInt8))} {done : List UInt8}

/-- A part of the head leaves the parser waiting. -/
theorem Request.readLines_part (haccepted : r.Accepted) (hhead : r.head = done ++ rest) (hrest : rest ≠ []) :
    ∃ h line rest, readLines judge .init [] done = .waits h line rest := by
  obtain ⟨stop, hread, _⟩ := r.readLines_head haccepted
  have hwhole := hread []
  rw [List.append_nil, hhead, readLines_append] at hwhole
  cases hpart : readLines judge .init [] done with
  | waits h line rest => exact ⟨h, line, rest, rfl⟩
  | broken h =>
    rw [hpart, Outcome.resume] at hwhole
    cases hwhole
  | stops stop rest' =>
    rw [hpart, Outcome.resume] at hwhole
    obtain ⟨_, hnil⟩ := Outcome.stops.inj hwhole
    exact absurd (List.append_eq_nil_iff.mp hnil).2 hrest

/-- The head is complete and a body follows. -/
theorem http_conn.atBody {d : http_conn} {before : List UInt8} {left : List UInt8} (hd : d.Holds before [] part)
    (hstate : d.m_check_state = .CONTENT) (hlength : d.m_content_length = r.body.length)
    (hbefore : before.length = r.head.length) (hbody : r.body = part ++ left)
    (hfits : r.bytes.length ≤ READ_BUFFER_SIZE) :
    d.AtBody r.head.length r.body part.length ∧ r.body.drop part.length = left := by
  rw [Request.bytes, List.length_append] at hfits
  refine ⟨⟨hstate, hlength, ⟨before, hbefore, ?_⟩, ?_, hfits⟩, ?_⟩
  · rw [hbody, List.take_left]
    exact hd
  · rw [hbody, List.length_append]
    exact Nat.le_add_right _ _
  · rw [hbody, List.drop_left]

/-- The round in which the head is complete. -/
theorem Request.respond_head (haccepted : r.Accepted) (hfits : r.bytes.length ≤ READ_BUFFER_SIZE) (hc : c.InHead done)
    (hne : ∀ pieces ∈ rounds, ∀ data ∈ pieces, data ≠ [])
    (hdata : r.head ++ part = done ++ data) (hbody : r.body = part ++ bytesOf rounds) :
    AnswersIff r.answer (HarmlessCuts r.head.length r.body (done ++ data).length rounds)
      (respond (readLoop.run (c.receive data, .LINE_OK)) rounds) := by
  have hrun := hc.run data
  obtain ⟨stop, hread, hstop⟩ := r.readLines_head haccepted
  rw [← hdata, hread part] at hrun
  rcases hstop with ⟨hnil, rfl⟩ | ⟨hbody_ne, h, rfl, hstate, hcontent⟩
  · obtain ⟨d, hd⟩ := hrun
    have hleft : bytesOf rounds = [] := (List.append_eq_nil_iff.mp (hbody.symm.trans hnil)).2
    rw [hd, Request.answer, if_pos hnil]
    refine answersIff_of_last hleft fun _ _ _ k _ hlt => ?_
    rw [hnil] at hlt
    exact absurd hlt (Nat.not_lt_zero k)
  · obtain ⟨d, before, hd, hholds, rfl, hdlength⟩ := hrun
    have hbefore : before.length = r.head.length := by
      rw [hholds.buffer, List.nil_append, List.length_append, List.length_append] at hdlength
      omega
    have htotal : r.bytes.length = r.head.length + r.body.length := List.length_append
    obtain ⟨hat, hdrop⟩ := http_conn.atBody hholds hstate hcontent hbefore hbody hfits
    rw [hd, Request.answer, if_neg hbody_ne, htotal, ← hdata, List.length_append]
    exact hat.respond_iff hne hdrop

/-- The rounds of a request that is taken, from inside the head on. -/
theorem Request.serve_accepted (haccepted : r.Accepted) (hfits : r.bytes.length ≤ READ_BUFFER_SIZE)
    (hc : c.InHead done) (hne : ∀ pieces ∈ rounds, ∀ data ∈ pieces, data ≠ [])
    (hbytes : r.bytes = done ++ bytesOf rounds) (hdone : done.length < r.head.length) :
    AnswersIff r.answer (HarmlessCuts r.head.length r.body done.length rounds) (c.serve rounds) := by
  have htotal : r.bytes.length = r.head.length + r.body.length := List.length_append
  induction rounds generalizing c done with
  | nil =>
    have hlength := congrArg List.length hbytes
    rw [List.length_append, show (bytesOf []).length = 0 from rfl] at hlength
    omega
  | cons pieces rounds ih =>
    rw [List.forall_mem_cons] at hne
    rw [bytesOf_cons, ← List.append_assoc] at hbytes
    have hlength := congrArg List.length hbytes
    rw [List.length_append, List.length_append] at hlength
    have hcuts : HarmlessCuts r.head.length r.body done.length (pieces :: rounds) ↔
        HarmlessCuts r.head.length r.body (done ++ pieces.flatten).length rounds := by
      rw [harmlessCuts_cons, List.length_append]
      exact and_iff_right fun k _ _ hk => by omega
    have hroom := hc.length
    have hserve : c.serve (pieces :: rounds) = respond (readLoop.run (c.receive pieces.flatten, .LINE_OK)) rounds :=
      http_conn.serve_cons hne.1 (by omega) (by omega)
    rw [hserve, hcuts]
    have hstart : done ++ pieces.flatten <+: r.bytes := ⟨bytesOf rounds, hbytes.symm⟩
    have hhead : r.head <+: r.bytes := ⟨r.body, rfl⟩
    by_cases hpart : (done ++ pieces.flatten).length < r.head.length
    · obtain ⟨rest, hrest⟩ := List.prefix_of_prefix_length_le hstart hhead (Nat.le_of_lt hpart)
      have hrest_ne : rest ≠ [] := by
        rintro rfl
        rw [List.append_nil] at hrest
        rw [hrest] at hpart
        omega
      have hrun := hc.run pieces.flatten
      obtain ⟨h, line, rest', hwaits⟩ := r.readLines_part haccepted hrest.symm hrest_ne
      rw [hwaits] at hrun
      obtain ⟨d, hd, hinHead⟩ := hrun
      rw [hd]
      exact ih hinHead hne.2 hbytes hpart
    · obtain ⟨part, hpart⟩ := List.prefix_of_prefix_length_le hhead hstart (Nat.not_lt.mp hpart)
      have hbody : r.body = part ++ bytesOf rounds := by
        rw [← hpart, Request.bytes, List.append_assoc] at hbytes
        exact List.append_cancel_left hbytes
      exact r.respond_head haccepted hfits hc hne.2 hpart hbody

/-- A request whose line is not taken is bad, in whatever round its line is complete. -/
theorem Request.serve_rejected (hrejected : ¬r.Accepted) (hfits : r.bytes.length ≤ READ_BUFFER_SIZE)
    (hc : c.InHead done) (hne : ∀ pieces ∈ rounds, ∀ data ∈ pieces, data ≠ [])
    (hbytes : r.bytes = done ++ bytesOf rounds)
    (hwaits : ∃ h line rest, readLines judge .init [] done = .waits h line rest) :
    (c.serve rounds).1 = .returns .BAD_REQUEST := by
  -- The reader stops at the request line, so it cannot stop for another reason before.
  obtain ⟨rest, hwhole⟩ := r.readLines_rejected hrejected r.body
  rw [show r.head ++ r.body = r.bytes from rfl] at hwhole
  have hmissing : done ≠ r.bytes := by
    rintro rfl
    obtain ⟨_, _, _, hwaits⟩ := hwaits
    cases hwaits.symm.trans hwhole
  induction rounds generalizing c done with
  | nil => exact absurd (hbytes.trans (List.append_nil done)).symm hmissing
  | cons pieces rounds ih =>
    rw [List.forall_mem_cons] at hne
    rw [bytesOf_cons] at hbytes
    have hlength := congrArg List.length hbytes
    rw [List.length_append, List.length_append] at hlength
    have hbuffer := hc.length
    have hroom : c.buffer.length < READ_BUFFER_SIZE := by
      by_contra hfull
      exact hmissing (List.IsPrefix.eq_of_length ⟨_, hbytes.symm⟩ (by omega))
    rw [← List.append_assoc] at hbytes
    rw [http_conn.serve_cons hne.1 hroom (by omega)]
    have hrun := hc.run pieces.flatten
    have hstop := hwhole
    rw [hbytes, readLines_append] at hstop
    cases hread : readLines judge .init [] (done ++ pieces.flatten) with
    | waits h line rest' =>
      rw [hread] at hrun
      obtain ⟨d, hd, hinHead⟩ := hrun
      rw [hd]
      refine ih hinHead hne.2 hbytes ⟨h, line, rest', hread⟩ fun heq => ?_
      cases hread.symm.trans (heq ▸ hwhole)
    | broken h =>
      rw [hread, Outcome.resume] at hstop
      cases hstop
    | stops stop rest' =>
      rw [hread, Outcome.resume] at hstop
      obtain ⟨rfl, _⟩ := Outcome.stops.inj hstop
      rw [hread] at hrun
      obtain ⟨d, hd⟩ := hrun
      rw [hd]
      rfl

theorem Request.head_pos (r : Request) : 0 < r.head.length := by
  simp only [Request.head, terminated, List.length_append, List.length_cons]
  omega

/-- However a request is split over rounds, it gets the answer of the whole request exactly when all rounds that end
inside the body end at harmless places; or when the request line is not taken, so that it is bad anyway. -/
theorem served_iff (r : Request) (hfits : r.bytes.length ≤ READ_BUFFER_SIZE) {rounds : List (List (List UInt8))}
    (hrounds : bytesOf rounds = r.bytes) (hne : ∀ pieces ∈ rounds, ∀ data ∈ pieces, data ≠ []) :
    r.Served rounds ↔ ¬r.Accepted ∨ HarmlessCuts r.head.length r.body 0 rounds := by
  have htotal : r.bytes.length = r.head.length + r.body.length := List.length_append
  have hpos := r.head_pos
  have hwhole : bytesOf [[r.bytes]] = r.bytes := by simp [bytesOf]
  have hwhole_ne : ∀ pieces ∈ [[r.bytes]], ∀ data ∈ pieces, data ≠ [] := by
    simp only [List.forall_mem_singleton]
    exact List.ne_nil_of_length_pos (by omega)
  by_cases haccepted : r.Accepted
  · obtain ⟨hlast, hiff, -⟩ := r.serve_accepted haccepted hfits http_conn.init_inHead hne hrounds.symm hpos
    obtain ⟨-, hiff_whole, -⟩ := r.serve_accepted haccepted hfits http_conn.init_inHead hwhole_ne hwhole.symm hpos
    have hcuts_whole : HarmlessCuts r.head.length r.body 0 [[r.bytes]] := by
      refine harmlessCuts_cons.mpr ⟨fun k _ _ hk => by omega, harmlessCuts_of_le ?_⟩
      rw [List.flatten_singleton]
      omega
    rw [Request.Served, hiff_whole.mpr hcuts_whole, and_iff_left hlast, hiff]
    simp only [List.length_nil, haccepted, not_true, false_or]
  · have hbad := r.serve_rejected haccepted hfits http_conn.init_inHead hne hrounds.symm ⟨_, _, _, readLines_nil⟩
    have hbad_whole :=
      r.serve_rejected haccepted hfits http_conn.init_inHead hwhole_ne hwhole.symm ⟨_, _, _, readLines_nil⟩
    refine iff_of_true ⟨hbad.trans hbad_whole.symm, fun left h => ?_⟩ (.inl haccepted)
    rw [h] at hbad
    cases hbad

end

/-- A request with a body of two bytes. -/
def twoBytes : Request where
  line := ascii "GET / HTTP/1.1"
  headers := [ascii "Content-Length: 2"]
  body := ascii "ab"
  plain_line := by decide +kernel
  plain_headers := by decide +kernel
  headers_ne := by decide +kernel
  length_body := by decide +kernel

/-- It is cut behind its head. -/
theorem served_two_bytes : twoBytes.Served [[twoBytes.head], [twoBytes.body]] := by
  refine (served_iff twoBytes (by decide +kernel) (by decide +kernel) (by decide +kernel)).mpr (.inr ?_)
  have hpos := twoBytes.head_pos
  rw [harmlessCuts_cons, harmlessCuts_cons, List.flatten_singleton, List.flatten_singleton]
  refine ⟨fun k _ _ hk => by omega, fun k _ _ hk => by omega, harmlessCuts_of_le ?_⟩
  omega

/-- It is cut between the two bytes of its body. -/
theorem not_served_two_bytes :
    bytesOf [[twoBytes.head ++ ascii "a"], [ascii "b"]] = twoBytes.bytes ∧
      ¬twoBytes.Served [[twoBytes.head ++ ascii "a"], [ascii "b"]] := by
  refine ⟨by decide +kernel, fun h => ?_⟩
  have hwhole : http_conn.init.serve [[twoBytes.bytes]] = (.do_request, []) := by decide +kernel
  have hsplit : http_conn.init.serve [[twoBytes.head ++ ascii "a"], [ascii "b"]] = (.returns .NO_REQUEST, []) := by
    decide +kernel
  have hanswers := h.1
  rw [hwhole, hsplit] at hanswers
  cases hanswers

end basic_data_struct.http
