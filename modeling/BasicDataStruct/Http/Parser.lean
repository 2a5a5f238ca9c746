import BasicDataStruct.Http.Scanner

open crlf runs stdio

namespace basic_data_struct.http.parser

variable {checkstate : CHECK_STATE} {chunks : List (List UInt8)}

abbrev BUFFER_SIZE : Nat := 4096

inductive HTTP_CODE where
  | NO_REQUEST
  | GET_REQUEST
  | BAD_REQUEST
  | FORBIDDEN_REQUEST
  | INTERNAL_ERROR
  | CLOSED_CONNECTION
deriving DecidableEq

/-- The variables of `main` that `parse_content` gets. -/
structure Parser extends Scanner where
  checkstate : CHECK_STATE

def Parser.parse_line (p : Parser) : LINE_STATUS × Parser :=
  let (linestatus, s) := p.toScanner.parse_line
  (linestatus, { p with toScanner := s })

/-- The result, the new `checkstate` and the line after the stores into it. -/
def parse_requestline (szTemp : List UInt8) (checkstate : CHECK_STATE) : HTTP_CODE × CHECK_STATE × List UInt8 :=
  match request_line szTemp with
  | (none, szTemp) => (.BAD_REQUEST, checkstate, szTemp)
  | (some _, szTemp) => (.NO_REQUEST, .HEADER, szTemp)

/-- The two branches for a line that is not empty only print. -/
def parse_headers (szTemp : List UInt8) : HTTP_CODE := if szTemp = [] then .GET_REQUEST else .NO_REQUEST

/-- The part of the loop of `parse_content` behind `parse_line`. -/
def Parser.handle (p : Parser) : Parser ⊕ HTTP_CODE × Parser :=
  match p.checkstate with
  | .REQUESTLINE =>
    let (retcode, checkstate, szTemp) := parse_requestline p.text p.checkstate
    let p := { p.overwrite szTemp with start_line := p.checked_index, checkstate := checkstate : Parser }
    if retcode = .BAD_REQUEST then .inr (.BAD_REQUEST, p) else .inl p
  | .HEADER =>
    let retcode := parse_headers p.text
    let p := { p with start_line := p.checked_index : Parser }
    if retcode = .BAD_REQUEST then .inr (.BAD_REQUEST, p)
    else if retcode = .GET_REQUEST then .inr (.GET_REQUEST, p)
    else .inl p
  | .CONTENT => .inr (.INTERNAL_ERROR, { p with start_line := p.checked_index : Parser })

/-- One round of the loop of `parse_content`. -/
def Parser.round (p : Parser) : Parser ⊕ HTTP_CODE × Parser :=
  match p.parse_line with
  | (.LINE_OK, p) => p.handle
  | (.LINE_OPEN, p) => .inr (.NO_REQUEST, p)
  | (.LINE_BAD, p) => .inr (.BAD_REQUEST, p)

theorem Parser.handle_next {p q : Parser} (h : p.handle = .inl q) :
    q.checked_index = p.checked_index ∧ q.buffer.length = p.buffer.length := by
  have hlength : (p.overwrite (request_line p.text).2).buffer.length = p.buffer.length :=
    p.length_overwrite (length_request_line p.text)
  unfold Parser.handle parse_requestline at h
  grind [Scanner.overwrite]

def contentLoop : Loop Parser (HTTP_CODE × Parser) where
  body := Parser.round
  measure p := p.buffer.length - p.checked_index
  decreases := by
    intro p q h
    unfold Parser.round Parser.parse_line at h
    cases hline : p.toScanner.parse_line with
    | mk status s =>
      rw [hline] at h
      cases status with
      | LINE_OK =>
        obtain ⟨_, hlength, _, _, hok⟩ := Scanner.scanned hline
        obtain ⟨hlt, hbound⟩ := hok rfl
        obtain ⟨hchecked, hlength'⟩ := Parser.handle_next h
        rw [hchecked, hlength']
        show s.buffer.length - s.checked_index < p.buffer.length - p.checked_index
        omega
      | LINE_OPEN => cases h
      | LINE_BAD => cases h

def Parser.parse_content (p : Parser) : HTTP_CODE × Parser := contentLoop.run p

/-- The variables before anything is received. -/
def Parser.initial : Parser where
  buffer := []
  checked_index := 0
  start_line := 0
  checkstate := .REQUESTLINE

/-- The receive loop of `main`, for the results of its calls of `recv`: its last result of `parse_content`. A
call gives no more bytes than there is room for, and none when the client has closed. -/
def receive (p : Parser) : List (List UInt8) → HTTP_CODE
  | [] => .NO_REQUEST
  | data :: chunks =>
    let data := data.take (BUFFER_SIZE - p.read_index)
    if data = [] then .NO_REQUEST
    else
      match { p with toScanner := p.toScanner.receive data : Parser }.parse_content with
      | (.NO_REQUEST, p) => receive p chunks
      | (result, _) => result

/-- What the parser makes of a complete line. -/
def judge : CHECK_STATE → List UInt8 → CHECK_STATE ⊕ HTTP_CODE
  | .REQUESTLINE, line => if (request_line (cstr line)).1 = none then .inr .BAD_REQUEST else .inl .HEADER
  | .HEADER, line => if cstr line = [] then .inr .GET_REQUEST else .inl .HEADER
  | .CONTENT, _ => .inr .INTERNAL_ERROR

/-- What the parser returns for a stream of bytes. -/
def verdict : Outcome CHECK_STATE HTTP_CODE → HTTP_CODE
  | .waits _ _ _ => .NO_REQUEST
  | .broken _ => .BAD_REQUEST
  | .stops result _ => result

/-- A line gives a verdict or leaves the parser at the headers. -/
theorem judge_spec (hstate : checkstate ≠ .CONTENT) (line : List UInt8) :
    judge checkstate line = .inl .HEADER ∨ judge checkstate line = .inr .GET_REQUEST ∨
      judge checkstate line = .inr .BAD_REQUEST := by
  cases checkstate with
  | REQUESTLINE =>
    rw [judge]
    split
    · exact .inr (.inr rfl)
    · exact .inl rfl
  | HEADER =>
    rw [judge]
    split
    · exact .inr (.inl rfl)
    · exact .inl rfl
  | CONTENT => exact absurd rfl hstate

/-- The parser never gets to the content, and what it stops with is a verdict. -/
theorem read_judge (hstate : checkstate ≠ .CONTENT) (line bytes : List UInt8) :
    (readLines judge checkstate line bytes).Satisfies (· ≠ .CONTENT)
      (fun result => result = .GET_REQUEST ∨ result = .BAD_REQUEST) := by
  refine readLines_satisfies (· ≠ CHECK_STATE.CONTENT) _ ?_ ?_ hstate line bytes
  · intro checkstate line next hstate hnext
    rcases judge_spec hstate line with hj | hj | hj
    · rw [hj] at hnext
      cases hnext
      decide
    · rw [hj] at hnext
      cases hnext
    · rw [hj] at hnext
      cases hnext
  · intro checkstate line result hstate hstop
    rcases judge_spec hstate line with hj | hj | hj
    · rw [hj] at hstop
      cases hstop
    · rw [hj] at hstop
      cases hstop
      exact .inl rfl
    · rw [hj] at hstop
      cases hstop
      exact .inr rfl

section

variable {p : Parser} {before line rest : List UInt8}

theorem Parser.parse_line_eq {status : LINE_STATUS} {s : Scanner} (h : p.toScanner.parse_line = (status, s)) :
    p.parse_line = (status, { p with toScanner := s }) := by
  rw [Parser.parse_line, h]

/-- The loop at a line that is complete. -/
theorem Parser.round_crlf (hp : p.Holds before line (CR :: LF :: rest)) :
    match judge p.checkstate line with
    | .inl checkstate => ∃ q before', p.round = .inl q ∧ q.Holds before' [] rest ∧ q.checkstate = checkstate ∧
        q.buffer.length = p.buffer.length
    | .inr result => ∃ q, p.round = .inr (result, q) := by
  obtain ⟨s, hline, htext, hlength, hnext⟩ := hp.complete
  have hround : p.round = Parser.handle { p with toScanner := s } := by rw [Parser.round, Parser.parse_line, hline]
  rw [hround]
  cases hstate : p.checkstate with
  | REQUESTLINE =>
    have hstores := length_request_line (cstr line)
    simp only [judge, Parser.handle, parse_requestline, htext]
    cases hrequest : request_line (cstr line) with
    | mk url text =>
      rw [hrequest] at hstores
      cases url with
      | none => exact ⟨_, rfl⟩
      | some url =>
        obtain ⟨before', hholds, hlength⟩ := hnext text hstores
        exact ⟨_, before', rfl, hholds, rfl, hlength⟩
  | HEADER =>
    obtain ⟨before', hholds, -⟩ := hnext (cstr line) rfl
    rw [← htext, Scanner.overwrite_text] at hholds
    by_cases hempty : cstr line = []
    · simp only [judge, Parser.handle, parse_headers, htext, if_pos hempty]
      exact ⟨_, rfl⟩
    · simp only [judge, Parser.handle, parse_headers, htext, if_neg hempty]
      exact ⟨_, before', rfl, hholds, rfl, hlength⟩
  | CONTENT =>
    simp only [judge, Parser.handle]
    exact ⟨_, rfl⟩

/-- What `parse_content` does, in terms of the lines of the bytes that are left. -/
theorem Parser.parse_content_spec (hp : p.Holds before line rest) :
    match readLines judge p.checkstate line rest with
    | .waits checkstate line' rest' => ∃ q before', p.parse_content = (.NO_REQUEST, q) ∧
        q.Holds before' line' rest' ∧ q.checkstate = checkstate ∧ q.buffer.length = p.buffer.length
    | .broken _ => ∃ q, p.parse_content = (.BAD_REQUEST, q)
    | .stops result _ => ∃ q, p.parse_content = (result, q) := by
  generalize hstate : p.checkstate = state
  induction state, line, rest using readLines_induction judge generalizing p before with
  | nil state line =>
    rw [readLines_nil]
    refine ⟨p, before, Loop.run_of_done ?_, hp, hstate, rfl⟩
    simp only [contentLoop, Parser.round, Parser.parse_line_eq hp.parse_line_nil]
  | cr state line =>
    rw [readLines_cr]
    refine ⟨p, before, Loop.run_of_done ?_, hp, hstate, rfl⟩
    simp only [contentLoop, Parser.round, Parser.parse_line_eq hp.parse_line_cr]
  | next state line bytes next hnext ih =>
    rw [readLines_crlf_next hnext]
    have hline := Parser.round_crlf hp
    rw [hstate, hnext] at hline
    obtain ⟨q, before', hq, hholds, hcheck, hlength⟩ := hline
    have hrest := ih hholds hcheck
    have hsame : p.parse_content = q.parse_content := Loop.run_of_next hq
    rw [hsame, ← hlength]
    exact hrest
  | stop state line bytes result hstop =>
    rw [readLines_crlf_stop hstop]
    have hline := Parser.round_crlf hp
    rw [hstate, hstop] at hline
    obtain ⟨q, hq⟩ := hline
    exact ⟨q, Loop.run_of_done hq⟩
  | cr_other state line c bytes hc =>
    rw [readLines_cr_other hc]
    refine ⟨p, Loop.run_of_done ?_⟩
    simp only [contentLoop, Parser.round, Parser.parse_line_eq (hp.parse_line_cr_other hc)]
  | lf state line bytes =>
    rw [readLines_lf]
    refine ⟨p, Loop.run_of_done ?_⟩
    simp only [contentLoop, Parser.round, Parser.parse_line_eq hp.parse_line_lf]
  | plain state line b bytes hb ih =>
    rw [readLines_plain hb]
    obtain ⟨hline, hholds⟩ := hp.advance hb
    have hsame : p.parse_content = Parser.parse_content { p with checked_index := p.checked_index + 1 } := by
      refine Loop.run_congr ?_
      simp only [contentLoop, Parser.round, Parser.parse_line, hline]
    rw [hsame]
    exact ih hholds hstate

/-- The receive loop of a parser that waits. -/
theorem receive_spec (hchunks : ∀ data ∈ chunks, data ≠ [])
    (hfits : p.buffer.length + chunks.flatten.length ≤ BUFFER_SIZE) (hp : p.Holds before line rest)
    (hstate : p.checkstate ≠ .CONTENT)
    (hwaits : readLines judge p.checkstate line rest = .waits p.checkstate line rest) :
    receive p chunks = verdict (readLines judge p.checkstate line (rest ++ chunks.flatten)) := by
  induction chunks generalizing p before line rest with
  | nil =>
    rw [List.flatten_nil, List.append_nil, hwaits, receive, verdict]
  | cons data chunks ih =>
    rw [List.forall_mem_cons] at hchunks
    rw [List.flatten_cons, List.length_append] at hfits
    have hdata : data.take (BUFFER_SIZE - p.read_index) = data := by
      rw [List.take_of_length_le]
      rw [Scanner.read_index]
      omega
    have hreceived : { p with toScanner := p.toScanner.receive data : Parser }.Holds before line (rest ++ data) :=
      hp.receive data
    have hspec := Parser.parse_content_spec hreceived
    rw [List.flatten_cons, ← List.append_assoc, readLines_append, receive]
    simp only [hdata, if_neg hchunks.1]
    have hresult := read_judge hstate line (rest ++ data)
    cases hread : readLines judge p.checkstate line (rest ++ data) with
    | waits checkstate line' rest' =>
      rw [hread] at hresult
      simp only [hread] at hspec
      obtain ⟨q, before', hcontent, hq, rfl, hlength⟩ := hspec
      rw [hcontent, Outcome.resume]
      refine ih hchunks.2 ?_ hq hresult (readLines_of_waits hread)
      rw [hlength]
      simp only [Scanner.receive, List.length_append]
      omega
    | broken checkstate =>
      simp only [hread] at hspec
      obtain ⟨q, hcontent⟩ := hspec
      rw [hcontent, Outcome.resume, verdict]
    | stops result rest' =>
      simp only [hread] at hspec
      obtain ⟨q, hcontent⟩ := hspec
      rw [hread] at hresult
      rcases hresult with rfl | rfl
      · rw [hcontent, Outcome.resume, verdict]
      · rw [hcontent, Outcome.resume, verdict]

end

theorem Parser.initial_holds : Parser.initial.Holds [] [] [] :=
  ⟨rfl, rfl, rfl, (fun _ hb => nomatch hb), (fun h => nomatch h)⟩

/-- The verdict on a stream that arrives in pieces. -/
theorem receive_initial (hchunks : ∀ data ∈ chunks, data ≠ []) (hfits : chunks.flatten.length ≤ BUFFER_SIZE) :
    receive .initial chunks = verdict (readLines judge .REQUESTLINE [] chunks.flatten) := by
  refine receive_spec hchunks ?_ Parser.initial_holds ?_ readLines_nil
  · rw [Parser.initial, List.length_nil, Nat.zero_add]
    exact hfits
  · decide

/-- The verdict does not depend on how the stream is split. -/
theorem receive_split {chunks : List (List UInt8)} (hchunks : ∀ data ∈ chunks, data ≠ [])
    (hfits : chunks.flatten.length ≤ BUFFER_SIZE) :
    receive .initial chunks = receive .initial [chunks.flatten] ∧
      (receive .initial chunks = .GET_REQUEST ∨ receive .initial chunks = .BAD_REQUEST ∨
        receive .initial chunks = .NO_REQUEST) := by
  have hpieces := receive_initial hchunks hfits
  have hresult := read_judge (show CHECK_STATE.REQUESTLINE ≠ .CONTENT by decide) [] chunks.flatten
  refine ⟨?_, ?_⟩
  · by_cases hempty : chunks.flatten = []
    · rw [hpieces, hempty, readLines_nil]
      rfl
    · have hwhole : [chunks.flatten].flatten = chunks.flatten := by rw [List.flatten_singleton]
      rw [hpieces, receive_initial (List.forall_mem_singleton.mpr hempty) (by rw [hwhole]; exact hfits), hwhole]
  · rw [hpieces]
    cases hread : readLines judge .REQUESTLINE [] chunks.flatten with
    | waits checkstate line rest => exact .inr (.inr rfl)
    | broken checkstate => exact .inr (.inl rfl)
    | stops result rest =>
      rw [hread] at hresult
      exact hresult.imp_right .inl

/-- A request that is cut between its last two bytes. -/
theorem receive_split_crlf :
    receive .initial [ascii "GET / HTTP/1.1\r\nHost: a\r\n\r", ascii "\n"] =
        receive .initial [[ascii "GET / HTTP/1.1\r\nHost: a\r\n\r", ascii "\n"].flatten] ∧
      receive .initial [ascii "GET / HTTP/1.1\r\nHost: a\r\n\r", ascii "\n"] = .GET_REQUEST :=
  ⟨(receive_split (by decide +kernel) (by decide +kernel)).1, by decide +kernel⟩

end basic_data_struct.http.parser
