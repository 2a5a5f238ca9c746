import BasicDataStruct.Http.Conn
import BasicDataStruct.Http.Parser

open crlf runs stdio

namespace basic_data_struct.http

variable {line bytes : List UInt8} {h : Head} {checkstate : CHECK_STATE}

/-- What `process_read` answers when bytes arrive in pieces and it is called after each, until it has an
answer. -/
def http_conn.answer (c : http_conn) : List (List UInt8) → Answer
  | [] => .returns .NO_REQUEST
  | data :: chunks =>
    match { c with toScanner := c.toScanner.receive data : http_conn }.process_read with
    | (.returns .NO_REQUEST, c) => c.answer chunks
    | (answer, _) => answer

/-- What `process_read` answers for lines that do not lead to the content. -/
def outcome : Outcome Head Stop → Answer
  | .waits _ _ _ => .returns .NO_REQUEST
  | .broken _ => .returns .NO_REQUEST
  | .stops .bad_request _ => .returns .BAD_REQUEST
  | .stops .do_request _ => .do_request
  | .stops (.content _) _ => .returns .NO_REQUEST

/-- The answers of a connection that has none yet. -/
theorem http_conn.answer_spec {c : http_conn} {before rest : List UInt8} {chunks : List (List UInt8)}
    (hstate : c.m_check_state ≠ .CONTENT) (hc : c.Holds before line rest)
    (hidle : ∀ stop rest', readLines judge c.toHead line rest ≠ .stops stop rest')
    (hcontent : ∀ h rest', readLines judge c.toHead line (rest ++ chunks.flatten) ≠ .stops (.content h) rest') :
    c.answer chunks = outcome (readLines judge c.toHead line (rest ++ chunks.flatten)) := by
  induction chunks generalizing c before line rest with
  | nil =>
    rw [List.flatten_nil, List.append_nil, answer]
    cases hread : readLines judge c.toHead line rest with
    | waits h line' rest' => rfl
    | broken h => rfl
    | stops stop rest' => exact absurd hread (hidle stop rest')
  | cons data chunks ih =>
    have hreceived : { c with toScanner := c.toScanner.receive data : http_conn }.Holds before line (rest ++ data) :=
      hc.receive data
    have hspec := readLoop_spec (c := { c with toScanner := c.toScanner.receive data }) hstate hreceived .LINE_OK
    rw [List.flatten_cons, ← List.append_assoc, readLines_append] at hcontent ⊢
    rw [answer, http_conn.process_read]
    cases hread : readLines judge c.toHead line (rest ++ data) with
    | waits h line' rest' =>
      rw [hread] at hcontent
      simp only [hread] at hspec
      obtain ⟨d, before', hrun, hd, rfl, hstate', _⟩ := hspec
      rw [hrun, Outcome.resume]
      refine ih hstate' hd ?_ hcontent
      rw [readLines_of_waits hread]
      rintro _ _ ⟨⟩
    | broken h =>
      simp only [hread] at hspec
      obtain ⟨d, before', line', rest', hrun, hd, rfl, hstate', hbroken⟩ := hspec
      have hmore : readLines judge d.toHead line' (rest' ++ chunks.flatten) = .broken d.toHead := by
        rw [readLines_append, hbroken, Outcome.resume]
      rw [hrun]
      refine (ih hstate' hd ?_ ?_).trans ?_
      · rw [hbroken]
        rintro _ _ ⟨⟩
      · rw [hmore]
        rintro _ _ ⟨⟩
      · rw [hmore]
        rfl
    | stops stop rest' =>
      rw [hread] at hcontent
      cases stop with
      | bad_request =>
        simp only [hread] at hspec
        obtain ⟨d, hrun⟩ := hspec
        rw [hrun]
        rfl
      | do_request =>
        simp only [hread] at hspec
        obtain ⟨d, hrun⟩ := hspec
        rw [hrun]
        rfl
      | content h => exact absurd rfl (hcontent h _)

/-- No line behind the first begins with the name of the header. -/
def NoContentLength (stream : List UInt8) : Prop :=
  ∀ before after, stream = before ++ CR :: LF :: after → strncasecmp after (ascii "Content-Length:") 15 = false

/-- A connection that knows no more than the other parser. -/
structure Head.Agrees (h : Head) (checkstate : CHECK_STATE) : Prop where
  state : h.m_check_state = checkstate
  not_content : checkstate ≠ .CONTENT
  method : h.m_method ≠ .HEAD
  content_length : h.m_content_length = 0

/-- The line that is being read is no header with that name. -/
def Unannounced (checkstate : CHECK_STATE) (line bytes : List UInt8) : Prop :=
  checkstate = .HEADER → strncasecmp (line ++ bytes) (ascii "Content-Length:") 15 = false

/-- The name at the start of the string in a line is at the start of the line. -/
theorem strncasecmp_cstr {name : List UInt8} {n : Nat} (hn : n ≤ name.length)
    (h : strncasecmp (cstr line) name n = true) (bytes : List UInt8) : strncasecmp (line ++ bytes) name n = true := by
  have htake : ((cstr line).take n).map tolower = (name.take n).map tolower := of_decide_eq_true h
  have hle : n ≤ (cstr line).length := by
    have hlength := congrArg List.length htake
    rw [List.length_map, List.length_map, List.length_take, List.length_take] at hlength
    omega
  obtain ⟨rest, hrest⟩ := cstr_start line
  refine decide_eq_true ?_
  rw [← hrest, List.append_assoc, List.take_append_of_le_length hle]
  exact htake

/-- Both parsers make the same of a line. -/
theorem judge_agrees (hagrees : h.Agrees checkstate) (hname : Unannounced checkstate line bytes) :
    (∃ h', judge h line = .inl h' ∧ parser.judge checkstate line = .inl .HEADER ∧ h'.Agrees .HEADER) ∨
      (judge h line = .inr .bad_request ∧ parser.judge checkstate line = .inr .BAD_REQUEST) ∨
      (judge h line = .inr .do_request ∧ parser.judge checkstate line = .inr .GET_REQUEST) := by
  obtain ⟨rfl, hcontent, hmethod, hlength⟩ := hagrees
  cases hstate : h.m_check_state with
  | REQUESTLINE =>
    simp only [judge, parser.judge, hstate, Head.parse_request_line]
    cases hrequest : request_line (cstr line) with
    | mk url text =>
      cases url with
      | none => exact .inr (.inl ⟨rfl, rfl⟩)
      | some url => exact .inl ⟨_, rfl, rfl, rfl, by decide, by rintro ⟨⟩, hlength⟩
  | HEADER =>
    have hnot : strncasecmp (cstr line) (ascii "Content-Length:") 15 = false := by
      refine Bool.eq_false_iff.mpr fun htrue => ?_
      have hline := strncasecmp_cstr (by decide) htrue bytes
      rw [hname hstate] at hline
      cases hline
    by_cases hempty : cstr line = []
    · refine .inr (.inr ⟨?_, ?_⟩)
      · simp only [judge, hstate, Head.parse_headers, if_pos hempty, if_neg hmethod, hlength, ne_eq, not_true, if_false]
      · simp only [parser.judge, if_pos hempty]
    · obtain ⟨_, hstate', hmethod', hlength'⟩ := h.parse_headers_field hempty
      refine .inl ⟨(h.parse_headers (cstr line)).2, judge_field hstate hempty, ?_, hstate'.trans hstate,
        by decide, ?_, ?_⟩
      · simp only [parser.judge, if_neg hempty]
      · rwa [hmethod']
      · rw [hlength', announced, hnot, hlength]
        rfl
  | CONTENT => exact absurd hstate hcontent

/-- The two parsers at the end of the bytes. -/
def Corresponds : Outcome Head Stop → Outcome CHECK_STATE parser.HTTP_CODE → Prop
  | .waits _ _ _, .waits _ _ _ => True
  | .broken _, .broken _ => True
  | .stops .bad_request _, .stops .BAD_REQUEST _ => True
  | .stops .do_request _, .stops .GET_REQUEST _ => True
  | _, _ => False

/-- Without a content length both parsers read the same lines. -/
theorem read_corresponds
    (hagrees : h.Agrees checkstate) (hname : Unannounced checkstate line bytes) (hstream : NoContentLength bytes) :
    Corresponds (readLines judge h line bytes) (readLines parser.judge checkstate line bytes) := by
  induction h, line, bytes using readLines_induction judge generalizing checkstate with
  | nil h line =>
    rw [readLines_nil, readLines_nil]
    trivial
  | cr h line =>
    rw [readLines_cr, readLines_cr]
    trivial
  | next h line bytes next hnext ih =>
    rcases judge_agrees hagrees hname with ⟨h', hj, hj', hagrees'⟩ | ⟨hj, _⟩ | ⟨hj, _⟩
    · rw [hj] at hnext
      cases hnext
      rw [readLines_crlf_next hj, readLines_crlf_next hj']
      refine ih hagrees' (fun _ => hstream [] bytes rfl) fun before after hbytes => ?_
      exact hstream (CR :: LF :: before) after (by rw [hbytes]; rfl)
    · rw [hj] at hnext
      cases hnext
    · rw [hj] at hnext
      cases hnext
  | stop h line bytes result hstop =>
    rcases judge_agrees hagrees hname with ⟨h', hj, _⟩ | ⟨hj, hj'⟩ | ⟨hj, hj'⟩
    · rw [hj] at hstop
      cases hstop
    · rw [readLines_crlf_stop hj, readLines_crlf_stop hj']
      trivial
    · rw [readLines_crlf_stop hj, readLines_crlf_stop hj']
      trivial
  | cr_other h line c bytes hc =>
    rw [readLines_cr_other hc, readLines_cr_other hc]
    trivial
  | lf h line bytes =>
    rw [readLines_lf, readLines_lf]
    trivial
  | plain h line b bytes hb ih =>
    rw [readLines_plain hb, readLines_plain hb]
    refine ih hagrees ?_ fun before after hbytes => ?_
    · intro hheader
      rw [List.append_assoc]
      exact hname hheader
    · exact hstream (b :: before) after (by rw [hbytes]; rfl)

/-- The answer of `process_read` and the result of the other parser mean the same. -/
def Same (answer : Answer) (result : parser.HTTP_CODE) : Prop :=
  (answer = .returns .BAD_REQUEST ↔ result = .BAD_REQUEST) ∧ (answer = .do_request ↔ result = .GET_REQUEST) ∧
    (answer = .returns .NO_REQUEST ↔ result = .NO_REQUEST)

/-- A line ending other than `CR LF` comes before there is a verdict. -/
def BadLineEnding (stream : List UInt8) : Prop :=
  ∃ checkstate, readLines parser.judge .REQUESTLINE [] stream = .broken checkstate

theorem http_conn.init_holds : http_conn.init.Holds [] [] [] :=
  ⟨rfl, rfl, rfl, (fun _ hb => nomatch hb), (fun h => nomatch h)⟩

theorem same_iff_of_corresponds {o : Outcome Head Stop} {o' : Outcome CHECK_STATE parser.HTTP_CODE}
    (h : Corresponds o o') : Same (outcome o) (parser.verdict o') ↔ ¬∃ checkstate, o' = .broken checkstate := by
  unfold Corresponds at h
  split at h
  · simp [Same, outcome, parser.verdict]
  · simp [Same, outcome, parser.verdict]
  · simp [Same, outcome, parser.verdict]
  · simp [Same, outcome, parser.verdict]
  · cases h

/-- For a stream without a content length, the parsers agree exactly when no bad line ending comes before
a verdict, in whatever pieces the stream arrives. -/
theorem parsers_agree_iff {stream : List UInt8} (hfits : stream.length ≤ READ_BUFFER_SIZE)
    (hstream : NoContentLength stream) {chunks pieces : List (List UInt8)} (hchunks : chunks.flatten = stream)
    (hpieces : pieces.flatten = stream) (hne : ∀ data ∈ pieces, data ≠ []) :
    Same (http_conn.init.answer chunks) (parser.receive .initial pieces) ↔ ¬BadLineEnding stream := by
  have hagrees : Head.init.Agrees .REQUESTLINE := ⟨rfl, by decide, by decide, rfl⟩
  have hcorresponds : Corresponds (readLines judge .init [] stream) (readLines parser.judge .REQUESTLINE [] stream) :=
    read_corresponds hagrees (fun h => nomatch h) hstream
  have hanswer : http_conn.init.answer chunks = outcome (readLines judge .init [] stream) := by
    rw [← hchunks]
    refine http_conn.answer_spec (by decide) http_conn.init_holds ?_ ?_
    · intro stop rest' h
      rw [readLines_nil] at h
      cases h
    · intro h rest' hread
      rw [List.nil_append, hchunks] at hread
      rw [show http_conn.init.toHead = .init from rfl] at hread
      rw [hread] at hcorresponds
      cases hcorresponds
  have hresult : parser.receive .initial pieces = parser.verdict (readLines parser.judge .REQUESTLINE [] stream) := by
    rw [parser.receive_initial hne (by rw [hpieces]; exact Nat.le_trans hfits (by decide)), hpieces]
  rw [hanswer, hresult]
  exact same_iff_of_corresponds hcorresponds

theorem noContentLength_of_drop {stream : List UInt8}
    (h : ∀ n ≤ stream.length, strncasecmp (stream.drop n) (ascii "Content-Length:") 15 = false) :
    NoContentLength stream := by
  rintro before after rfl
  have hstream : before ++ CR :: LF :: after = (before ++ [CR, LF]) ++ after := by simp
  have hdrop := h (before ++ [CR, LF]).length (by simp)
  rwa [hstream, List.drop_left] at hdrop

/-- A request in two pieces for one parser and in one for the other. -/
theorem parsers_agree_get :
    Same (http_conn.init.answer [ascii "GET / HTTP/1.1\r", ascii "\n\r\n"])
      (parser.receive .initial [ascii "GET / HTTP/1.1\r\n\r\n"]) := by
  have hfits : (ascii "GET / HTTP/1.1\r\n\r\n").length ≤ READ_BUFFER_SIZE := by decide +kernel
  refine (parsers_agree_iff hfits (noContentLength_of_drop (by decide +kernel)) (by decide +kernel) (by decide +kernel)
    (by decide +kernel)).mpr ?_
  rintro ⟨checkstate, h⟩
  have hstops : readLines parser.judge .REQUESTLINE [] (ascii "GET / HTTP/1.1\r\n\r\n") = .stops .GET_REQUEST [] := by
    decide +kernel
  rw [hstops] at h
  cases h

/-- A line feed alone is a bad request for one parser, and the other goes on waiting. -/
theorem parsers_differ :
    NoContentLength [LF] ∧ ¬Same (http_conn.init.answer [[LF]]) (parser.receive .initial [[LF]]) := by
  refine ⟨noContentLength_of_drop (by decide +kernel), fun h => ?_⟩
  have hbad : parser.receive .initial [[LF]] = .BAD_REQUEST := by decide +kernel
  have hwaits : http_conn.init.answer [[LF]] = .returns .NO_REQUEST := by decide +kernel
  have hsame := h.1.mpr hbad
  rw [hwaits] at hsame
  cases hsame

end basic_data_struct.http
