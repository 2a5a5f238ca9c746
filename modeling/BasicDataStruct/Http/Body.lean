import BasicDataStruct.Http.Conn

open crlf runs socket stdio

namespace basic_data_struct.http

/-- A request: a line, headers that are not empty, and a body of the announced length. -/
structure Request where
  line : List UInt8
  headers : List (List UInt8)
  body : List UInt8
  plain_line : ∀ b ∈ line, Plain b
  plain_headers : ∀ header ∈ headers, ∀ b ∈ header, Plain b
  headers_ne : ∀ header ∈ headers, cstr header ≠ []
  length_body : headers.foldl (fun length header => announced length (cstr header)) 0 = body.length

/-- A line with its end. -/
def terminated (line : List UInt8) : List UInt8 := line ++ [CR, LF]

def Request.head (r : Request) : List UInt8 := terminated r.line ++ (r.headers.flatMap terminated ++ terminated [])

def Request.bytes (r : Request) : List UInt8 := r.head ++ r.body

/-- The request line is one that the parser takes. -/
def Request.Accepted (r : Request) : Prop := (request_line (cstr r.line)).1 ≠ none

/-- After `k` bytes of a body there is no line that `parse_line` could get past. -/
def Harmless (body : List UInt8) (k : Nat) : Prop :=
  body[0]? = some LF ∨ body[0]? = some CR ∧ (k = 1 ∨ body[1]? ≠ some LF)

section

variable {h : Head} {line bytes : List UInt8}

/-- A line without its end. -/
theorem readLines_append_line (hline : ∀ b ∈ line, Plain b) (first : List UInt8) :
    readLines judge h first (line ++ bytes) = readLines judge h (first ++ line) bytes := by
  induction line generalizing first with
  | nil => rw [List.nil_append, List.append_nil]
  | cons b line ih =>
    rw [List.forall_mem_cons] at hline
    rw [List.cons_append, readLines_plain hline.1, ih hline.2, List.append_assoc, List.singleton_append]

theorem readLines_terminated_next (hline : ∀ b ∈ line, Plain b) {next : Head} (hnext : judge h line = .inl next) :
    readLines judge h [] (terminated line ++ bytes) = readLines judge next [] bytes := by
  rw [terminated, List.append_assoc, readLines_append_line hline, List.nil_append]
  exact readLines_crlf_next hnext

theorem readLines_terminated_stop (hline : ∀ b ∈ line, Plain b) {result : Stop} (hstop : judge h line = .inr result) :
    readLines judge h [] (terminated line ++ bytes) = .stops result bytes := by
  rw [terminated, List.append_assoc, readLines_append_line hline, List.nil_append]
  exact readLines_crlf_stop hstop

/-- The headers of a request leave the length that they announce. -/
theorem readLines_headers {headers : List (List UInt8)} (hplain : ∀ header ∈ headers, ∀ b ∈ header, Plain b)
    (hne : ∀ header ∈ headers, cstr header ≠ []) (hstate : h.m_check_state = .HEADER) (hmethod : h.m_method = .GET) :
    ∃ next : Head, next.m_check_state = .HEADER ∧ next.m_method = .GET ∧
      next.m_content_length = headers.foldl (fun length header => announced length (cstr header)) h.m_content_length ∧
      ∀ bytes, readLines judge h [] (headers.flatMap terminated ++ bytes) = readLines judge next [] bytes := by
  induction headers generalizing h with
  | nil => exact ⟨h, hstate, hmethod, rfl, fun bytes => rfl⟩
  | cons header headers ih =>
    rw [List.forall_mem_cons] at hplain hne
    obtain ⟨_, hstate', hmethod', hlength'⟩ := h.parse_headers_field hne.1
    obtain ⟨next, hnext, hget, hlength, hread⟩ :=
      ih hplain.2 hne.2 (hstate'.trans hstate) (hmethod'.trans hmethod)
    refine ⟨next, hnext, hget, ?_, fun bytes => ?_⟩
    · rw [hlength, hlength', List.foldl_cons]
    · rw [List.flatMap_cons, List.append_assoc, readLines_terminated_next hplain.1 (judge_field hstate hne.1), hread]

end

section

variable {r : Request}

/-- A request line that is not taken ends the reading. -/
theorem Request.readLines_rejected (hrejected : ¬r.Accepted) (bytes : List UInt8) :
    ∃ rest, readLines judge .init [] (r.head ++ bytes) = .stops .bad_request rest := by
  have hjudge : judge .init r.line = .inr .bad_request := by
    rw [Request.Accepted, not_not] at hrejected
    simp only [judge, Head.init, Head.parse_request_line]
    cases hrequest : request_line (cstr r.line) with
    | mk url text =>
      rw [hrequest] at hrejected
      cases hrejected
      rfl
  rw [Request.head, List.append_assoc]
  exact ⟨_, readLines_terminated_stop r.plain_line hjudge⟩

/-- The head of a request. -/
theorem Request.readLines_head (haccepted : r.Accepted) :
    ∃ stop, (∀ bytes, readLines judge .init [] (r.head ++ bytes) = .stops stop bytes) ∧
      ((r.body = [] ∧ stop = .do_request) ∨
        r.body ≠ [] ∧ ∃ h : Head, stop = .content h ∧ h.m_check_state = .CONTENT ∧
        h.m_content_length = r.body.length) := by
  obtain ⟨url, hurl⟩ := Option.ne_none_iff_exists'.mp haccepted
  have hline : ∃ h, judge .init r.line = .inl h ∧ h.m_check_state = .HEADER ∧ h.m_method = .GET ∧
      h.m_content_length = 0 := by
    simp only [judge, Head.init, Head.parse_request_line]
    cases hrequest : request_line (cstr r.line) with
    | mk url' text =>
      rw [hrequest] at hurl
      cases hurl
      exact ⟨_, rfl, rfl, rfl, rfl⟩
  obtain ⟨h, hjudge, hstate, hmethod, hzero⟩ := hline
  obtain ⟨next, hnext, hget, hlength, hread⟩ := readLines_headers r.plain_headers r.headers_ne hstate hmethod
  rw [hzero, r.length_body] at hlength
  have hhead : ∀ bytes, readLines judge .init [] (r.head ++ bytes) =
      readLines judge next [] (terminated [] ++ bytes) := by
    intro bytes
    rw [Request.head, List.append_assoc, List.append_assoc, readLines_terminated_next r.plain_line hjudge, hread]
  have hmethod' : next.m_method ≠ .HEAD := by
    rw [hget]
    decide
  by_cases hbody : r.body = []
  · have hblank : judge next [] = .inr .do_request := by
      have hnone : ¬next.m_content_length ≠ 0 := by
        rw [hlength, hbody]
        exact not_not_intro rfl
      simp only [judge, hnext, Head.parse_headers, if_neg hmethod', if_neg hnone, cstr, List.takeWhile_nil, if_true]
    refine ⟨.do_request, fun bytes => ?_, .inl ⟨hbody, rfl⟩⟩
    rw [hhead, readLines_terminated_stop (List.forall_mem_nil _) hblank]
  · have hblank : judge next [] = .inr (.content { next with m_check_state := .CONTENT }) := by
      have hsome : next.m_content_length ≠ 0 := by
        rw [hlength]
        exact Int.natCast_ne_zero.mpr fun h => hbody (List.length_eq_zero_iff.mp h)
      simp only [judge, hnext, Head.parse_headers, if_neg hmethod', if_pos hsome, cstr, List.takeWhile_nil, if_true]
    refine ⟨.content { next with m_check_state := .CONTENT }, fun bytes => ?_, .inr ⟨hbody, _, rfl, rfl, hlength⟩⟩
    rw [hhead, readLines_terminated_stop (List.forall_mem_nil _) hblank]

end

/-- A connection that waits for a body of `n` bytes which it can no longer see the end of: it counts them from behind
the first of them that it has checked. -/
structure http_conn.Late (c : http_conn) (n : Nat) : Prop where
  state : c.m_check_state = .CONTENT
  content_length : c.m_content_length = n
  late : c.buffer.length < n + c.checked_index
  checked_le : c.checked_index ≤ c.buffer.length
  fits : c.buffer.length ≤ READ_BUFFER_SIZE
  small : n ≤ READ_BUFFER_SIZE

section

variable {c : http_conn} {n : Nat}

/-- The sum in the test of `parse_content` does not overflow. -/
theorem bmod_of_small {m : Nat} (hn : n ≤ READ_BUFFER_SIZE) (hm : m ≤ READ_BUFFER_SIZE) :
    ((n : Int) + m).bmod 4294967296 = (n + m : Nat) := by
  have hsize : READ_BUFFER_SIZE = 2048 := rfl
  rw [Int.bmod_eq_of_le (by omega) (by omega)]
  omega

theorem http_conn.Late.handle (hc : c.Late n) :
    c.handle = .inl ({ c with start_line := c.checked_index }, .LINE_OPEN) := by
  have hlate := hc.late
  have hwaits : ¬(c.m_content_length + c.checked_index).bmod 4294967296 ≤ c.read_index := by
    rw [hc.content_length, bmod_of_small hc.small (Nat.le_trans hc.checked_le hc.fits), Scanner.read_index]
    omega
  have hcontent : http_conn.parse_content { c with start_line := c.checked_index } c.start_line =
      some (.NO_REQUEST, { c with start_line := c.checked_index }) := if_neg hwaits
  simp only [http_conn.handle, hc.state, hcontent]
  rfl

theorem http_conn.Late.parse_line (hc : c.Late n) :
    { c with toScanner := c.toScanner.parse_line.2 : http_conn }.Late n := by
  obtain ⟨_, hlength, hchecked, hbound, _⟩ := Scanner.scanned (s := c.toScanner) Prod.mk.eta.symm
  refine ⟨hc.state, hc.content_length, ?_, ?_, ?_, hc.small⟩
  · have hlate := hc.late
    simp only [hlength]
    omega
  · simp only [hlength]
    exact hbound hc.checked_le
  · simp only [hlength]
    exact hc.fits

theorem http_conn.Late.restart (hc : c.Late n) (start_line : Nat) :
    { c with start_line := start_line : http_conn }.Late n :=
  ⟨hc.state, hc.content_length, hc.late, hc.checked_le, hc.fits, hc.small⟩

/-- A round of `process_read` that comes too late. -/
theorem http_conn.Late.round (hc : c.Late n) (line_status : LINE_STATUS) :
    (∃ d line_status', http_conn.round (c, line_status) = .inl (d, line_status') ∧ d.Late n ∧
        c.checked_index ≤ d.checked_index ∧ d.buffer.length = c.buffer.length) ∨
      ∃ d, http_conn.round (c, line_status) = .inr (.returns .NO_REQUEST, d) ∧ d.Late n ∧
        c.checked_index ≤ d.checked_index ∧ d.buffer.length = c.buffer.length := by
  unfold http_conn.round
  split
  · exact .inl ⟨_, _, hc.handle, hc.restart _, Nat.le_refl _, rfl⟩
  · obtain ⟨_, hlength, hchecked, _⟩ := Scanner.scanned (s := c.toScanner) Prod.mk.eta.symm
    have hline := hc.parse_line
    unfold http_conn.parse_line
    generalize c.toScanner.parse_line = result at hchecked hlength hline
    obtain ⟨status, s⟩ := result
    cases status with
    | LINE_OK => exact .inl ⟨_, _, hline.handle, hline.restart _, hchecked, hlength⟩
    | LINE_BAD => exact .inr ⟨_, rfl, hline, hchecked, hlength⟩
    | LINE_OPEN => exact .inr ⟨_, rfl, hline, hchecked, hlength⟩

/-- A call of `process_read` that comes too late. -/
theorem http_conn.Late.run (hc : c.Late n) (line_status : LINE_STATUS) :
    ∃ d, readLoop.run (c, line_status) = (.returns .NO_REQUEST, d) ∧ d.Late n ∧ c.checked_index ≤ d.checked_index ∧
      d.buffer.length = c.buffer.length := by
  revert hc
  refine readLoop.run_induction (motive := fun s result => s.1.Late n → ∃ d, result = (.returns .NO_REQUEST, d) ∧
    d.Late n ∧ s.1.checked_index ≤ d.checked_index ∧ d.buffer.length = s.1.buffer.length) ?_ ?_ (c, line_status)
  · rintro ⟨c, line_status⟩ s result hnext ih hc
    rcases hc.round line_status with ⟨d, line_status', hround, hd, hchecked, hlength⟩ | ⟨d, hround, _⟩
    · cases hnext.symm.trans hround
      obtain ⟨e, hresult, he, hchecked', hlength'⟩ := ih hd
      exact ⟨e, hresult, he, Nat.le_trans hchecked hchecked', hlength'.trans hlength⟩
    · cases hnext.symm.trans hround
  · rintro ⟨c, line_status⟩ result hdone hc
    rcases hc.round line_status with ⟨d, line_status', hround, _⟩ | ⟨d, hround, hd, hchecked, hlength⟩
    · cases hdone.symm.trans hround
    · cases hdone.symm.trans hround
      exact ⟨d, rfl, hd, hchecked, hlength⟩

end

/-- A connection that waits for a body, which begins behind `start` bytes, and has got `k` bytes of it without looking
at them. -/
structure http_conn.AtBody (c : http_conn) (start : Nat) (body : List UInt8) (k : Nat) : Prop where
  state : c.m_check_state = .CONTENT
  content_length : c.m_content_length = body.length
  holds : ∃ before : List UInt8, before.length = start ∧ c.Holds before [] (body.take k)
  le : k ≤ body.length
  fits : start + body.length ≤ READ_BUFFER_SIZE

theorem cons_of_getElem?_zero {l : List UInt8} {b : UInt8} (h : l[0]? = some b) : ∃ rest, l = b :: rest := by
  cases l with
  | nil => cases h
  | cons c rest => exact ⟨rest, by rw [Option.some.inj h]⟩

namespace http_conn.AtBody

variable {c : http_conn} {start k : Nat} {body : List UInt8}

theorem indices (hc : c.AtBody start body k) :
    c.buffer.length = start + k ∧ c.checked_index = start ∧ c.start_line = start := by
  obtain ⟨before, rfl, hholds⟩ := hc.holds
  refine ⟨?_, hholds.checked_index, hholds.start_line⟩
  rw [hholds.buffer, List.nil_append, List.length_append, List.length_take, Nat.min_eq_left hc.le]

theorem late (hc : c.AtBody start body k) (hk : k < body.length) : c.Late body.length := by
  obtain ⟨hlength, hchecked, _⟩ := hc.indices
  have hfits := hc.fits
  exact ⟨hc.state, hc.content_length, by omega, by omega, by omega, by omega⟩

/-- The whole body is there. -/
theorem run_complete (hc : c.AtBody start body body.length) :
    ∃ d, readLoop.run (c, .LINE_OK) =
      (if start + body.length < READ_BUFFER_SIZE then .do_request else .out_of_bounds, d) := by
  obtain ⟨hlength, hchecked, hstart⟩ := hc.indices
  have hfits := hc.fits
  have hcomplete : (c.m_content_length + c.checked_index).bmod 4294967296 ≤ c.read_index := by
    rw [hc.content_length, bmod_of_small (by omega) (by omega), Scanner.read_index]
    omega
  have hround : ∃ d, http_conn.round (c, .LINE_OK) =
      .inr (if start + body.length < READ_BUFFER_SIZE then .do_request else .out_of_bounds, d) := by
    rw [http_conn.round, if_pos ⟨hc.state, rfl⟩]
    by_cases hroom : start + body.length < READ_BUFFER_SIZE
    · have hstore : 0 ≤ c.start_line + c.m_content_length ∧ c.start_line + c.m_content_length < READ_BUFFER_SIZE := by
        rw [hc.content_length, hstart]
        omega
      have hcontent : ∃ d, http_conn.parse_content { c with start_line := c.checked_index } c.start_line =
          some (.GET_REQUEST, d) := ⟨_, (if_pos hcomplete).trans (if_pos hstore)⟩
      obtain ⟨d, hcontent⟩ := hcontent
      refine ⟨d, ?_⟩
      simp only [http_conn.handle, hc.state, hcontent, if_true, if_pos hroom]
    · have hstore : ¬(0 ≤ c.start_line + c.m_content_length ∧
        c.start_line + c.m_content_length < READ_BUFFER_SIZE) := by
        rw [hc.content_length, hstart]
        omega
      have hcontent : http_conn.parse_content { c with start_line := c.checked_index } c.start_line = none :=
        (if_pos hcomplete).trans (if_neg hstore)
      refine ⟨{ c with start_line := c.checked_index }, ?_⟩
      simp only [http_conn.handle, hc.state, hcontent, if_neg hroom]
  obtain ⟨d, hround⟩ := hround
  exact ⟨d, Loop.run_of_done hround⟩

/-- The body is not complete: its bytes are looked at as if they were lines. -/
theorem run_open (hc : c.AtBody start body k) (hk : k < body.length) :
    readLoop.run (c, .LINE_OK) = readLoop.run (c, .LINE_OPEN) := by
  obtain ⟨_, hchecked, hstart⟩ := hc.indices
  have hsame : ∀ n, n = c.start_line → { c with start_line := n : http_conn } = c := by
    rintro n rfl
    rfl
  refine Loop.run_of_next ?_
  show http_conn.round (c, .LINE_OK) = _
  rw [http_conn.round, if_pos ⟨hc.state, rfl⟩, (hc.late hk).handle, hsame _ (hchecked.trans hstart.symm)]

theorem round_open (status : LINE_STATUS) (s : Scanner) (hline : c.toScanner.parse_line = (status, s)) :
    http_conn.round (c, .LINE_OPEN) = if status = .LINE_OK then http_conn.handle { c with toScanner := s }
      else .inr (.returns .NO_REQUEST, { c with toScanner := s }) := by
  have hcontent : ¬(c.m_check_state = .CONTENT ∧ LINE_STATUS.LINE_OPEN = .LINE_OK) := by
    rintro ⟨_, ⟨⟩⟩
  simp only [http_conn.round, if_neg hcontent, http_conn.parse_line, hline]
  cases status <;> rfl

/-- Nothing is checked: the connection stays as it is. -/
theorem run_harmless (hc : c.AtBody start body k) (hk : k < body.length) (hcut : 0 < k → Harmless body k) :
    readLoop.run (c, .LINE_OK) = (.returns .NO_REQUEST, c) := by
  have hline : ∃ status, status ≠ .LINE_OK ∧ c.toScanner.parse_line = (status, c.toScanner) := by
    obtain ⟨before, _, hholds⟩ := hc.holds
    cases k with
    | zero => exact ⟨.LINE_OPEN, by decide, hholds.parse_line_nil⟩
    | succ k =>
      rcases hcut (Nat.succ_pos k) with hfirst | ⟨hfirst, hsecond⟩
      · obtain ⟨rest, rfl⟩ := cons_of_getElem?_zero hfirst
        exact ⟨.LINE_BAD, by decide, hholds.parse_line_lf⟩
      · obtain ⟨rest, rfl⟩ := cons_of_getElem?_zero hfirst
        cases k with
        | zero => exact ⟨.LINE_OPEN, by decide, hholds.parse_line_cr⟩
        | succ k =>
          cases rest with
          | nil => exact absurd hk (by simp)
          | cons b rest =>
            have hb : b ≠ LF := by
              rintro rfl
              exact hsecond.elim (fun h => by omega) fun h => h rfl
            exact ⟨.LINE_BAD, by decide, hholds.parse_line_cr_other hb⟩
  obtain ⟨status, hstatus, hline⟩ := hline
  rw [hc.run_open hk]
  refine Loop.run_of_done ((round_open status _ hline).trans ?_)
  rw [if_neg hstatus]

/-- A byte is checked: the connection will be late. -/
theorem run_harmful (hc : c.AtBody start body k) (hk : k < body.length) (hpos : 0 < k) (hcut : ¬Harmless body k) :
    ∃ d, readLoop.run (c, .LINE_OK) = (.returns .NO_REQUEST, d) ∧ d.Late body.length ∧ start < d.checked_index ∧
      d.buffer.length = c.buffer.length := by
  obtain ⟨before, hbefore, hholds⟩ := hc.holds
  obtain ⟨hlength, hchecked, _⟩ := hc.indices
  have hlate := hc.late hk
  obtain ⟨k, rfl⟩ := Nat.exists_eq_succ_of_ne_zero (Nat.ne_of_gt hpos)
  rw [hc.run_open hk]
  cases body with
  | nil => exact absurd hk (Nat.not_lt_zero _)
  | cons b rest =>
    by_cases hb : Plain b
    · obtain ⟨hline, hadvance⟩ := hholds.advance hb
      have hnext : { c with checked_index := c.checked_index + 1 : http_conn }.Late (b :: rest).length :=
        ⟨hlate.state, hlate.content_length, Nat.lt_succ_of_lt hlate.late, by
          show c.checked_index + 1 ≤ c.buffer.length
          omega, hlate.fits, hlate.small⟩
      have hrun : readLoop.run (c, .LINE_OPEN) =
          readLoop.run ({ c with checked_index := c.checked_index + 1 }, .LINE_OPEN) := by
        refine Loop.run_congr ?_
        simp only [readLoop, http_conn.round, http_conn.parse_line, hline, reduceCtorEq, and_false, if_false]
      obtain ⟨d, hd, hlate', hle, hlength'⟩ := hnext.run .LINE_OPEN
      exact ⟨d, hrun.trans hd, hlate', Nat.lt_of_lt_of_le (by show start < c.checked_index + 1; omega) hle, hlength'⟩
    · have hcr : b = CR ∧ k ≠ 0 ∧ rest[0]? = some LF := by
        simp only [Harmless, List.getElem?_cons_zero, List.getElem?_cons_succ, Option.some.injEq] at hcut
        simp only [Plain] at hb
        grind
      obtain ⟨rfl, hne, hfirst⟩ := hcr
      obtain ⟨rest, rfl⟩ := cons_of_getElem?_zero hfirst
      obtain ⟨k, rfl⟩ := Nat.exists_eq_succ_of_ne_zero hne
      have hline : c.toScanner.parse_line = (.LINE_OK, c.toScanner.parse_line.2) := by rw [hholds.parse_line_crlf]
      have hpassed : c.toScanner.parse_line.2.checked_index = start + 2 := by
        rw [hholds.parse_line_crlf, ← hchecked]
      have hnext := hlate.parse_line
      have hround : http_conn.round (c, .LINE_OPEN) =
          .inl ({ c with toScanner :=
            { c.toScanner.parse_line.2 with start_line := c.toScanner.parse_line.2.checked_index } },
            .LINE_OPEN) := by
        rw [round_open _ _ hline, if_pos rfl, hnext.handle]
      obtain ⟨d, hd, hlate', hle, hlength'⟩ := (hnext.restart c.toScanner.parse_line.2.checked_index).run .LINE_OPEN
      refine ⟨d, (Loop.run_of_next hround).trans hd, hlate', ?_, ?_⟩
      · exact Nat.lt_of_lt_of_le (by show start < c.toScanner.parse_line.2.checked_index; omega) hle
      · exact hlength'.trans (Scanner.scanned Prod.mk.eta.symm).length

end http_conn.AtBody

end basic_data_struct.http
