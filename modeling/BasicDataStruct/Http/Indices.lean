import BasicDataStruct.Http.Served

open crlf runs socket stdio

namespace basic_data_struct.http

/-- The indices of the buffer that a round of `parse_line` reads or writes. -/
def Scanner.indices (s : Scanner) : List Int :=
  match s.buffer[s.checked_index]? with
  | none => []
  | some temp =>
    if temp = CR then
      match s.buffer[s.checked_index + 1]? with
      | none => [s.checked_index]
      | some _ => [s.checked_index, s.checked_index + 1]
    else if temp = LF then
      if 1 < s.checked_index then [s.checked_index, s.checked_index - 1] else [s.checked_index]
    else [s.checked_index]

/-- An index that a call of `parse_line` reads or writes. -/
def Scanner.Touches (s : Scanner) (i : Int) : Prop := ∃ t, lineLoop.Visits s t ∧ i ∈ t.indices

/-- The connection for which a round of `process_read` gets to the `switch`, before `m_start_line` is assigned. -/
def http_conn.handled (s : http_conn × LINE_STATUS) : Option http_conn :=
  if s.1.m_check_state = .CONTENT ∧ s.2 = .LINE_OK then some s.1
  else
    match s.1.parse_line with
    | (.LINE_OK, c) => some c
    | _ => none

/-- The index that `parse_content` writes. Its argument is the line that starts at `m_start_line`. -/
def http_conn.Stores (c : http_conn) (i : Int) : Prop :=
  c.m_check_state = .CONTENT ∧ (c.m_content_length + c.checked_index).bmod 4294967296 ≤ c.read_index ∧
    i = c.start_line + c.m_content_length

/-- An index that a round of `process_read` reads or writes in `parse_line` or `parse_content`. -/
def http_conn.RoundTouches (s : http_conn × LINE_STATUS) (i : Int) : Prop :=
  (¬(s.1.m_check_state = .CONTENT ∧ s.2 = .LINE_OK) ∧ s.1.toScanner.Touches i) ∨
    ∃ c, http_conn.handled s = some c ∧ c.Stores i

/-- An index that a call of `process_read` reads or writes in `parse_line` or `parse_content`. -/
def http_conn.Touches (c : http_conn) (i : Int) : Prop :=
  ∃ s, readLoop.Visits (c, .LINE_OK) s ∧ http_conn.RoundTouches s i

/-- A call of `process_read` calls `parse_content` for the connection `d`. -/
def http_conn.CallsContent (c d : http_conn) : Prop :=
  ∃ s, readLoop.Visits (c, .LINE_OK) s ∧ http_conn.handled s = some d ∧ d.m_check_state = .CONTENT

/-- The connections for which `process_read` is called, in rounds of `read` and `process_read` with these results of
`recv`, until there is an answer. -/
inductive http_conn.Processes : http_conn → List (List Recv) → http_conn → Prop
  | now {c d : http_conn} {results : List Recv} {rounds : List (List Recv)} (hread : c.read results = (true, d)) :
      Processes c (results :: rounds) d
  | later {c d e f : http_conn} {results : List Recv} {rounds : List (List Recv)} (hread : c.read results = (true, d))
      (hwaits : d.process_read = (.returns .NO_REQUEST, e)) (hrest : Processes e rounds f) :
      Processes c (results :: rounds) f

/-- The body of the announced length, from the start of the line on, ends inside of the array: it does not end in front
of it, the sum of `parse_content` does not overflow, and the line does not start where the announced body exactly fills
the array. -/
structure http_conn.ContentFits (c : http_conn) : Prop where
  low : 0 ≤ c.start_line + c.m_content_length
  sum : c.m_content_length + c.checked_index < 2147483648
  full : ¬(c.start_line = c.checked_index ∧ c.m_content_length + c.checked_index = READ_BUFFER_SIZE ∧
    c.read_index = READ_BUFFER_SIZE)

/-- The indices are in order, and the length is an `int`. -/
structure http_conn.Sound (c : http_conn) : Prop where
  start_le : c.start_line ≤ c.checked_index
  checked_le : c.checked_index ≤ c.buffer.length
  fits : c.buffer.length ≤ READ_BUFFER_SIZE
  low : -2147483648 ≤ c.m_content_length
  high : c.m_content_length < 2147483648

section Line

variable {s : Scanner} {i : Int}

theorem Scanner.mem_indices (h : i ∈ s.indices) : 0 ≤ i ∧ i < s.buffer.length := by
  unfold Scanner.indices at h
  split at h
  · cases h
  next temp hchecked =>
    have hlt : s.checked_index < s.buffer.length := (List.getElem?_eq_some_iff.mp hchecked).1
    split at h
    · split at h
      · simp only [List.mem_singleton] at h
        omega
      next next hnext =>
        have hlt' : s.checked_index + 1 < s.buffer.length := (List.getElem?_eq_some_iff.mp hnext).1
        simp only [List.mem_cons, List.not_mem_nil, or_false] at h
        omega
    · split at h
      · split at h <;> simp only [List.mem_cons, List.not_mem_nil, or_false] at h <;> omega
      · simp only [List.mem_singleton] at h
        omega

theorem Scanner.Touches.inside (h : s.Touches i) : 0 ≤ i ∧ i < s.buffer.length := by
  obtain ⟨t, hvisits, hi⟩ := h
  have hlength : t.buffer.length = s.buffer.length := by
    refine hvisits.invariant (P := fun t => t.buffer.length = s.buffer.length) (fun t u ht hnext => ?_) rfl
    obtain ⟨rfl, -⟩ := Scanner.check_next hnext
    exact ht
  rw [← hlength]
  exact Scanner.mem_indices hi

end Line

namespace http_conn

/-- The connection after a round of `process_read`. -/
def after (result : http_conn × LINE_STATUS ⊕ Answer × http_conn) : http_conn := result.elim Prod.fst Prod.snd

theorem round_eq (s : http_conn × LINE_STATUS) :
    round s = match handled s with
      | some c => c.handle
      | none => .inr (.returns .NO_REQUEST, s.1.parse_line.2) := by
  unfold round handled
  split
  · rfl
  · cases hline : s.1.parse_line with
    | mk status c => cases status <;> rfl

variable {c d : http_conn} {s t : http_conn × LINE_STATUS} {rounds : List (List Recv)}

/-- What the `switch` leaves alone, and what it does to the start of the line and to the announced length. -/
theorem after_handle (c : http_conn) :
    (after c.handle).checked_index = c.checked_index ∧ (after c.handle).start_line = c.checked_index ∧
      (after c.handle).buffer.length = c.buffer.length ∧
      ((after c.handle).m_content_length = c.m_content_length ∨
        ∃ text, (after c.handle).m_content_length = (atol text).bmod 4294967296) := by
  cases hstate : c.m_check_state with
  | REQUESTLINE =>
    have hlength : (c.toScanner.overwrite (request_line c.text).2).buffer.length = c.buffer.length :=
      c.length_overwrite (length_request_line c.text)
    unfold handle Head.parse_request_line
    grind [after, Scanner.overwrite]
  | HEADER =>
    unfold handle Head.parse_headers
    grind [after]
  | CONTENT =>
    unfold handle parse_content
    grind [after]

theorem Sound.init : http_conn.init.Sound :=
  ⟨Nat.le_refl _, Nat.le_refl _, Nat.zero_le _, by decide, by decide⟩

theorem Sound.parse_line (hc : c.Sound) : c.parse_line.2.Sound := by
  obtain ⟨hstart, hlength, hgrows, hbound, -⟩ := Scanner.scanned (s := c.toScanner) Prod.mk.eta.symm
  exact ⟨hstart.trans_le (hc.start_le.trans hgrows), (hbound hc.checked_le).trans_eq hlength.symm,
    hlength.trans_le hc.fits, hc.low, hc.high⟩

theorem Sound.handled (hs : s.1.Sound) (h : handled s = some c) : c.Sound := by
  unfold http_conn.handled at h
  split at h
  · cases h
    exact hs
  · have hline := hs.parse_line
    split at h
    next d hparse =>
      cases h
      rw [hparse] at hline
      exact hline
    · cases h

theorem Sound.handle (hc : c.Sound) : (after c.handle).Sound := by
  obtain ⟨hchecked, hstart, hlength, hcontent⟩ := c.after_handle
  have hint : -2147483648 ≤ (after c.handle).m_content_length ∧ (after c.handle).m_content_length < 2147483648 := by
    rcases hcontent with hsame | ⟨text, hatol⟩
    · rw [hsame]
      exact ⟨hc.low, hc.high⟩
    · rw [hatol]
      exact ⟨Int.le_bmod (by decide), Int.bmod_lt (by decide)⟩
  exact ⟨(hstart.trans hchecked.symm).le, hchecked.trans_le (hc.checked_le.trans_eq hlength.symm),
    hlength.trans_le hc.fits, hint.1, hint.2⟩

theorem Sound.round (hs : s.1.Sound) : (after (round s)).Sound := by
  rw [round_eq]
  cases hhandled : http_conn.handled s with
  | some c => exact (hs.handled hhandled).handle
  | none => exact hs.parse_line

theorem Sound.next (hs : s.1.Sound) (h : readLoop.body s = .inl t) : t.1.Sound := by
  have hround := hs.round
  rw [show http_conn.round s = .inl t from h] at hround
  exact hround

section

variable (hc : c.Sound)
include hc

theorem Sound.visits (h : readLoop.Visits (c, .LINE_OK) s) : s.1.Sound :=
  h.invariant (P := fun s => s.1.Sound) (fun _ _ => Sound.next) hc

theorem Sound.process_read : c.process_read.2.Sound := by
  obtain ⟨s, hvisits, hdone⟩ := readLoop.exists_visits_done (c, .LINE_OK)
  have hround := (hc.visits hvisits).round
  rw [show http_conn.round s = .inr c.process_read from hdone] at hround
  exact hround

theorem Sound.recvLoop (results : List Recv) : (c.recvLoop results).2.Sound := by
  induction results generalizing c with
  | nil => exact hc
  | cons result results ih =>
    cases result with
    | again => exact hc
    | error => exact hc
    | bytes data =>
      unfold http_conn.recvLoop
      dsimp only
      split
      · exact hc
      · refine ih ⟨hc.start_le, ?_, ?_, hc.low, hc.high⟩
        · have hle := hc.checked_le
          simp only [Scanner.receive, List.length_append]
          omega
        · have hfits := hc.fits
          simp only [Scanner.receive, List.length_append, List.length_take, Scanner.read_index]
          omega

theorem Sound.read {results : List Recv} {received : Bool} (h : c.read results = (received, d)) : d.Sound := by
  unfold http_conn.read at h
  split at h
  · cases h
    exact hc
  · have hloop := hc.recvLoop results
    rw [h] at hloop
    exact hloop

/-- Whatever is received, the indices stay in order. -/
theorem Sound.processes (h : Processes c rounds d) : d.Sound := by
  induction h with
  | now hread => exact hc.read hread
  | later hread hwaits _ ih =>
    have hnext := (hc.read hread).process_read
    rw [hwaits] at hnext
    exact ih hnext

/-- The sum of `parse_content`, which may overflow. -/
theorem Sound.sum_eq : (c.m_content_length + c.checked_index).bmod 4294967296 = c.m_content_length + c.checked_index -
      if c.m_content_length + c.checked_index < 2147483648 then 0 else 4294967296 := by
  obtain ⟨hstart, hchecked, hfits, hlow, hhigh⟩ := hc
  have hsize : READ_BUFFER_SIZE = 2048 := rfl
  rw [Int.bmod_def]
  split <;> split <;> omega

/-- Where the store of `parse_content` goes. -/
theorem Sound.stores_inside_iff (hstate : c.m_check_state = .CONTENT) :
    (∀ i, c.Stores i → 0 ≤ i ∧ i < READ_BUFFER_SIZE) ↔ c.ContentFits := by
  have hsum := hc.sum_eq
  obtain ⟨hstart, hchecked, hfits, hlow, hhigh⟩ := hc
  have hread : c.read_index = c.buffer.length := rfl
  have hsize : READ_BUFFER_SIZE = 2048 := rfl
  constructor
  · intro h
    have hstored : (c.m_content_length + c.checked_index).bmod 4294967296 ≤ c.read_index →
        0 ≤ c.start_line + c.m_content_length ∧ c.start_line + c.m_content_length < READ_BUFFER_SIZE :=
      fun htest => h _ ⟨hstate, htest, rfl⟩
    constructor <;> omega
  · rintro ⟨hpos, hfit, hfull⟩ i ⟨-, htest, rfl⟩
    omega

theorem touches_inside_iff :
    (∀ i, c.Touches i → 0 ≤ i ∧ i < READ_BUFFER_SIZE) ↔ ∀ d, c.CallsContent d → d.ContentFits := by
  constructor
  · rintro h d ⟨s, hvisits, hhandled, hstate⟩
    refine (((hc.visits hvisits).handled hhandled).stores_inside_iff hstate).mp fun i hstores => ?_
    exact h i ⟨s, hvisits, .inr ⟨d, hhandled, hstores⟩⟩
  · rintro h i ⟨s, hvisits, ⟨-, hline⟩ | ⟨d, hhandled, hstores⟩⟩
    · obtain ⟨hpos, hlt⟩ := hline.inside
      have hfits := (hc.visits hvisits).fits
      exact ⟨hpos, by omega⟩
    · have hd := (hc.visits hvisits).handled hhandled
      exact (hd.stores_inside_iff hstores.1).mpr (h d ⟨s, hvisits, hhandled, hstores.1⟩) i hstores

end

/-- A store outside of the array is given up. -/
theorem Stores.handle {i : Int} (h : c.Stores i) (houtside : ¬(0 ≤ i ∧ i < READ_BUFFER_SIZE)) :
    ∃ d, c.handle = .inr (.out_of_bounds, d) := by
  obtain ⟨hstate, htest, rfl⟩ := h
  have hcontent : { c with start_line := c.checked_index : http_conn }.parse_content c.start_line = none :=
    (if_pos htest).trans (if_neg houtside)
  refine ⟨{ c with start_line := c.checked_index }, ?_⟩
  simp only [http_conn.handle, hstate, hcontent]

/-- A store that is given up is one outside of the array. -/
theorem exists_stores_of_handle (h : c.handle = .inr (.out_of_bounds, d)) :
    ∃ i, c.Stores i ∧ ¬(0 ≤ i ∧ i < READ_BUFFER_SIZE) := by
  have hhandle := h
  unfold handle Head.parse_request_line Head.parse_headers parse_content at hhandle
  refine ⟨c.start_line + c.m_content_length, ⟨?_, ?_, rfl⟩, ?_⟩ <;> grind [Scanner.read_index]

theorem exists_touches_of_out_of_bounds (h : c.process_read.1 = .out_of_bounds) :
    ∃ i, c.Touches i ∧ ¬(0 ≤ i ∧ i < READ_BUFFER_SIZE) := by
  obtain ⟨s, hvisits, hdone⟩ := readLoop.exists_visits_done (c, .LINE_OK)
  have hround : round s = .inr (.out_of_bounds, c.process_read.2) := hdone.trans (congrArg Sum.inr (Prod.ext h rfl))
  rw [round_eq] at hround
  cases hhandled : handled s with
  | none =>
    rw [hhandled] at hround
    cases hround
  | some e =>
    rw [hhandled] at hround
    obtain ⟨i, hstores, houtside⟩ := exists_stores_of_handle hround
    exact ⟨i, ⟨s, hvisits, .inr ⟨e, hhandled, hstores⟩⟩, houtside⟩

theorem CallsContent.fits (h : c.CallsContent d) (hc : c.Sound) (hanswer : c.process_read.1 ≠ .out_of_bounds) :
    d.ContentFits := by
  obtain ⟨s, hvisits, hhandled, hstate⟩ := h
  refine (((hc.visits hvisits).handled hhandled).stores_inside_iff hstate).mp fun i hstores => ?_
  by_contra houtside
  obtain ⟨e, hhandle⟩ := hstores.handle houtside
  have hdone : readLoop.body s = .inr (.out_of_bounds, e) := by
    rw [show readLoop.body s = round s from rfl, round_eq, hhandled]
    exact hhandle
  exact hanswer (congrArg Prod.fst (hvisits.run_eq.trans (Loop.run_of_done hdone)))

theorem Processes.serve {rounds : List (List (List UInt8))} (h : c.Processes (rounds.map (List.map .bytes)) d)
    (hanswer : d.process_read.1 = .out_of_bounds) : (c.serve rounds).1 = .out_of_bounds := by
  induction rounds generalizing c with
  | nil => cases h
  | cons pieces rounds ih =>
    cases h with
    | now hread =>
      have hresult : d.process_read = (.out_of_bounds, d.process_read.2) := Prod.ext hanswer rfl
      simp only [http_conn.serve, hread]
      rw [hresult]
    | later hread hwaits hrest =>
      simp only [http_conn.serve, hread, hwaits]
      exact ih hrest

end http_conn

/-- For every sequence of received bytes: the indices that `parse_line` and `parse_content` use are inside of
`m_read_buf` exactly when the announced length fits at each call of `parse_content`. -/
theorem indices_inside_iff (rounds : List (List Recv)) :
    (∀ c i, http_conn.init.Processes rounds c → c.Touches i → 0 ≤ i ∧ i < READ_BUFFER_SIZE) ↔
      ∀ c d, http_conn.init.Processes rounds c → c.CallsContent d → d.ContentFits := by
  constructor
  · intro h c d hc
    exact (http_conn.touches_inside_iff (http_conn.Sound.init.processes hc)).mp (fun i => h c i hc) d
  · intro h c i hc
    exact (http_conn.touches_inside_iff (http_conn.Sound.init.processes hc)).mpr (fun d => h c d hc) i

/-- The length that a request announces fits if its bytes leave room in the array, however they are received. -/
theorem Request.contentFits (r : Request) (rounds : List (List (List UInt8))) {c d : http_conn}
    (hfits : r.bytes.length < READ_BUFFER_SIZE) (hrounds : bytesOf rounds = r.bytes)
    (hne : ∀ pieces ∈ rounds, ∀ data ∈ pieces, data ≠ [])
    (hc : http_conn.init.Processes (rounds.map (List.map .bytes)) c) (hd : c.CallsContent d) : d.ContentFits := by
  refine hd.fits (http_conn.Sound.init.processes hc) fun hanswer => ?_
  have hserve := hc.serve hanswer
  by_cases haccepted : r.Accepted
  · obtain ⟨-, -, hdone | ⟨code, hcode⟩⟩ :=
      r.serve_accepted haccepted hfits.le http_conn.init_inHead hne hrounds.symm r.head_pos
    · rw [hserve, Request.answer, bodyAnswer, if_pos hfits, ite_self] at hdone
      cases hdone
    · rw [hserve] at hcode
      cases hcode
  · have hbad := r.serve_rejected haccepted hfits.le http_conn.init_inHead hne hrounds.symm ⟨_, _, _, readLines_nil⟩
    rw [hserve] at hbad
    cases hbad

/-- A request with a body, which is cut in the middle. -/
theorem indices_inside_two_bytes :
    ∀ c i, http_conn.init.Processes [[.bytes (twoBytes.head ++ ascii "a")], [.bytes (ascii "b")]] c → c.Touches i →
      0 ≤ i ∧ i < READ_BUFFER_SIZE :=
  (indices_inside_iff _).mpr fun _ _ => twoBytes.contentFits [[twoBytes.head ++ ascii "a"], [ascii "b"]]
    (by decide +kernel) (by decide +kernel) (by decide +kernel)

def negativeLength : List UInt8 := ascii "GET / HTTP/1.1\r\nContent-Length: -1000\r\n\r\n"

/-- A negative length lets `parse_content` write in front of the array. -/
theorem negative_length_outside :
    negativeLength.length ≤ READ_BUFFER_SIZE ∧
      ∃ c i, http_conn.init.Processes [[.bytes negativeLength]] c ∧ c.Touches i ∧ ¬(0 ≤ i ∧ i < READ_BUFFER_SIZE) := by
  refine ⟨by decide +kernel, (http_conn.init.read [.bytes negativeLength]).2, ?_⟩
  have hread : (http_conn.init.read [.bytes negativeLength]).1 = true := by decide +kernel
  have hanswer : (http_conn.init.read [.bytes negativeLength]).2.process_read.1 = .out_of_bounds := by decide +kernel
  obtain ⟨i, htouches⟩ := http_conn.exists_touches_of_out_of_bounds hanswer
  exact ⟨i, .now (Prod.ext hread rfl), htouches⟩

end basic_data_struct.http
