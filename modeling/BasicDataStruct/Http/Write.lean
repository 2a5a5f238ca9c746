import BasicDataStruct.Http.Conn
import BasicDataStruct.Stdio.Integer

open socket stdio

namespace basic_data_struct.http

variable {pieces : List (List UInt8)}

abbrev WRITE_BUFFER_SIZE : Nat := 1024

/-- What one call of `writev` takes at most. It is less than `INT_MAX - WRITE_BUFFER_SIZE`, so the counters of
`write` do not overflow. -/
abbrev MAX_RW_COUNT : Nat := 2147479552

def ok_200_title : List UInt8 := ascii "OK"
def error_400_title : List UInt8 := ascii "Bad Request"
def error_400_form : List UInt8 := ascii "Your request has bad syntax or is inherently impossible to satisfy.\n"
def error_403_title : List UInt8 := ascii "Forbidden"
def error_403_form : List UInt8 := ascii "You do not have permission to get file from this server.\n"
def error_404_title : List UInt8 := ascii "Not Found"
def error_404_form : List UInt8 := ascii "The requested file was not found on this server.\n"
def error_500_title : List UInt8 := ascii "Internal Error"
def error_500_form : List UInt8 := ascii "There was an unusual problem serving the requested file.\n"

/-- What `modfd` waits for. -/
inductive EVENT where
  | EPOLLIN
  | EPOLLOUT
deriving DecidableEq

/-- The part of a connection that answers: the bytes of `m_write_buf` up to `m_write_idx`, the file that is mapped at
`m_file_address`, and the bytes of the first `m_iv_count` entries of `m_iv`. -/
structure Reply where
  m_linger : Bool
  m_write_buf : List UInt8
  m_file_address : Option (List UInt8)
  m_iv : List (List UInt8)

namespace Reply

def m_write_idx (r : Reply) : Nat := r.m_write_buf.length

/-- `m_file_stat.st_size` -/
def st_size (r : Reply) : Nat := (r.m_file_address.getD []).length

def init (r : Reply) : Reply := { r with m_linger := false, m_write_buf := [] }

def unmap (r : Reply) : Reply := { r with m_file_address := none }

/-- What `vsnprintf` stores of a text that does not fit lies behind `m_write_idx`. -/
def add_response (r : Reply) (text : List UInt8) : Bool × Reply :=
  if WRITE_BUFFER_SIZE ≤ r.m_write_idx then (false, r)
  else if WRITE_BUFFER_SIZE - 1 - r.m_write_idx ≤ text.length then (false, r)
  else (true, { r with m_write_buf := r.m_write_buf ++ text })

def statusLine (status : Int32) (title : List UInt8) : List UInt8 :=
  ascii "HTTP/1.1" ++ ascii " " ++ integer status.toInt ++ ascii " " ++ title ++ ascii "\r\n"

def add_status_line (r : Reply) (status : Int32) (title : List UInt8) : Bool × Reply :=
  r.add_response (statusLine status title)

def add_content_length (r : Reply) (content_len : Int32) : Bool × Reply :=
  r.add_response (ascii "Content-Length: " ++ integer content_len.toInt ++ ascii "\r\n")

def add_linger (r : Reply) : Bool × Reply :=
  r.add_response (ascii "Connection: " ++ ascii (if r.m_linger then "keep-alive" else "close") ++ ascii "\r\n")

def add_blank_line (r : Reply) : Bool × Reply := r.add_response (ascii "\r\n")

def add_headers (r : Reply) (content_len : Int32) : Reply :=
  let (_, r) := r.add_content_length content_len
  let (_, r) := r.add_linger
  let (_, r) := r.add_blank_line
  r

def add_content (r : Reply) (content : List UInt8) : Bool × Reply := r.add_response content

/-- The cases of `process_write` for an error. -/
def error (r : Reply) (status : Int32) (title form : List UInt8) : Bool × Reply :=
  let (_, r) := r.add_status_line status title
  let r := r.add_headers (.ofNat form.length)
  let (added, r) := r.add_content form
  if added then (true, { r with m_iv := [r.m_write_buf] }) else (false, r)

def process_write (r : Reply) : HTTP_CODE → Bool × Reply
  | .INTERNAL_ERROR => r.error 500 error_500_title error_500_form
  | .BAD_REQUEST => r.error 400 error_400_title error_400_form
  | .NO_RESOURCE => r.error 404 error_404_title error_404_form
  | .FORBIDDEN_REQUEST => r.error 403 error_403_title error_403_form
  | .FILE_REQUEST =>
    let (_, r) := r.add_status_line 200 ok_200_title
    if r.st_size ≠ 0 then
      let r := r.add_headers (.ofNat r.st_size)
      (true, { r with m_iv := [r.m_write_buf, r.m_file_address.getD []] })
    else
      -- The case has no `break`: the content is added, and the default case returns.
      let ok_string := ascii "<html><body></body></html>"
      let r := r.add_headers (.ofNat ok_string.length)
      (false, (r.add_content ok_string).2)
  | _ => (false, r)

/-- What a call of `write` does: its result, the event that it waits for, and the bytes that each of its calls of
`writev` has given to the socket. -/
structure Call where
  result : Bool
  event : Option EVENT
  accepted : List (List UInt8)
  reply : Reply

/-- The bytes that a call of `writev` takes when it can take `n`. -/
def writev (r : Reply) (n : Nat) : List UInt8 := r.m_iv.flatten.take (min n MAX_RW_COUNT)

/-- The loop of `write`, for the results of its calls of `writev`. When they are used up the socket takes no more. -/
def sendLoop (r : Reply) (bytes_to_send bytes_have_send : Int) : List Send → Call
  | [] | .again :: _ => ⟨true, some .EPOLLOUT, [], r⟩
  | .error :: _ => ⟨false, none, [], r.unmap⟩
  | .count n :: results =>
    let temp := r.writev n
    let bytes_to_send := bytes_to_send - temp.length
    let bytes_have_send := bytes_have_send + temp.length
    if bytes_to_send ≤ bytes_have_send then
      if r.m_linger then ⟨true, some .EPOLLIN, [temp], r.unmap.init⟩ else ⟨false, some .EPOLLIN, [temp], r.unmap⟩
    else
      let call := r.sendLoop bytes_to_send bytes_have_send results
      { call with accepted := temp :: call.accepted }

def write (r : Reply) (results : List Send) : Call :=
  if r.m_write_idx = 0 then ⟨true, some .EPOLLIN, [], r.init⟩ else r.sendLoop r.m_write_idx 0 results

/-- The calls of `write` until one does not wait for `EPOLLOUT`, as one call. -/
def writes (r : Reply) : List (List Send) → Call
  | [] => ⟨true, some .EPOLLOUT, [], r⟩
  | results :: calls =>
    let call := r.write results
    if call.event = some .EPOLLOUT then
      let later := call.reply.writes calls
      { later with accepted := call.accepted ++ later.accepted }
    else call

/-- The file that belongs to the response. -/
def file (r : Reply) (ret : HTTP_CODE) : List UInt8 := if ret = .FILE_REQUEST then r.m_file_address.getD [] else []

/-- A header begins with the only `H` in it. -/
def Opens (header : List UInt8) : Prop := ∃ rest, header = 72 :: rest ∧ 72 ∉ rest

section Prepare

variable {r c : Reply} {text title form : List UInt8} {status : Int32} {ret : HTTP_CODE}

@[simp] theorem m_file_address_add_response : (r.add_response text).2.m_file_address = r.m_file_address := by
  unfold add_response
  split
  · rfl
  · split <;> rfl

theorem m_file_address_add_headers (content_len : Int32) :
    (r.add_headers content_len).m_file_address = r.m_file_address := by
  simp only [add_headers, add_content_length, add_linger, add_blank_line, m_file_address_add_response]

theorem not_mem_integer (n : Int) : 72 ∉ integer n := by
  have hdecimal : 72 ∉ decimal n.natAbs := fun h => absurd (isDigit_of_mem_decimal h) (by decide)
  rw [integer]
  split
  · rw [List.mem_cons, not_or]
    exact ⟨by decide, hdecimal⟩
  · exact hdecimal

theorem Opens.add_response (hr : Opens r.m_write_buf) (htext : 72 ∉ text) :
    Opens (r.add_response text).2.m_write_buf := by
  obtain ⟨rest, hbuf, hrest⟩ := hr
  unfold Reply.add_response
  split
  · exact ⟨rest, hbuf, hrest⟩
  · split
    · exact ⟨rest, hbuf, hrest⟩
    · refine ⟨rest ++ text, by simp only [hbuf, List.cons_append], ?_⟩
      rw [List.mem_append, not_or]
      exact ⟨hrest, htext⟩

theorem Opens.add_headers (hr : Opens r.m_write_buf) (content_len : Int32) :
    Opens (r.add_headers content_len).m_write_buf := by
  have hlength : Opens (r.add_content_length content_len).2.m_write_buf := by
    refine hr.add_response ?_
    rw [List.mem_append, List.mem_append, not_or, not_or]
    exact ⟨⟨by decide, not_mem_integer _⟩, by decide⟩
  have hlinger : Opens (r.add_content_length content_len).2.add_linger.2.m_write_buf := by
    refine hlength.add_response ?_
    split <;> decide
  unfold Reply.add_headers
  dsimp only
  exact hlinger.add_response (by decide)

/-- A status line that fits begins the header. -/
theorem opens_add_status_line (hr : r.m_write_buf = [])
    (hline : (statusLine status title).length < WRITE_BUFFER_SIZE - 1 ∧
    (statusLine status title).head? = some 72 ∧ 72 ∉ (statusLine status title).tail) :
    Opens (r.add_status_line status title).2.m_write_buf := by
  obtain ⟨hfits, hhead, htail⟩ := hline
  obtain ⟨rest, hrest⟩ := List.head?_eq_some_iff.mp hhead
  rw [hrest] at htail
  refine ⟨rest, ?_, htail⟩
  have hidx : r.m_write_idx = 0 := congrArg List.length hr
  unfold add_status_line Reply.add_response
  rw [hidx, if_neg (by decide), if_neg (by omega), hr, hrest]
  rfl

theorem error_spec (hline : Opens (r.add_status_line status title).2.m_write_buf) (hform : 72 ∉ form)
    (h : r.error status title form = (true, c)) : Opens c.m_write_buf ∧ c.m_iv.flatten = c.m_write_buf := by
  have hopens := (hline.add_headers (.ofNat form.length)).add_response hform
  unfold error add_content at h
  dsimp only at h
  split at h
  · obtain ⟨-, rfl⟩ := Prod.mk.inj h
    dsimp only
    exact ⟨hopens, by simp only [List.flatten_cons, List.flatten_nil, List.append_nil]⟩
  · exact absurd (Prod.mk.inj h).1 Bool.false_ne_true

theorem file_spec (hline : Opens (r.add_status_line 200 ok_200_title).2.m_write_buf)
    (h : r.process_write .FILE_REQUEST = (true, c)) :
    Opens c.m_write_buf ∧ c.m_iv.flatten = c.m_write_buf ++ r.file .FILE_REQUEST := by
  unfold process_write at h
  dsimp only at h
  split at h
  · obtain ⟨-, rfl⟩ := Prod.mk.inj h
    dsimp only
    refine ⟨hline.add_headers _, ?_⟩
    simp only [file, m_file_address_add_headers, add_status_line, m_file_address_add_response, List.flatten_cons,
      List.flatten_nil, List.append_nil, if_true]
  · exact absurd (Prod.mk.inj h).1 Bool.false_ne_true

/-- What `process_write` prepares in an empty buffer: the header begins with its only `H`, and `m_iv` has the header and
the file. -/
theorem process_write_spec (hr : r.m_write_buf = []) (h : r.process_write ret = (true, c)) :
    Opens c.m_write_buf ∧ c.m_iv.flatten = c.m_write_buf ++ r.file ret := by
  cases ret with
  | INTERNAL_ERROR | BAD_REQUEST | NO_RESOURCE | FORBIDDEN_REQUEST =>
    rw [process_write] at h
    rw [file, if_neg (by decide), List.append_nil]
    exact error_spec (opens_add_status_line hr (by decide +kernel)) (by decide +kernel) h
  | FILE_REQUEST => exact file_spec (opens_add_status_line hr (by decide +kernel)) h
  | NO_REQUEST | GET_REQUEST | CLOSED_CONNECTION => exact absurd (Prod.mk.inj h).1 Bool.false_ne_true

end Prepare

section Send

variable {r : Reply} {results : List Send} {calls : List (List Send)}

/-- Pieces that all start at the beginning. -/
theorem head?_flatten {first : UInt8} {rest : List UInt8}
    (hpieces : ∀ data ∈ pieces, data <+: first :: rest) (hne : pieces.flatten ≠ []) :
    pieces.flatten.head? = some first := by
  induction pieces with
  | nil => exact absurd rfl hne
  | cons data pieces ih =>
    cases data with
    | nil => exact ih (fun data hdata => hpieces data (.tail _ hdata)) hne
    | cons b data =>
      obtain ⟨rfl, -⟩ := List.cons_prefix_cons.mp (hpieces _ (.head _))
      rfl

/-- After a piece that ends inside of the header, pieces from the beginning do not give the rest of the response. -/
theorem Opens.append_flatten_ne {header file piece : List UInt8} (hheader : Opens header)
    (hne : piece ≠ []) (hlt : piece.length < header.length) (hpieces : ∀ data ∈ pieces, data <+: header ++ file) :
    piece ++ pieces.flatten ≠ header ++ file := by
  obtain ⟨rest, rfl, hrest⟩ := hheader
  intro heq
  have hpos : 0 < piece.length := List.length_pos_of_ne_nil hne
  have hleft : pieces.flatten ≠ [] := by
    intro hnil
    have hlength := congrArg List.length heq
    rw [hnil, List.append_nil, List.length_append] at hlength
    omega
  -- The byte behind the piece is the first byte again, and it is a byte of the header.
  have hfirst : (piece ++ pieces.flatten)[piece.length]? = some 72 := by
    rw [List.getElem?_append_right (Nat.le_refl _), Nat.sub_self, ← List.head?_eq_getElem?]
    exact head?_flatten hpieces hleft
  obtain ⟨n, hn⟩ : ∃ n, piece.length = n + 1 := ⟨piece.length - 1, by omega⟩
  rw [heq, List.getElem?_append_left hlt, hn, List.getElem?_cons_succ] at hfirst
  exact hrest (List.mem_of_getElem? hfirst)

theorem writev_start (r : Reply) (n : Nat) : r.writev n <+: r.m_iv.flatten := List.take_prefix _ _

theorem sendLoop_pieces (r : Reply) (results : List Send) (bytes_to_send bytes_have_send : Int) :
    ∀ data ∈ (r.sendLoop bytes_to_send bytes_have_send results).accepted, data <+: r.m_iv.flatten := by
  induction results generalizing bytes_to_send bytes_have_send with
  | nil => exact List.forall_mem_nil _
  | cons result results ih =>
    cases result with
    | again => exact List.forall_mem_nil _
    | error => exact List.forall_mem_nil _
    | count n =>
      have hstart := r.writev_start n
      unfold sendLoop
      dsimp only
      split
      · split
        · exact List.forall_mem_singleton.mpr hstart
        · exact List.forall_mem_singleton.mpr hstart
      · exact List.forall_mem_cons.mpr ⟨hstart, ih _ _⟩

/-- A call that waits leaves everything as it is. -/
theorem sendLoop_waits (r : Reply) (results : List Send) (bytes_to_send bytes_have_send : Int)
    (h : (r.sendLoop bytes_to_send bytes_have_send results).event = some .EPOLLOUT) :
    (r.sendLoop bytes_to_send bytes_have_send results).reply = r := by
  induction results generalizing bytes_to_send bytes_have_send with
  | nil => rfl
  | cons result results ih =>
    cases result with
    | again => rfl
    | error => cases h
    | count n =>
      unfold sendLoop at h ⊢
      dsimp only at h ⊢
      split at h
      · split at h <;> cases h
      next hmore =>
        rw [if_neg hmore]
        exact ih _ _ h

/-- Some bytes are accepted, and the first piece of them is the last one or is smaller than the header. -/
def Call.Begins (call : Call) (m_write_idx : Nat) : Prop :=
  ∃ empties piece rest, call.accepted = empties ++ piece :: rest ∧ (∀ data ∈ empties, data = []) ∧ piece ≠ [] ∧
    (rest = [] ∧ call.event = some .EPOLLIN ∨ piece.length < m_write_idx)

/-- No bytes are accepted. -/
def Call.Idle (call : Call) : Prop := call.event ≠ some .EPOLLIN ∧ ∀ data ∈ call.accepted, data = []

/-- A send loop accepts nothing, or its first piece is the last one or short of the header. -/
theorem sendLoop_begins_or_idle (hpos : 0 < r.m_write_idx) (results : List Send) :
    (r.sendLoop r.m_write_idx 0 results).Begins r.m_write_idx ∨ (r.sendLoop r.m_write_idx 0 results).Idle := by
  induction results with
  | nil => exact .inr ⟨by rintro ⟨⟩, List.forall_mem_nil _⟩
  | cons result results ih =>
    cases result with
    | again => exact .inr ⟨by rintro ⟨⟩, List.forall_mem_nil _⟩
    | error => exact .inr ⟨by rintro ⟨⟩, List.forall_mem_nil _⟩
    | count n =>
      unfold sendLoop
      dsimp only
      by_cases hempty : r.writev n = []
      · -- The counters stay.
        rw [hempty, List.length_nil, if_neg (by omega), Int.ofNat_zero, Int.sub_zero, Int.add_zero]
        rcases ih with ⟨empties, piece, rest, haccepted, hempties, hpiece⟩ | ⟨hevent, hempties⟩
        · refine .inl ⟨[] :: empties, piece, rest, by rw [haccepted]; rfl, ?_, hpiece⟩
          exact List.forall_mem_cons.mpr ⟨rfl, hempties⟩
        · exact .inr ⟨hevent, List.forall_mem_cons.mpr ⟨rfl, hempties⟩⟩
      · refine .inl ⟨[], r.writev n, ?_⟩
        split
        · split
          · exact ⟨[], rfl, List.forall_mem_nil _, hempty, .inl ⟨rfl, rfl⟩⟩
          · exact ⟨[], rfl, List.forall_mem_nil _, hempty, .inl ⟨rfl, rfl⟩⟩
        next hmore => exact ⟨_, rfl, List.forall_mem_nil _, hempty, .inr (by omega)⟩

theorem write_eq (hpos : 0 < r.m_write_idx) (results : List Send) :
    r.write results = r.sendLoop r.m_write_idx 0 results := if_neg (Nat.ne_of_gt hpos)

theorem writes_pieces (hpos : 0 < r.m_write_idx) (calls : List (List Send)) :
    ∀ data ∈ (r.writes calls).accepted, data <+: r.m_iv.flatten := by
  induction calls with
  | nil => exact List.forall_mem_nil _
  | cons results calls ih =>
    have hcall := r.sendLoop_pieces results r.m_write_idx 0
    unfold writes
    dsimp only
    rw [write_eq hpos]
    split
    next hwaits =>
      rw [sendLoop_waits r results _ _ hwaits]
      exact List.forall_mem_append.mpr ⟨hcall, ih⟩
    · exact hcall

theorem writes_begins (hpos : 0 < r.m_write_idx) (hdone : (r.writes calls).event = some .EPOLLIN) :
    (r.writes calls).Begins r.m_write_idx := by
  induction calls with
  | nil => cases hdone
  | cons results calls ih =>
    have hcall := sendLoop_begins_or_idle hpos results
    unfold writes at hdone ⊢
    dsimp only at hdone ⊢
    rw [write_eq hpos] at hdone ⊢
    split at hdone
    next hwaits =>
      rw [sendLoop_waits r results _ _ hwaits] at hdone ⊢
      rw [if_pos hwaits]
      rcases hcall with ⟨empties, piece, rest, haccepted, hempties, hpiece, hsize⟩ | ⟨-, hidle⟩
      · refine ⟨empties, piece, rest ++ (r.writes calls).accepted, ?_, hempties, hpiece, .inr ?_⟩
        · rw [haccepted, List.append_assoc, List.cons_append]
        · rcases hsize with ⟨-, hevent⟩ | hlt
          · rw [hwaits] at hevent
            cases hevent
          · exact hlt
      · obtain ⟨empties, piece, rest, haccepted, hempties, hpiece⟩ := ih hdone
        refine ⟨(r.sendLoop r.m_write_idx 0 results).accepted ++ empties, piece, rest, ?_, ?_, hpiece⟩
        · rw [haccepted, List.append_assoc]
        · exact List.forall_mem_append.mpr ⟨hidle, hempties⟩
    next hwaits =>
      rw [if_neg hwaits]
      rcases hcall with hbegins | ⟨hevent, -⟩
      · exact hbegins
      · exact absurd hdone hevent

end Send

end Reply

/-- For every response that `process_write` prepares and all results of `writev` with which `write` finishes it: the
socket has accepted the header and the file exactly when the first call of `writev` that takes any bytes takes them
all. -/
theorem delivers_iff {r c : Reply} {ret : HTTP_CODE} (hr : r.m_write_buf = [])
    (hprepared : r.process_write ret = (true, c)) {calls : List (List Send)}
    (hdone : (c.writes calls).event = some .EPOLLIN) :
    (c.writes calls).accepted.flatten = c.m_write_buf ++ r.file ret ↔
      (c.writes calls).accepted.find? (· ≠ []) = some (c.m_write_buf ++ r.file ret) := by
  obtain ⟨hopens, hiv⟩ := Reply.process_write_spec hr hprepared
  have hpos : 0 < c.m_write_idx := by
    obtain ⟨rest, hbuf, -⟩ := hopens
    rw [Reply.m_write_idx, hbuf]
    exact Nat.succ_pos _
  have hpieces := Reply.writes_pieces hpos calls
  obtain ⟨empties, piece, rest, haccepted, hempties, hpiece, hsize⟩ := Reply.writes_begins hpos hdone
  rw [haccepted, hiv] at hpieces
  have hflatten : (empties ++ piece :: rest).flatten = piece ++ rest.flatten := by
    rw [List.flatten_append, List.flatten_eq_nil_iff.mpr hempties, List.nil_append, List.flatten_cons]
  have hfind : (empties ++ piece :: rest).find? (· ≠ []) = some piece := by
    rw [List.find?_append, List.find?_eq_none.mpr (by simpa using hempties), Option.none_or,
      List.find?_cons_of_pos (by simpa using hpiece)]
  rw [haccepted, hflatten, hfind, Option.some_inj]
  rcases hsize with ⟨rfl, -⟩ | hlt
  · rw [List.flatten_nil, List.append_nil]
  · constructor
    · intro heq
      refine absurd heq (hopens.append_flatten_ne hpiece hlt fun data hdata => ?_)
      exact hpieces data (List.mem_append_right _ (.tail _ hdata))
    · intro heq
      have hlength := congrArg List.length heq
      rw [List.length_append] at hlength
      rw [Reply.m_write_idx] at hlt
      omega

def helloFile : Reply where
  m_linger := true
  m_write_buf := []
  m_file_address := some (ascii "hello")
  m_iv := []

/-- A socket that is full at first and then takes everything. -/
theorem delivers_hello_file :
    ((helloFile.process_write .FILE_REQUEST).2.writes [[.again], [.count 100]]).accepted.flatten =
      (helloFile.process_write .FILE_REQUEST).2.m_write_buf ++ helloFile.file .FILE_REQUEST := by
  have hprepared : helloFile.process_write .FILE_REQUEST = (true, (helloFile.process_write .FILE_REQUEST).2) :=
    Prod.ext (by decide +kernel) rfl
  refine (delivers_iff rfl hprepared ?_).mpr ?_
  · decide +kernel
  · decide +kernel

/-- A socket that takes the header and nothing of the file. -/
theorem not_delivers_hello_file :
    helloFile.m_write_buf = [] ∧ (helloFile.process_write .FILE_REQUEST).1 = true ∧
      ((helloFile.process_write .FILE_REQUEST).2.writes [[.count 62]]).event = some .EPOLLIN ∧
      ((helloFile.process_write .FILE_REQUEST).2.writes [[.count 62]]).accepted.flatten ≠
        (helloFile.process_write .FILE_REQUEST).2.m_write_buf ++ helloFile.file .FILE_REQUEST := by
  refine ⟨rfl, ?_, ?_, ?_⟩ <;> decide +kernel

end basic_data_struct.http
