import BasicDataStruct.Machine.Exec
import BasicDataStruct.Stdio.CString
import BasicDataStruct.Stdio.Integer

open machine stdio

namespace basic_data_struct.download

variable {p : Pieces} {url : List UInt8}

abbrev COLON : UInt8 := 58

abbrev SLASH : UInt8 := 47

/-- A scanning loop of `parse_url` on the string from `url[i]` on, with its terminator. It copies into an array with
`room` bytes left. Returns what it copies and the string from the character that stops it. To read past the terminator
and to store past the array are faults. -/
def scanPiece (stops : List UInt8) : (room : Nat) → List UInt8 → Except Fault (List UInt8 × List UInt8)
  | _, [] => .error .bounds
  | room, c :: rest =>
    if c ∈ stops then return ([], c :: rest)
    else if room = 0 then .error .bounds
    else do
      let (piece, rest) ← scanPiece stops (room - 1) rest
      return (c :: piece, rest)

/-- The local arrays of `parse_url` after its loops. There is a port only behind a colon. -/
structure Pieces where
  schema : List UInt8
  host : List UInt8
  port : Option (List UInt8)
  file : List UInt8
deriving DecidableEq

/-- The loop for the port, if there is one. -/
def scanPort (url : List UInt8) : Except Fault (Option (List UInt8) × List UInt8) := do
  if url.head? = some COLON then
    let (port, url) ← scanPiece [SLASH] 8 url.tail
    return (some port, url)
  else return (none, url)

def scanFile (url : List UInt8) : Except Fault (List UInt8) := do
  if url.head? ≠ some 0 then
    let (file, _) ← scanPiece [0] 256 url
    return file
  else return [SLASH]

/-- The loops behind the schema. -/
def scanLocation (schema url : List UInt8) : Except Fault Pieces := do
  let (host, url) ← scanPiece [COLON, SLASH, 0] 256 url
  let (port, url) ← scanPort url
  let file ← scanFile url
  return { schema, host, port, file }

/-- The scanning loops of `parse_url`, with the locals `schema[8]`, `host[256]`, `port[8]` and `file[256]`. -/
def scan_url (url : List UInt8) : Except Fault Pieces := do
  let (schema, url) ← scanPiece [COLON] 8 (url ++ [0])
  scanLocation schema (url.drop 3)

/-- The pieces leave room for their terminators, which `strcpy`, `sscanf` and `gethostbyname` look for. -/
structure Pieces.Fit (p : Pieces) : Prop where
  schema : p.schema.length < 8
  host : p.host.length < 256
  port : ∀ port ∈ p.port, port.length < 8
  file : p.file.length < 256

instance (p : Pieces) : Decidable p.Fit :=
  decidable_of_iff (p.schema.length < 8 ∧ p.host.length < 256 ∧ (∀ port ∈ p.port, port.length < 8) ∧
    p.file.length < 256) ⟨fun h => ⟨h.1, h.2.1, h.2.2.1, h.2.2.2⟩, fun h => ⟨h.schema, h.host, h.port, h.file⟩⟩

/-- The address and the port are missing where `parse_url` does not assign them. -/
structure URLInfo where
  schema : List UInt8
  host : Option (List UInt8)
  host_name : List UInt8
  port : Option UInt32
  file : List UInt8

/-- The text of the address that is found for a name. -/
abbrev Resolver := List UInt8 → Option (List UInt8)

/-- `sscanf(port, "%d", &url_info.port)`, or the default. -/
def Pieces.portNumber (p : Pieces) : Option UInt32 :=
  match p.port with
  | some port => (scanInteger port).map fun n => (Int32.ofInt n.1).toUInt32
  | none => some 80

def parse_url (gethostbyname : Resolver) (url : List UInt8) : Except Fault URLInfo := do
  let p ← scan_url url
  if p.Fit then
    return {
      schema := p.schema, host := gethostbyname p.host, host_name := p.host, port := p.portNumber, file := p.file }
  else .error .bounds

/-- `sprintf(old_url, "%s://%s:%d%s", ..)` of `get_resource`. -/
def urlText (schema host_name : List UInt8) (port : Int) (file : List UInt8) : List UInt8 :=
  schema ++ (ascii "://" ++ (host_name ++ (COLON :: (integer port ++ file))))

section Scan

variable {stops piece rest url : List UInt8} {room : Nat}

theorem bind_eq_ok_iff {α β : Type} {x : Except Fault α} {f : α → Except Fault β} {b : β} :
    x >>= f = .ok b ↔ ∃ a, x = .ok a ∧ f a = .ok b := by
  cases x with
  | error e => simp [bind, Except.bind]
  | ok a => simp [bind, Except.bind]

/-- A loop stops at the first of its characters, if the array takes what is before it. -/
theorem scanPiece_append (hpiece : ∀ b ∈ piece, b ∉ stops) {c : UInt8} (hc : c ∈ stops) (hroom : piece.length ≤ room) :
    scanPiece stops room (piece ++ c :: rest) = .ok (piece, c :: rest) := by
  induction piece generalizing room with
  | nil =>
    rw [List.nil_append, scanPiece, if_pos hc]
    rfl
  | cons b piece ih =>
    rw [List.length_cons] at hroom
    have hrest : scanPiece stops (room - 1) (piece ++ c :: rest) = .ok (piece, c :: rest) :=
      ih (fun x hx => hpiece x (List.mem_cons_of_mem b hx)) (by omega)
    have hspace : room ≠ 0 := by omega
    rw [List.cons_append, scanPiece, if_neg (hpiece b List.mem_cons_self), if_neg hspace, hrest]
    rfl

/-- A loop that ends has found one of its characters behind a piece for which there was room. -/
theorem scanPiece_eq_ok (hscan : scanPiece stops room url = .ok (piece, rest)) :
    ∃ c tail, rest = c :: tail ∧ c ∈ stops ∧ url = piece ++ c :: tail ∧ (∀ b ∈ piece, b ∉ stops) ∧
      piece.length ≤ room := by
  induction url generalizing room piece with
  | nil => exact nomatch hscan
  | cons b url ih =>
    rw [scanPiece] at hscan
    by_cases hb : b ∈ stops
    · rw [if_pos hb] at hscan
      cases hscan
      exact ⟨b, url, rfl, hb, rfl, by simp, Nat.zero_le _⟩
    rw [if_neg hb] at hscan
    by_cases hspace : room = 0
    · rw [if_pos hspace] at hscan
      exact nomatch hscan
    · rw [if_neg hspace] at hscan
      obtain ⟨found, hrest, hend⟩ := bind_eq_ok_iff.mp hscan
      cases hend
      obtain ⟨c, tail, htail, hc, rfl, hpiece, hroom⟩ := ih hrest
      exact ⟨c, tail, htail, hc, rfl, List.forall_mem_cons.mpr ⟨hb, hpiece⟩, by rw [List.length_cons]; omega⟩

end Scan

section Location

variable {schema host port file text : List UInt8}

/-- A host name in a string. -/
def IsHost (host : List UInt8) : Prop := ∀ b ∈ host, b ∉ [COLON, SLASH, 0]

instance (host : List UInt8) : Decidable (IsHost host) := List.decidableBAll (· ∉ [COLON, SLASH, 0]) host

theorem notMem_singleton {b : UInt8} (h : b ∉ text) : ∀ c ∈ text, c ∉ [b] :=
  fun _ hc => mt List.mem_singleton.mp fun heq => h (heq ▸ hc)

theorem scanFile_slash (hfile : 0 ∉ file) (hlength : (SLASH :: file).length ≤ 256) :
    scanFile (SLASH :: file ++ [0]) = .ok (SLASH :: file) := by
  have hne : (SLASH :: file ++ [0]).head? ≠ some 0 := fun h => absurd (Option.some_inj.mp h) (by decide)
  have hbytes : 0 ∉ SLASH :: file := fun h => (List.mem_cons.mp h).elim (by decide) hfile
  have hscan : scanPiece [0] 256 (SLASH :: file ++ [0]) = .ok (SLASH :: file, [0]) :=
    scanPiece_append (notMem_singleton hbytes) List.mem_cons_self hlength
  rw [scanFile, if_pos hne, hscan]
  rfl

/-- A host alone. -/
theorem scanLocation_host (schema : List UInt8) (hhost : IsHost host) (hlength : host.length ≤ 256) :
    scanLocation schema (host ++ [0]) = .ok ⟨schema, host, none, [SLASH]⟩ := by
  rw [scanLocation, scanPiece_append hhost (by simp) hlength]
  rfl

/-- A host and a file. -/
theorem scanLocation_file (schema : List UInt8) (hhost : IsHost host) (hhost_length : host.length ≤ 256)
    (hfile : 0 ∉ file) (hfile_length : (SLASH :: file).length ≤ 256) :
    scanLocation schema (host ++ SLASH :: file ++ [0]) = .ok ⟨schema, host, none, SLASH :: file⟩ := by
  have hscan : scanPiece [COLON, SLASH, 0] 256 (host ++ SLASH :: file ++ [0]) = .ok (host, SLASH :: file ++ [0]) := by
    rw [List.append_assoc]
    exact scanPiece_append hhost (by simp) hhost_length
  have hport : scanPort (SLASH :: file ++ [0]) = .ok (none, SLASH :: file ++ [0]) := rfl
  rw [scanLocation, hscan]
  simp only [bind, Except.bind, hport, scanFile_slash hfile hfile_length]
  rfl

/-- A host, a port and a file. -/
theorem scanLocation_port (schema : List UInt8) (hhost : IsHost host) (hhost_length : host.length ≤ 256)
    (hport : SLASH ∉ port) (hport_length : port.length ≤ 8) (hfile : 0 ∉ file)
    (hfile_length : (SLASH :: file).length ≤ 256) :
    scanLocation schema (host ++ COLON :: (port ++ SLASH :: file) ++ [0]) =
      .ok ⟨schema, host, some port, SLASH :: file⟩ := by
  have hscan : scanPort (COLON :: (port ++ SLASH :: (file ++ [0]))) = .ok (some port, SLASH :: file ++ [0]) := by
    have hpiece : scanPiece [SLASH] 8 (port ++ SLASH :: (file ++ [0])) = .ok (port, SLASH :: (file ++ [0])) :=
      scanPiece_append (notMem_singleton hport) List.mem_cons_self hport_length
    rw [scanPort, if_pos List.head?_cons, List.tail_cons, hpiece]
    rfl
  have htext : host ++ COLON :: (port ++ SLASH :: file) ++ [0] = host ++ COLON :: (port ++ SLASH :: (file ++ [0])) := by
    simp
  rw [scanLocation, htext, scanPiece_append hhost List.mem_cons_self hhost_length]
  simp only [bind, Except.bind, hscan, scanFile_slash hfile hfile_length]
  rfl

/-- The terminator is the only NUL. -/
theorem eq_of_append_zero (htext : 0 ∉ text) (before after : List UInt8) (h : text ++ [0] = before ++ 0 :: after) :
    text = before := by
  rcases List.eq_nil_or_concat' after with rfl | ⟨after, b, rfl⟩
  · exact List.append_cancel_right h
  · rw [← List.cons_append, ← List.append_assoc] at h
    have hinside : text = before ++ 0 :: after := (List.append_inj' h rfl).1
    exact absurd (hinside ▸ List.mem_append_right before List.mem_cons_self) htext

theorem scanFile_eq_ok {tail found : List UInt8} (h : scanFile (SLASH :: tail) = .ok found) :
    ∃ file after, tail = file ++ 0 :: after ∧ (SLASH :: file).length ≤ 256 := by
  have hne : (SLASH :: tail).head? ≠ some 0 := fun h => absurd (Option.some_inj.mp h) (by decide)
  rw [scanFile, if_pos hne] at h
  obtain ⟨⟨piece, rest⟩, hscan, _⟩ := bind_eq_ok_iff.mp h
  obtain ⟨c, after, _, hc, htail, _, hroom⟩ := scanPiece_eq_ok hscan
  obtain rfl := List.mem_singleton.mp hc
  cases piece with
  | nil => exact absurd (List.cons.inj htail).1 (by decide)
  | cons b file =>
    cases htail
    exact ⟨file, after, rfl, hroom⟩

/-- The part of a string behind `schema://`: a host, and behind it a file or a port and a file. Each of them fits into
its array. -/
inductive Located : List UInt8 → Prop
  | host {host : List UInt8} : IsHost host → host.length ≤ 256 → Located host
  | file {host file : List UInt8} : IsHost host → host.length ≤ 256 → (SLASH :: file).length ≤ 256 →
      Located (host ++ SLASH :: file)
  | port {host port file : List UInt8} : IsHost host → host.length ≤ 256 → SLASH ∉ port → port.length ≤ 8 →
      (SLASH :: file).length ≤ 256 → Located (host ++ COLON :: (port ++ SLASH :: file))

/-- Only a located text is read without an overrun. -/
theorem located_of_scanLocation (htext : 0 ∉ text) (h : scanLocation schema (text ++ [0]) = .ok p) :
    Located text := by
  obtain ⟨⟨host, _⟩, hscan, h⟩ := bind_eq_ok_iff.mp h
  obtain ⟨c, tail, rfl, hc, htail, hhost, hhost_length⟩ := scanPiece_eq_ok hscan
  obtain ⟨⟨port?, rest⟩, hport, h⟩ := bind_eq_ok_iff.mp h
  obtain ⟨found, hfile, _⟩ := bind_eq_ok_iff.mp h
  rcases List.mem_cons.mp hc with rfl | hc
  · rw [scanPort, if_pos List.head?_cons] at hport
    obtain ⟨⟨port, _⟩, hscan, hend⟩ := bind_eq_ok_iff.mp hport
    obtain ⟨c, tail, rfl, hc, rfl, hpiece, hport_length⟩ := scanPiece_eq_ok hscan
    obtain rfl := List.mem_singleton.mp hc
    cases hend
    obtain ⟨file, after, rfl, hfile_length⟩ := scanFile_eq_ok hfile
    rw [eq_of_append_zero htext (host ++ COLON :: (port ++ SLASH :: file)) after (htail.trans (by simp))]
    exact .port hhost hhost_length (fun h => hpiece _ h List.mem_cons_self) hport_length hfile_length
  rcases List.mem_cons.mp hc with rfl | hc
  · cases hport
    obtain ⟨file, after, rfl, hfile_length⟩ := scanFile_eq_ok hfile
    rw [eq_of_append_zero htext (host ++ SLASH :: file) after (htail.trans (by simp))]
    exact .file hhost hhost_length hfile_length
  · obtain rfl := List.mem_singleton.mp hc
    rw [eq_of_append_zero htext host tail htail]
    exact .host hhost hhost_length

theorem Located.scanLocation (schema : List UInt8) (htext : 0 ∉ text) (h : Located text) :
    ∃ p, scanLocation schema (text ++ [0]) = .ok p := by
  cases h with
  | host hhost hlength => exact ⟨_, scanLocation_host schema hhost hlength⟩
  | file hhost hhost_length hfile_length =>
    have hfile := fun h0 => htext (List.mem_append_right _ (List.mem_cons_of_mem _ h0))
    exact ⟨_, scanLocation_file schema hhost hhost_length hfile hfile_length⟩
  | port hhost hhost_length hport hport_length hfile_length =>
    have hfile := fun h0 =>
      htext (List.mem_append_right _ (List.mem_cons_of_mem _ (List.mem_append_right _ (List.mem_cons_of_mem _ h0))))
    exact ⟨_, scanLocation_port schema hhost hhost_length hport hport_length hfile hfile_length⟩

end Location

/-- A string that `parse_url` can scan: a schema of at most eight characters before a colon, at least two more
characters, which it skips, and a location behind them. -/
def Scannable (url : List UInt8) : Prop :=
  ∃ schema rest, url = schema ++ COLON :: rest ∧ COLON ∉ schema ∧ schema.length ≤ 8 ∧ 2 ≤ rest.length ∧
    Located (rest.drop 2)

section Url

variable {schema rest : List UInt8}

/-- The schema and the two characters that are skipped behind its colon. -/
theorem scan_url_schema (hschema : COLON ∉ schema) (hlength : schema.length ≤ 8) (hrest : 2 ≤ rest.length) :
    scan_url (schema ++ COLON :: rest) = scanLocation schema (rest.drop 2 ++ [0]) := by
  have hscan : scanPiece [COLON] 8 (schema ++ COLON :: rest ++ [0]) = .ok (schema, COLON :: (rest ++ [0])) := by
    rw [List.append_assoc]
    exact scanPiece_append (notMem_singleton hschema) List.mem_cons_self hlength
  rw [scan_url, hscan]
  simp only [bind, Except.bind, List.drop_succ_cons]
  rw [List.drop_append_of_le_length hrest]

theorem notMem_drop_two (h : 0 ∉ schema ++ COLON :: rest) : 0 ∉ rest.drop 2 :=
  fun h0 => h (List.mem_append_right _ (List.mem_cons_of_mem _ (List.mem_of_mem_drop h0)))

theorem scannable_of_scan_url (hurl : 0 ∉ url) (h : scan_url url = .ok p) : Scannable url := by
  obtain ⟨⟨schema, _⟩, hscan, hlocation⟩ := bind_eq_ok_iff.mp h
  obtain ⟨c, tail, rfl, hc, htail, hschema, hschema_length⟩ := scanPiece_eq_ok hscan
  obtain rfl := List.mem_singleton.mp hc
  rcases List.eq_nil_or_concat' tail with rfl | ⟨rest, b, rfl⟩
  · exact absurd (List.append_inj' htail rfl).2 (by decide)
  have hparts : url = schema ++ COLON :: rest ∧ [0] = [b] := List.append_inj' (htail.trans (by simp)) rfl
  obtain ⟨rfl, hb⟩ := hparts
  obtain rfl := (List.singleton_inj.mp hb).symm
  change scanLocation schema ((COLON :: (rest ++ [0])).drop 3) = .ok p at hlocation
  rcases Nat.lt_or_ge rest.length 2 with hshort | hrest
  · -- the loop for the host starts behind the terminator
    have hdrop : (COLON :: (rest ++ [0])).drop 3 = [] := List.drop_eq_nil_of_le (by simp; omega)
    rw [hdrop] at hlocation
    exact nomatch hlocation
  · rw [List.drop_succ_cons, List.drop_append_of_le_length hrest] at hlocation
    exact ⟨schema, rest, rfl, fun h => hschema _ h List.mem_cons_self, hschema_length, hrest,
      located_of_scanLocation (notMem_drop_two hurl) hlocation⟩

/-- The loops of `parse_url` end inside of the string and of their arrays exactly if it can be scanned. -/
theorem scan_url_inside_iff (url : List UInt8) (hurl : 0 ∉ url) : (∃ p, scan_url url = .ok p) ↔ Scannable url := by
  constructor
  · rintro ⟨p, hp⟩
    exact scannable_of_scan_url hurl hp
  · rintro ⟨schema, rest, rfl, hschema, hlength, hrest, hlocated⟩
    rw [scan_url_schema hschema hlength hrest]
    exact hlocated.scanLocation schema (notMem_drop_two hurl)

/-- A string with all parts, and with a schema that fills its array. -/
theorem scan_url_inside_port : ∃ p, scan_url (ascii "httptest://h:8080/f") = .ok p :=
  (scan_url_inside_iff (ascii "httptest://h:8080/f") (by decide)).mpr
    ⟨ascii "httptest", ascii "//h:8080/f", rfl, by decide, by decide, by decide,
      @Located.port (ascii "h") (ascii "8080") (ascii "f") (by decide) (by decide) (by decide) (by decide) (by decide)⟩

/-- The port takes the rest of the string, and its loop does not stop at the terminator. -/
theorem scan_url_port_only : scan_url (ascii "http://h:80") = .error .bounds := by
  decide

end Url

section Printed

variable {schema host_name file : List UInt8}

theorem slash_notMem_decimal (n : Nat) : SLASH ∉ decimal n :=
  fun h => absurd (isDigit_of_mem_decimal h) (by decide)

theorem portNumber_decimal (schema host file : List UInt8) (n : Nat) :
    (Pieces.mk schema host (some (decimal n)) file).portNumber = some (UInt32.ofNat n) := by
  have hscan : scanInteger (decimal n ++ []) = some (↑n, []) := integer_natCast n ▸ scanInteger_integer n (by simp)
  have hbits : (Int32.ofInt n).toUInt32 = UInt32.ofNat n :=
    UInt32.toBitVec_inj.mp (BitVec.ofInt_natCast 32 n)
  rw [List.append_nil] at hscan
  rw [← hbits]
  exact congrArg (Option.map fun n => (Int32.ofInt n.1).toUInt32) hscan

theorem parse_url_of_scan (gethostbyname : Resolver) (h : scan_url url = .ok p)
    (hfit : p.Fit) : parse_url gethostbyname url = .ok ⟨p.schema, gethostbyname p.host, p.host, p.portNumber,
    p.file⟩ := by
  rw [parse_url, h]
  exact if_pos hfit

/-- `://` leaves the part behind it. -/
theorem scan_url_location (hschema : COLON ∉ schema) (hlength : schema.length ≤ 8) (location : List UInt8) :
    scan_url (schema ++ (ascii "://" ++ location)) = scanLocation schema (location ++ [0]) :=
  scan_url_schema hschema hlength (show 2 ≤ (SLASH :: SLASH :: location).length by simp)

/-- The parts of a string that `get_resource` prints come back, and a missing port and a missing file have their
defaults. -/
theorem parse_url_parts (gethostbyname : Resolver) (port : Nat) (hschema : COLON ∉ schema)
    (hschema_length : schema.length ≤ 7)
    (hhost : IsHost host_name) (hhost_length : host_name.length ≤ 255) (hport : port ≤ 65535)
    (hfile : 0 ∉ file) (hfile_length : (SLASH :: file).length ≤ 255) :
    parse_url gethostbyname (urlText schema host_name port (SLASH :: file)) =
        .ok ⟨schema, gethostbyname host_name, host_name, some (UInt32.ofNat port), SLASH :: file⟩ ∧
      parse_url gethostbyname (schema ++ (ascii "://" ++ (host_name ++ SLASH :: file))) =
        .ok ⟨schema, gethostbyname host_name, host_name, some 80, SLASH :: file⟩ ∧
      parse_url gethostbyname (schema ++ (ascii "://" ++ host_name)) =
        .ok ⟨schema, gethostbyname host_name, host_name, some 80, [SLASH]⟩ := by
  have hlocation := scan_url_location hschema (Nat.le_succ_of_le hschema_length)
  have hhost_room := Nat.le_succ_of_le hhost_length
  have hfile_room := Nat.le_succ_of_le hfile_length
  have hschema_fit := Nat.lt_succ_of_le hschema_length
  have hhost_fit := Nat.lt_succ_of_le hhost_length
  have hfile_fit := Nat.lt_succ_of_le hfile_length
  refine ⟨?_, ?_, ?_⟩
  · have hlength : (decimal port).length ≤ 5 := length_decimal_le (by decide) (by omega)
    have hscan := scanLocation_port schema hhost hhost_room (slash_notMem_decimal port) (by omega) hfile hfile_room
    have hport_fit : ∀ text ∈ some (decimal port), text.length < 8 := by
      rintro _ ⟨⟩
      omega
    rw [urlText, integer_natCast, parse_url_of_scan gethostbyname ((hlocation _).trans hscan)
      ⟨hschema_fit, hhost_fit, hport_fit, hfile_fit⟩, portNumber_decimal]
  · have hscan := scanLocation_file schema hhost hhost_room hfile hfile_room
    exact parse_url_of_scan gethostbyname ((hlocation _).trans hscan)
      ⟨hschema_fit, hhost_fit, nofun, hfile_fit⟩
  · have hscan := scanLocation_host schema hhost hhost_room
    exact parse_url_of_scan gethostbyname ((hlocation _).trans hscan)
      ⟨hschema_fit, hhost_fit, nofun, show [SLASH].length < 256 by decide⟩

/-- A name whose address is not found. -/
theorem parse_url_parts_www :
    parse_url (fun _ => none) (urlText (ascii "http") (ascii "www.a.b") (8080 : Nat) (SLASH :: ascii "c")) =
        .ok ⟨ascii "http", none, ascii "www.a.b", some 8080, SLASH :: ascii "c"⟩ ∧
      parse_url (fun _ => none) (ascii "http" ++ (ascii "://" ++ (ascii "www.a.b" ++ SLASH :: ascii "c"))) =
        .ok ⟨ascii "http", none, ascii "www.a.b", some 80, SLASH :: ascii "c"⟩ ∧
      parse_url (fun _ => none) (ascii "http" ++ (ascii "://" ++ ascii "www.a.b")) =
        .ok ⟨ascii "http", none, ascii "www.a.b", some 80, [SLASH]⟩ :=
  parse_url_parts (fun _ => none) 8080 (by decide) (by decide) (by decide) (by decide) (by decide)
    (by decide) (by decide)

end Printed

end basic_data_struct.download
