import HaexVault.Lib.Words
import HaexVault.PeerStorage.Writes
/-!
# Range reads (`peer_storage/handlers.rs`, `client.rs`, `streaming/peer_source.rs`)

`stream_file_to_send` announces and streams a half-open range of a file, `remote_read_range_bytes`
asks for an inclusive one. The server subtracts unchecked, so some ranges announce almost 2^64 bytes;
the client accepts whatever is announced up to the length it asked for.
-/

namespace HaexVault.PeerStorage

open HaexVault.Lib HaexVault.Lib.Words

/-! ## The server -/

def chunkSize : Nat := 1024 * 1024

inductive PointerWidth where
  | bits32
  | bits64

def PointerWidth.values : PointerWidth → Nat
  | bits32 => 2 ^ 32
  | bits64 => 2 ^ 64

structure ServedFile where
  /-- Its bytes when its length is taken. -/
  held : List UInt8
  /-- Its bytes when it is read. -/
  now : List UInt8
  /-- What the system says of a seek to an offset that is no `off_t`. -/
  seekError : String
  /-- A length is an `off_t`. -/
  small : held.length < 2 ^ 63 ∧ now.length < 2 ^ 63

def ServedFile.size (file : ServedFile) : UInt64 := UInt64.ofNat file.held.length

def readRange (fileSize : UInt64) : Option (UInt64 × UInt64) → UInt64 × UInt64
  | some (start, stop) =>
    let stop := min stop fileSize
    (start, stop - start)
  | none => (0, fileSize)

/-- The reader task of `pipe_reader_to_send`: each read gives as many bytes as the system has at once. What remains is cast to
`usize`, and a read of no bytes ends the task. -/
def readTask (width : PointerWidth) (atOnce : List UInt8 → Nat) (remaining : Nat) (file : List UInt8) : List (List UInt8) :=
  let toRead := min (remaining % width.values) chunkSize
  if remaining = 0 ∨ toRead = 0 ∨ file = [] then []
  else
    let n := max 1 (min (atOnce file) (min toRead file.length))
    file.take n :: readTask width atOnce (remaining - n) (file.drop n)
termination_by file.length
decreasing_by
  rename_i h
  simp only [not_or, ← List.length_eq_zero_iff] at h
  rw [List.length_drop]
  omega

structure ServedRange where
  /-- The size in the `ReadHeader`. -/
  announced : UInt64
  chunks : List (List UInt8)
  /-- The stream is finished, not reset. -/
  finished : Bool

/-- A character of a JSON string. -/
def escapeChar (c : Char) : List Char :=
  if c = '\"' ∨ c = '\\' then ['\\', c]
  else if c.toNat = 8 then ['\\', 'b']
  else if c.toNat = 9 then ['\\', 't']
  else if c.toNat = 10 then ['\\', 'n']
  else if c.toNat = 12 then ['\\', 'f']
  else if c.toNat = 13 then ['\\', 'r']
  else if c.toNat < 32 then ['\\', 'u', '0', '0', Nat.digitChar (c.toNat / 16), Nat.digitChar (c.toNat % 16)]
  else [c]

/-- `encode_response` of an error: the length in four bytes, then the JSON. -/
def encodeError (message : String) : List UInt8 :=
  let json := ("\x7b\"type\":\"error\",\"message\":\"" ++ String.ofList (message.toList.flatMap escapeChar) ++ "\"\x7d").toUTF8.toList
  [json.length / 2 ^ 24, json.length / 2 ^ 16, json.length / 2 ^ 8, json.length].map UInt8.ofNat ++ json

/-- `stream_file_to_send`, and what `handle_stream` does when it fails: an offset that is no `off_t` cannot be seeked to, and
the error is sent behind the header. -/
def streamFileToSend (width : PointerWidth) (atOnce : List UInt8 → Nat) (file : ServedFile) (range : Option (UInt64 × UInt64)) :
    ServedRange :=
  let (offset, readSize) := readRange file.size range
  if offset.toNat < 2 ^ 63 then
    ⟨readSize, readTask width atOnce readSize.toNat (file.now.drop offset.toNat), true⟩
  else ⟨readSize, [encodeError (PeerStorageError.io file.seekError).display], true⟩

/-! ## The client -/

inductive ReadResponse where
  | readHeader (size : UInt64)
  | error (message : String)
  | other

/-- What a peer answers to a read: its response, then the chunks that arrive until its stream fails or ends. -/
structure Answer where
  response : Except PeerStorageError ReadResponse
  chunks : List (List UInt8)
  failure : Option String

/-- The loop that reads while fewer than `size` bytes were received. -/
def receive (failure : Option String) (size : Nat) : Nat → List (List UInt8) → Except PeerStorageError (List UInt8)
  | got, chunks =>
    if size ≤ got then .ok []
    else match chunks with
      | [] => match failure with
        | none => .error (.connectionFailed ("Stream ended early: expected " ++ toString size ++ " bytes, received " ++
            toString got))
        | some e => .error (.connectionFailed ("read: " ++ e))
      | chunk :: rest =>
        if size < got + chunk.length then
          .error (.connectionFailed ("peer exceeded announced size: announced " ++ toString size ++ ", received " ++
            toString (got + chunk.length)))
        else match receive failure size (got + chunk.length) rest with
          | .error e => .error e
          | .ok data => .ok (chunk ++ data)

/-- `remote_read_range_bytes`: an inclusive range is read from a peer that is asked for half-open ones. -/
def remoteReadRangeBytes (ask : UInt64 × UInt64 → Answer) (start stop : UInt64) : Except PeerStorageError (List UInt8) :=
  if stop < start then .error (.protocolError ("invalid range: " ++ toString start ++ "-" ++ toString stop))
  else match (checkedSub stop start).bind (checkedAdd · 1) with
    | none => .error (.protocolError "invalid range length")
    | some maxExpected =>
      let answer := ask (start, saturatingAdd stop 1)
      match answer.response with
      | .error e => .error e
      | .ok (.readHeader size) =>
        if maxExpected < size then
          .error (.protocolError ("range response too large: requested at most " ++ toString maxExpected ++
            " bytes, peer announced " ++ toString size))
        else receive answer.failure size.toNat 0 answer.chunks
      | .ok (.error message) => .error (.protocolError message)
      | .ok .other => .error (.protocolError "unexpected response (read range)")

inductive StreamingError where
  | notFound (reason : String)
  | badRequest (reason : String)
  | backend (reason : String)

def mapPeerError (err : PeerStorageError) : StreamingError :=
  match err with
  | .protocolError reason =>
    let lower := reason.toList.map Char.toLower
    if "not found".toList <:+: lower ∨ "no such file".toList <:+: lower then .notFound reason else .backend err.display
  | _ => .backend err.display

structure ByteRange where
  start : UInt64
  stop : UInt64
  ordered : start ≤ stop

def ByteRange.new (start stop : UInt64) : Except StreamingError ByteRange :=
  if h : start ≤ stop then .ok ⟨start, stop, h⟩
  else .error (.badRequest ("invalid range: end (" ++ toString stop ++ ") < start (" ++ toString start ++ ")"))

/-- The number of bytes in a range. -/
def ByteRange.length (range : ByteRange) : Nat := range.stop.toNat - range.start.toNat + 1

def peerReadRange (ask : UInt64 × UInt64 → Answer) (range : ByteRange) : Except StreamingError (List UInt8) :=
  (remoteReadRangeBytes ask range.start range.stop).mapError mapPeerError

/-! ## Exact ranges -/

def slice (bytes : List UInt8) (start stop : Nat) : List UInt8 := (bytes.take stop).drop start

/-- The server announces and streams the bytes of the range up to the length it found, and computes without underflow. -/
structure ServesExactly (width : PointerWidth) (atOnce : List UInt8 → Nat) (file : ServedFile) (start stop : UInt64) : Prop where
  noUnderflow : start ≤ min stop file.size
  announced : (streamFileToSend width atOnce file (some (start, stop))).announced.toNat =
    min stop.toNat file.held.length - start.toNat
  streamed : (streamFileToSend width atOnce file (some (start, stop))).chunks.flatten =
    slice file.now start.toNat (min stop.toNat file.held.length)
  complete : (streamFileToSend width atOnce file (some (start, stop))).chunks.flatten.length =
    min stop.toNat file.held.length - start.toNat
  finished : (streamFileToSend width atOnce file (some (start, stop))).finished

def ReadsExactly (ask : UInt64 × UInt64 → Answer) (range : ByteRange) : Prop :=
  ∀ data, peerReadRange ask range = .ok data → data.length = range.length

structure Transport where
  chunks : List UInt8 → List (List UInt8)
  whole : ∀ bytes, (chunks bytes).flatten = bytes

/-- A peer that serves a file. -/
def serve (transport : Transport) (width : PointerWidth) (atOnce : List UInt8 → Nat) (file : ServedFile)
    (range : UInt64 × UInt64) : Answer :=
  let served := streamFileToSend width atOnce file (some range)
  ⟨.ok (.readHeader served.announced), transport.chunks served.chunks.flatten,
    if served.finished then none else some "reset"⟩

section Server
variable {width : PointerWidth} {atOnce : List UInt8 → Nat} {remaining : Nat} {bytes : List UInt8} {file : ServedFile}
  {start stop : UInt64}

theorem readTask_flatten : (readTask width atOnce remaining bytes).flatten = bytes.take (remaining % width.values) := by
  induction remaining, bytes using readTask.induct width atOnce with
  | case1 remaining bytes toRead hstop =>
    rw [readTask, if_pos hstop, List.flatten_nil]
    rcases hstop with rfl | hnone | rfl
    · simp
    · have hzero : remaining % width.values = 0 := by
        simp only [toRead, chunkSize] at hnone
        omega
      rw [hzero, List.take_zero]
    · simp
  | case2 remaining bytes toRead hgo n ih =>
    have hn : n ≤ remaining % width.values := by
      simp only [not_or, ← List.length_eq_zero_iff, toRead] at hgo
      simp only [n, toRead]
      omega
    have hmod : (remaining - n) % width.values = remaining % width.values - n := by
      cases width <;> simp only [PointerWidth.values] at hn ⊢ <;> omega
    rw [readTask, if_neg hgo]
    show bytes.take n ++ (readTask width atOnce (remaining - n) (bytes.drop n)).flatten = _
    rw [ih, hmod, ← List.take_add, Nat.add_sub_cancel' hn]

theorem ServedFile.toNat_size (file : ServedFile) : file.size.toNat = file.held.length := by
  have := file.small.1
  exact UInt64.toNat_ofNat_of_lt' (by simp only [UInt64.size]; omega)

theorem streamFileToSend_ordered (width : PointerWidth) (atOnce : List UInt8 → Nat)
    (h : start.toNat ≤ min stop.toNat file.held.length) :
    (streamFileToSend width atOnce file (some (start, stop))).announced.toNat = min stop.toNat file.held.length - start.toNat ∧
    (streamFileToSend width atOnce file (some (start, stop))).finished = true ∧
    (streamFileToSend width atOnce file (some (start, stop))).chunks.flatten =
      (file.now.drop start.toNat).take ((min stop.toNat file.held.length - start.toNat) % width.values) := by
  have hsmall := file.small.1
  have hstop : (min stop file.size).toNat = min stop.toNat file.held.length := by rw [toNat_min, file.toNat_size]
  have hsize : (min stop file.size - start).toNat = min stop.toNat file.held.length - start.toNat := by
    rw [toNat_sub_of_le (by omega), hstop]
  simp only [streamFileToSend, readRange, if_pos (show start.toNat < 2 ^ 63 by omega), hsize, readTask_flatten]
  exact ⟨trivial, trivial, trivial⟩

theorem streamFileToSend_inverted (width : PointerWidth) (atOnce : List UInt8 → Nat)
    (h : min stop.toNat file.held.length < start.toNat) :
    (streamFileToSend width atOnce file (some (start, stop))).announced.toNat =
      2 ^ 64 + min stop.toNat file.held.length - start.toNat := by
  have hstop : (min stop file.size).toNat = min stop.toNat file.held.length := by rw [toNat_min, file.toNat_size]
  have hwrap := toNat_sub_of_lt (a := min stop file.size) (b := start) (by omega)
  rw [hstop] at hwrap
  unfold streamFileToSend readRange
  dsimp only
  split <;> exact hwrap

theorem servesExactly_iff : ServesExactly width atOnce file start stop ↔
    start.toNat ≤ min stop.toNat file.held.length ∧ min stop.toNat file.held.length - start.toNat < width.values ∧
      (start.toNat = min stop.toNat file.held.length ∨ min stop.toNat file.held.length ≤ file.now.length) := by
  have hstop : (min stop file.size).toNat = min stop.toNat file.held.length := by rw [toNat_min, file.toNat_size]
  constructor
  · intro h
    have hle : start.toNat ≤ min stop.toNat file.held.length := hstop ▸ UInt64.le_iff_toNat_le.1 h.noUnderflow
    obtain ⟨-, -, hstreamed⟩ := streamFileToSend_ordered width atOnce hle
    have hcomplete := h.complete
    rw [hstreamed, List.length_take, List.length_drop] at hcomplete
    have hpos : 0 < width.values := by cases width <;> decide
    have hmod := Nat.mod_lt (min stop.toNat file.held.length - start.toNat) hpos
    omega
  · rintro ⟨hle, hfits, hthere⟩
    obtain ⟨hannounced, hfinished, hstreamed⟩ := streamFileToSend_ordered width atOnce hle
    rw [Nat.mod_eq_of_lt hfits] at hstreamed
    refine ⟨UInt64.le_iff_toNat_le.2 (hstop ▸ hle), hannounced, ?_, ?_, hfinished⟩
    · rw [hstreamed, slice, List.drop_take]
    · rw [hstreamed, List.length_take, List.length_drop]
      omega

end Server

section Client
variable {failure : Option String} {size got : Nat} {chunks : List (List UInt8)} {data : List UInt8}
  {ask : UInt64 × UInt64 → Answer} {range : ByteRange}

theorem receive_ok (hgot : got ≤ size) :
    receive failure size got chunks = .ok data ↔ ∃ k, data = (chunks.take k).flatten ∧ got + data.length = size := by
  induction chunks generalizing got data with
  | nil =>
    unfold receive
    split
    · simp only [Except.ok.injEq, List.take_nil, List.flatten_nil, exists_const]
      constructor
      · rintro rfl
        exact ⟨rfl, by simp only [List.length_nil]; omega⟩
      · rintro ⟨rfl, -⟩
        rfl
    · cases failure <;> simp only [reduceCtorEq, List.take_nil, List.flatten_nil, exists_const, false_iff] <;>
        (rintro ⟨rfl, hlen⟩; simp only [List.length_nil] at hlen; omega)
  | cons chunk rest ih =>
    unfold receive
    split
    · rw [Except.ok.injEq]
      constructor
      · rintro rfl
        exact ⟨0, by simp, by simp only [List.length_nil]; omega⟩
      · rintro ⟨k, -, hlen⟩
        exact (List.length_eq_zero_iff.1 (by omega)).symm
    · dsimp only
      split
      · simp only [reduceCtorEq, false_iff, not_exists, not_and]
        rintro (_ | k) rfl hlen
        · simp at hlen
          omega
        · rw [List.take_succ_cons, List.flatten_cons, List.length_append] at hlen
          omega
      · rename_i hgot' hmore
        have hrest : ∀ data, receive failure size (got + chunk.length) rest = .ok data ↔
            ∃ k, data = (rest.take k).flatten ∧ got + chunk.length + data.length = size :=
          fun data => ih (by omega)
        constructor
        · intro h
          cases hreceive : receive failure size (got + chunk.length) rest with
          | error e =>
            rw [hreceive] at h
            cases h
          | ok more =>
            rw [hreceive] at h
            cases h
            obtain ⟨k, rfl, hlen⟩ := (hrest more).1 hreceive
            exact ⟨k + 1, by simp, by rw [List.length_append]; omega⟩
        · rintro ⟨_ | k, rfl, hlen⟩
          · simp at hlen
            omega
          · rw [List.take_succ_cons, List.flatten_cons, List.length_append] at hlen
            rw [(hrest _).2 ⟨k, rfl, by omega⟩, List.take_succ_cons, List.flatten_cons]

theorem ByteRange.toNat_ordered (range : ByteRange) : range.start.toNat ≤ range.stop.toNat :=
  UInt64.le_iff_toNat_le.1 range.ordered

theorem maxExpected_iff {c : UInt64} : (checkedSub range.stop range.start).bind (checkedAdd · 1) = some c ↔
    c.toNat = range.length := by
  have := range.toNat_ordered
  simp only [Option.bind_eq_some_iff, checkedSub_eq_some, checkedAdd_eq_some, ByteRange.length, UInt64.toNat_one]
  constructor
  · rintro ⟨d, hd, hc⟩
    omega
  · intro hc
    have hlt := c.toNat_lt
    exact ⟨range.stop - range.start, by rw [toNat_sub_of_le this]; omega, by rw [toNat_sub_of_le this]; omega⟩

theorem peerReadRange_ok : peerReadRange ask range = .ok data ↔ range.length < 2 ^ 64 ∧
    ∃ size, (ask (range.start, saturatingAdd range.stop 1)).response = .ok (.readHeader size) ∧ size.toNat ≤ range.length ∧
      ∃ k, data = ((ask (range.start, saturatingAdd range.stop 1)).chunks.take k).flatten ∧ data.length = size.toNat := by
  have hread : peerReadRange ask range = .ok data ↔ remoteReadRangeBytes ask range.start range.stop = .ok data := by
    unfold peerReadRange
    cases remoteReadRangeBytes ask range.start range.stop <;> simp [Except.mapError]
  rw [hread, remoteReadRangeBytes, if_neg (by simpa using range.ordered)]
  cases hmax : (checkedSub range.stop range.start).bind (checkedAdd · 1) with
  | none =>
    simp only [reduceCtorEq, false_iff, not_and]
    intro hlt
    rw [maxExpected_iff.2 (UInt64.toNat_ofNat_of_lt' hlt)] at hmax
    cases hmax
  | some maxExpected =>
    have hlength := maxExpected_iff.1 hmax
    have hlt := maxExpected.toNat_lt
    simp only [show range.length < 2 ^ 64 by omega, true_and]
    cases (ask (range.start, saturatingAdd range.stop 1)).response with
    | error e => simp
    | ok response => cases response with
      | error message => simp
      | other => simp
      | readHeader size =>
        simp only [Except.ok.injEq, ReadResponse.readHeader.injEq, exists_eq_left', UInt64.lt_iff_toNat_lt, hlength]
        split
        · simp only [reduceCtorEq, false_iff, not_and]
          omega
        · rw [receive_ok (Nat.zero_le _)]
          simp only [Nat.zero_add]
          rename_i hle
          simp only [Nat.not_lt.1 hle, true_and]

theorem readsExactly_iff : ReadsExactly ask range ↔ (range.length < 2 ^ 64 → ∀ size,
    (ask (range.start, saturatingAdd range.stop 1)).response = .ok (.readHeader size) → size.toNat < range.length →
      ∀ k, ((ask (range.start, saturatingAdd range.stop 1)).chunks.take k).flatten.length ≠ size.toNat) := by
  unfold ReadsExactly
  simp only [peerReadRange_ok]
  constructor
  · intro h hlt size hresponse hshort k hk
    have := h _ ⟨hlt, size, hresponse, hshort.le, k, rfl, hk⟩
    omega
  · rintro h data ⟨hlt, size, hresponse, hle, k, rfl, hlen⟩
    rcases Nat.lt_or_ge size.toNat range.length with hshort | hge
    · exact absurd hlen (h hlt size hresponse hshort k)
    · omega

end Client

section Served
variable {transport : Transport} {width : PointerWidth} {atOnce : List UInt8 → Nat} {file : ServedFile} {range : ByteRange}

theorem wireStop_min (file : ServedFile) (range : ByteRange) :
    min (saturatingAdd range.stop 1).toNat file.held.length = min (range.stop.toNat + 1) file.held.length := by
  have := file.small.1
  rw [toNat_saturatingAdd, UInt64.toNat_one]
  omega

theorem delivered_le (transport : Transport) (width : PointerWidth) (atOnce : List UInt8 → Nat) (file : ServedFile)
    (range : UInt64 × UInt64) (k : Nat) :
    ((serve transport width atOnce file range).chunks.take k).flatten.length ≤
      (streamFileToSend width atOnce file (some range)).chunks.flatten.length := by
  have hwhole := congrArg List.length (transport.whole (streamFileToSend width atOnce file (some range)).chunks.flatten)
  rw [← hwhole, serve]
  dsimp only
  generalize transport.chunks _ = chunks
  have hsplit := congrArg List.length (congrArg List.flatten (List.take_append_drop k chunks))
  rw [List.flatten_append, List.length_append] at hsplit
  omega

/-- A range behind the end of the file is announced with no fewer bytes than were asked for. -/
theorem announced_behind (h : file.held.length < range.start.toNat) : range.length ≤
    (streamFileToSend width atOnce file (some (range.start, saturatingAdd range.stop 1))).announced.toNat := by
  have hstop := range.stop.toNat_lt
  have hordered := range.toNat_ordered
  have hmin := wireStop_min file range
  rw [streamFileToSend_inverted width atOnce (by omega), ByteRange.length]
  omega

theorem readsExactly_serve : ReadsExactly (serve transport width atOnce file) range ↔
    (range.length < 2 ^ 64 → range.start.toNat ≤ file.held.length → file.held.length ≤ range.stop.toNat →
      ¬ ServesExactly width atOnce file range.start (saturatingAdd range.stop 1)) := by
  have hordered := range.toNat_ordered
  have hmin := wireStop_min file range
  rw [readsExactly_iff]
  constructor
  · intro h hlt hle hge hserves
    have hannounced := hserves.announced
    refine h hlt _ rfl ?_ (serve transport width atOnce file (range.start, saturatingAdd range.stop 1)).chunks.length ?_
    · rw [hannounced, hmin, ByteRange.length]
      omega
    · rw [List.take_length, hannounced]
      exact (congrArg List.length (transport.whole _)).trans hserves.complete
  · intro h hlt size hresponse hshort k hk
    cases hresponse
    rcases Nat.lt_or_ge file.held.length range.start.toNat with hbehind | hle
    · exact absurd hshort (Nat.not_lt.2 (announced_behind hbehind))
    · obtain ⟨hannounced, -, hstreamed⟩ := streamFileToSend_ordered width atOnce
        (show range.start.toNat ≤ min (saturatingAdd range.stop 1).toNat file.held.length by omega)
      rw [hannounced, hmin, ByteRange.length] at hshort
      refine h hlt hle (by omega) (servesExactly_iff.2 ?_)
      have hdelivered := delivered_le transport width atOnce file (range.start, saturatingAdd range.stop 1) k
      rw [hk, hannounced, hstreamed, List.length_take, List.length_drop] at hdelivered
      have hpos : 0 < width.values := by cases width <;> decide
      have hmod := Nat.mod_lt (min (saturatingAdd range.stop 1).toNat file.held.length - range.start.toNat) hpos
      omega

end Served

/-- A range is served exactly if it does not start behind its end or the end of the file, a `usize` holds its length, and the
file still has it when it is read. A source reads exactly unless its peer announces fewer bytes than were asked for and
delivers them; a peer of this kind does so where a range that it serves goes on behind the end of the file. -/
theorem range_reads_exact_iff (transport : Transport) (width : PointerWidth) (atOnce : List UInt8 → Nat) (file : ServedFile)
    (ask : UInt64 × UInt64 → Answer) (range : ByteRange) :
    (∀ start stop, ServesExactly width atOnce file start stop ↔
      start.toNat ≤ min stop.toNat file.held.length ∧ min stop.toNat file.held.length - start.toNat < width.values ∧
        (start.toNat = min stop.toNat file.held.length ∨ min stop.toNat file.held.length ≤ file.now.length)) ∧
    (ReadsExactly ask range ↔ (range.length < 2 ^ 64 → ∀ size,
      (ask (range.start, saturatingAdd range.stop 1)).response = .ok (.readHeader size) → size.toNat < range.length →
        ∀ k, ((ask (range.start, saturatingAdd range.stop 1)).chunks.take k).flatten.length ≠ size.toNat)) ∧
    (ReadsExactly (serve transport width atOnce file) range ↔
      (range.length < 2 ^ 64 → range.start.toNat ≤ file.held.length → file.held.length ≤ range.stop.toNat →
        ¬ ServesExactly width atOnce file range.start (saturatingAdd range.stop 1))) :=
  ⟨fun _ _ => servesExactly_iff, readsExactly_iff, readsExactly_serve⟩

def twoBytes : ServedFile := ⟨[1, 2], [1, 2], "Invalid argument (os error 22)", by decide⟩

/-- A range behind the end of a file is announced with almost 2^64 bytes; one that reaches behind the end is read short. -/
theorem range_reads_wrong :
    ¬ ServesExactly .bits64 (fun _ => 1) twoBytes 3 4 ∧
    ¬ ReadsExactly (serve ⟨fun bytes => [bytes], fun _ => List.append_nil _⟩ .bits64 (fun _ => 1) twoBytes)
      ⟨0, 2, by decide⟩ := by
  constructor
  · rw [servesExactly_iff]
    decide
  · rw [readsExactly_serve, servesExactly_iff]
    decide

end HaexVault.PeerStorage
