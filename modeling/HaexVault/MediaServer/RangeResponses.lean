import HaexVault.Extension.Execution
import HaexVault.PeerStorage.Ranges
/-!
# Range responses (`media_server/mod.rs`, `remote_storage/streaming/protocol.rs`)

The media server on the loopback address and the `haex-stream` protocol answer a `Range` header with
the bytes it names. The media server cuts what it takes from a source after 8 MiB, and the cut
overflows for a start near 2^64 (`mediaConsistent_iff`).
-/

namespace HaexVault.MediaServer

open HaexVault.Lib HaexVault.Lib.Words
open HaexVault.Extension (isWhitespace)
open HaexVault.PeerStorage (ServedFile ByteRange StreamingError slice)

/-! ## Headers -/

def trim (s : List Char) : List Char := ((s.dropWhile isWhitespace).reverse.dropWhile isWhitespace).reverse

def stripPlus : List Char → List Char
  | '+' :: rest => rest
  | s => s

def parseU64 (s : List Char) : Option UInt64 :=
  let digits := stripPlus s
  if digits ≠ [] ∧ digits.all Char.isDigit ∧ Nat.ofDigitChars 10 digits 0 < 2 ^ 64 then
    some (UInt64.ofNat (Nat.ofDigitChars 10 digits 0))
  else none

def splitDash (s : List Char) : Option (List Char × List Char) :=
  match s.dropWhile (· ≠ '-') with
  | [] => none
  | _ :: rest => some (s.takeWhile (· ≠ '-'), rest)

def rangeParts (spec : List Char) : Option (List Char × List Char) :=
  match spec.dropPrefix? "bytes=".toList with
  | none => none
  | some rest => if rest.contains ',' then none else splitDash rest

/-- A range from a first byte on; its last byte is the last one of all where it is left out. -/
def fromStart (startS endS : List Char) (total : UInt64) : Option (UInt64 × UInt64) :=
  match parseU64 (trim startS) with
  | none => none
  | some start =>
    match if (trim endS).isEmpty then some (saturatingSub total 1) else parseU64 (trim endS) with
    | none => none
    | some stop => if stop < start ∨ total ≤ stop then none else some (start, stop)

def parseRange (spec : String) (total : UInt64) : Option (UInt64 × UInt64) :=
  match rangeParts (trim spec.toList) with
  | none => none
  | some ([], endS) => match parseU64 (trim endS) with
    | none => none
    | some n => if n = 0 ∨ total = 0 then none else some (saturatingSub total n, total - 1)
  | some (startS, endS) => fromStart startS endS total

def parseRangeHeader (header : String) (total : UInt64) : Option (UInt64 × UInt64) :=
  match rangeParts header.toList with
  | none => none
  | some (startS, endS) => fromStart startS endS total

/-! ## Responses -/

/-- A `StreamingSource`. -/
structure Source where
  size : UInt64
  readRange : ByteRange → Except StreamingError (List UInt8)

inductive MediaSource where
  | local (file : ServedFile)
  | stream (source : Source)

def MediaSource.total : MediaSource → UInt64
  | .local file => file.size
  | .stream source => source.size

inductive Method where
  | get
  | head
  deriving DecidableEq

structure Content where
  status : Nat
  first : UInt64
  last : UInt64
  total : UInt64
  contentLength : Nat
  body : List UInt8

inductive Reply where
  /-- 416, with the size. -/
  | rangeUnsatisfiable (total : UInt64)
  | content (content : Content)
  /-- The error of a source, before anything is sent. -/
  | streamingError (e : StreamingError)

def streamRangeCapBytes : UInt64 := 8 * 1024 * 1024

/-- The bytes that are asked for, and the status for them. -/
def asked (parse : String → UInt64 → Option (UInt64 × UInt64)) (total : UInt64) (rangeHeader : Option String) :
    Option ((UInt64 × UInt64) × Nat) :=
  match rangeHeader with
  | some spec => (parse spec total).map (·, 206)
  | none => some ((0, total - 1), 200)

/-- The last byte that is sent, and the status, after the cut of what a source gives. -/
def cap (media : MediaSource) (start stop : UInt64) (status : Nat) : UInt64 × Nat :=
  match media with
  | .local _ => (stop, status)
  | .stream _ =>
    let cappedEnd := start + streamRangeCapBytes - 1
    if cappedEnd < stop then (cappedEnd, 206) else (stop, status)

/-- What is sent after the header: the local file as far as it still goes, or what the source gives, if it gives something. -/
def mediaBody (media : MediaSource) (start stop contentLength : UInt64) : List UInt8 :=
  match media with
  | .local file => (file.now.drop start.toNat).take contentLength.toNat
  | .stream source => match ByteRange.new start stop with
    | .error _ => []
    | .ok range => match source.readRange range with
      | .error _ => []
      | .ok bytes => bytes

/-- `handle_connection` once it has the source and the header. -/
def handleConnection (method : Method) (media : MediaSource) (rangeHeader : Option String) : Reply :=
  if media.total = 0 then
    if rangeHeader.isSome then .rangeUnsatisfiable 0 else .content ⟨200, 0, 0, 0, 0, []⟩
  else match asked parseRange media.total rangeHeader with
    | none => .rangeUnsatisfiable media.total
    | some ((start, stop), status) =>
      let (stop, status) := cap media start stop status
      let contentLength := stop - start + 1
      .content ⟨status, start, stop, media.total, contentLength.toNat,
        if method = .head then [] else mediaBody media start stop contentLength⟩

/-- `handle` of the `haex-stream` protocol once it has the source. -/
def handle (source : Source) (rangeHeader : Option String) : Reply :=
  if source.size = 0 then
    if rangeHeader.isSome then .rangeUnsatisfiable 0 else .content ⟨200, 0, 0, 0, 0, []⟩
  else match asked parseRangeHeader source.size rangeHeader with
    | none => .rangeUnsatisfiable source.size
    | some ((start, stop), status) => match ByteRange.new start stop with
      | .error e => .streamingError e
      | .ok range => match source.readRange range with
        | .error e => .streamingError e
        | .ok bytes => .content ⟨status, start, stop, source.size, bytes.length, bytes⟩

/-! ## Consistent responses -/

/-- The bytes from the first to the last one, of the file as it is read or as the source gives them. -/
def MediaSource.Gives (media : MediaSource) (first last : UInt64) (bytes : List UInt8) : Prop :=
  match media with
  | .local file => bytes = slice file.now first.toNat (last.toNat + 1)
  | .stream source => ∃ range, ByteRange.new first last = .ok range ∧ source.readRange range = .ok bytes

/-- A 206 response names a range of the object, with its length, and has its bytes as the body; a `HEAD` has no body. -/
structure Content.Consistent (c : Content) (method : Method) (media : MediaSource) : Prop where
  ordered : c.first ≤ c.last
  below : c.last < c.total
  length : c.contentLength = c.last.toNat - c.first.toNat + 1
  body : method = .get → c.body.length = c.contentLength ∧ media.Gives c.first c.last c.body

/-- The sum for the cut and the length of what is sent fit in 64 bits, and the difference is none below zero. -/
def NoOverflow (media : MediaSource) (start stop : UInt64) : Prop :=
  (∀ source, media = .stream source → start.toNat + streamRangeCapBytes.toNat < 2 ^ 64) ∧
    start.toNat ≤ (cap media start stop 206).1.toNat ∧ (cap media start stop 206).1.toNat - start.toNat + 1 < 2 ^ 64

def MediaConsistent (method : Method) (media : MediaSource) (rangeHeader : Option String) : Prop :=
  (∀ start stop status, media.total ≠ 0 → asked parseRange media.total rangeHeader = some ((start, stop), status) →
    NoOverflow media start stop) ∧
  ∀ c, handleConnection method media rangeHeader = .content c → c.status = 206 → c.Consistent method media

def StreamConsistent (source : Source) (rangeHeader : Option String) : Prop :=
  ∀ c, handle source rangeHeader = .content c → c.status = 206 → c.Consistent .get (.stream source)

/-! ## Ranges that are asked for -/

section Asked
variable {total start stop : UInt64} {status : Nat} {spec : String} {startS endS : List Char} {rangeHeader : Option String}
  {parse : String → UInt64 → Option (UInt64 × UInt64)}

theorem fromStart_bounds (h : fromStart startS endS total = some (start, stop)) :
    start.toNat ≤ stop.toNat ∧ stop.toNat < total.toNat := by
  unfold fromStart at h
  split at h
  · cases h
  · split at h
    · cases h
    · split at h
      · cases h
      · rename_i hin
        cases h
        simp only [not_or, UInt64.le_iff_toNat_le, UInt64.lt_iff_toNat_lt] at hin
        omega

theorem parseRange_bounds (h : parseRange spec total = some (start, stop)) :
    start.toNat ≤ stop.toNat ∧ stop.toNat < total.toNat := by
  unfold parseRange at h
  split at h
  · cases h
  · split at h
    · cases h
    · split at h
      · cases h
      · rename_i n _ hin
        cases h
        simp only [not_or, ← UInt64.toNat_inj, UInt64.toNat_zero] at hin
        rw [toNat_saturatingSub, toNat_sub_of_le (by rw [UInt64.toNat_one]; omega), UInt64.toNat_one]
        omega
  · exact fromStart_bounds h

theorem parseRangeHeader_bounds (h : parseRangeHeader spec total = some (start, stop)) :
    start.toNat ≤ stop.toNat ∧ stop.toNat < total.toNat := by
  unfold parseRangeHeader at h
  split at h
  · cases h
  · exact fromStart_bounds h

theorem asked_bounds (hparse : ∀ spec start stop, parse spec total = some (start, stop) →
      start.toNat ≤ stop.toNat ∧ stop.toNat < total.toNat) (htotal : total ≠ 0)
    (h : asked parse total rangeHeader = some ((start, stop), status)) :
    start.toNat ≤ stop.toNat ∧ stop.toNat < total.toNat := by
  unfold asked at h
  split at h
  · rename_i spec
    obtain ⟨range, hrange, heq⟩ := Option.map_eq_some_iff.1 h
    cases heq
    exact hparse spec start stop hrange
  · cases h
    rw [ne_eq, ← UInt64.toNat_inj, UInt64.toNat_zero] at htotal
    rw [toNat_sub_of_le (by rw [UInt64.toNat_one]; omega), UInt64.toNat_one, UInt64.toNat_zero]
    omega

theorem cap_stream (source : Source) (stop : UInt64) (status : Nat) (h : start.toNat + streamRangeCapBytes.toNat ≤ 2 ^ 64) :
    (cap (.stream source) start stop status).1.toNat = min stop.toNat (start.toNat + streamRangeCapBytes.toNat - 1) ∧
      (cap (.stream source) start stop status).2 =
        if start.toNat + streamRangeCapBytes.toNat - 1 < stop.toNat then 206 else status := by
  have hcap : streamRangeCapBytes.toNat = 8388608 := rfl
  have hend : (start + streamRangeCapBytes - 1).toNat = start.toNat + streamRangeCapBytes.toNat - 1 := by
    rw [UInt64.toNat_sub, UInt64.toNat_add, UInt64.toNat_one]
    omega
  unfold cap
  simp only [UInt64.lt_iff_toNat_lt, hend]
  split
  · exact ⟨by rw [hend]; omega, rfl⟩
  · exact ⟨by dsimp only; omega, rfl⟩

end Asked

/-! ## Consistent responses, exactly -/

section Consistent
variable {method : Method} {source : Source} {file : ServedFile} {rangeHeader : Option String} {start stop : UInt64}
  {status : Nat} {c : Content}

def Source.GivesAll (source : Source) (first last : Nat) : Prop :=
  ∃ range bytes, range.start.toNat = first ∧ range.stop.toNat = last ∧ source.readRange range = .ok bytes ∧
    bytes.length = range.length

theorem new_ok {range : ByteRange} : ByteRange.new start stop = .ok range ↔ range.start = start ∧ range.stop = stop := by
  unfold ByteRange.new
  split
  · rw [Except.ok.injEq]
    constructor
    · rintro rfl
      exact ⟨rfl, rfl⟩
    · rintro ⟨rfl, rfl⟩
      rfl
  · rename_i hinverted
    simp only [reduceCtorEq, false_iff, not_and]
    rintro rfl rfl
    exact hinverted range.ordered

theorem givesAll_iff : source.GivesAll start.toNat stop.toNat ↔ ∃ range bytes, ByteRange.new start stop = .ok range ∧
      source.readRange range = .ok bytes ∧ bytes.length = stop.toNat - start.toNat + 1 := by
  simp only [Source.GivesAll, new_ok, UInt64.toNat_inj]
  constructor
  · rintro ⟨range, bytes, rfl, rfl, hread, hlen⟩
    exact ⟨range, bytes, ⟨rfl, rfl⟩, hread, hlen⟩
  · rintro ⟨range, bytes, ⟨rfl, rfl⟩, hread, hlen⟩
    exact ⟨range, bytes, rfl, rfl, hread, hlen⟩

theorem streamBody_iff : (mediaBody (.stream source) start stop (stop - start + 1)).length = stop.toNat - start.toNat + 1 ∧
        (MediaSource.stream source).Gives start stop (mediaBody (.stream source) start stop (stop - start + 1)) ↔
      source.GivesAll start.toNat stop.toNat := by
  rw [givesAll_iff]
  unfold mediaBody MediaSource.Gives
  dsimp only
  cases hnew : ByteRange.new start stop with
  | error e => simp
  | ok range => cases hread : source.readRange range with
    | error e => simp [hread]
    | ok bytes => simp [hread]

theorem localBody_iff (hordered : start.toNat ≤ stop.toNat) (hsmall : stop.toNat < 2 ^ 63) :
    (mediaBody (.local file) start stop (stop - start + 1)).length = stop.toNat - start.toNat + 1 ∧
        (MediaSource.local file).Gives start stop (mediaBody (.local file) start stop (stop - start + 1)) ↔
      stop.toNat < file.now.length := by
  have hlen : (stop - start + 1).toNat = stop.toNat - start.toNat + 1 := by
    rw [toNat_add_of_lt (by rw [toNat_sub_of_le hordered, UInt64.toNat_one]; omega), toNat_sub_of_le hordered, UInt64.toNat_one]
  simp only [mediaBody, MediaSource.Gives, slice, hlen, List.length_take, List.length_drop, List.drop_take]
  constructor
  · rintro ⟨h, -⟩
    omega
  · intro h
    refine ⟨by omega, ?_⟩
    congr 1
    omega

theorem sent_consistent {media : MediaSource} (hordered : start.toNat ≤ stop.toNat) (hstop : stop.toNat < media.total.toNat) :
    Content.Consistent ⟨status, start, stop, media.total, (stop - start + 1).toNat,
        if method = .head then [] else mediaBody media start stop (stop - start + 1)⟩ method media ↔
      (method = .get → (mediaBody media start stop (stop - start + 1)).length = stop.toNat - start.toNat + 1 ∧
        media.Gives start stop (mediaBody media start stop (stop - start + 1))) := by
  have htotal := media.total.toNat_lt
  have hlen : (stop - start + 1).toNat = stop.toNat - start.toNat + 1 := by
    rw [toNat_add_of_lt (by rw [toNat_sub_of_le hordered, UInt64.toNat_one]; omega), toNat_sub_of_le hordered, UInt64.toNat_one]
  cases method with
  | head =>
    simp only [reduceCtorEq, false_implies, iff_true]
    exact ⟨UInt64.le_iff_toNat_le.2 hordered, UInt64.lt_iff_toNat_lt.2 hstop, hlen, fun h => by cases h⟩
  | get =>
    simp only [reduceCtorEq, if_false, true_implies]
    constructor
    · intro h
      have hbody := h.body rfl
      dsimp only at hbody
      rwa [hlen] at hbody
    · intro h
      exact ⟨UInt64.le_iff_toNat_le.2 hordered, UInt64.lt_iff_toNat_lt.2 hstop, hlen, fun _ => by dsimp only; rwa [hlen]⟩

theorem mediaConsistent_asked {media : MediaSource} : MediaConsistent method media rangeHeader ↔
    (media.total ≠ 0 → ∀ start stop status, asked parseRange media.total rangeHeader = some ((start, stop), status) →
      NoOverflow media start stop ∧ ((cap media start stop status).2 = 206 →
        Content.Consistent ⟨(cap media start stop status).2, start, (cap media start stop status).1, media.total,
          ((cap media start stop status).1 - start + 1).toNat, if method = .head then []
            else mediaBody media start (cap media start stop status).1 ((cap media start stop status).1 - start + 1)⟩
          method media)) := by
  unfold MediaConsistent handleConnection
  by_cases hzero : media.total = 0
  · cases rangeHeader <;> simp [hzero]
  · cases hasked : asked parseRange media.total rangeHeader with
    | none => simp [hzero]
    | some range =>
      obtain ⟨⟨start, stop⟩, status⟩ := range
      simp [hzero]

theorem mediaConsistent_local : MediaConsistent method (.local file) rangeHeader ↔ (file.size ≠ 0 → ∀ start stop status,
    asked parseRange file.size rangeHeader = some ((start, stop), status) → method = .get → status = 206 →
      stop.toNat < file.now.length) := by
  rw [mediaConsistent_asked]
  refine forall_congr' fun hzero => forall₄_congr fun start stop status hasked => ?_
  have hsmall : file.size.toNat < 2 ^ 63 := file.toNat_size ▸ file.small.1
  obtain ⟨hordered, hstop⟩ : start.toNat ≤ stop.toNat ∧ stop.toNat < file.size.toNat :=
    asked_bounds (fun _ _ _ => parseRange_bounds) hzero hasked
  have hnoOverflow : NoOverflow (.local file) start stop := by
    refine ⟨fun source h => ?_, hordered, ?_⟩
    · cases h
    show stop.toNat - start.toNat + 1 < 2 ^ 64
    omega
  dsimp only [cap]
  rw [sent_consistent hordered (show stop.toNat < (MediaSource.local file).total.toNat from hstop), localBody_iff hordered (by omega)]
  simp only [hnoOverflow, true_and]
  tauto

theorem mediaConsistent_stream : MediaConsistent method (.stream source) rangeHeader ↔ (source.size ≠ 0 →
    ∀ start stop status, asked parseRange source.size rangeHeader = some ((start, stop), status) →
      start.toNat + streamRangeCapBytes.toNat < 2 ^ 64 ∧
      (method = .get → status = 206 ∨ start.toNat + streamRangeCapBytes.toNat - 1 < stop.toNat →
        source.GivesAll start.toNat (min stop.toNat (start.toNat + streamRangeCapBytes.toNat - 1)))) := by
  rw [mediaConsistent_asked]
  refine forall_congr' fun hzero => forall₄_congr fun start stop status hasked => ?_
  obtain ⟨hordered, hstop⟩ := asked_bounds (fun _ _ _ => parseRange_bounds) hzero hasked
  by_cases hfits : start.toNat + streamRangeCapBytes.toNat < 2 ^ 64
  · have hcap : streamRangeCapBytes.toNat = 8388608 := rfl
    have htotal := source.size.toNat_lt
    obtain ⟨hlast, hstatus⟩ := cap_stream source stop status hfits.le
    obtain ⟨hlast', -⟩ := cap_stream source stop 206 hfits.le
    have hnoOverflow : NoOverflow (.stream source) start stop := ⟨fun _ _ => hfits, by omega, by omega⟩
    rw [sent_consistent (by omega) (by rw [hlast]; exact Nat.lt_of_le_of_lt (Nat.min_le_left ..) hstop),
      streamBody_iff, hlast, hstatus]
    simp only [hnoOverflow, hfits, true_and]
    split <;> tauto
  · have hoverflow : ¬ NoOverflow (.stream source) start stop := fun h => hfits (h.1 source rfl)
    simp only [hoverflow, hfits, false_and]

theorem streamConsistent_iff : StreamConsistent source rangeHeader ↔ (source.size ≠ 0 → ∀ start stop,
    asked parseRangeHeader source.size rangeHeader = some ((start, stop), 206) → ∀ range bytes,
      ByteRange.new start stop = .ok range → source.readRange range = .ok bytes → bytes.length = range.length) := by
  unfold StreamConsistent handle
  by_cases hzero : source.size = 0
  · cases rangeHeader <;> simp [hzero]
  · cases hasked : asked parseRangeHeader source.size rangeHeader with
    | none => simp [hzero]
    | some asked =>
      obtain ⟨⟨start, stop⟩, status⟩ := asked
      obtain ⟨hordered, hstop⟩ := asked_bounds (fun _ _ _ => parseRangeHeader_bounds) hzero hasked
      obtain ⟨range, hnew⟩ : ∃ range, ByteRange.new start stop = .ok range :=
        ⟨⟨start, stop, UInt64.le_iff_toNat_le.2 hordered⟩, new_ok.2 ⟨rfl, rfl⟩⟩
      obtain ⟨rfl, rfl⟩ := new_ok.1 hnew
      simp only [hzero, if_false, hnew, ne_eq, not_false_eq_true, true_implies, Option.some.injEq, Prod.mk.injEq]
      constructor
      · rintro h _ _ ⟨⟨rfl, rfl⟩, rfl⟩ range' bytes hnew' hread
        cases hnew.symm.trans hnew'
        rw [hread] at h
        exact (h _ rfl rfl).length
      · intro h c hc hstatus
        cases hread : source.readRange range with
        | error e =>
          rw [hread] at hc
          cases hc
        | ok bytes =>
          rw [hread] at hc
          cases hc
          have hlen : bytes.length = range.length := h _ _ ⟨⟨rfl, rfl⟩, hstatus⟩ range bytes hnew hread
          exact ⟨range.ordered, UInt64.lt_iff_toNat_lt.2 hstop, hlen, fun _ => ⟨rfl, range, hnew, hread⟩⟩

end Consistent

/-! ## The whole object -/

section Fetch

def fromHeader (offset : UInt64) : String := "bytes=" ++ toString offset ++ "-"

/-- A client that asks for what follows the last byte it got, until it has the last one of all. -/
def fetch (source : Source) : Nat → UInt64 → Option (List UInt8)
  | 0, _ => none
  | fuel + 1, offset => match handleConnection .get (.stream source) (some (fromHeader offset)) with
    | .rangeUnsatisfiable total => if offset = total then some [] else none
    | .streamingError _ => none
    | .content c => if c.last + 1 = c.total then some c.body else (fetch source fuel (c.last + 1)).map (c.body ++ ·)

structure Source.Serves (source : Source) (object : List UInt8) : Prop where
  size : source.size.toNat = object.length
  exact : ∀ range : ByteRange, range.stop.toNat < object.length →
    source.readRange range = .ok (slice object range.start.toNat (range.stop.toNat + 1))

theorem trim_eq {s : List Char} (hhead : ∀ c, s.head? = some c → isWhitespace c = false)
    (hlast : ∀ c, s.getLast? = some c → isWhitespace c = false) : trim s = s := by
  have hdrop : ∀ l : List Char, (∀ c, l.head? = some c → isWhitespace c = false) → l.dropWhile isWhitespace = l := by
    intro l hl
    cases l with
    | nil => rfl
    | cons c rest => rw [List.dropWhile_cons, hl c rfl, if_neg (by simp)]
  unfold trim
  rw [hdrop s hhead, hdrop s.reverse (fun c hc => hlast c (by rwa [List.head?_reverse] at hc)), List.reverse_reverse]

theorem isWhitespace_digit {c : Char} (h : c.isDigit = true) : isWhitespace c = false := by
  obtain ⟨hle, hge⟩ := Char.isDigit_iff_toNat.1 h
  rw [show '0'.toNat = 48 from rfl] at hle
  rw [show '9'.toNat = 57 from rfl] at hge
  simp only [isWhitespace, List.mem_cons, List.not_mem_nil, or_false, Bool.or_eq_false_iff, Bool.and_eq_false_iff,
    decide_eq_false_iff_not]
  omega

def digits (n : UInt64) : List Char := Nat.toDigits 10 n.toNat

theorem isDigit_digits {n : UInt64} {c : Char} (h : c ∈ digits n) : c.isDigit = true :=
  Nat.isDigit_of_mem_toDigits (by decide) (by decide) h

theorem fromHeader_toList (n : UInt64) : (fromHeader n).toList = "bytes=".toList ++ (digits n ++ ['-']) := by
  rw [fromHeader, String.toList_append, String.toList_append, List.append_assoc]
  congr 2
  exact Nat.toList_repr

theorem trim_digits (n : UInt64) : trim (digits n) = digits n :=
  trim_eq (fun _ h => isWhitespace_digit (isDigit_digits (List.mem_of_head? h)))
    (fun _ h => isWhitespace_digit (isDigit_digits (List.mem_of_getLast? h)))

theorem parseU64_digits (n : UInt64) : parseU64 (digits n) = some n := by
  have hne : digits n ≠ [] := Nat.toDigits_ne_nil
  have hall : (digits n).all Char.isDigit = true := List.all_eq_true.2 fun _ h => isDigit_digits h
  have hvalue : Nat.ofDigitChars 10 (digits n) 0 = n.toNat := Nat.ofDigitChars_ten_toDigits
  have hplus : ∀ rest, digits n ≠ '+' :: rest := fun rest h =>
    absurd (isDigit_digits (n := n) (h ▸ List.mem_cons_self)) (by decide)
  have hstrip : stripPlus (digits n) = digits n := by
    unfold stripPlus
    split
    · exact absurd ‹_› (hplus _)
    · rfl
  unfold parseU64
  dsimp only
  rw [hstrip, if_pos ⟨hne, hall, hvalue ▸ n.toNat_lt⟩, hvalue, UInt64.ofNat_toNat]

theorem rangeParts_from (n : UInt64) : rangeParts ("bytes=".toList ++ (digits n ++ ['-'])) = some (digits n, []) := by
  have hdash : ∀ c ∈ digits n, (c ≠ '-') := by
    rintro c hc rfl
    exact absurd (isDigit_digits hc) (by decide)
  have hcomma : (digits n ++ ['-']).contains ',' = false := by
    rw [List.contains_eq_mem, decide_eq_false_iff_not, List.mem_append]
    rintro (hc | hc)
    · exact absurd (isDigit_digits hc) (by decide)
    · exact absurd hc (by decide)
  unfold rangeParts
  rw [List.dropPrefix?_append_of_beq _ (by simp)]
  dsimp only
  rw [hcomma, if_neg (by simp)]
  unfold splitDash
  rw [List.dropWhile_append_of_pos (by simpa using hdash), List.takeWhile_append_of_pos (by simpa using hdash)]
  simp

theorem parseRange_from {offset total : UInt64} (h : offset.toNat < total.toNat) :
    parseRange (fromHeader offset) total = some (offset, total - 1) := by
  have htrim : trim ("bytes=".toList ++ (digits offset ++ ['-'])) = "bytes=".toList ++ (digits offset ++ ['-']) := by
    refine trim_eq (fun c hc => ?_) fun c hc => ?_
    · cases hc
      decide
    · rw [← List.append_assoc, List.getLast?_concat, Option.some.injEq] at hc
      subst hc
      decide
  have hlast : saturatingSub total 1 = total - 1 := by
    rw [← UInt64.toNat_inj, toNat_saturatingSub, UInt64.toNat_one, toNat_sub_of_le (by rw [UInt64.toNat_one]; omega),
      UInt64.toNat_one]
  have hin : (total - 1).toNat = total.toNat - 1 := by rw [← hlast, toNat_saturatingSub, UInt64.toNat_one]
  have hfrom : fromStart (digits offset) [] total = some (offset, total - 1) := by
    unfold fromStart
    rw [trim_digits, parseU64_digits]
    dsimp only
    rw [if_pos (by rfl), hlast]
    dsimp only
    rw [if_neg (by simp only [UInt64.lt_iff_toNat_lt, UInt64.le_iff_toNat_le]; omega)]
  unfold parseRange
  rw [fromHeader_toList, htrim, rangeParts_from]
  split
  · rename_i hnone
    cases hnone
  · rename_i hempty
    exact absurd (Prod.mk.inj (Option.some.inj hempty)).1 Nat.toDigits_ne_nil
  · rename_i hparts
    cases hparts
    exact hfrom

theorem handleConnection_asked {method : Method} {media : MediaSource} {rangeHeader : Option String}
    {start stop last : UInt64} {status status' : Nat} (hzero : media.total ≠ 0)
    (hasked : asked parseRange media.total rangeHeader = some ((start, stop), status))
    (hcut : cap media start stop status = (last, status')) : handleConnection method media rangeHeader =
      .content ⟨status', start, last, media.total, (last - start + 1).toNat,
        if method = .head then [] else mediaBody media start last (last - start + 1)⟩ := by
  unfold handleConnection
  rw [if_neg hzero, hasked]
  dsimp only
  rw [hcut]

theorem handleConnection_from {source : Source} {object : List UInt8} (hserves : source.Serves object) {offset : UInt64}
    (hlt : offset.toNat < object.length) (hfits : offset.toNat + streamRangeCapBytes.toNat ≤ 2 ^ 64) :
    ∃ c, handleConnection .get (.stream source) (some (fromHeader offset)) = .content c ∧ c.total = source.size ∧
      c.last.toNat = min (object.length - 1) (offset.toNat + streamRangeCapBytes.toNat - 1) ∧
      c.body = slice object offset.toNat (c.last.toNat + 1) := by
  have hcap : 0 < streamRangeCapBytes.toNat := by decide
  have hsize := hserves.size
  have hzero : source.size ≠ 0 := fun h => by
    rw [h, UInt64.toNat_zero] at hsize
    omega
  have hstop : (source.size - 1).toNat = object.length - 1 := by
    rw [toNat_sub_of_le (by rw [UInt64.toNat_one]; omega), UInt64.toNat_one, hsize]
  obtain ⟨hlast, -⟩ := cap_stream source (source.size - 1) 206 hfits
  have hasked : asked parseRange (MediaSource.stream source).total (some (fromHeader offset)) =
      some ((offset, source.size - 1), 206) := by
    have hparse : parseRange (fromHeader offset) source.size = some (offset, source.size - 1) := parseRange_from (by omega)
    simp only [asked, MediaSource.total, hparse, Option.map_some]
  rcases hcut : cap (.stream source) offset (source.size - 1) 206 with ⟨last, status⟩
  rw [hcut, hstop] at hlast
  have hordered : offset ≤ last := UInt64.le_iff_toNat_le.2 (by dsimp only at hlast; omega)
  have hnew : ByteRange.new offset last = .ok ⟨offset, last, hordered⟩ := dif_pos hordered
  have hbody : mediaBody (.stream source) offset last (last - offset + 1) = slice object offset.toNat (last.toNat + 1) := by
    unfold mediaBody
    dsimp only at hlast ⊢
    rw [hnew]
    dsimp only
    rw [hserves.exact _ (by dsimp only; omega)]
  refine ⟨⟨status, offset, last, source.size, (last - offset + 1).toNat, slice object offset.toNat (last.toNat + 1)⟩, ?_, rfl,
    hlast, rfl⟩
  rw [handleConnection_asked (show (MediaSource.stream source).total ≠ 0 from hzero) hasked hcut, if_neg (by simp), hbody]
  rfl

theorem fetch_from {source : Source} {object : List UInt8} (hserves : source.Serves object) (fuel : Nat) {offset : UInt64}
    (hlt : offset.toNat < object.length) (hcut : offset.toNat % streamRangeCapBytes.toNat = 0)
    (hfuel : object.length - offset.toNat ≤ fuel) : fetch source fuel offset = some (object.drop offset.toNat) := by
  induction fuel generalizing offset with
  | zero => omega
  | succ fuel ih =>
    have hcap : streamRangeCapBytes.toNat = 8388608 := rfl
    have hsize := hserves.size
    have htotal := source.size.toNat_lt
    rw [hcap] at hcut
    obtain ⟨c, hc, hctotal, hlast, hbody⟩ := handleConnection_from hserves hlt (by rw [hcap]; omega)
    rw [hcap] at hlast
    have hnext : (c.last + 1).toNat = c.last.toNat + 1 := by
      rw [toNat_add_of_lt (by rw [UInt64.toNat_one]; omega), UInt64.toNat_one]
    unfold fetch
    rw [hc]
    dsimp only
    rw [hctotal]
    split
    · rename_i hend
      rw [← UInt64.toNat_inj, hnext, hsize] at hend
      rw [hbody, slice, hend, List.take_length]
    · rename_i hmore
      rw [← UInt64.toNat_inj, hnext, hsize] at hmore
      rw [ih (by omega) (by rw [hnext, hcap]; omega) (by omega), hnext, hbody, slice]
      have hsplit : (object.take (c.last.toNat + 1)).drop offset.toNat ++ object.drop (c.last.toNat + 1) =
          object.drop offset.toNat := by
        rw [← List.drop_append_of_le_length (by rw [List.length_take]; omega), List.take_append_drop]
      exact congrArg some hsplit

theorem fetch_whole {source : Source} {object : List UInt8} (hserves : source.Serves object) :
    ∃ fuel, fetch source fuel 0 = some object := by
  have hsize := hserves.size
  rcases Nat.eq_zero_or_pos object.length with hzero | hpos
  · have hnone : source.size = 0 := UInt64.toNat_inj.1 (by rw [hsize, hzero, UInt64.toNat_zero])
    refine ⟨1, ?_⟩
    rw [List.length_eq_zero_iff.1 hzero]
    unfold fetch handleConnection
    rw [if_pos (show (MediaSource.stream source).total = 0 from hnone)]
    rfl
  · exact ⟨object.length, fetch_from hserves object.length (by rwa [UInt64.toNat_zero]) rfl (by rw [UInt64.toNat_zero]; rfl)⟩

end Fetch

/-- A response of the media server for a local file is consistent exactly if the file still has the range when it is read; for
a source, exactly if the start is no less than 8 MiB below 2^64 and the source gives all of what is sent. A response of the
`haex-stream` protocol is exactly if the source gives all or nothing of the range. From a source that gives all a client gets
the whole object. -/
theorem range_responses_consistent_iff (method : Method) (file : ServedFile) (source : Source) (rangeHeader : Option String) :
    (MediaConsistent method (.local file) rangeHeader ↔ (file.size ≠ 0 → ∀ start stop status,
      asked parseRange file.size rangeHeader = some ((start, stop), status) → method = .get → status = 206 →
        stop.toNat < file.now.length)) ∧
    (MediaConsistent method (.stream source) rangeHeader ↔ (source.size ≠ 0 →
      ∀ start stop status, asked parseRange source.size rangeHeader = some ((start, stop), status) →
        start.toNat + streamRangeCapBytes.toNat < 2 ^ 64 ∧
        (method = .get → status = 206 ∨ start.toNat + streamRangeCapBytes.toNat - 1 < stop.toNat →
          source.GivesAll start.toNat (min stop.toNat (start.toNat + streamRangeCapBytes.toNat - 1))))) ∧
    (StreamConsistent source rangeHeader ↔ (source.size ≠ 0 → ∀ start stop,
      asked parseRangeHeader source.size rangeHeader = some ((start, stop), 206) → ∀ range bytes,
        ByteRange.new start stop = .ok range → source.readRange range = .ok bytes → bytes.length = range.length)) ∧
    ∀ object, source.Serves object → ∃ fuel, fetch source fuel 0 = some object :=
  ⟨mediaConsistent_local, mediaConsistent_stream, streamConsistent_iff, fun _ => fetch_whole⟩

/-- A peer that reports the greatest size, and a range at its end. -/
theorem hostile_size_overflows : ¬ MediaConsistent .get (.stream ⟨18446744073709551615, fun _ => .ok [0]⟩)
    (some (fromHeader 18446744073709551614)) := by
  intro h
  have hasked : asked parseRange 18446744073709551615 (some (fromHeader 18446744073709551614)) =
      some ((18446744073709551614, 18446744073709551614), 206) := by
    show (parseRange (fromHeader 18446744073709551614) 18446744073709551615).map (·, 206) = _
    rw [parseRange_from (by decide), Option.map_some]
    rfl
  have hfits := (mediaConsistent_stream.1 h (by decide) _ _ _ hasked).1
  exact absurd hfits (by decide)

end HaexVault.MediaServer
