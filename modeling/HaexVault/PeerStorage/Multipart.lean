import HaexVault.Lib.Runs
import HaexVault.PeerStorage.Ranges
/-!
# Downloads in parts (`peer_storage/client.rs`)

`read_multipart_to_file` cuts a file into ranges that several streams write at their own offsets,
in any order (`Transfer.step`). Every write puts bytes of the remote file where they belong, so
the written places agree with it whatever the order was (`Inv`), and the ranges cover the file
(`partRanges_cover`).
-/

namespace HaexVault.PeerStorage

open HaexVault.Lib HaexVault.Lib.Words HaexVault.Lib.Runs

/-! ## Ranges -/

def maxParallelStreamsPerFile : Nat := 4

def divCeil (a b : UInt64) : UInt64 := if a % b = 0 then a / b else a / b + 1

/-- The loop over the streams, which ends at the first one that has nothing to read. -/
def rangesFrom (size chunk : UInt64) : Nat → Nat → List (UInt64 × UInt64)
  | 0, _ => []
  | k + 1, i =>
    let start := UInt64.ofNat i * chunk
    if size ≤ start then []
    else (start, min (start + chunk) size) :: rangesFrom size chunk k (i + 1)

/-- The number of streams. -/
def streams (parallelism : Nat) : Nat := min (max parallelism 1) maxParallelStreamsPerFile

/-- The ranges that are requested. -/
def partRanges (size : UInt64) (parallelism : Nat) : List (UInt64 × UInt64) :=
  rangesFrom size (divCeil size (UInt64.ofNat (streams parallelism))) (streams parallelism) 0

/-! ## One part -/

structure PartInput where
  /-- Of `open_stream` and `send_request`. -/
  response : Except PeerStorageError ReadResponse
  /-- The output file cannot be opened, or seeked. -/
  openError : Option String
  incoming : Incoming

def PipelineError.transferError : PipelineError → PeerStorageError
  | io e => .io e
  | stream reason => .connectionFailed reason
  | cancelled => .protocolError "Transfer cancelled"

/-- A spawned task: the bytes it writes, and its result. -/
def partTask (partSize : UInt64) (input : PartInput) : List UInt8 × Except PeerStorageError Unit :=
  match input.response with
  | .error e => ([], .error e)
  | .ok (.error message) => ([], .error (.protocolError message))
  | .ok .other => ([], .error (.protocolError "Unexpected response in multipart read"))
  | .ok (.readHeader announced) =>
    if announced ≠ partSize then
      ([], .error (.protocolError ("multipart range size mismatch: requested " ++ toString partSize ++ ", peer announced " ++
        toString announced)))
    else match input.openError with
      | some e => ([], .error (.io e))
      | none =>
        let (bytes, result) := input.incoming.pipeRecvToWriter partSize.toNat
        (bytes, match result with
          | .error e => .error e.transferError
          | .ok stats =>
            if stats.bytes ≠ partSize.toNat then
              .error (.connectionFailed ("multipart range short: expected " ++ toString partSize ++ ", received " ++
                toString stats.bytes))
            else .ok ())

/-! ## The transfer -/

structure Part where
  start : Nat
  stop : Nat
  /-- Where the next byte is written. -/
  pos : Nat
  /-- What is still to be written. -/
  todo : List UInt8
  result : Except PeerStorageError Unit
  joined : Bool

structure Transfer where
  file : List UInt8
  parts : List Part
  firstErr : Option PeerStorageError

def overwrite (file : List UInt8) (pos : Nat) (chunk : List UInt8) : List UInt8 :=
  file.take pos ++ List.replicate (pos - file.length) 0 ++ chunk ++ file.drop (pos + chunk.length)

inductive TransferEvent where
  /-- A writer task writes some of its bytes. That of an aborted part may still do. -/
  | write (i n : Nat)
  /-- A part ends. -/
  | join (i : Nat)
  /-- A part ends because another one failed. -/
  | abort (i : Nat)

def Transfer.step (s : Transfer) : TransferEvent → Transfer
  | .write i n => match s.parts[i]? with
    | none => s
    | some p =>
      let chunk := p.todo.take n
      { s with
        file := overwrite s.file p.pos chunk
        parts := s.parts.set i { p with pos := p.pos + chunk.length, todo := p.todo.drop n } }
  | .join i => match s.parts[i]? with
    | none => s
    | some p =>
      if p.joined ∨ p.todo ≠ [] then s
      else
        { s with
          parts := s.parts.set i { p with joined := true }
          firstErr := match p.result with
            | .ok _ => s.firstErr
            | .error e => some (s.firstErr.getD e) }
  | .abort i => match s.parts[i]? with
    | none => s
    | some p =>
      if p.joined ∨ s.firstErr = none then s
      else { s with parts := s.parts.set i { p with joined := true } }

def Transfer.start (size : UInt64) (parallelism : Nat) (inputs : UInt64 × UInt64 → PartInput) : Transfer where
  file := List.replicate size.toNat 0
  parts := (partRanges size parallelism).map fun range =>
    let (bytes, result) := partTask (range.2 - range.1) (inputs range)
    ⟨range.1.toNat, range.2.toNat, range.1.toNat, bytes, result, false⟩
  firstErr := none

structure StreamReadResult where
  bytes : UInt64
  hash : Option String

structure OutputCalls where
  openError : Option String
  setLenError : Option String
  hashError : Option String
  /-- `remove_file` works; its error is dropped. -/
  removes : Bool

def OutputCalls.remove (calls : OutputCalls) (file : List UInt8) : Option (List UInt8) := if calls.removes then none else some file

/-- `read_multipart_to_file` after its tasks have ended as in `events`: the result, and what is at the output path. -/
def readMultipartToFile (sha : List UInt8 → String) (calls : OutputCalls) (before : Option (List UInt8)) (size : UInt64)
    (parallelism : Nat) (inputs : UInt64 × UInt64 → PartInput) (events : List TransferEvent) :
    Except PeerStorageError StreamReadResult × Option (List UInt8) :=
  match calls.openError with
  | some e => (.error (.io e), before)
  | none =>
    if size = 0 then (.ok ⟨0, some (sha [])⟩, some [])
    else match calls.setLenError with
      | some e => (.error (.io e), some [])
      | none =>
        let s := run Transfer.step (Transfer.start size parallelism inputs) events
        match s.firstErr with
        | some e => (.error e, calls.remove s.file)
        | none => match calls.hashError with
          | some e => (.error (.protocolError ("post-download hash: " ++ e)), some s.file)
          | none => (.ok ⟨size, some (sha s.file)⟩, some s.file)

def Transfer.Over (s : Transfer) : Prop := ∀ p ∈ s.parts, p.joined = true

instance decidableOver (s : Transfer) : Decidable s.Over := inferInstanceAs (Decidable (∀ p ∈ s.parts, p.joined = true))

def readOpenStreamsToFile (sha : List UInt8 → String) (calls : OutputCalls) (before : Option (List UInt8))
    (range : Option (UInt64 × UInt64)) (input : PartInput) : Except PeerStorageError StreamReadResult × Option (List UInt8) :=
  match input.response with
  | .error e => (.error e, before)
  | .ok (.error message) => (.error (.protocolError message), before)
  | .ok .other => (.error (.protocolError "Unexpected response type"), before)
  | .ok (.readHeader size) => match calls.openError with
    | some e => (.error (.protocolError ("Failed to create output file: " ++ e)), before)
    | none =>
      let (bytes, result) := input.incoming.pipeRecvToWriter size.toNat
      match result with
      | .error .cancelled => (.error (.protocolError "Transfer cancelled"), calls.remove bytes)
      | .error (.io e) => (.error (.protocolError ("Failed to write to file: " ++ e)), calls.remove bytes)
      | .error (.stream reason) => (.error (.connectionFailed reason), calls.remove bytes)
      | .ok stats =>
        if stats.bytes ≠ size.toNat then
          (.error (.connectionFailed ("Incomplete download: expected " ++ toString size ++ " bytes, received " ++
            toString stats.bytes)), calls.remove bytes)
        else (.ok ⟨size, if range.isNone then some (sha bytes) else none⟩, some bytes)

/-- What a peer sends of a file that it serves: an error, or a beginning of the range. -/
def Sends (width : PointerWidth) (atOnce : List UInt8 → Nat) (file : ServedFile) (range : Option (UInt64 × UInt64))
    (input : PartInput) : Prop :=
  ∀ size, input.response = .ok (.readHeader size) → size = (streamFileToSend width atOnce file range).announced ∧
    input.incoming.sent <+: (streamFileToSend width atOnce file range).chunks.flatten

/-- The output file is the remote one, with the result of a download in one stream; or there is an error and no output file. -/
def SameAsSingle (sha : List UInt8 → String) (remote : List UInt8) (size : UInt64) :
    Except PeerStorageError StreamReadResult × Option (List UInt8) → Prop
  | (.ok result, output) => output = some remote ∧ result = ⟨size, some (sha remote)⟩
  | (.error _, output) => output = none

/-! ## The ranges cover the file -/

section Ranges
variable {size chunk : UInt64} {k i : Nat}

theorem toNat_index (hchunk : 0 < chunk.toNat) (h : i * chunk.toNat < 2 ^ 64) :
    (UInt64.ofNat i * chunk).toNat = i * chunk.toNat := by
  have hi : i < 2 ^ 64 := Nat.lt_of_le_of_lt (Nat.le_mul_of_pos_right i hchunk) h
  rw [UInt64.toNat_mul, UInt64.toNat_ofNat_of_lt' hi, Nat.mod_eq_of_lt h]

theorem rangesFrom_succ (size : UInt64) (i : Nat) (hchunk : 0 < chunk.toNat) (hfit : (i + 1) * chunk.toNat < 2 ^ 64) :
    (UInt64.ofNat i * chunk).toNat = i * chunk.toNat ∧
      (min (UInt64.ofNat i * chunk + chunk) size).toNat = min ((i + 1) * chunk.toNat) size.toNat := by
  rw [Nat.add_mul, Nat.one_mul] at hfit ⊢
  have hstart : (UInt64.ofNat i * chunk).toNat = i * chunk.toNat := toNat_index hchunk (by omega)
  refine ⟨hstart, ?_⟩
  rw [toNat_min, toNat_add_of_lt (by omega), hstart]

theorem rangesFrom_bounds (hchunk : 0 < chunk.toNat) (hfit : (i + k) * chunk.toNat < 2 ^ 64) {range : UInt64 × UInt64}
    (h : range ∈ rangesFrom size chunk k i) :
    i * chunk.toNat ≤ range.1.toNat ∧ range.1.toNat < range.2.toNat ∧ range.2.toNat ≤ size.toNat := by
  induction k generalizing i with
  | zero => cases h
  | succ k ih =>
    have hnext : (i + 1) * chunk.toNat ≤ (i + (k + 1)) * chunk.toNat := Nat.mul_le_mul_right _ (by omega)
    obtain ⟨hstart, hstop⟩ := rangesFrom_succ size i hchunk (by omega)
    unfold rangesFrom at h
    dsimp only at h
    split at h
    · cases h
    · rename_i hmore
      rw [UInt64.le_iff_toNat_le, hstart] at hmore
      rw [Nat.add_mul, Nat.one_mul] at hnext
      rcases List.mem_cons.1 h with rfl | h
      · rw [hstart, hstop, Nat.add_mul, Nat.one_mul]
        omega
      · obtain ⟨hle, hrest⟩ := ih (by rwa [Nat.add_assoc, Nat.add_comm 1 k]) h
        rw [Nat.add_mul, Nat.one_mul] at hle
        exact ⟨by omega, hrest⟩

theorem rangesFrom_disjoint (hchunk : 0 < chunk.toNat) (hfit : (i + k) * chunk.toNat < 2 ^ 64) :
    (rangesFrom size chunk k i).Pairwise fun a b => a.2.toNat ≤ b.1.toNat := by
  induction k generalizing i with
  | zero => exact .nil
  | succ k ih =>
    have hnext : (i + 1) * chunk.toNat ≤ (i + (k + 1)) * chunk.toNat := Nat.mul_le_mul_right _ (by omega)
    obtain ⟨-, hstop⟩ := rangesFrom_succ size i hchunk (by omega)
    have hfit' : (i + 1 + k) * chunk.toNat < 2 ^ 64 := by rwa [Nat.add_assoc, Nat.add_comm 1 k]
    unfold rangesFrom
    dsimp only
    split
    · exact .nil
    · refine List.pairwise_cons.2 ⟨fun range hrange => ?_, ih hfit'⟩
      obtain ⟨hle, -⟩ := rangesFrom_bounds hchunk hfit' hrange
      rw [hstop]
      omega

theorem rangesFrom_cover (hchunk : 0 < chunk.toNat) (hfit : (i + k) * chunk.toNat < 2 ^ 64) {p : Nat}
    (hle : i * chunk.toNat ≤ p) (hlt : p < size.toNat) (hp : p < (i + k) * chunk.toNat) :
    ∃ range ∈ rangesFrom size chunk k i, range.1.toNat ≤ p ∧ p < range.2.toNat := by
  induction k generalizing i with
  | zero =>
    rw [Nat.add_zero] at hp
    omega
  | succ k ih =>
    have hnext : (i + 1) * chunk.toNat ≤ (i + (k + 1)) * chunk.toNat := Nat.mul_le_mul_right _ (by omega)
    obtain ⟨hstart, hstop⟩ := rangesFrom_succ size i hchunk (by omega)
    unfold rangesFrom
    dsimp only
    rw [if_neg (by rw [UInt64.le_iff_toNat_le, hstart]; omega)]
    by_cases hhere : p < (i + 1) * chunk.toNat
    · exact ⟨_, List.mem_cons_self, by rw [hstart]; exact hle, by rw [hstop]; omega⟩
    · obtain ⟨range, hrange, hcovers⟩ := ih (by rwa [Nat.add_assoc, Nat.add_comm 1 k]) (Nat.le_of_not_lt hhere)
        (by rwa [Nat.add_assoc, Nat.add_comm 1 k])
      exact ⟨range, List.mem_cons_of_mem _ hrange, hcovers⟩

variable {parallelism : Nat}

theorem streams_bounds (parallelism : Nat) : 1 ≤ streams parallelism ∧ streams parallelism ≤ 4 := by
  unfold streams maxParallelStreamsPerFile
  omega

theorem toNat_divCeil {a b : UInt64} (hb : 0 < b.toNat) (h : a.toNat < 2 ^ 63) :
    a.toNat ≤ b.toNat * (divCeil a b).toNat ∧ b.toNat * (divCeil a b).toNat < a.toNat + b.toNat := by
  have hdiv := Nat.div_add_mod a.toNat b.toNat
  have hmod := Nat.mod_lt a.toNat hb
  have hle := Nat.div_le_self a.toNat b.toNat
  unfold divCeil
  split
  · rename_i hzero
    rw [← UInt64.toNat_inj, UInt64.toNat_mod, UInt64.toNat_zero] at hzero
    rw [UInt64.toNat_div]
    omega
  · rename_i hnonzero
    rw [← UInt64.toNat_inj, UInt64.toNat_mod, UInt64.toNat_zero] at hnonzero
    rw [toNat_add_of_lt (by rw [UInt64.toNat_div, UInt64.toNat_one]; omega), UInt64.toNat_div, UInt64.toNat_one, Nat.mul_add,
      Nat.mul_one]
    omega

theorem chunk_bounds (parallelism : Nat) (hpos : 0 < size.toNat) (hsmall : size.toNat < 2 ^ 63) :
    0 < (divCeil size (UInt64.ofNat (streams parallelism))).toNat ∧
      size.toNat ≤ streams parallelism * (divCeil size (UInt64.ofNat (streams parallelism))).toNat ∧
      streams parallelism * (divCeil size (UInt64.ofNat (streams parallelism))).toNat < 2 ^ 64 := by
  obtain ⟨hone, hfour⟩ := streams_bounds parallelism
  have hn : (UInt64.ofNat (streams parallelism)).toNat = streams parallelism :=
    UInt64.toNat_ofNat_of_lt' (by simp only [UInt64.size]; omega)
  obtain ⟨hle, hlt⟩ := toNat_divCeil (b := UInt64.ofNat (streams parallelism)) (by omega) hsmall
  rw [hn] at hle hlt
  refine ⟨Nat.pos_of_ne_zero fun hzero => ?_, hle, by omega⟩
  rw [hzero] at hle
  omega

structure Cuts (size : UInt64) (ranges : List (UInt64 × UInt64)) : Prop where
  bounds : ∀ range ∈ ranges, range.1.toNat < range.2.toNat ∧ range.2.toNat ≤ size.toNat
  disjoint : ranges.Pairwise fun a b => a.2.toNat ≤ b.1.toNat
  cover : ∀ p, p < size.toNat → ∃ range ∈ ranges, range.1.toNat ≤ p ∧ p < range.2.toNat

theorem partRanges_cuts (parallelism : Nat) (hsmall : size.toNat < 2 ^ 63) : Cuts size (partRanges size parallelism) := by
  rcases Nat.eq_zero_or_pos size.toNat with hzero | hpos
  · have hnil : partRanges size parallelism = [] := by
      obtain ⟨hone, -⟩ := streams_bounds parallelism
      unfold partRanges
      obtain ⟨k, hk⟩ := Nat.exists_eq_succ_of_ne_zero (Nat.ne_of_gt hone)
      rw [hk, rangesFrom, if_pos (by rw [UInt64.le_iff_toNat_le, hzero]; exact Nat.zero_le _)]
    rw [hnil]
    exact ⟨fun _ h => absurd h List.not_mem_nil, .nil, fun p hp => absurd hp (by omega)⟩
  · obtain ⟨hchunk, hle, hfit⟩ := chunk_bounds parallelism hpos hsmall
    have hfit' : (0 + streams parallelism) * (divCeil size (UInt64.ofNat (streams parallelism))).toNat < 2 ^ 64 := by
      rwa [Nat.zero_add]
    refine ⟨fun range hrange => (rangesFrom_bounds hchunk hfit' hrange).2, rangesFrom_disjoint hchunk hfit', fun p hp => ?_⟩
    exact rangesFrom_cover hchunk hfit' (by omega) hp (by rw [Nat.zero_add]; omega)

end Ranges

/-! ## What a part writes -/

section Task
variable {width : PointerWidth} {atOnce : List UInt8 → Nat} {file : ServedFile} {range : UInt64 × UInt64} {input : PartInput}
  {bytes : List UInt8} {result : Except PeerStorageError Unit}

theorem readLoop_prefix (failure : Option LoopFailure) (size received : Nat) (chunks : List (List UInt8)) :
    (Incoming.readLoop failure size received chunks).1 <+: chunks.flatten := by
  induction chunks generalizing received with
  | nil =>
    unfold Incoming.readLoop
    split
    · exact List.nil_prefix
    · cases failure <;> exact List.nil_prefix
  | cons chunk rest ih =>
    unfold Incoming.readLoop
    split
    · exact List.nil_prefix
    · exact (List.prefix_append_right_inj chunk).2 (ih (received + chunk.length))

theorem pipe_gives_beginning (s : Incoming) (size : Nat) : (s.pipeRecvToWriter size).1 <+: s.sent := by
  have hloop := readLoop_prefix s.failure size 0 s.chunks
  unfold Incoming.pipeRecvToWriter
  cases s.room with
  | none =>
    cases h : (Incoming.readLoop s.failure size 0 s.chunks).2 <;>
      simpa [h, Incoming.sent, Incoming.pipeRecvToWriter.finish] using hloop
  | some r =>
    dsimp only
    split
    · exact (List.take_prefix _ _).trans hloop
    · cases h : (Incoming.readLoop s.failure size 0 s.chunks).2 <;>
      simpa [h, Incoming.sent, Incoming.pipeRecvToWriter.finish] using hloop

theorem pipe_count {s : Incoming} {size : Nat} {stats : RecvStats} (h : (s.pipeRecvToWriter size).2 = .ok stats) :
    stats.bytes = (s.pipeRecvToWriter size).1.length := by
  unfold Incoming.pipeRecvToWriter at h ⊢
  cases hloop : (Incoming.readLoop s.failure size 0 s.chunks).2 with
  | none => cases hroom : s.room with
    | none =>
      simp only [hloop, hroom, Incoming.pipeRecvToWriter.finish, Except.ok.injEq] at h ⊢
      exact h ▸ rfl
    | some r =>
      simp only [hloop, hroom, Incoming.pipeRecvToWriter.finish] at h ⊢
      split at h
      · cases h
      · cases h
        rename_i hge
        rw [if_neg hge]
  | some e => cases hroom : s.room with
    | none => simp [hloop, hroom, Incoming.pipeRecvToWriter.finish] at h
    | some r =>
      simp only [hloop, hroom, Incoming.pipeRecvToWriter.finish] at h
      split at h <;> cases h

theorem partTask_sent {partSize : UInt64} (h : partTask partSize input = (bytes, result)) :
    (bytes = [] ∨ bytes <+: input.incoming.sent ∧ input.response = .ok (.readHeader partSize)) ∧
      (result = .ok () → bytes.length = partSize.toNat ∧ input.response = .ok (.readHeader partSize)) := by
  unfold partTask at h
  split at h
  · cases h
    exact ⟨.inl rfl, fun h => by cases h⟩
  · cases h
    exact ⟨.inl rfl, fun h => by cases h⟩
  · cases h
    exact ⟨.inl rfl, fun h => by cases h⟩
  · rename_i announced hresponse
    split at h
    · cases h
      exact ⟨.inl rfl, fun h => by cases h⟩
    · rename_i hsize
      rw [not_not] at hsize
      subst hsize
      split at h
      · cases h
        exact ⟨.inl rfl, fun h => by cases h⟩
      · cases h
        refine ⟨.inr ⟨pipe_gives_beginning _ _, hresponse⟩, fun hok => ?_⟩
        split at hok
        · cases hok
        · rename_i stats hstats
          split at hok
          · cases hok
          · rename_i hcount
            exact ⟨(pipe_count hstats).symm.trans (not_not.1 hcount), hresponse⟩

theorem partTask_remote (hunchanged : file.now = file.held) (hrange : range.1.toNat < range.2.toNat)
    (hstop : range.2.toNat ≤ file.held.length) (hsends : Sends width atOnce file (some range) input)
    (h : partTask (range.2 - range.1) input = (bytes, result)) :
    bytes <+: file.held.drop range.1.toNat ∧ (result = .ok () → bytes.length = range.2.toNat - range.1.toNat) := by
  obtain ⟨hbytes, hok⟩ := partTask_sent h
  constructor
  · rcases hbytes with rfl | ⟨hsent, hresponse⟩
    · exact List.nil_prefix
    · obtain ⟨-, hstreamed⟩ := hsends _ hresponse
      obtain ⟨-, -, hchunks⟩ := streamFileToSend_ordered width atOnce
        (show range.1.toNat ≤ min range.2.toNat file.held.length by omega)
      rw [hchunks, hunchanged] at hstreamed
      exact hsent.trans (hstreamed.trans (List.take_prefix _ _))
  · intro hresult
    rw [(hok hresult).1, toNat_sub_of_le hrange.le]

end Task

/-! ## The transfer agrees with the remote file -/

section Overwrite
variable {file remote chunk : List UInt8} {pos k : Nat}

theorem length_overwrite (h : pos + chunk.length ≤ file.length) : (overwrite file pos chunk).length = file.length := by
  simp only [overwrite, List.length_append, List.length_take, List.length_replicate, List.length_drop]
  omega

theorem getElem?_overwrite (h : pos + chunk.length ≤ file.length) :
    (overwrite file pos chunk)[k]? = if pos ≤ k ∧ k < pos + chunk.length then chunk[k - pos]? else file[k]? := by
  have hpad : pos - file.length = 0 := by omega
  have htake : (file.take pos).length = pos := by rw [List.length_take]; omega
  rw [overwrite, hpad, List.replicate_zero, List.append_nil, List.append_assoc]
  rcases Nat.lt_or_ge k pos with hbefore | hpos
  · rw [List.getElem?_append_left (by omega), List.getElem?_take_of_lt hbefore, if_neg (by omega)]
  · rw [List.getElem?_append_right (by omega), htake]
    rcases Nat.lt_or_ge k (pos + chunk.length) with hin | hafter
    · rw [List.getElem?_append_left (by omega), if_pos ⟨hpos, hin⟩]
    · rw [List.getElem?_append_right (by omega), List.getElem?_drop, if_neg (by omega)]
      congr 1
      omega

theorem overwrite_agrees (hlen : file.length = remote.length) (hchunk : chunk <+: remote.drop pos)
    (hfits : pos + chunk.length ≤ remote.length) :
    (overwrite file pos chunk)[k]? = if pos ≤ k ∧ k < pos + chunk.length then remote[k]? else file[k]? := by
  rw [getElem?_overwrite (by omega)]
  split
  · obtain ⟨rest, hrest⟩ := hchunk
    have hk : (remote.drop pos)[k - pos]? = chunk[k - pos]? := by
      rw [← hrest, List.getElem?_append_left (by omega)]
    rw [← hk, List.getElem?_drop]
    congr 1
    omega
  · rfl

end Overwrite

def Part.key (p : Part) : Nat × Nat × Except PeerStorageError Unit := (p.start, p.stop, p.result)

/-- A part has written bytes of the remote file where they belong, and has such bytes to write. -/
structure PartInv (remote file : List UInt8) (p : Part) : Prop where
  fits : p.pos + p.todo.length ≤ remote.length
  rest : p.todo <+: remote.drop p.pos
  written : ∀ k, p.start ≤ k → k < p.pos → file[k]? = remote[k]?
  full : p.result = .ok () → p.pos + p.todo.length = p.stop

structure Transfer.Inv (remote : List UInt8) (s₀ s : Transfer) : Prop where
  length : s.file.length = remote.length
  keys : s.parts.map Part.key = s₀.parts.map Part.key
  parts : ∀ p ∈ s.parts, PartInv remote s.file p
  /-- Without an error no part was aborted. -/
  clean : s.firstErr = none → ∀ p ∈ s.parts, p.joined = true → p.result = .ok () ∧ p.todo = []
  failed : s.firstErr ≠ none → ∃ p ∈ s₀.parts, p.result ≠ .ok ()

section Run
variable {remote file : List UInt8} {s₀ s : Transfer} {p q : Part} {i n : Nat} {parts : List Part}

theorem map_key_set (hp : parts[i]? = some p) (hq : q.key = p.key) : (parts.set i q).map Part.key = parts.map Part.key := by
  obtain ⟨hi, rfl⟩ := List.getElem?_eq_some_iff.1 hp
  have hkey : (parts.map Part.key)[i]? = some parts[i].key := by rw [List.getElem?_map, hp]; rfl
  obtain ⟨hlt, hget⟩ := List.getElem?_eq_some_iff.1 hkey
  rw [List.map_set, hq, ← hget, List.set_getElem_self]

theorem PartInv.congr (h : PartInv remote file p) (joined : Bool) : PartInv remote file { p with joined } :=
  ⟨h.fits, h.rest, h.written, h.full⟩

theorem PartInv.other (h : PartInv remote file q) (hp : PartInv remote file p) (hlen : file.length = remote.length) (n : Nat) :
    PartInv remote (overwrite file p.pos (p.todo.take n)) q := by
  have hfits := hp.fits
  have htake : (p.todo.take n).length ≤ p.todo.length := by rw [List.length_take]; omega
  refine ⟨h.fits, h.rest, fun k hk hk' => ?_, h.full⟩
  rw [overwrite_agrees hlen ((List.take_prefix n p.todo).trans hp.rest) (by omega)]
  split
  · rfl
  · exact h.written k hk hk'

theorem PartInv.write (h : PartInv remote file p) (hlen : file.length = remote.length) (n : Nat) :
    PartInv remote (overwrite file p.pos (p.todo.take n))
      { p with pos := p.pos + (p.todo.take n).length, todo := p.todo.drop n } := by
  have hfits := h.fits
  have hsplit : (p.todo.take n).length + (p.todo.drop n).length = p.todo.length := by
    rw [List.length_take, List.length_drop]
    omega
  have hchunk : p.todo.take n <+: remote.drop p.pos := (List.take_prefix n p.todo).trans h.rest
  refine ⟨by dsimp only; omega, ?_, fun k hk hk' => ?_, fun hok => ?_⟩
  · obtain ⟨rest, hrest⟩ := h.rest
    refine ⟨rest, ?_⟩
    rw [← List.drop_drop, ← hrest, List.drop_append_of_le_length (by rw [List.length_take]; omega)]
    congr 1
    rw [List.length_take]
    rcases Nat.le_total n p.todo.length with hle | hle
    · rw [Nat.min_eq_left hle]
    · rw [Nat.min_eq_right hle, List.drop_eq_nil_of_le hle, List.drop_length]
  · rw [overwrite_agrees hlen hchunk (by omega)]
    split
    · rfl
    · exact h.written k hk (by dsimp only at hk'; omega)
  · have hfull : p.pos + p.todo.length = p.stop := h.full hok
    dsimp only
    omega

theorem Transfer.Inv.result_mem (h : Inv remote s₀ s) (hp : p ∈ s.parts) : ∃ q ∈ s₀.parts, q.key = p.key := by
  have hmem : p.key ∈ s₀.parts.map Part.key := h.keys ▸ List.mem_map_of_mem hp
  exact List.mem_map.1 hmem

theorem Transfer.Inv.step (h : Inv remote s₀ s) (e : TransferEvent) : Inv remote s₀ (s.step e) := by
  cases e with
  | write i n =>
    dsimp only [Transfer.step]
    cases hp : s.parts[i]? with
    | none => exact h
    | some p =>
      have hmem := List.mem_of_getElem? hp
      have hinv := h.parts p hmem
      have hfits := hinv.fits
      have htake : (p.todo.take n).length ≤ p.todo.length := by rw [List.length_take]; omega
      refine ⟨(length_overwrite (by rw [h.length]; omega)).trans h.length, (map_key_set hp (by rfl)).trans h.keys,
        fun q hq => ?_, fun hnone q hq hjoined => ?_, h.failed⟩
      · rcases List.mem_or_eq_of_mem_set hq with hq | rfl
        · exact (h.parts q hq).other hinv h.length n
        · exact hinv.write h.length n
      · rcases List.mem_or_eq_of_mem_set hq with hq | rfl
        · exact h.clean hnone q hq hjoined
        · obtain ⟨hok, htodo⟩ := h.clean hnone p hmem hjoined
          exact ⟨hok, by dsimp only; rw [htodo, List.drop_nil]⟩
  | join i =>
    dsimp only [Transfer.step]
    cases hp : s.parts[i]? with
    | none => exact h
    | some p =>
      have hmem := List.mem_of_getElem? hp
      dsimp only
      split
      · exact h
      · rename_i hgo
        rw [not_or, not_not] at hgo
        refine ⟨h.length, (map_key_set hp (by rfl)).trans h.keys, fun q hq => ?_, fun hnone q hq hjoined => ?_, fun herr => ?_⟩
        · rcases List.mem_or_eq_of_mem_set hq with hq | rfl
          · exact h.parts q hq
          · exact (h.parts p hmem).congr true
        · dsimp only at hnone
          split at hnone
          · rename_i hok
            rcases List.mem_or_eq_of_mem_set hq with hq | rfl
            · exact h.clean hnone q hq hjoined
            · exact ⟨hok, hgo.2⟩
          · cases hnone
        · dsimp only at herr
          split at herr
          · exact h.failed herr
          · rename_i e hfailed
            obtain ⟨q, hq, hkey⟩ := h.result_mem hmem
            refine ⟨q, hq, fun hok => ?_⟩
            have hresult : q.result = p.result := congrArg (·.2.2) hkey
            rw [hok, hfailed] at hresult
            cases hresult
  | abort i =>
    dsimp only [Transfer.step]
    cases hp : s.parts[i]? with
    | none => exact h
    | some p =>
      have hmem := List.mem_of_getElem? hp
      dsimp only
      split
      · exact h
      · rename_i hgo
        rw [not_or] at hgo
        refine ⟨h.length, (map_key_set hp (by rfl)).trans h.keys, fun q hq => ?_, fun hnone => absurd hnone hgo.2, h.failed⟩
        rcases List.mem_or_eq_of_mem_set hq with hq | rfl
        · exact h.parts q hq
        · exact (h.parts p hmem).congr true

theorem Transfer.Inv.run (h : Inv remote s₀ s) (events : List TransferEvent) : Inv remote s₀ (Runs.run Transfer.step s events) :=
  (guarded_true s events).inv (fun _ e hs _ => hs.step e) h

theorem Transfer.Inv.file_eq (h : Inv remote s₀ s) (hover : s.Over) (hnone : s.firstErr = none)
    (hcover : ∀ k, k < remote.length → ∃ p ∈ s₀.parts, p.start ≤ k ∧ k < p.stop) : s.file = remote := by
  refine List.ext_getElem? fun k => ?_
  rcases Nat.lt_or_ge k remote.length with hk | hk
  · obtain ⟨q, hq, hle, hlt⟩ := hcover k hk
    have hmem : q.key ∈ s.parts.map Part.key := h.keys ▸ List.mem_map_of_mem hq
    obtain ⟨p, hp, hkey⟩ := List.mem_map.1 hmem
    obtain ⟨hok, htodo⟩ := h.clean hnone p hp (hover p hp)
    have hstart : p.start = q.start := congrArg (·.1) hkey
    have hstop : p.stop = q.stop := congrArg (·.2.1) hkey
    have hfull := (h.parts p hp).full hok
    rw [htodo, List.length_nil] at hfull
    exact (h.parts p hp).written k (by omega) (by omega)
  · rw [List.getElem?_eq_none hk, List.getElem?_eq_none (by rw [h.length]; exact hk)]

theorem Transfer.Inv.failed_iff (h : Inv remote s₀ s) (hover : s.Over) :
    s.firstErr ≠ none ↔ ∃ p ∈ s₀.parts, p.result ≠ .ok () := by
  refine ⟨h.failed, fun ⟨q, hq, hfails⟩ hnone => hfails ?_⟩
  have hmem : q.key ∈ s.parts.map Part.key := h.keys ▸ List.mem_map_of_mem hq
  obtain ⟨p, hp, hkey⟩ := List.mem_map.1 hmem
  exact (congrArg (·.2.2) hkey).symm.trans (h.clean hnone p hp (hover p hp)).1

theorem Transfer.length_step (s : Transfer) (e : TransferEvent) : (s.step e).parts.length = s.parts.length := by
  cases e with
  | write i n =>
    dsimp only [Transfer.step]
    split
    · rfl
    · exact List.length_set
  | join i | abort i =>
    dsimp only [Transfer.step]
    split
    · rfl
    · split
      · rfl
      · exact List.length_set

theorem Transfer.exists_joined (s : Transfer) (i : Nat) :
    ∃ events, (∀ j, j ≠ i → (Runs.run Transfer.step s events).parts[j]? = s.parts[j]?) ∧
      ∀ p : Part, (Runs.run Transfer.step s events).parts[i]? = some p → p.joined = true := by
  cases hp : s.parts[i]? with
  | none => exact ⟨[], fun _ _ => rfl, fun p h => by rw [run_nil, hp] at h; cases h⟩
  | some p =>
    by_cases hjoined : p.joined = true
    · exact ⟨[], fun _ _ => rfl, fun q h => by rw [run_nil, hp] at h; cases h; exact hjoined⟩
    · obtain ⟨hi, rfl⟩ := List.getElem?_eq_some_iff.1 hp
      refine ⟨[.write i s.parts[i].todo.length, .join i], fun j hj => ?_, fun q hq => ?_⟩
      · simp [Transfer.step, hi, hjoined, List.getElem?_set_ne hj.symm]
      · simp [Transfer.step, hi, hjoined] at hq
        rw [← hq]

theorem Transfer.exists_over (s : Transfer) : ∃ events, (Runs.run Transfer.step s events).Over := by
  have hupTo : ∀ m : Nat, ∃ events, ∀ i : Nat, i < m → ∀ p : Part,
      (Runs.run Transfer.step s events).parts[i]? = some p → p.joined = true := by
    intro m
    induction m with
    | zero => exact ⟨[], fun i hi => absurd hi (Nat.not_lt_zero i)⟩
    | succ m ih =>
      obtain ⟨events, hbefore⟩ := ih
      obtain ⟨more, hothers, hthis⟩ := (Runs.run Transfer.step s events).exists_joined m
      refine ⟨events ++ more, fun i hi p hp => ?_⟩
      rw [run_append] at hp
      by_cases him : i = m
      · exact hthis p (him ▸ hp)
      · exact hbefore i (by omega) p ((hothers i him).symm.trans hp)
  obtain ⟨events, h⟩ := hupTo s.parts.length
  have hlen : (Runs.run Transfer.step s events).parts.length = s.parts.length :=
    (guarded_true s events).inv (I := fun s' => s'.parts.length = s.parts.length)
      (fun s' e hs' _ => (s'.length_step e).trans hs') rfl
  refine ⟨events, fun p hp => ?_⟩
  obtain ⟨i, hi⟩ := List.mem_iff_getElem?.1 hp
  obtain ⟨hlt, -⟩ := List.getElem?_eq_some_iff.1 hi
  exact h i (by omega) p hi

end Run

/-! ## The whole download -/

section Download
variable {sha : List UInt8 → String} {width : PointerWidth} {atOnce : List UInt8 → Nat} {file : ServedFile}
  {parallelism : Nat} {inputs : UInt64 × UInt64 → PartInput} {input : PartInput} {calls : OutputCalls}
  {before output : Option (List UInt8)} {result : StreamReadResult}

def SomePartFails (size : UInt64) (parallelism : Nat) (inputs : UInt64 × UInt64 → PartInput) : Prop :=
  ∃ range ∈ partRanges size parallelism, (partTask (range.2 - range.1) (inputs range)).2 ≠ .ok ()

theorem start_inv (hunchanged : file.now = file.held)
    (hsends : ∀ range ∈ partRanges file.size parallelism, Sends width atOnce file (some range) (inputs range)) :
    Transfer.Inv file.held (Transfer.start file.size parallelism inputs) (Transfer.start file.size parallelism inputs) := by
  have hsmall : file.size.toNat < 2 ^ 63 := file.toNat_size ▸ file.small.1
  refine ⟨List.length_replicate.trans file.toNat_size, rfl, fun p hp => ?_, fun _ p hp hjoined => ?_, fun h => absurd rfl h⟩
  · obtain ⟨range, hrange, rfl⟩ := List.mem_map.1 hp
    obtain ⟨hlt, hle⟩ := (partRanges_cuts parallelism hsmall).bounds range hrange
    rw [file.toNat_size] at hle
    obtain ⟨hbegin, hfull⟩ := partTask_remote hunchanged hlt hle (hsends range hrange) (Prod.eta _).symm
    have hlen := hbegin.length_le
    rw [List.length_drop] at hlen
    refine ⟨?_, hbegin, fun k hk hk' => absurd hk (Nat.not_le_of_lt hk'), fun hok => ?_⟩
    · show range.1.toNat + (partTask (range.2 - range.1) (inputs range)).1.length ≤ file.held.length
      omega
    · have hlen' : (partTask (range.2 - range.1) (inputs range)).1.length = range.2.toNat - range.1.toNat := hfull hok
      show range.1.toNat + (partTask (range.2 - range.1) (inputs range)).1.length = range.2.toNat
      omega
  · obtain ⟨range, -, rfl⟩ := List.mem_map.1 hp
    cases hjoined

theorem start_fails : (∃ p ∈ (Transfer.start file.size parallelism inputs).parts, p.result ≠ .ok ()) ↔
    SomePartFails file.size parallelism inputs := by
  simp only [Transfer.start, SomePartFails, List.mem_map, exists_exists_and_eq_and]

theorem readOpenStreams_ok (hunchanged : file.now = file.held) (hsends : Sends width atOnce file none input)
    (h : readOpenStreamsToFile sha calls before none input = (.ok result, output)) :
    output = some file.held ∧ result = ⟨file.size, some (sha file.held)⟩ := by
  unfold readOpenStreamsToFile at h
  split at h
  · cases h
  · cases h
  · cases h
  · rename_i size hresponse
    split at h
    · cases h
    · dsimp only at h
      split at h
      · cases h
      · cases h
      · cases h
      · rename_i stats hstats
        split at h
        · cases h
        · rename_i hcount
          cases h
          obtain ⟨hsize, hsent⟩ := hsends size hresponse
          replace hsize : size = file.size := hsize
          subst hsize
          have hbytes : (input.incoming.pipeRecvToWriter file.size.toNat).1 = file.held := by
            have hbegin := (pipe_gives_beginning input.incoming file.size.toNat).trans hsent
            rw [streamFileToSend, readRange] at hbegin
            dsimp only at hbegin
            rw [if_pos (by decide), readTask_flatten, UInt64.toNat_zero, List.drop_zero, hunchanged] at hbegin
            have hlen : (input.incoming.pipeRecvToWriter file.size.toNat).1.length = file.held.length := by
              rw [← pipe_count hstats, not_not.1 hcount, file.toNat_size]
            exact (hbegin.trans (List.take_prefix _ _)).eq_of_length hlen
          exact ⟨congrArg some hbytes, by rw [← hbytes]; rfl⟩

/-- A download in parts from a file that does not change is the download in one stream, or leaves no output file, exactly if
the calls on the output file outside of the parts work: an output file that is there can be opened, the file is preallocated,
read again for its hash, and removed when a part fails. The ranges cut the file, every transfer can come to its end, and the
download in one stream has that result. -/
theorem multipart_same_as_single_iff (sha : List UInt8 → String) (width : PointerWidth) (atOnce : List UInt8 → Nat)
    (file : ServedFile) (hunchanged : file.now = file.held) (parallelism : Nat) (inputs : UInt64 × UInt64 → PartInput)
    (hsends : ∀ range ∈ partRanges file.size parallelism, Sends width atOnce file (some range) (inputs range)) :
    Cuts file.size (partRanges file.size parallelism) ∧
    (∀ events, ∃ more, (run Transfer.step (Transfer.start file.size parallelism inputs) (events ++ more)).Over) ∧
    (∀ calls before input result output, Sends width atOnce file none input →
      readOpenStreamsToFile sha calls before none input = (.ok result, output) →
        SameAsSingle sha file.held file.size (.ok result, output)) ∧
    ∀ calls before events, (run Transfer.step (Transfer.start file.size parallelism inputs) events).Over →
      (SameAsSingle sha file.held file.size
          (readMultipartToFile sha calls before file.size parallelism inputs events) ↔
        (calls.openError ≠ none → before = none) ∧
        (calls.openError = none → file.held ≠ [] → calls.setLenError = none ∧
          (SomePartFails file.size parallelism inputs → calls.removes = true) ∧
          (¬ SomePartFails file.size parallelism inputs → calls.hashError = none))) := by
  have hsmall : file.size.toNat < 2 ^ 63 := file.toNat_size ▸ file.small.1
  have hcuts := partRanges_cuts parallelism hsmall
  refine ⟨hcuts, fun events => ?_, fun calls before input result output hsingle h => ?_, fun calls before events hover => ?_⟩
  · obtain ⟨more, hmore⟩ := (run Transfer.step (Transfer.start file.size parallelism inputs) events).exists_over
    exact ⟨more, by rwa [run_append]⟩
  · exact readOpenStreams_ok hunchanged hsingle h
  · have hinv := (start_inv hunchanged hsends).run events
    have hfails := (hinv.failed_iff hover).trans start_fails
    unfold readMultipartToFile
    cases hopen : calls.openError with
    | some e => simp [SameAsSingle]
    | none =>
      by_cases hzero : file.size = 0
      · have hnil : file.held = [] := List.length_eq_zero_iff.1 (by rw [← file.toNat_size, hzero]; rfl)
        simp [SameAsSingle, hzero, hnil]
      · have hheld : file.held ≠ [] := fun hnil => hzero (UInt64.toNat_inj.1 (by rw [file.toNat_size, hnil]; rfl))
        dsimp only
        rw [if_neg hzero]
        cases hsetLen : calls.setLenError with
        | some e => simp [SameAsSingle, hheld]
        | none =>
          dsimp only
          cases herr : (run Transfer.step (Transfer.start file.size parallelism inputs) events).firstErr with
          | some e =>
            have hsome := hfails.1 (by rw [herr]; simp)
            simp [SameAsSingle, hheld, hsome, OutputCalls.remove]
          | none =>
            have hno : ¬ SomePartFails file.size parallelism inputs := fun h => hfails.2 h herr
            have hfile := hinv.file_eq hover herr fun k hk => by
              obtain ⟨range, hrange, hle, hlt⟩ := hcuts.cover k (file.toNat_size ▸ hk)
              exact ⟨_, List.mem_map_of_mem hrange, hle, hlt⟩
            dsimp only
            cases hhash : calls.hashError with
            | some e => simp [SameAsSingle, hheld, hno]
            | none => simp [SameAsSingle, hno, hfile]

end Download

/-! ## Two streams, and one -/

def fourBytes : ServedFile := ⟨[1, 2, 3, 4], [1, 2, 3, 4], "Invalid argument (os error 22)", by decide⟩

def halfInput (range : UInt64 × UInt64) : PartInput :=
  ⟨.ok (.readHeader 2), none, ⟨if range.1 = 0 then [[1], [2]] else [[3, 4]], none, none⟩⟩

/-- The second half begins first, and the first half ends last. -/
def interleaved : List TransferEvent := [.write 1 1, .write 0 1, .write 1 1, .join 1, .write 0 1, .join 0]

theorem halfInput_sends : ∀ range ∈ partRanges fourBytes.size 2,
    Sends .bits64 (fun _ => 4) fourBytes (some range) (halfInput range) := by
  intro range hrange size h
  obtain rfl : 2 = size := ReadResponse.readHeader.inj (Except.ok.inj h)
  rw [show partRanges fourBytes.size 2 = [(0, 2), (2, 4)] by decide] at hrange
  rcases List.mem_cons.1 hrange with rfl | hrange
  · obtain ⟨hannounced, -, hchunks⟩ := streamFileToSend_ordered .bits64 (fun _ => 4)
      (show (0 : UInt64).toNat ≤ min (2 : UInt64).toNat fourBytes.held.length by decide)
    exact ⟨UInt64.toNat_inj.1 (hannounced.trans rfl).symm, by rw [hchunks]; exact List.prefix_rfl⟩
  · obtain rfl := List.mem_singleton.1 hrange
    obtain ⟨hannounced, -, hchunks⟩ := streamFileToSend_ordered .bits64 (fun _ => 4)
      (show (2 : UInt64).toNat ≤ min (4 : UInt64).toNat fourBytes.held.length by decide)
    exact ⟨UInt64.toNat_inj.1 (hannounced.trans rfl).symm, by rw [hchunks]; exact List.prefix_rfl⟩

theorem fourBytes_same : (partRanges fourBytes.size 2).length = 2 ∧ SameAsSingle toString fourBytes.held fourBytes.size
    (readMultipartToFile toString ⟨none, none, none, true⟩ none fourBytes.size 2 halfInput interleaved) :=
  ⟨by decide, ((multipart_same_as_single_iff toString .bits64 (fun _ => 4) fourBytes rfl 2 halfInput halfInput_sends).2.2.2
    ⟨none, none, none, true⟩ none interleaved (by decide)).2
      ⟨fun h => absurd rfl h, fun _ _ => ⟨rfl, fun _ => rfl, fun _ => rfl⟩⟩⟩

def oneByte : ServedFile := ⟨[7], [7], "Invalid argument (os error 22)", by decide⟩

def oneByteInput : PartInput := ⟨.ok (.readHeader 1), none, ⟨[[7]], none, none⟩⟩

theorem oneByte_sends : Sends .bits64 (fun _ => 1) oneByte (some (0, 1)) oneByteInput := by
  intro size h
  cases h
  obtain ⟨hannounced, -, hchunks⟩ := streamFileToSend_ordered .bits64 (fun _ => 1)
    (show (0 : UInt64).toNat ≤ min (1 : UInt64).toNat oneByte.held.length by decide)
  refine ⟨UInt64.toNat_inj.1 ?_, ?_⟩
  · rw [hannounced]
    rfl
  · rw [hchunks]
    exact List.prefix_rfl

theorem oneByte_over : (run Transfer.step (Transfer.start oneByte.size 1 fun _ => oneByteInput) [.write 0 1, .join 0]).Over := by
  decide

/-- All bytes arrived, but the file cannot be read again for its hash: an error, and the output file stays. -/
theorem output_file_left : (∀ range ∈ partRanges oneByte.size 1, Sends .bits64 (fun _ => 1) oneByte (some range) oneByteInput) ∧
    (run Transfer.step (Transfer.start oneByte.size 1 fun _ => oneByteInput) [.write 0 1, .join 0]).Over ∧
    ¬ SameAsSingle toString oneByte.held oneByte.size (readMultipartToFile toString ⟨none, none, some "read error", true⟩ none
      oneByte.size 1 (fun _ => oneByteInput) [.write 0 1, .join 0]) := by
  refine ⟨?_, oneByte_over, ?_⟩
  · intro range hrange
    rw [show partRanges oneByte.size 1 = [(0, 1)] by decide, List.mem_singleton] at hrange
    exact hrange ▸ oneByte_sends
  · intro h
    cases (h : some _ = none)

end HaexVault.PeerStorage
