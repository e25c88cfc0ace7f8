import HaexVault.Lib.Volume
import HaexVault.PeerStorage.Containment
/-!
# Remote writes (`peer_storage/handlers.rs`, `peer_storage/streaming.rs`)

`handle_write` stages what it receives in a `.part` file beside its target and renames it. Under a
free name this is atomic however the stream is cut (`Incoming.stage_free`). But the name is not
checked: a file or a link that has it is truncated and removed (`Incoming.stage_taken`).
-/

namespace HaexVault.PeerStorage

open HaexVault.Lib HaexVault.Lib.FileTree HaexVault.Lib.Steps
open HaexVault.FileSync (comps)

/-! ## The pipeline -/

inductive PipelineError where
  | io (text : String)
  | stream (reason : String)
  | cancelled

structure RecvStats where
  bytes : Nat

inductive LoopFailure where
  | read (text : String)
  | cancelled

def LoopFailure.error : LoopFailure → PipelineError
  | read text => .stream ("recv read: " ++ text)
  | cancelled => .cancelled

/-- What arrives, and how the disk takes it. -/
structure Incoming where
  chunks : List (List UInt8)
  /-- The stream fails after its chunks, or the transfer is cancelled there, or the stream ends. -/
  failure : Option LoopFailure
  /-- The disk fails with this text once it has taken that many bytes. -/
  room : Option (Nat × String)

namespace Incoming

def sent (s : Incoming) : List UInt8 := s.chunks.flatten

/-- The loop that reads while fewer than `size` bytes were received. A QUIC stream is too short for the sum to overflow. -/
def readLoop (failure : Option LoopFailure) (size : Nat) : Nat → List (List UInt8) → List UInt8 × Option PipelineError
  | bytesReceived, chunks =>
    if size ≤ bytesReceived then ([], none)
    else match chunks with
      | [] => match failure with
        | none => ([], some (.stream ("stream ended early: expected " ++ toString size ++ " bytes, received " ++
            toString bytesReceived)))
        | some e => ([], some e.error)
      | chunk :: rest =>
        let (bytes, ioErr) := readLoop failure size (bytesReceived + chunk.length) rest
        (chunk ++ bytes, ioErr)

/-- `pipe_recv_to_writer`: what is in the file then, and the result. The writer's error comes first. -/
def pipeRecvToWriter (s : Incoming) (size : Nat) : List UInt8 × Except PipelineError RecvStats :=
  let (bytes, ioErr) := readLoop s.failure size 0 s.chunks
  match s.room with
  | some (room, text) => if room < bytes.length then (bytes.take room, .error (.io text)) else finish bytes ioErr
  | none => finish bytes ioErr
where
  finish (bytes : List UInt8) : Option PipelineError → List UInt8 × Except PipelineError RecvStats
    | some e => (bytes, .error e)
    | none => (bytes, .ok ⟨bytes.length⟩)

end Incoming

/-! ## The handler -/

inductive PeerStorageError where
  | connectionFailed (reason : String)
  | protocolError (reason : String)
  | io (text : String)

def PeerStorageError.display : PeerStorageError → String
  | connectionFailed reason => "Connection failed: " ++ reason
  | protocolError reason => "Protocol error: " ++ reason
  | io text => "IO error: " ++ text

inductive WriteResponse where
  | writeOk
  | error (message : String)

structure OsTexts where
  ofError : IoError → String
  /-- Of a directory that could not be made. -/
  createDirAll : String

/-- The error of the pipeline, or a number of bytes that is not the advertised one. -/
def writeResult (size : Nat) : Except PipelineError RecvStats → Except PeerStorageError Unit
  | .error (.io e) => .error (.io e)
  | .error (.stream reason) => .error (.connectionFailed reason)
  | .error .cancelled => .error (.protocolError "Transfer cancelled")
  | .ok stats =>
    if stats.bytes ≠ size then
      .error (.connectionFailed ("stream ended early during write: expected " ++ toString size ++ " bytes, received " ++
        toString stats.bytes))
    else .ok ()

namespace Incoming

/-- `handle_write` from the local path on. -/
def stage (s : Incoming) (os : OsTexts) (v : Volume) (localPath : List Comp) (size : Nat) : WriteResponse × Volume :=
  let tempPath := tempPath localPath
  match v.makeParent localPath with
  | (v, false) => (.error (PeerStorageError.io os.createDirAll).display, v)
  | (v, true) =>
    match v.create tempPath with
    | .error e => (.error (PeerStorageError.io (os.ofError e)).display, v)
    | .ok (v, file) =>
      let (bytes, result) := s.pipeRecvToWriter size
      let v := v.write file bytes
      match writeResult size result with
      | .error e => (.error e.display, v.remove tempPath)
      | .ok () =>
        match v.rename tempPath localPath with
        | .error e => (.error ("Failed to finalize file: " ++ os.ofError e), v.remove tempPath)
        | .ok v => (.writeOk, v)

/-- `handle_write`; the shares are read twice. -/
def handleWrite (s : Incoming) (os : OsTexts) (shares shares' : Shares) (allowedSpaces : List String) (path : String)
    (size : UInt64) (v : Volume) : WriteResponse × Volume :=
  match refuseContentUri shares allowedSpaces path with
  | .error message => (.error message, v)
  | .ok () =>
    match resolvePathForWrite v.tree shares' allowedSpaces path with
    | .error message => (.error message, v)
    | .ok localPath => s.stage os v localPath size.toNat

end Incoming

/-! ## Atomic writes -/

/-- Only the target's entry is another one, with the first `size` bytes that were sent, and directories for it are new. -/
structure Written (v v' : Volume) (localPath : List Comp) (size : Nat) (sent : List UInt8) (target : Loc) : Prop where
  entry : (v.makeParent localPath).1.tree.entryLoc localPath = some target
  enough : size ≤ sent.length
  bytes : v'.entry target = some (.file (sent.take size))
  others : ∀ loc, loc ≠ target → v'.entry loc = v.entry loc ∨
    v.entry loc = none ∧ v'.entry loc = some .dir ∧ loc ∈ (v.tree.createParent localPath).2.1

def Leaves (v v' : Volume) (localPath : List Comp) (size : Nat) (sent : List UInt8) : WriteResponse → Prop
  | .writeOk => ∃ target, Written v v' localPath size sent target
  | .error _ => ∀ loc, v.Same v' loc

/-- A write answers `WriteOk` and has written its target alone, or answers with an error and has changed no file. -/
def Incoming.Atomic (s : Incoming) (os : OsTexts) (shares shares' : Shares) (allowedSpaces : List String) (path : String)
    (size : UInt64) (v : Volume) : Prop :=
  match s.handleWrite os shares shares' allowedSpaces path size v with
  | (.error _, v') => ∀ loc, v.Same v' loc
  | (.writeOk, v') => ∃ localPath target, resolvePathForWrite v.tree shares' allowedSpaces path = .ok localPath ∧
      Written v v' localPath size.toNat s.sent target

/-- The name of the `.part` file is that of an entry that can be opened: a file, or a link to one or to a free name. -/
def PartTaken (v : Volume) (localPath : List Comp) : Prop :=
  ∃ entry, v.tree.entryLoc (tempPath localPath) = some entry ∧ v.tree.node entry ≠ none ∧
    ∃ file, v.tree.createAt (tempPath localPath) = .ok file

def Incoming.Delivers (s : Incoming) (size : Nat) : Prop :=
  (∃ k, (s.chunks.take k).flatten.length = size) ∧ ∀ room text, s.room = some (room, text) → size ≤ room

/-- The `.part` name and the target are two names of one file, which has the bytes already. -/
def Incoming.Rewrites (s : Incoming) (v : Volume) (localPath : List Comp) (size : Nat) : Prop :=
  s.Delivers size ∧ ∃ entry target f, v.tree.entryLoc (tempPath localPath) = some entry ∧
    v.tree.entryLoc localPath = some target ∧ v.disk.file entry = some f ∧ v.disk.file target = some f ∧
    v.content f = s.sent.take size

/-! ## What is received -/

section Received
variable {s : Incoming} {failure : Option LoopFailure} {size received : Nat} {chunks : List (List UInt8)} {bytes : List UInt8}

namespace Incoming

theorem readLoop_none (h : readLoop failure size received chunks = (bytes, none)) :
    ∃ k, bytes = (chunks.take k).flatten ∧ size ≤ received + bytes.length := by
  induction chunks generalizing received bytes with
  | nil =>
    unfold readLoop at h
    split at h
    · cases h
      exact ⟨0, rfl, by simpa using ‹size ≤ received›⟩
    · cases failure <;> cases h
  | cons chunk rest ih =>
    unfold readLoop at h
    split at h
    · cases h
      exact ⟨0, rfl, by simpa using ‹size ≤ received›⟩
    · rcases hrest : readLoop failure size (received + chunk.length) rest with ⟨more, ioErr⟩
      dsimp only at h
      rw [hrest] at h
      cases h
      obtain ⟨k, rfl, hle⟩ := ih hrest
      exact ⟨k + 1, by simp, by simp only [List.length_append]; omega⟩

theorem readLoop_exact {k : Nat} (h : received + (chunks.take k).flatten.length = size) :
    readLoop failure size received chunks = ((chunks.take k).flatten, none) := by
  induction chunks generalizing received k with
  | nil =>
    unfold readLoop
    rw [if_pos (by simpa using h.ge)]
    simp
  | cons chunk rest ih =>
    unfold readLoop
    split
    · have hnil : ((chunk :: rest).take k).flatten = [] := List.length_eq_zero_iff.1 (by omega)
      rw [hnil]
    · cases k with
      | zero =>
        rw [List.take_zero, List.flatten_nil, List.length_nil] at h
        omega
      | succ k =>
        rw [List.take_succ_cons, List.flatten_cons, List.length_append] at h
        dsimp only
        rw [ih (k := k) (by omega), List.take_succ_cons, List.flatten_cons]

theorem finish_ok {ioErr : Option PipelineError} :
    writeResult size (pipeRecvToWriter.finish bytes ioErr).2 = .ok () ↔ ioErr = none ∧ bytes.length = size := by
  cases ioErr with
  | none => simp [pipeRecvToWriter.finish, writeResult]
  | some e => cases e <;> simp [pipeRecvToWriter.finish, writeResult]

theorem writeResult_ok : writeResult size (s.pipeRecvToWriter size).2 = .ok () ↔ s.Delivers size := by
  rcases hloop : readLoop s.failure size 0 s.chunks with ⟨bytes, ioErr⟩
  have hdelivered : ioErr = none ∧ bytes.length = size ↔ ∃ k, (s.chunks.take k).flatten.length = size := by
    constructor
    · rintro ⟨rfl, hlen⟩
      obtain ⟨k, rfl, -⟩ := readLoop_none hloop
      exact ⟨k, hlen⟩
    · rintro ⟨k, hk⟩
      rw [readLoop_exact (k := k) (by omega)] at hloop
      cases hloop
      exact ⟨rfl, hk⟩
  simp only [pipeRecvToWriter, hloop, Delivers]
  cases s.room with
  | none => simp [finish_ok, hdelivered]
  | some r =>
    obtain ⟨room, text⟩ := r
    dsimp only
    split
    · rename_i hlt
      constructor
      · intro h
        cases h
      · rintro ⟨hk, hroom⟩
        obtain ⟨-, hlen⟩ := hdelivered.2 hk
        have := hroom room text rfl
        omega
    · rename_i hge
      rw [finish_ok, hdelivered, iff_self_and]
      rintro hk room' text' h
      cases h
      obtain ⟨-, hlen⟩ := hdelivered.2 hk
      omega

theorem pipe_bytes (h : s.Delivers size) : (s.pipeRecvToWriter size).1 = s.sent.take size ∧ size ≤ s.sent.length := by
  obtain ⟨⟨k, hk⟩, hroom⟩ := h
  have hsplit : s.sent = (s.chunks.take k).flatten ++ (s.chunks.drop k).flatten := by
    rw [← List.flatten_append, List.take_append_drop, sent]
  have hbytes : (s.pipeRecvToWriter size).1 = (s.chunks.take k).flatten := by
    have hloop : readLoop s.failure size 0 s.chunks = ((s.chunks.take k).flatten, none) := readLoop_exact (by omega)
    simp only [pipeRecvToWriter, hloop]
    cases hr : s.room with
    | none => rfl
    | some r =>
      have := hroom r.1 r.2 hr
      dsimp only
      rw [if_neg (by omega)]
      rfl
  rw [hbytes, hsplit, List.take_left' hk, List.length_append]
  exact ⟨rfl, by omega⟩

end Incoming

end Received

/-! ## The two names -/

section Names
variable {t : FileTree} {localPath init : List Comp} {part : String} {dir : Loc}

/-- The `.part` name is `part` in the directory `init`, where the target is a name too, or is that directory. -/
structure Staged (localPath init : List Comp) (part : String) : Prop where
  temp : tempPath localPath = init ++ [.name part]
  target : (∃ n, localPath = init ++ [.name n] ∧ n ≠ part) ∨ localPath = init ∧ fileName localPath = none

theorem exists_staged (localPath : List Comp) : ∃ init part, Staged localPath init part := by
  cases hname : fileName localPath with
  | none =>
    refine ⟨localPath, ".part", ?_, .inr ⟨rfl, hname⟩⟩
    rw [tempPath, hname, withFileName_none hname]
    rfl
  | some n =>
    obtain ⟨init, rfl⟩ := fileName_eq_some hname
    refine ⟨init, n ++ ".part", ?_, .inl ⟨n, rfl, fun h => ?_⟩⟩
    · rw [tempPath, fileName_name, withFileName_name, Option.getD_some]
    · have hlen := congrArg String.length h
      rw [String.length_append, show ".part".length = 5 from rfl] at hlen
      omega

theorem Staged.entries (h : Staged localPath init part) (dir : Loc) : ∃ target, target ≠ dir ++ [part] ∧
    ∀ t : FileTree, t.canonicalize init = .ok dir →
      t.entryLoc (tempPath localPath) = some (dir ++ [part]) ∧ t.entryLoc localPath = some target := by
  have htemp : ∀ t : FileTree, t.canonicalize init = .ok dir → t.entryLoc (tempPath localPath) = some (dir ++ [part]) := by
    intro t hinit
    rw [h.temp, entryLoc_name, hinit]
    rfl
  rcases h.target with ⟨n, rfl, hne⟩ | ⟨rfl, hname⟩
  · refine ⟨dir ++ [n], by simpa using hne, fun t hinit => ⟨htemp t hinit, ?_⟩⟩
    rw [entryLoc_name, hinit]
    rfl
  · refine ⟨dir, by simp, fun t hinit => ⟨htemp t hinit, ?_⟩⟩
    rw [entryLoc_unnamed hname, hinit]
    rfl

theorem Staged.createParent (h : Staged localPath init part) (hinit : t.canonicalize init = .ok dir)
    (hdir : t.node dir = some .dir) : t.createParent localPath = (t, [], true) := by
  rcases h.target with ⟨n, rfl, -⟩ | ⟨rfl, -⟩
  · rw [FileTree.createParent, parent_concat]
    exact createDirAll_there hinit hdir
  · exact createParent_there hinit

theorem Staged.createParent_cases (h : Staged localPath init part) (hrooted : t.Rooted localPath) :
    (t.createParent localPath).1 = t ∨
      ∀ dir, (t.createParent localPath).1.canonicalize init = .ok dir →
        (t.createParent localPath).1.node (dir ++ [part]) = none := by
  rcases h.target with ⟨n, rfl, -⟩ | ⟨rfl, hname⟩
  · have hparent : t.createParent (init ++ [.name n]) = t.createDirAll init := by
      rw [FileTree.createParent, parent_concat]
    rw [hparent]
    rcases createDirAll_cases (hrooted.parent parent_concat) with
      ⟨first, m, rest, t', created, -, hcreate, hmade⟩ | ⟨-, hcreate⟩
    · rw [hcreate]
      refine .inr fun dir hdir => ?_
      rw [← Except.ok.inj (hmade.leads.symm.trans hdir)]
      exact hmade.empty part []
    · rw [hcreate]
      exact .inl rfl
  · obtain ⟨folder, loc, names, hpath, hfolder⟩ := hrooted
    rcases List.eq_nil_or_concat names with rfl | ⟨names, n, rfl⟩
    · rw [List.map_nil, List.append_nil] at hpath
      rw [← hpath] at hfolder
      rw [createParent_there hfolder]
      exact .inl rfl
    · rw [hpath, List.concat_eq_append, List.map_append, List.map_singleton, ← List.append_assoc, fileName_name] at hname
      cases hname

end Names

/-! ## What a write leaves -/

section Stage
variable {s : Incoming} {os : OsTexts} {v v₁ v₂ v' : Volume} {localPath init : List Comp} {part : String} {dir file loc : Loc}
  {size : Nat} {bytes : List UInt8} {response : WriteResponse}

theorem Incoming.stage_cases (h : s.stage os v localPath size = (response, v')) :
    (∃ message, response = .error message ∧ v' = (v.makeParent localPath).1 ∧ ((v.makeParent localPath).2 = true →
      ∃ e, (v.makeParent localPath).1.create (tempPath localPath) = .error e)) ∨
    ∃ v₂ file, (v.makeParent localPath).1.create (tempPath localPath) = .ok (v₂, file) ∧
      ((∃ message, response = .error message ∧
          v' = (v₂.write file (s.pipeRecvToWriter size).1).remove (tempPath localPath) ∧
          (s.Delivers size → ∃ e, (v₂.write file (s.pipeRecvToWriter size).1).rename (tempPath localPath) localPath = .error e)) ∨
        response = .writeOk ∧ s.Delivers size ∧
          (v₂.write file (s.pipeRecvToWriter size).1).rename (tempPath localPath) localPath = .ok v') := by
  unfold stage at h
  dsimp only at h
  split at h
  · rename_i v₁ hmake
    cases h
    rw [hmake]
    exact .inl ⟨_, rfl, rfl, fun h => by cases h⟩
  · rename_i v₁ hmake
    rw [hmake]
    split at h
    · rename_i e hcreate
      cases h
      exact .inl ⟨_, rfl, rfl, fun _ => ⟨e, hcreate⟩⟩
    · rename_i v₂ file hcreate
      refine .inr ⟨v₂, file, hcreate, ?_⟩
      split at h
      · rename_i e hresult
        cases h
        refine .inl ⟨_, rfl, rfl, fun hdelivers => ?_⟩
        rw [writeResult_ok.2 hdelivers] at hresult
        cases hresult
      · rename_i hresult
        split at h
        · rename_i e hrename
          cases h
          exact .inl ⟨_, rfl, rfl, fun _ => ⟨e, hrename⟩⟩
        · rename_i hrename
          cases h
          exact .inr ⟨rfl, writeResult_ok.1 hresult, hrename⟩

/-! ### Under a free name -/

theorem removed_free (hst : Staged localPath init part) (hinit : v₁.tree.canonicalize init = .ok dir)
    (hnew : v₁.tree.node (dir ++ [part]) = none) (hcreate : v₁.create (tempPath localPath) = .ok (v₂, file)) :
    ((v₂.write file bytes).remove (tempPath localPath)).entry = v₁.entry := by
  obtain ⟨target, -, hentries⟩ := hst.entries dir
  rw [hst.temp] at hcreate
  obtain ⟨rfl, htree, -, hwritten⟩ := Volume.create_new hinit hnew hcreate
  have hinit₂ : (v₂.write (dir ++ [part]) bytes).tree.canonicalize init = .ok dir := by
    show v₂.tree.canonicalize init = _
    rw [htree]
    exact put_extends.canonicalize hinit
  have hfile : (v₂.write (dir ++ [part]) bytes).tree.node (dir ++ [part]) ≠ some .dir := fun hdir => by
    have := Volume.entry_eq_dir.2 hdir
    rw [hwritten, Function.update_self] at this
    cases this
  rw [Volume.remove_entry (hentries _ hinit₂).1 hfile, hwritten, Function.update_idem]
  exact Function.update_eq_self_iff.2 (Volume.entry_eq_none.2 hnew).symm

theorem renamed_free (hst : Staged localPath init part) (hinit : v₁.tree.canonicalize init = .ok dir)
    (hnew : v₁.tree.node (dir ++ [part]) = none) (hcreate : v₁.create (tempPath localPath) = .ok (v₂, file))
    (hrename : (v₂.write file bytes).rename (tempPath localPath) localPath = .ok v') :
    ∃ target, v₁.tree.entryLoc localPath = some target ∧ v'.entry = Function.update v₁.entry target (some (.file bytes)) := by
  obtain ⟨target, hne, hentries⟩ := hst.entries dir
  rw [hst.temp] at hcreate
  obtain ⟨rfl, htree, honly, hwritten⟩ := Volume.create_new hinit hnew hcreate
  have hinit₂ : (v₂.write (dir ++ [part]) bytes).tree.canonicalize init = .ok dir := by
    show v₂.tree.canonicalize init = _
    rw [htree]
    exact put_extends.canonicalize hinit
  obtain ⟨src, dst, hsrc, hdst, hmoved⟩ := Volume.rename_ok hrename
  obtain ⟨htemp, htarget⟩ := hentries _ hinit₂
  obtain rfl := Option.some.inj (htemp.symm.trans hsrc)
  obtain rfl := Option.some.inj (htarget.symm.trans hdst)
  refine ⟨target, (hentries _ hinit).2, ?_⟩
  rcases hmoved with ⟨-, f, hf, hf'⟩ | hmoved
  · exact absurd (honly target f hf hf') hne
  · have hfree : Function.update v₁.entry (dir ++ [part]) none = v₁.entry :=
      Function.update_eq_self_iff.2 (Volume.entry_eq_none.2 hnew).symm
    rw [hmoved, hwritten, Function.update_idem, Function.update_self, hfree]

theorem Incoming.stage_free (hrooted : v.tree.Rooted localPath) (hfree : ¬ PartTaken v localPath)
    (h : s.stage os v localPath size = (response, v')) : Leaves v v' localPath size s.sent response := by
  rcases s.stage_cases h with ⟨message, rfl, rfl, -⟩ | ⟨v₂, file, hcreate, hend⟩
  · exact Volume.same_makeParent v localPath
  obtain ⟨init, part, hst⟩ := exists_staged localPath
  have hopen := Volume.create_opens hcreate
  obtain ⟨dir, hinit, -⟩ := createAt_name (hst.temp ▸ hopen)
  obtain ⟨target, -, hentries⟩ := hst.entries dir
  have hnew : (v.makeParent localPath).1.tree.node (dir ++ [part]) = none := by
    rcases hst.createParent_cases hrooted with hsame | hnew
    · by_contra hthere
      refine hfree ⟨dir ++ [part], ?_⟩
      rw [← show (v.makeParent localPath).1.tree = v.tree from hsame]
      exact ⟨(hentries _ hinit).1, hthere, file, hopen⟩
    · exact hnew dir hinit
  have hsame := Volume.same_makeParent v localPath
  rcases hend with ⟨message, rfl, rfl, -⟩ | ⟨rfl, hdelivers, hrename⟩
  · intro loc
    rw [Volume.Same, removed_free hst hinit hnew hcreate]
    exact hsame loc
  · obtain ⟨target, htarget, hmoved⟩ := renamed_free hst hinit hnew hcreate hrename
    obtain ⟨hbytes, henough⟩ := pipe_bytes hdelivers
    refine ⟨target, htarget, henough, by rw [hmoved, Function.update_self, hbytes], fun loc hloc => ?_⟩
    rw [hmoved, Function.update_of_ne hloc]
    refine (hsame loc).imp_right fun ⟨hnone, hdir⟩ => ⟨hnone, hdir, ?_⟩
    exact (createParent_new (Volume.entry_eq_dir.1 hdir)).resolve_left fun hold => by
      rw [Volume.entry_eq_none.1 hnone] at hold
      cases hold

/-! ### Under a name that is taken -/

theorem taken_entry {entry : Loc} (hentry : v.tree.entryLoc (tempPath localPath) = some entry)
    (hthere : v.tree.node entry ≠ none) (hcreate : v.create (tempPath localPath) = .ok (v₂, file)) (bytes : List UInt8) :
    v.makeParent localPath = (v, true) ∧ (v₂.write file bytes).tree.entryLoc (tempPath localPath) = some entry ∧
      (v₂.write file bytes).tree.node entry = v.tree.node entry ∧ v.tree.node entry ≠ some .dir ∧
      (v.tree.node entry = some .file → file = entry) ∧
      ∃ target, target ≠ entry ∧ v.tree.entryLoc localPath = some target ∧
        (v₂.write file bytes).tree.entryLoc localPath = some target := by
  obtain ⟨init, part, hst⟩ := exists_staged localPath
  have hopen := Volume.create_opens hcreate
  obtain ⟨dir, hinit, hdir⟩ := createAt_name (hst.temp ▸ hopen)
  obtain ⟨target, hne, hentries⟩ := hst.entries dir
  obtain rfl := Option.some.inj ((hentries _ hinit).1.symm.trans hentry)
  have hext : v₂.tree.Extends v.tree := Volume.create_extends hcreate
  have hplain : v.tree.Plain (dir ++ [part]) → v.tree.node (dir ++ [part]) = some .file ∧ file = dir ++ [part] := by
    intro hplain
    have hleads := canonicalize_name hinit hplain
    rw [← hst.temp] at hleads
    obtain ⟨links, hwalk⟩ := canonicalize_ok.1 hleads
    have hfile := createAt_of_canonicalize hleads hopen
    rw [createAt, create_of_walk hwalk] at hopen
    split at hopen
    · exact ⟨‹_›, hfile⟩
    · cases hopen
  refine ⟨?_, (hentries _ (hext.canonicalize hinit)).1, ?_, fun hisDir => ?_, fun hfile => (hplain (.inr hfile)).2, target,
    hne, (hentries _ hinit).2, (hentries _ (hext.canonicalize hinit)).2⟩
  · have hcreated := hst.createParent hinit hdir
    unfold Volume.makeParent Disk.makeParent Disk.withTree
    simp only [show v.disk.tree.createParent localPath = _ from hcreated]
  · obtain ⟨x, hx⟩ := Option.ne_none_iff_exists'.1 hthere
    rw [hx]
    exact hext.node _ _ hx
  · rw [(hplain (.inl hisDir)).1] at hisDir
    cases hisDir

theorem Incoming.stage_taken {entry : Loc} (hentry : v.tree.entryLoc (tempPath localPath) = some entry)
    (hthere : v.tree.node entry ≠ none) (hopen : v.tree.createAt (tempPath localPath) = .ok file)
    (h : s.stage os v localPath size = (response, v')) (hleaves : Leaves v v' localPath size s.sent response) :
    s.Rewrites v localPath size := by
  obtain ⟨v₂, hcreate⟩ := Volume.exists_create hopen
  obtain ⟨hmake, hentry₂, hnode₂, hnotDir, hfile, target, hne, htarget, htarget₂⟩ :=
    taken_entry hentry hthere hcreate (s.pipeRecvToWriter size).1
  have hthere' : v.entry entry ≠ none := fun hnone => hthere (Volume.entry_eq_none.1 hnone)
  rcases s.stage_cases h with ⟨_, -, -, hend⟩ | ⟨v₃, file', hcreate', hend⟩
  · rw [hmake] at hend
    obtain ⟨e, he⟩ := hend rfl
    rw [hcreate] at he
    cases he
  · rw [hmake, hcreate] at hcreate'
    cases hcreate'
    rcases hend with ⟨message, rfl, rfl, -⟩ | ⟨rfl, hdelivers, hrename⟩
    · -- the entry of the name is gone
      have hgone := hleaves entry
      rw [Volume.Same, Volume.remove_entry hentry₂ (hnode₂ ▸ hnotDir), Function.update_self] at hgone
      rcases hgone with h | ⟨h, -⟩
      · exact absurd h.symm hthere'
      · exact absurd h hthere'
    · obtain ⟨written, hwritten⟩ := hleaves
      have hplace := hwritten.entry
      rw [hmake] at hplace
      obtain rfl := Option.some.inj (htarget.symm.trans hplace)
      obtain ⟨src, dst, hsrc, hdst, hmoved⟩ := Volume.rename_ok hrename
      obtain rfl := Option.some.inj (hentry₂.symm.trans hsrc)
      obtain rfl := Option.some.inj (htarget₂.symm.trans hdst)
      have hkept := hwritten.others entry hne.symm
      rcases hmoved with ⟨rfl, f, hf, hf'⟩ | hmoved
      · -- both names are those of the file that was opened
        obtain ⟨hnode, -⟩ := Disk.file_eq_some.1 hf
        have hfile₁ : v.tree.node entry = some .file := hnode₂.symm.trans hnode
        obtain rfl := hfile hfile₁
        have hv₂ := Volume.create_there hcreate hfile₁ (s.pipeRecvToWriter size).1
        rw [hv₂] at hf hf'
        obtain ⟨-, hinode⟩ : _ ∧ v.disk.inode file = f := Disk.file_eq_some.1 hf
        refine ⟨hdelivers, file, target, f, hentry, htarget, hf, hf', ?_⟩
        rcases hkept with hkept | ⟨hnone, -⟩
        · rw [Volume.entry_file hnode, Volume.entry_file hfile₁] at hkept
          simp only [Option.some.injEq, Entry.file.injEq] at hkept
          rw [← (pipe_bytes hdelivers).1, ← hinode, ← hkept, hv₂]
          exact Function.update_self ..
        · exact absurd hnone hthere'
      · rw [hmoved, Function.update_of_ne hne.symm, Function.update_self] at hkept
        rcases hkept with h | ⟨h, -⟩
        · exact absurd h.symm hthere'
        · exact absurd h hthere'

theorem Incoming.stage_rewrites (hopen : v.tree.createAt (tempPath localPath) = .ok file)
    (hrewrites : s.Rewrites v localPath size) (h : s.stage os v localPath size = (response, v')) :
    Leaves v v' localPath size s.sent response := by
  obtain ⟨hdelivers, entry, target, f, hentry, htarget, hf, hf', hcontent⟩ := hrewrites
  obtain ⟨hbytes, henough⟩ := pipe_bytes hdelivers
  obtain ⟨hnode, hinode⟩ := Disk.file_eq_some.1 hf
  obtain ⟨hnode', hinode'⟩ := Disk.file_eq_some.1 hf'
  obtain ⟨v₂, hcreate⟩ := Volume.exists_create hopen
  obtain ⟨hmake, -, -, -, hfile, -⟩ := taken_entry hentry (by rw [hnode]; simp) hcreate (s.pipeRecvToWriter size).1
  obtain rfl := hfile hnode
  have hsame : v₂.write file (s.pipeRecvToWriter size).1 = v := by
    rw [Volume.create_there hcreate hnode, hbytes, hinode, ← hcontent, Function.update_eq_self]
  rcases s.stage_cases h with ⟨_, -, -, hend⟩ | ⟨v₃, file', hcreate', hend⟩
  · rw [hmake] at hend
    obtain ⟨e, he⟩ := hend rfl
    rw [hcreate] at he
    cases he
  · rw [hmake, hcreate] at hcreate'
    cases hcreate'
    rw [hsame, Volume.rename_same hentry htarget hf hf'] at hend
    rcases hend with ⟨message, -, -, hfailed⟩ | ⟨rfl, -, hrename⟩
    · obtain ⟨e, he⟩ := hfailed hdelivers
      cases he
    · cases hrename
      refine ⟨target, by rw [hmake]; exact htarget, henough, ?_, fun loc _ => .inl rfl⟩
      rw [Volume.entry_file hnode', hinode', hcontent]

theorem Incoming.stage_leaves_iff (hrooted : v.tree.Rooted localPath) (h : s.stage os v localPath size = (response, v')) :
    Leaves v v' localPath size s.sent response ↔ (PartTaken v localPath → s.Rewrites v localPath size) := by
  constructor
  · rintro hleaves ⟨entry, hentry, hthere, file, hopen⟩
    exact s.stage_taken hentry hthere hopen h hleaves
  · intro hrewrites
    by_cases htaken : PartTaken v localPath
    · obtain ⟨_, -, -, file, hopen⟩ := id htaken
      exact s.stage_rewrites hopen (hrewrites htaken) h
    · exact s.stage_free hrooted htaken h

end Stage

section Write
variable {t : FileTree} {shares : Shares} {allowedSpaces : List String} {path : String} {localPath : List Comp}

theorem forWrite_rooted (h : resolvePathForWrite t shares allowedSpaces path = .ok localPath) : t.Rooted localPath := by
  have hfound : ∃ share sub, findShareAndSubpath shares allowedSpaces path = .ok (share, sub) := by
    unfold resolvePathForWrite at h
    simp only [bind_eq_ok, Prod.exists, Serving.resolvePath_ok] at h
    obtain ⟨share, sub, ⟨hfind, -⟩, -⟩ := h
    exact ⟨share, sub, hfind⟩
  obtain ⟨share, sub, hfind⟩ := hfound
  obtain ⟨root, names, hroot, hlocal, -⟩ := forWrite_leads hfind h
  exact ⟨_, root, names, hlocal, hroot⟩

theorem Incoming.atomic_resolved {s : Incoming} {os : OsTexts} {shares' : Shares} {size : UInt64} {v : Volume}
    (huri : refuseContentUri shares allowedSpaces path = .ok ())
    (hresolve : resolvePathForWrite v.tree shares' allowedSpaces path = .ok localPath) :
    s.Atomic os shares shares' allowedSpaces path size v ↔ (PartTaken v localPath → s.Rewrites v localPath size.toNat) := by
  rcases hstage : s.stage os v localPath size.toNat with ⟨response, v'⟩
  rw [← s.stage_leaves_iff (forWrite_rooted hresolve) hstage]
  have hwrite : s.handleWrite os shares shares' allowedSpaces path size v = (response, v') := by
    rw [handleWrite, huri]
    dsimp only
    rw [hresolve]
    exact hstage
  unfold Atomic
  rw [hwrite]
  cases response with
  | error message => rfl
  | writeOk => simp [Leaves, hresolve]

end Write

/-- A remote write is atomic exactly if no file or link that can be opened has the `.part` name beside its target, or the
`.part` name and the target are names of one file that has the delivered bytes already. -/
theorem remote_write_atomic_iff (s : Incoming) (os : OsTexts) (shares shares' : Shares) (allowedSpaces : List String)
    (path : String) (size : UInt64) (v : Volume) :
    s.Atomic os shares shares' allowedSpaces path size v ↔ ∀ localPath, refuseContentUri shares allowedSpaces path = .ok () →
      resolvePathForWrite v.tree shares' allowedSpaces path = .ok localPath → PartTaken v localPath →
      s.Rewrites v localPath size.toNat := by
  constructor
  · intro hatomic localPath huri hresolve
    exact (Incoming.atomic_resolved huri hresolve).1 hatomic
  · intro h
    cases huri : refuseContentUri shares allowedSpaces path with
    | error message =>
      unfold Incoming.Atomic Incoming.handleWrite
      rw [huri]
      exact fun loc => .inl rfl
    | ok _ => cases hresolve : resolvePathForWrite v.tree shares' allowedSpaces path with
      | error message =>
        unfold Incoming.Atomic Incoming.handleWrite
        rw [huri]
        dsimp only
        rw [hresolve]
        exact fun loc => .inl rfl
      | ok localPath => exact (Incoming.atomic_resolved huri hresolve).2 (h localPath huri hresolve)

/-- A volume with a share `/srv/docs` and a file of the user in it that is called like the `.part` file of `a.txt`. -/
def partVolume : Volume where
  disk :=
    { tree := (((FileTree.empty 40).put [] "srv" .dir).put ["srv"] "docs" .dir).put ["srv", "docs"] "a.txt.part" .file
      inode := fun _ => 0
      next := 1
      old := fun _ _ => Nat.zero_lt_one }
  content _ := [7]

/-- A peer that starts to write `docs/a.txt` and breaks off destroys the user's file. -/
theorem user_part_removed : ¬ (⟨[], none, none⟩ : Incoming).Atomic ⟨fun _ => "", ""⟩ docsShares docsShares ["s"] "docs/a.txt" 1
    partVolume := by
  have huri : refuseContentUri docsShares ["s"] "docs/a.txt" = .ok () := by decide +kernel
  have hresolve : resolvePathForWrite partVolume.tree docsShares ["s"] "docs/a.txt" = .ok (comps "/srv/docs/a.txt") := by
    decide +kernel
  have htaken : PartTaken partVolume (comps "/srv/docs/a.txt") :=
    ⟨["srv", "docs", "a.txt.part"], by decide +kernel, by decide +kernel, ["srv", "docs", "a.txt.part"], by decide +kernel⟩
  rw [Incoming.atomic_resolved huri hresolve]
  intro h
  obtain ⟨⟨⟨k, hk⟩, -⟩, -⟩ := h htaken
  simp at hk

end HaexVault.PeerStorage
