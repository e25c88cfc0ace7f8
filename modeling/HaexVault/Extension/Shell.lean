import HaexVault.Lib.Utf8
/-!
# Terminal output (`extension/shell/pty.rs`)

The task that reads from the pseudo-terminal decodes what one `read` has returned and sends it to the
extension as one event. A character that the next `read` goes on with is decoded as two broken ones
(`output_exact_iff`).
-/

namespace HaexVault.Extension.Shell

open HaexVault.Lib.Utf8

def fromUtf8Lossy (bytes : List UInt8) : String := String.ofList (chars none bytes)

abbrev Read := { bytes : List UInt8 // bytes ≠ [] ∧ bytes.length ≤ 4096 }

inductive ReadResult where
  | read (buf : Read)
  /-- `Ok(0)`. -/
  | closed
  | failed

/-- `ShellOutputEvent` and `ShellExitEvent`. -/
inductive ShellEvent where
  | output (sessionId extensionId data : String)
  | exit (sessionId extensionId : String) (exitCode : Option Int)
  deriving DecidableEq

/-- What the task does: `emit_to_owner`, and the session taken from the map. -/
inductive Action where
  | emit (event : ShellEvent)
  | removeSession (sessionId : String)
  deriving DecidableEq

/-- The loop of the task that `create_session` spawns, on what `reader.read` returns. -/
def readerLoop (sid ownerExtensionId : String) : List ReadResult → List Action
  | [] => []
  | .read buf :: results => .emit (.output sid ownerExtensionId (fromUtf8Lossy buf)) :: readerLoop sid ownerExtensionId results
  | .closed :: _ | .failed :: _ => [.emit (.exit sid ownerExtensionId none), .removeSession sid]

def readsOf : List ReadResult → List Read
  | .read buf :: results => buf :: readsOf results
  | [] | .closed :: _ | .failed :: _ => []

def bytesOf (reads : List Read) : List UInt8 := (reads.map Subtype.val).flatten

def dataOf (actions : List Action) : List String :=
  actions.filterMap fun
    | .emit (.output _ _ data) => some data
    | _ => none

theorem dataOf_readerLoop (sid ownerExtensionId : String) (results : List ReadResult) :
    dataOf (readerLoop sid ownerExtensionId results) = ((readsOf results).map Subtype.val).map fromUtf8Lossy := by
  induction results with
  | nil => rfl
  | cons r results ih =>
    cases r with
    | read buf => exact congrArg (fromUtf8Lossy buf :: ·) ih
    | closed => rfl
    | failed => rfl

theorem toList_join_dataOf (sid ownerExtensionId : String) (results : List ReadResult) :
    (String.join (dataOf (readerLoop sid ownerExtensionId results))).toList =
      ((readsOf results).map Subtype.val).flatMap (chars none) := by
  rw [dataOf_readerLoop, String.toList_join, List.flatMap_map]
  simp only [fromUtf8Lossy, String.toList_ofList]

theorem flatMap_chars_reads_iff (reads : List Read) :
    (reads.map Subtype.val).flatMap (chars none) = chars none (bytesOf reads) ↔
      ∀ done todo, reads = done ++ todo → ¬Parts none (bytesOf done) (bytesOf todo) := by
  rw [bytesOf, flatMap_chars_iff]
  constructor
  · intro h done todo he
    exact h _ _ (by rw [he, List.map_append])
  · intro h done todo he
    obtain ⟨done', todo', hreads, rfl, rfl⟩ := List.map_eq_append_iff.1 he
    exact h done' todo' hreads

/-- The text of the events is that of the stream exactly when no read ends within a character that the next goes on with. -/
theorem output_exact_iff (sid ownerExtensionId : String) (results : List ReadResult) :
    String.join (dataOf (readerLoop sid ownerExtensionId results)) = fromUtf8Lossy (bytesOf (readsOf results)) ↔
      ∀ done todo, readsOf results = done ++ todo → ¬Parts none (bytesOf done) (bytesOf todo) := by
  rw [← String.toList_inj, toList_join_dataOf, fromUtf8Lossy, String.toList_ofList, flatMap_chars_reads_iff]

/-- A euro sign in two reads. -/
theorem euro_sign_damaged :
    String.join (dataOf (readerLoop "s" "e" [.read ⟨[0xE2, 0x82], by decide⟩, .read ⟨[0xAC], by decide⟩, .closed])) ≠
      fromUtf8Lossy (bytesOf (readsOf [.read ⟨[0xE2, 0x82], by decide⟩, .read ⟨[0xAC], by decide⟩, .closed])) := by
  intro h
  exact absurd (congrArg String.toList h) (by decide)

end HaexVault.Extension.Shell
