import Mathlib.Data.List.Infix
import HaexVault.Lib.Runs
/-!
# Resumed downloads (`remote_storage/backend.rs`, `commands.rs`)

`download_to_path_resumable` goes on behind whatever is on disk, up to the length that HEAD reports:
an attempt that succeeds has the object's content exactly if what is on disk is a beginning of it
(`attempt_right_iff`), as along a history without replacements (`Unreplaced.right`).
-/

namespace HaexVault.RemoteStorage

open HaexVault.Lib HaexVault.Lib.Runs

inductive StorageError where
  | backendNotFound (id : String)
  | invalidConfig (reason : String)
  | databaseError (reason : String)
  | objectNotFound (key : String)
  | downloadFailed (reason : String)

/-- How an attempt runs. -/
structure Attempt where
  key : String
  /-- There is no such backend, or the transfer id is in flight. -/
  refused : Option StorageError
  /-- HEAD fails with this text. -/
  headError : Option String
  /-- The `content_length` of the HEAD response. -/
  contentLength : Option Int
  /-- The attempt is cancelled or fails: at 0 before it touches the file, at k + 1 after it opened, truncated or cut it, with
  k bytes written. -/
  stop : Option (Nat × StorageError)

namespace Attempt

def total (a : Attempt) : Nat := (a.contentLength.getD 0).toNat

def headFailure (a : Attempt) (msg : String) : StorageError :=
  if "404".toList <:+: msg.toList ∨ "NoSuchKey".toList <:+: msg.toList then .objectNotFound a.key
  else .downloadFailed ("head_object: " ++ msg)

def finish (a : Attempt) (bytes : Nat) : Except StorageError Nat :=
  match a.stop with
  | some (_, e) => .error e
  | none => .ok bytes

/-- `download_to_path_resumable` once HEAD has answered: the result, and what is at the output path. The range GET sends the
object from the offset on. -/
def resume (a : Attempt) (object : List UInt8) (output : Option (List UInt8)) : Except StorageError Nat × Option (List UInt8) :=
  let existing := output.getD []
  match a.stop with
  | some (0, e) => (.error e, output)
  | stop =>
    if a.total = 0 then (a.finish 0, some [])
    else if a.total < existing.length then (a.finish a.total, some (existing.take a.total))
    else if a.total ≤ existing.length then (a.finish existing.length, output)
    else if object.length ≤ existing.length then
      (.error (.downloadFailed "S3 range get failed: range not satisfiable"), some existing)
    else match stop with
      | some (k + 1, e) => (.error e, some (existing ++ (object.drop existing.length).take k))
      | _ => (.ok object.length, some (existing ++ object.drop existing.length))

/-- `remote_storage_download_to_path`. -/
def download (a : Attempt) (remote : Option (List UInt8)) (output : Option (List UInt8)) :
    Except StorageError Nat × Option (List UInt8) :=
  match a.refused with
  | some e => (.error e, output)
  | none => match a.headError with
    | some msg => (.error (a.headFailure msg), output)
    | none => match remote with
      | none => (.error (.objectNotFound a.key), output)
      | some object => a.resume object output

end Attempt

/-! ## Histories -/

structure Store where
  remote : Option (List UInt8)
  output : Option (List UInt8)

inductive Event where
  | attempt (a : Attempt)
  /-- The object is replaced, or deleted. -/
  | replace (object : Option (List UInt8))

def Store.step (s : Store) : Event → Store
  | .attempt a => { s with output := (a.download s.remote s.output).2 }
  | .replace object => { s with remote := object }

def Right (s : Store) : Event → Prop
  | .attempt a => ∀ n, (a.download s.remote s.output).1 = .ok n → (a.download s.remote s.output).2 = s.remote
  | .replace _ => True

/-- What is on disk, up to the length that HEAD reports, is a beginning of the object; and that length is the object's, unless
more bytes are to come. -/
def Resumable (s : Store) : Event → Prop
  | .attempt a => ∀ n, (a.download s.remote s.output).1 = .ok n → ∀ object, s.remote = some object →
      (s.output.getD []).take a.total <+: object ∧ (a.total = object.length ∨ (s.output.getD []).length < a.total)
  | .replace _ => True

section History
variable {s : Store} {a : Attempt} {object : List UInt8} {output : Option (List UInt8)} {n : Nat}

theorem resume_stopped (hstop : a.stop ≠ none) : (a.resume object output).1 ≠ .ok n := by
  obtain ⟨⟨k, e⟩, hstop⟩ := Option.ne_none_iff_exists'.1 hstop
  unfold Attempt.resume Attempt.finish
  rw [hstop]
  cases k with
  | zero => simp
  | succ k =>
    dsimp only
    split_ifs <;> simp

theorem resume_more (h : (a.resume object output).1 = .ok n) (hmore : (output.getD []).length < a.total) :
    (output.getD []).length < object.length ∧
      (a.resume object output).2 = some (output.getD [] ++ object.drop (output.getD []).length) := by
  have hstop : a.stop = none := by
    by_contra hstop
    exact resume_stopped hstop h
  unfold Attempt.resume at h ⊢
  rw [hstop] at h ⊢
  dsimp only at h ⊢
  rw [if_neg (by omega), if_neg (by omega), if_neg (by omega)] at h ⊢
  split_ifs at h ⊢ with hbehind
  exact ⟨by omega, rfl⟩

theorem resume_cut (hstop : a.stop = none) (hmore : ¬ (output.getD []).length < a.total) :
    (a.resume object output).2 = some ((output.getD []).take a.total) := by
  unfold Attempt.resume
  rw [hstop]
  dsimp only
  by_cases hzero : a.total = 0
  · rw [if_pos hzero, hzero, List.take_zero]
  · rw [if_neg hzero]
    cases output with
    | none =>
      rw [Option.getD_none, List.length_nil] at hmore
      omega
    | some existing =>
      rw [Option.getD_some] at hmore ⊢
      split
      · rfl
      · rw [if_pos (by omega), List.take_of_length_le (by omega)]

theorem right_iff_resumable (s : Store) (e : Event) : Right s e ↔ Resumable s e := by
  cases e with
  | replace object => exact Iff.rfl
  | attempt a =>
    refine forall₂_congr fun n hok => ?_
    unfold Attempt.download at hok ⊢
    cases hrefused : a.refused with
    | some e => simp [hrefused] at hok
    | none => cases hhead : a.headError with
      | some msg => simp [hrefused, hhead] at hok
      | none => cases hremote : s.remote with
        | none => simp [hrefused, hhead, hremote] at hok
        | some object =>
          simp only [hrefused, hhead, hremote] at hok
          simp only [Option.some.injEq, forall_eq']
          by_cases hmore : (s.output.getD []).length < a.total
          · obtain ⟨hlt, hleft⟩ := resume_more hok hmore
            rw [hleft, List.take_of_length_le (Nat.le_of_lt hmore), Option.some.injEq]
            exact ⟨fun h => ⟨⟨_, h⟩, .inr hmore⟩, fun ⟨⟨rest, hrest⟩, _⟩ => by rw [← hrest, List.drop_left]⟩
          · have hstop : a.stop = none := by
              by_contra hstop
              exact resume_stopped hstop hok
            have hlen : ((s.output.getD []).take a.total).length = a.total := by
              rw [List.length_take]
              omega
            rw [resume_cut hstop hmore, Option.some.injEq]
            constructor
            · intro heq
              exact ⟨heq ▸ List.prefix_rfl, .inl (by rw [← heq, hlen])⟩
            · rintro ⟨hbegin, htotal | hmore'⟩
              · exact hbegin.eq_of_length (hlen.trans htotal)
              · exact absurd hmore' hmore

/-! ### Without a replacement -/

def Begun (object : List UInt8) (s : Store) : Prop := s.remote = some object ∧ s.output.getD [] <+: object

/-- The object is not replaced, and HEAD reports its length. -/
def Unreplaced (object : List UInt8) : Event → Prop
  | .attempt a => a.contentLength = some (object.length : Int)
  | .replace _ => False

theorem resume_begun (htotal : a.total = object.length) (h : output.getD [] <+: object) :
    ((a.resume object output).2).getD [] <+: object := by
  have hle := h.length_le
  have hgrown : ∀ k, output.getD [] ++ (object.drop (output.getD []).length).take k <+: object := by
    obtain ⟨rest, rfl⟩ := h
    intro k
    rw [List.drop_left]
    exact (List.prefix_append_right_inj _).2 (List.take_prefix k rest)
  unfold Attempt.resume
  dsimp only
  split
  · exact h
  · split_ifs
    · exact List.nil_prefix
    · exact (List.take_prefix _ _).trans h
    · exact h
    · exact h
    · split
      · exact hgrown _
      · have hall := hgrown (object.drop (output.getD []).length).length
        rwa [List.take_length] at hall

theorem Begun.step {e : Event} (h : Begun object s) (he : Unreplaced object e) : Begun object (s.step e) := by
  cases e with
  | replace object => exact he.elim
  | attempt a =>
    have htotal : a.total = object.length := by
      have hreported : a.contentLength = some (object.length : Int) := he
      rw [Attempt.total, hreported]
      rfl
    refine ⟨h.1, ?_⟩
    show ((a.download s.remote s.output).2).getD [] <+: object
    unfold Attempt.download
    rw [h.1]
    split
    · exact h.2
    · split
      · exact h.2
      · exact resume_begun htotal h.2

theorem Begun.resumable {e : Event} (h : Begun object s) (he : Unreplaced object e) : Resumable s e := by
  cases e with
  | replace object => exact he.elim
  | attempt a =>
    intro n _ object' hremote
    rw [h.1, Option.some.injEq] at hremote
    subst hremote
    have hreported : a.contentLength = some (object.length : Int) := he
    refine ⟨(List.take_prefix _ _).trans h.2, .inl ?_⟩
    rw [Attempt.total, hreported]
    rfl

end History

/-- The attempts of a history that succeed are right exactly if each of them found a file that can be resumed; this is so if
the file was a beginning of the object at first and the object is never replaced. -/
theorem resumed_downloads_right_iff (s : Store) (events : List Event) :
    (Guarded Store.step Right s events ↔ Guarded Store.step Resumable s events) ∧
    ∀ object, Begun object s → (∀ e ∈ events, Unreplaced object e) → Guarded Store.step Resumable s events := by
  constructor
  · exact Guarded.congr (guarded_of_forall fun s e _ => right_iff_resumable s e)
  · intro object hbegun hall
    have hguard : Guarded Store.step (fun _ e => Unreplaced object e) s events := guarded_of_forall fun _ e he => hall e he
    exact hguard.each (fun _ _ h he => h.step he) (fun _ _ h he => h.resumable he) hbegun

/-- The object is replaced by one of the same length, or the file on disk has other bytes: the attempt succeeds and leaves
them. -/
theorem stale_bytes_kept : ¬ Guarded Store.step Right ⟨some [1, 2], none⟩
    [.attempt ⟨"k", none, none, some 2, none⟩, .replace (some [3, 4]), .attempt ⟨"k", none, none, some 2, none⟩] := by
  intro h
  have hlast := h.2.2.1 2 rfl
  exact absurd hlast (by decide)

end HaexVault.RemoteStorage
