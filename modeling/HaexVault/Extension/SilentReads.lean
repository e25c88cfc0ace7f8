import HaexVault.Extension.PermissionManager
/-!
# Reads without a prompt

Changes of files are announced only to extensions that may read them at once. `can_read_path_silently`
reads what `check_filesystem_permission` reads, but asks the session first, and once more for a row
that asks (`canReadPathSilently_iff`).
-/

namespace HaexVault.Extension.PermissionManager.Permissions

/-- The permission that `can_read_path_silently` follows: the first that covers reading the path. -/
def readRule (permissions : List ExtensionPermission) (path : String) : Option ExtensionPermission :=
  permissions.find? fun perm =>
    perm.resourceType = .fs && allowsFileRead perm.action && matchesPathPattern perm.target path

/-- The permission that `check_filesystem_permission` follows. -/
def checkRule (permissions : List ExtensionPermission) (action : Access) (path : String) : Option ExtensionPermission :=
  permissions.find? fun perm =>
    perm.resourceType = .fs && perm.action = .filesystem action && matchesPathPattern perm.target path

variable {s : Permissions} {extensionId path : String} {m : Manifest} {permissions : List ExtensionPermission}

theorem canReadPathSilently_eq_true {granted denied : Bool} :
    canReadPathSilently permissions path granted denied = true ↔ denied = false ∧
      match readRule permissions path with
      | some perm => passesFile path perm = true ∧ (perm.status = .granted ∨ perm.status = .ask ∧ granted = true)
      | none => granted = true := by
  unfold canReadPathSilently
  change (if denied = true then false else match readRule permissions path with | some perm => _ | none => _) = true ↔ _
  cases denied with
  | true => simp
  | false =>
    cases readRule permissions path with
    | none => simp
    | some perm => cases hpass : passesFile path perm <;> cases hstatus : perm.status <;> simp [hpass, hstatus]

theorem checkFilesystemPermission_ok {action : Access} (hm : s.extensions extensionId = some m) :
    s.checkFilesystemPermission extensionId action path = .ok () ↔
      match checkRule (s.getPermissions extensionId) action path with
      | some perm => passesFile path perm = true ∧ perm.status = .granted
      | none => s.getPermission extensionId .fs path = some .granted := by
  simp only [checkFilesystemPermission, withExtension, hm]
  exact settle_ok

theorem covers_of_read {perm : ExtensionPermission}
    (h : (perm.resourceType = .fs && perm.action = .filesystem .read && matchesPathPattern perm.target path) = true) :
    (perm.resourceType = .fs && allowsFileRead perm.action && matchesPathPattern perm.target path) = true := by
  simp only [Bool.and_eq_true, decide_eq_true_eq] at h ⊢
  obtain ⟨⟨htype, haction⟩, htarget⟩ := h
  exact ⟨⟨htype, by simp [allowsFileRead, haction]⟩, htarget⟩

theorem checkRule_eq_readRule
    (hread : ∀ perm, readRule permissions path = some perm → perm.action = .filesystem .read) :
    checkRule permissions .read path = readRule permissions path := by
  cases hrule : readRule permissions path with
  | none =>
    rw [readRule, List.find?_eq_none] at hrule
    rw [checkRule, List.find?_eq_none]
    intro perm hperm hcovers
    exact hrule perm hperm (covers_of_read hcovers)
  | some perm =>
    have haction := hread perm hrule
    rw [readRule, List.find?_eq_some_iff_append] at hrule
    obtain ⟨hcovers, before, after, happend, hbefore⟩ := hrule
    rw [checkRule, List.find?_eq_some_iff_append]
    refine ⟨?_, before, after, happend, fun other hother => ?_⟩
    · simp only [Bool.and_eq_true, decide_eq_true_eq] at hcovers ⊢
      exact ⟨⟨hcovers.1.1, haction⟩, hcovers.2⟩
    · have hnot := hbefore other hother
      simp only [Bool.not_eq_true'] at hnot ⊢
      exact Bool.eq_false_iff.2 fun h => by simp [covers_of_read h] at hnot

/-- A path may be read silently if the session does not deny it, and the check lets it be read or would ask for what the
session has granted. -/
theorem canReadPathSilently_iff (s : Permissions) (extensionId path : String) (m : Manifest)
    (hm : s.extensions extensionId = some m)
    (hread : ∀ perm, readRule (s.getPermissions extensionId) path = some perm → perm.action = .filesystem .read) :
    canReadPathSilently (s.getPermissions extensionId) path (s.getPermission extensionId .fs path = some .granted)
        (s.getPermission extensionId .fs path = some .denied) = true ↔
      s.getPermission extensionId .fs path ≠ some .denied ∧
        (s.checkFilesystemPermission extensionId .read path = .ok () ∨
          s.getPermission extensionId .fs path = some .granted ∧ ∃ perm,
            readRule (s.getPermissions extensionId) path = some perm ∧ perm.status = .ask ∧ passesFile path perm = true) := by
  rw [canReadPathSilently_eq_true, checkFilesystemPermission_ok hm, checkRule_eq_readRule hread]
  simp only [decide_eq_false_iff_not, decide_eq_true_eq]
  refine and_congr_right fun _ => ?_
  cases readRule (s.getPermissions extensionId) path with
  | none => simp
  | some perm =>
    simp only [Option.some.injEq, exists_eq_left']
    tauto

/-! ### One row for a directory, as a sample -/

def directoryRow (status : String) (session : PermissionStatus) : Permissions :=
  ⟨fun _ => some ⟨zeroKey, "notes"⟩, [⟨⟨"x", some "fs", some "read", some "/a/*", some status⟩, "p", none⟩], by simp,
    [⟨"q", "x", .fs, .filesystem .read, "/a/b", none, session⟩]⟩

theorem canReadPathSilently_ask_granted :
    canReadPathSilently ((directoryRow "ask" .granted).getPermissions "x") "/a/b"
        ((directoryRow "ask" .granted).getPermission "x" .fs "/a/b" = some .granted)
        ((directoryRow "ask" .granted).getPermission "x" .fs "/a/b" = some .denied) = true :=
  (canReadPathSilently_iff (directoryRow "ask" .granted) "x" "/a/b" ⟨zeroKey, "notes"⟩ rfl (by decide +kernel)).2
    ⟨by decide +kernel, .inr ⟨by decide +kernel, (directoryRow "ask" .granted).getPermissions "x" |>.head (by decide +kernel),
      by decide +kernel, by decide +kernel, by decide +kernel⟩⟩

/-- What the session denies is not read silently, but the check goes by the row. -/
theorem session_denial_before_row :
    canReadPathSilently ((directoryRow "granted" .denied).getPermissions "x") "/a/b"
        ((directoryRow "granted" .denied).getPermission "x" .fs "/a/b" = some .granted)
        ((directoryRow "granted" .denied).getPermission "x" .fs "/a/b" = some .denied) = false ∧
      (directoryRow "granted" .denied).checkFilesystemPermission "x" .read "/a/b" = .ok () := by
  decide +kernel

end HaexVault.Extension.PermissionManager.Permissions
