import HaexVault.Extension.Decisions
/-!
# The order of the permission rows

The query for the rows of an extension has no `ORDER BY`, and most checks follow the first row that
fits (`order_irrelevant_iff`). For passwords and mail the order never matters
(`passwords_order_irrelevant`, `mail_order_irrelevant`).
-/

namespace HaexVault.Extension.PermissionManager

inductive Decision where
  | allowed | denied | prompt | refused
  deriving DecidableEq

/-- The decision in the result of a check; any other error refuses the request as such. -/
def decision : Except ExtensionError Unit → Decision
  | .ok () => .allowed
  | .error (.permissionDenied ..) => .denied
  | .error (.permissionPromptRequired ..) => .prompt
  | .error _ => .refused

def statusDecision : PermissionStatus → Decision
  | .granted => .allowed
  | .denied => .denied
  | .ask => .prompt

/-- What a stored permission that fits says of the request: one that its constraints rule out is denied. -/
def Request.verdict (r : Request) (perm : ExtensionPermission) : PermissionStatus :=
  if r.passes perm then perm.status else .denied

namespace Permissions

def reorder (s : Permissions) (rows : List StoredPermission) (h : rows.Perm s.rows) : Permissions :=
  { s with rows, ids := (h.map _).nodup_iff.2 s.ids }

variable (x : Externals) (s : Permissions) (extensionId : String)

def fittingRows (r : Request) : List StoredPermission :=
  s.rows.filter fun row => row.extensionId = extensionId && r.fits x row.read

def decideByRows (r : Request) : Decision :=
  match s.firstRow x extensionId r with
  | some row => statusDecision (r.verdict row.read)
  | none => statusDecision ((r.sessionTarget.bind (s.getPermission extensionId r.action.resourceType)).getD .ask)

/-- The request does not come to the rows: no such extension, no URL with a host, or a table of the extension itself. -/
def Aside (r : Request) : Prop :=
  ∀ m, s.extensions extensionId = some m → r.Valid x → r.own m = true

/-! ## The decision of a check -/

variable {x s extensionId} {r : Request}

theorem statusDecision_injective : Function.Injective statusDecision := by
  intro a b h
  cases a <;> cases b <;> first | rfl | cases h

theorem decision_settle {matching : Option ExtensionPermission} {passes : ExtensionPermission → Bool}
    {session : Option PermissionStatus} {e op res op' res' n rt a t : String} :
    decision (settle matching passes session (.permissionDenied e op res) (.permissionDenied e op' res')
      (.permissionPromptRequired e n rt a t)) =
      match matching with
      | some perm => statusDecision (if passes perm then perm.status else .denied)
      | none => statusDecision (session.getD .ask) := by
  cases matching with
  | none => rcases session with _ | _ | _ | _ <;> rfl
  | some perm =>
    cases hpass : passes perm with
    | false => simp [settle, hpass, decision, statusDecision]
    | true => cases hstatus : perm.status <;> simp [settle, hpass, hstatus, decision, statusDecision]

theorem decision_settle_firstRow {p : ExtensionPermission → Bool} {target : String} (hp : ∀ perm, p perm = r.fits x perm)
    (htarget : r.sessionTarget = some target) {e op res op' res' n rt a t : String} :
    decision (settle ((s.getPermissions extensionId).find? p) r.passes (s.getPermission extensionId r.action.resourceType target)
      (.permissionDenied e op res) (.permissionDenied e op' res') (.permissionPromptRequired e n rt a t)) =
      s.decideByRows x extensionId r := by
  obtain rfl : p = r.fits x := funext hp
  rw [decision_settle, find_getPermissions, decideByRows, firstRow, htarget]
  cases s.rows.find? fun row => row.extensionId = extensionId && r.fits x row.read <;> rfl

theorem decision_aside (hr : r.Settled) (h : s.Aside x extensionId r) (rows : List StoredPermission) (hrows : rows.Perm s.rows) :
    decision ((s.reorder rows hrows).answer x extensionId r) = decision (s.answer x extensionId r) := by
  cases hm : s.extensions extensionId with
  | none =>
    have hm' : (s.reorder rows hrows).extensions extensionId = none := hm
    cases r <;> simp_all [answer, checkDatabasePermission, appState, checkWebPermission, checkFilesystemPermission,
      checkShellPermission, checkFilesyncPermission, checkSpacesPermission, withExtension, Request.Settled]
  | some m =>
    have hm' : (s.reorder rows hrows).extensions extensionId = some m := hm
    have hown := h m hm
    cases r with
    | database a table =>
      have hown : isAutoAllowedTable m table = true := hown trivial
      simp [answer, checkDatabasePermission, appState, hm, hm', hown]
    | web url =>
      simp only [answer, checkWebPermission, withExtension, hm, hm']
      cases hparse : x.parseUrl url with
      | error => rfl
      | ok u =>
        cases hhost : u.host with
        | none => simp [hhost]
        | some domain => exact absurd (hown ⟨u, hparse, by simp [hhost]⟩) (by simp [Request.own])
    | filesystem a path => exact absurd (hown trivial) (by simp [Request.own])
    | shell command args => exact absurd (hown trivial) (by simp [Request.own])
    | fileSync a target => exact absurd (hown trivial) (by simp [Request.own])
    | spaces a => exact absurd (hown trivial) (by simp [Request.own])
    | _ => exact hr.elim

theorem decision_answer {m : Manifest} (hr : r.Settled) (hm : s.extensions extensionId = some m) (hvalid : r.Valid x)
    (hown : r.own m = false) : decision (s.answer x extensionId r) = s.decideByRows x extensionId r := by
  cases r with
  | filesystem a path =>
    simp only [answer, checkFilesystemPermission, withExtension, hm]
    exact decision_settle_firstRow (r := .filesystem a path) (fun _ => rfl) rfl
  | shell command args =>
    simp only [answer, checkShellPermission, withExtension, hm]
    refine decision_settle_firstRow (x := x) (r := .shell command args) (fun perm => ?_) rfl
    simp only [Request.fits, Request.allowedBy, Request.matchesTarget, Bool.and_true]
    rfl
  | fileSync a target =>
    simp only [answer, checkFilesyncPermission, withExtension, hm]
    exact decision_settle_firstRow (r := .fileSync a target) (fun _ => rfl) rfl
  | spaces a =>
    simp only [answer, checkSpacesPermission, withExtension, hm]
    refine decision_settle_firstRow (x := x) (r := .spaces a) (fun perm => ?_) rfl
    simp only [Request.fits, Request.allowedBy, Request.matchesTarget, Bool.and_true]
    rfl
  | web url =>
    obtain ⟨u, hparse, hhost⟩ := hvalid
    obtain ⟨domain, hhost⟩ := Option.isSome_iff_exists.1 hhost
    simp only [answer, checkWebPermission, withExtension, hm, hparse, hhost]
    rw [decision_settle, find_webPermissions hparse hhost, decideByRows]
    cases s.firstRow x extensionId (.web url) with
    | none => rfl
    | some row => rfl
  | database a table =>
    have hown : isAutoAllowedTable m table = false := hown
    have happ : s.appState.extensions extensionId = some m := hm
    simp only [answer, checkDatabasePermission, happ, hown, Bool.false_eq_true, if_false, matchingPermission_appState (x := x),
      decideByRows]
    cases s.firstRow x extensionId (.database a table) with
    | none =>
      have hsession : s.appState.sessionPermissions extensionId .db table = s.getPermission extensionId .db table := rfl
      show _ = statusDecision ((s.getPermission extensionId .db table).getD .ask)
      simp only [Option.map_none, hsession]
      rcases s.getPermission extensionId .db table with _ | _ | _ | _ <;> rfl
    | some row =>
      show _ = statusDecision row.read.status
      simp only [Option.map_some]
      split <;> next hstatus => rw [show row.read.status = _ from hstatus]; rfl
  | _ => exact hr.elim

/-! ## The order of the rows -/

theorem firstRow_mem {row : StoredPermission} (h : s.firstRow x extensionId r = some row) :
    row ∈ s.fittingRows x extensionId r := by
  have hfits := List.find?_some h
  exact List.mem_filter.2 ⟨List.mem_of_find?_eq_some h, hfits⟩

theorem firstRow_isSome : (s.firstRow x extensionId r).isSome ↔ s.fittingRows x extensionId r ≠ [] := by
  rw [firstRow, fittingRows, List.find?_isSome, ne_eq, List.filter_eq_nil_iff]
  push Not
  rfl

theorem exists_first {row : StoredPermission} (h : row ∈ s.fittingRows x extensionId r) :
    ∃ rows, ∃ hrows : rows.Perm s.rows, (s.reorder rows hrows).firstRow x extensionId r = some row := by
  obtain ⟨hmem, hfits⟩ := List.mem_filter.1 h
  exact ⟨row :: s.rows.erase row, (List.perm_cons_erase hmem).symm, List.find?_cons_of_pos hfits⟩

/-- The order of the rows does not change the decision, exactly if the request does not come to them or all rows that fit it
say the same. -/
theorem order_irrelevant_iff (x : Externals) (s : Permissions) (extensionId : String) (r : Request) (hr : r.Settled) :
    (∀ rows, ∀ h : rows.Perm s.rows,
      decision ((s.reorder rows h).answer x extensionId r) = decision (s.answer x extensionId r)) ↔
      s.Aside x extensionId r ∨ ∀ row ∈ s.fittingRows x extensionId r, ∀ row' ∈ s.fittingRows x extensionId r,
        r.verdict row.read = r.verdict row'.read := by
  constructor
  · intro hsame
    rw [or_iff_not_imp_left]
    intro haside row hrow row' hrow'
    unfold Aside at haside
    push Not at haside
    obtain ⟨m, hm, hvalid, hown⟩ := haside
    have hown : r.own m = false := Bool.eq_false_iff.2 hown
    have hdecides : ∀ row ∈ s.fittingRows x extensionId r,
        decision (s.answer x extensionId r) = statusDecision (r.verdict row.read) := fun row hrow => by
      obtain ⟨rows, hrows, hfirst⟩ := exists_first hrow
      rw [← hsame rows hrows, decision_answer (s := s.reorder rows hrows) hr hm hvalid hown, decideByRows, hfirst]
    exact statusDecision_injective ((hdecides row hrow).symm.trans (hdecides row' hrow'))
  · rintro (haside | halike) rows hrows
    · exact decision_aside hr haside rows hrows
    · by_cases haside : s.Aside x extensionId r
      · exact decision_aside hr haside rows hrows
      unfold Aside at haside
      push Not at haside
      obtain ⟨m, hm, hvalid, hown⟩ := haside
      have hown : r.own m = false := Bool.eq_false_iff.2 hown
      have hfitting : ∀ row, row ∈ (s.reorder rows hrows).fittingRows x extensionId r ↔ row ∈ s.fittingRows x extensionId r :=
        fun row => (hrows.filter _).mem_iff
      rw [decision_answer (s := s.reorder rows hrows) hr hm hvalid hown, decision_answer hr hm hvalid hown]
      unfold decideByRows
      cases hfirst : s.firstRow x extensionId r with
      | none =>
        have hnone : (s.reorder rows hrows).firstRow x extensionId r = none := by
          rw [← Option.not_isSome_iff_eq_none, firstRow_isSome, not_not, List.eq_nil_iff_forall_not_mem]
          intro row hrow
          have hsome := firstRow_isSome.2 (List.ne_nil_of_mem ((hfitting row).1 hrow))
          rw [hfirst] at hsome
          cases hsome
        rw [hnone]
        rfl
      | some row =>
        obtain ⟨row', hfirst'⟩ : ∃ row', (s.reorder rows hrows).firstRow x extensionId r = some row' := by
          rw [← Option.isSome_iff_exists, firstRow_isSome]
          exact List.ne_nil_of_mem ((hfitting row).2 (firstRow_mem hfirst))
        rw [hfirst']
        exact congrArg statusDecision (halike row' ((hfitting row').1 (firstRow_mem hfirst')) row (firstRow_mem hfirst))

/-! ### Shell commands, as a sample -/

def shellExternals : Externals where
  parseUrl _ := .error "relative URL without a base"
  debug args := "[" ++ ", ".intercalate (args.map fun a => "\"" ++ a ++ "\"") ++ "]"

def shellRow (id target status : String) : StoredPermission :=
  ⟨⟨"x", some "shell", some "execute", some target, some status⟩, id, none⟩

def shellRows (status status' : String) : Permissions :=
  ⟨fun _ => some ⟨zeroKey, "notes"⟩, [shellRow "p" "git" status, shellRow "q" "*" status'],
    by simp [shellRow], []⟩

/-- Two granted rows allow the command in any order. -/
theorem order_irrelevant_two_grants :
    decision ((shellRows "granted" "granted").answer shellExternals "x" (.shell "git" [])) = .allowed ∧
    ∀ rows, ∀ h : rows.Perm (shellRows "granted" "granted").rows,
      decision (((shellRows "granted" "granted").reorder rows h).answer shellExternals "x" (.shell "git" [])) =
        decision ((shellRows "granted" "granted").answer shellExternals "x" (.shell "git" [])) :=
  ⟨by decide +kernel, (order_irrelevant_iff shellExternals (shellRows "granted" "granted") "x" (.shell "git" []) trivial).2
    (.inr (by decide +kernel))⟩

/-- The command is run if the granted row comes first, and denied if the other one does. -/
theorem granted_row_hides_denied :
    decision ((shellRows "granted" "denied").answer shellExternals "x" (.shell "git" [])) = .allowed ∧
    ∃ rows, ∃ h : rows.Perm (shellRows "granted" "denied").rows,
      decision (((shellRows "granted" "denied").reorder rows h).answer shellExternals "x" (.shell "git" [])) = .denied :=
  ⟨by decide +kernel, [shellRow "q" "*" "denied", shellRow "p" "git" "granted"], .swap _ _ _, by decide +kernel⟩

/-! ## The checks that look at all rows -/

/-- What `check_passwords_permission` lets through does not depend on the order of the rows. -/
theorem passwords_order_irrelevant {rows : List StoredPermission} (h : rows.Perm s.rows) (action : Access) (tag : String) :
    (s.reorder rows h).accepts x extensionId (.passwords action tag) = s.accepts x extensionId (.passwords action tag) := by
  have hrows : ∀ row, row ∈ (s.reorder rows h).passwordRows extensionId action ↔ row ∈ s.passwordRows extensionId action :=
    fun row => (h.filter _).mem_iff
  rw [Bool.eq_iff_iff, accepts_passwords, accepts_passwords]
  simp only [hrows]
  rfl

/-- Two rows of one resource and action. -/
def twoRows (resourceType action target status target' status' : String) : Permissions :=
  ⟨fun _ => some ⟨zeroKey, "notes"⟩,
    [⟨⟨"x", some resourceType, some action, some target, some status⟩, "p", none⟩,
      ⟨⟨"x", some resourceType, some action, some target', some status'⟩, "q", none⟩],
    by simp, []⟩

theorem passwords_order_irrelevant_grant_and_ask :
    (twoRows "passwords" "readWrite" "t" "granted" "*" "ask").accepts shellExternals "x" (.passwords .read "t") = true ∧
      ((twoRows "passwords" "readWrite" "t" "granted" "*" "ask").reorder _ (.swap _ _ _)).accepts shellExternals "x"
        (.passwords .read "t") =
      (twoRows "passwords" "readWrite" "t" "granted" "*" "ask").accepts shellExternals "x" (.passwords .read "t") :=
  ⟨by decide +kernel, passwords_order_irrelevant (.swap _ _ _) .read "t"⟩

/-- Nor does what `check_mail_permission` lets through. -/
theorem mail_order_irrelevant {rows : List StoredPermission} (h : rows.Perm s.rows) (action : MailAction) (host : String) :
    (s.reorder rows h).accepts x extensionId (.mail action host) = s.accepts x extensionId (.mail action host) := by
  have hrows : ∀ row, row ∈ (s.reorder rows h).mailRows extensionId action host ↔ row ∈ s.mailRows extensionId action host :=
    fun row => (h.filter _).mem_iff
  rw [Bool.eq_iff_iff, accepts_mail, accepts_mail]
  simp only [hrows]
  rfl

theorem mail_order_irrelevant_denied_host :
    (twoRows "mail" "send" "*" "granted" "gmail.com" "denied").accepts shellExternals "x" (.mail .send "smtp.gmail.com") =
        false ∧
      ((twoRows "mail" "send" "*" "granted" "gmail.com" "denied").reorder _ (.swap _ _ _)).accepts shellExternals "x"
        (.mail .send "smtp.gmail.com") =
      (twoRows "mail" "send" "*" "granted" "gmail.com" "denied").accepts shellExternals "x" (.mail .send "smtp.gmail.com") :=
  ⟨by decide +kernel, mail_order_irrelevant (.swap _ _ _) .send "smtp.gmail.com"⟩

end Permissions

end HaexVault.Extension.PermissionManager
