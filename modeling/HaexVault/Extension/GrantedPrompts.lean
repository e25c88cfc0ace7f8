import HaexVault.Extension.Decisions
/-!
# What a granted prompt lets through

A decision for the session is stored under extension, resource type and target, whatever its action;
a remembered one sets the status of the first stored row with the resource type and the target,
whatever that row's action. So a grant can let through more than was asked (`grants_no_more_iff`).
-/

namespace HaexVault.Extension.PermissionManager

/-! ## What was asked -/

/-- A permission for the one action includes the other: writing includes reading, and web requests are not told apart. -/
def Action.includes : Action → Action → Bool
  | .database a, .database b => a = b || (a = .readWrite && b = .read)
  | .filesystem a, .filesystem b | .fileSync a, .fileSync b | .spaces a, .spaces b | .passwords a, .passwords b =>
    a = b || (a = .readWrite && b = .read)
  | .web _, .web _ | .shell, .shell | .identities, .identities => true
  | .mail a, .mail b => a = b
  | _, _ => false

def Request.CoveredBy (x : Externals) (target : String) (r : Request) : Prop :=
  r.sessionTarget = some target ∨ r.matchesTarget x target = true

namespace Permissions

/-- What a grant of `a` on the target lets through that was not let through before was asked for. -/
def GrantsNoMore (x : Externals) (s s' : Permissions) (extensionId : String) (a : Action) (target : String) : Prop :=
  ∀ r : Request, s'.accepts x extensionId r = true → s.accepts x extensionId r = false →
    a.includes r.action = true ∧ r.CoveredBy x target

variable (x : Externals) (s : Permissions) (extensionId : String)

/-- The row decides the request: no other row fits it first, and its constraints let it through. -/
def Decides (row : StoredPermission) (r : Request) : Prop :=
  r.Settled ∧ (∀ m, s.extensions extensionId = some m → r.own m = false) ∧ s.firstRow x extensionId r = some row ∧
    r.passes row.read = true

def Undecided (r : Request) : Prop :=
  r.Settled ∧ (∀ m, s.extensions extensionId = some m → r.own m = false) ∧ s.firstRow x extensionId r = none

def otherPasswordRows (row : StoredPermission) (action : Access) : List StoredPermission :=
  (s.passwordRows extensionId action).filter (·.id ≠ row.id)

/-- A grant of the row for passwords opens no action but the asked ones, and gives no other row its effect back. -/
def PasswordsFit (a : Action) (row : StoredPermission) : Prop :=
  ∀ b, actionAllows .passwords row.read.action b = true →
    (∀ other ∈ s.otherPasswordRows extensionId row b, other.read.status ≠ .denied) →
      (a.includes (.passwords b) = true ∨ row.read.status = .ask ∧ ∃ other ∈ s.otherPasswordRows extensionId row b,
        other.read.status = .granted ∧ (other.read.target = "*" ∨ other.read.target = row.read.target)) ∧
      (row.read.status = .denied → row.read.target = "*" ∨ ∀ other ∈ s.otherPasswordRows extensionId row b,
        other.read.status = .granted → other.read.target = row.read.target)

/-- The stored row that a remembered grant changes was granted before, or decides only what was asked. -/
def RememberFits (a : Action) (target : String) : Prop :=
  ∀ row, s.existingRow extensionId a target = some row → row.read.status = .granted ∨
    if a.resourceType = .passwords then s.PasswordsFit extensionId a row
    else ∀ r, s.Decides x extensionId row r → a.includes r.action = true

/-- What the session alone decides under the target was asked, or was granted before; for mail, the entry that is
replaced held back no request of the other action. -/
def SessionFits (a : Action) (target : String) : Prop :=
  match a with
  | .web _ => True
  | .mail action => ∀ b host, b ≠ action →
    (s.removePermission extensionId .mail target).accepts x extensionId (.mail b host) = true →
      s.accepts x extensionId (.mail b host) = true
  | _ => s.getPermission extensionId a.resourceType target = some .granted ∨ ∀ r, s.Undecided x extensionId r →
    r.action.resourceType = a.resourceType → r.sessionTarget = some target → a.includes r.action = true

def Fits (a : Action) (target : String) (remember : Bool) : Prop :=
  s.extensions extensionId = none ∨
    if remember then s.RememberFits x extensionId a target else s.SessionFits x extensionId a target

end Permissions

namespace Permissions

variable {x : Externals} {s : Permissions} {e name target uuid : String} {a : Action} {pos : Nat} {r : Request}

/-! ## A new row lets through what was asked -/

variable {s' : Permissions} {perm : ExtensionPermission}

theorem includes_of_allowedBy (ha : a.resourceType = r.action.resourceType) (h : r.allowedBy a = true) :
    a.includes r.action = true := by
  cases r <;> cases a <;>
    simp_all [Action.resourceType, Request.action, Request.allowedBy, Action.includes, allowsFileRead, actionAllows]

theorem stored_includes (b : Action) : a.stored.includes b = a.includes b := by
  cases a <;> cases b <;> rfl

theorem fits_iff : r.fits x perm = true ↔
    perm.resourceType = r.action.resourceType ∧ r.allowedBy perm.action = true ∧ r.matchesTarget x perm.target = true := by
  simp [Request.fits, and_assoc]

theorem asked_of_fits (h : r.fits x perm = true) (ha : perm.action = a.stored) (hrt : perm.resourceType = a.resourceType) :
    a.includes r.action = true ∧ r.CoveredBy x perm.target := by
  obtain ⟨htype, hallowed, htarget⟩ := fits_iff.1 h
  rw [ha] at hallowed
  refine ⟨?_, .inr htarget⟩
  rw [← stored_includes]
  exact includes_of_allowedBy (by rw [Action.stored_resourceType, ← hrt, htype]) hallowed

theorem settled_or (r : Request) : r.Settled ∨ (∃ path, r = .readSilently path) ∨ (∃ action tag, r = .passwords action tag) ∨
    ∃ action host, r = .mail action host := by
  cases r <;> simp [Request.Settled]

theorem newly_settled (hr : r.Settled) (hext : s'.extensions = s.extensions) (h' : s'.accepts x e r = true)
    (h : s.accepts x e r = false) : (∀ m, s.extensions e = some m → r.own m = false) ∧
      ∃ target, r.sessionTarget = some target ∧
        settles (fun row => r.passes row.read) (s'.getPermission e r.action.resourceType target) (s'.firstRow x e r) ∧
        ¬ settles (fun row => r.passes row.read) (s.getPermission e r.action.resourceType target) (s.firstRow x e r) := by
  obtain ⟨m, hm, hvalid, hthrough⟩ := (accepts_settled hr).1 h'
  have hnot := mt (accepts_settled hr).2 (Bool.eq_false_iff.1 h)
  rw [hext] at hm
  have hown : r.own m ≠ true := fun hown => hnot ⟨m, hm, hvalid, .inl hown⟩
  obtain ⟨target, htarget, hsettles⟩ := hthrough.resolve_left hown
  refine ⟨fun m' hm' => ?_, target, htarget, hsettles, fun hs => hnot ⟨m, hm, hvalid, .inr ⟨target, htarget, hs⟩⟩⟩
  obtain rfl : m = m' := Option.some.inj (hm.symm.trans hm')
  exact Bool.eq_false_iff.2 hown

theorem find?_insert {α : Type} (p : α → Bool) (l₁ l₂ : List α) (n : α) :
    (l₁ ++ n :: l₂).find? p = (l₁ ++ l₂).find? p ∨ p n = true ∧ (l₁ ++ n :: l₂).find? p = some n := by
  rw [List.find?_append, List.find?_append]
  cases l₁.find? p with
  | some a => exact .inl rfl
  | none =>
    cases hn : p n with
    | false => exact .inl (by simp [hn])
    | true => exact .inr ⟨rfl, by simp [hn]⟩

theorem savePermission_ok (h : s.savePermission perm pos = .ok s') : s'.extensions = s.extensions ∧ s'.session = s.session ∧
    s'.rows = s.rows.take pos ++ perm.toRow :: s.rows.drop pos := by
  unfold savePermission at h
  split at h
  · cases h
  · cases h
    exact ⟨rfl, rfl, rfl⟩

theorem getPermission_congr (h : s'.session = s.session) : s'.getPermission = s.getPermission := by
  funext extensionId resourceType target
  simp only [getPermission, h]

theorem mem_insert_rows {row n : StoredPermission} : row ∈ s.rows.take pos ++ n :: s.rows.drop pos ↔ row = n ∨ row ∈ s.rows := by
  rw [List.mem_append, List.mem_cons, or_left_comm, ← List.mem_append, List.take_append_drop]

/-- Inserting a row of the prompt's own action grants no more than was asked. -/
theorem savePermission_grantsNoMore (ha : perm.action = a.stored) (hrt : perm.resourceType = a.resourceType)
    (hc : perm.constraints = none)
    (h : s.savePermission perm pos = .ok s') : GrantsNoMore x s s' e a perm.target := by
  obtain ⟨hext, hsession, hrows⟩ := savePermission_ok h
  have hread : perm.toRow.read = perm := by
    rw [toRow_read perm (by rw [ha, hrt, Action.stored_resourceType]), hc, Option.map_none, ← hc]
  have hfirst : ∀ r : Request, s'.firstRow x e r = s.firstRow x e r ∨
      r.fits x perm = true ∧ s'.firstRow x e r = some perm.toRow := fun r => by
    have hfind := find?_insert (fun row : StoredPermission => row.extensionId = e && r.fits x row.read) (s.rows.take pos)
      (s.rows.drop pos) perm.toRow
    rw [List.take_append_drop, ← hrows] at hfind
    refine hfind.imp_right fun hnew => ⟨?_, hnew.2⟩
    rw [Bool.and_eq_true, hread] at hnew
    exact hnew.1.2
  intro r h' hno
  obtain hr | ⟨path, rfl⟩ | ⟨action, tag, rfl⟩ | ⟨action, host, rfl⟩ := settled_or r
  · obtain ⟨-, session, -, hnow, hbefore⟩ := newly_settled hr hext h' hno
    rcases hfirst r with hsame | ⟨hfits, -⟩
    · rw [hsame, getPermission_congr hsession] at hnow
      exact absurd hnow hbefore
    · exact asked_of_fits hfits ha hrt
  · -- a silent read
    rcases hfirst (.readSilently path) with hsame | ⟨hfits, -⟩
    · rw [accepts_readSilently, hsame, getPermission_congr hsession, hext, ← accepts_readSilently] at h'
      cases h'.symm.trans hno
    · exact asked_of_fits hfits ha hrt
  · -- passwords
    obtain ⟨hm, hdenied, row, hrow, hgranted, htarget⟩ := accepts_passwords.1 h'
    have hold : ∀ row ∈ s.passwordRows e action, row ∈ s'.passwordRows e action := fun row hrow => by
      obtain ⟨hmem, hfits⟩ := List.mem_filter.1 hrow
      exact List.mem_filter.2 ⟨hrows ▸ mem_insert_rows.2 (.inr hmem), hfits⟩
    obtain ⟨hmem, hfits⟩ := List.mem_filter.1 hrow
    rcases mem_insert_rows.1 (hrows ▸ hmem) with rfl | hmem
    · rw [Bool.and_eq_true, Bool.and_eq_true, decide_eq_true_eq, hread] at hfits
      rw [hread] at htarget
      have hfit : (Request.passwords action tag).fits x perm = true :=
        fits_iff.2 ⟨of_decide_eq_true hfits.2.1, hfits.2.2, by simpa [Request.matchesTarget] using htarget⟩
      exact asked_of_fits hfit ha hrt
    · have hwas : s.accepts x e (.passwords action tag) = true :=
        accepts_passwords.2 ⟨hext ▸ hm, fun other hother => hdenied other (hold other hother), row,
          List.mem_filter.2 ⟨hmem, hfits⟩, hgranted, htarget⟩
      cases hwas.symm.trans hno
  · -- mail
    obtain ⟨hm, hdenied, hthrough⟩ := accepts_mail.1 h'
    have hold : ∀ row ∈ s.mailRows e action host, row.read.status ≠ .denied := fun row hrow => by
      obtain ⟨hmem, hfits⟩ := List.mem_filter.1 hrow
      exact hdenied row (List.mem_filter.2 ⟨hrows ▸ mem_insert_rows.2 (.inr hmem), hfits⟩)
    have hsame : s'.mailSession e action host = s.mailSession e action host := by simp only [mailSession, hsession]
    rcases hthrough with ⟨row, hrow, hgranted⟩ | hthrough
    · obtain ⟨hmem, hfits⟩ := List.mem_filter.1 hrow
      rcases mem_insert_rows.1 (hrows ▸ hmem) with rfl | hmem
      · simp only [Bool.and_eq_true, decide_eq_true_eq, hread] at hfits
        have hfit : (Request.mail action host).fits x perm = true :=
          fits_iff.2 ⟨hfits.2.1.1, decide_eq_true hfits.2.1.2, hfits.2.2⟩
        exact asked_of_fits hfit ha hrt
      · have hwas : s.accepts x e (.mail action host) = true :=
          accepts_mail.2 ⟨hext ▸ hm, hold, .inl ⟨row, List.mem_filter.2 ⟨hmem, hfits⟩, hgranted⟩⟩
        cases hwas.symm.trans hno
    · have hwas : s.accepts x e (.mail action host) = true := accepts_mail.2 ⟨hext ▸ hm, hold, .inr (hsame ▸ hthrough)⟩
      cases hwas.symm.trans hno

/-! ## A row that gets another status -/

variable {row : StoredPermission} {target : String}

theorem existingRow_some (h : s.existingRow e a target = some row) : row ∈ s.rows ∧ row.extensionId = e ∧
    row.read.resourceType = a.resourceType ∧ row.read.target = target ∧ (a.resourceType = .mail → row.read.action = a) := by
  have hfound := List.find?_some h
  simp only [Bool.and_eq_true, decide_eq_true_eq, Bool.or_eq_true] at hfound
  obtain ⟨hext, ⟨hrt, htarget⟩, haction⟩ := hfound
  exact ⟨List.mem_of_find?_eq_some h, hext, hrt, htarget, fun hmail => haction.resolve_left fun hne => hne hmail⟩

theorem withStatus_of_mem {other : StoredPermission} (hrow : row ∈ s.rows) (hother : other ∈ s.rows) (hne : other ≠ row)
    (status : PermissionStatus) : other.withStatus row.id status = other := by
  have hid : other.id ≠ row.id := fun hid => hne (List.inj_on_of_nodup_map s.ids hother hrow hid)
  exact if_neg hid

theorem withStatus_self (status : PermissionStatus) :
    (row.withStatus row.id status).read = { row.read with status } := by
  rw [withStatus_read, if_pos rfl]

theorem fits_withStatus (p : ExtensionPermission → Bool) (hp : ∀ perm status, p { perm with status } = p perm) (id : String)
    (status : PermissionStatus) (row : StoredPermission) :
    ((row.withStatus id status).extensionId = e && p (row.withStatus id status).read) = (row.extensionId = e && p row.read) := by
  have hext : (row.withStatus id status).extensionId = row.extensionId := by
    unfold StoredPermission.withStatus
    split <;> rfl
  rw [hext, withStatus_read]
  split
  · rw [hp]
  · rfl

theorem firstRow_update (id : String) (status : PermissionStatus) (r : Request) :
    (s.updatePermissionStatus id status).firstRow x e r = (s.firstRow x e r).map (StoredPermission.withStatus id status) := by
  simp only [firstRow, updatePermissionStatus, List.find?_map, Function.comp_def]
  simp only [fits_withStatus (e := e) (r.fits x) fun _ _ => rfl]

theorem filter_update (p : ExtensionPermission → Bool) (hp : ∀ perm status, p { perm with status } = p perm) (id : String)
    (status : PermissionStatus) :
    ((s.updatePermissionStatus id status).rows.filter fun row => row.extensionId = e && p row.read) =
      (s.rows.filter fun row => row.extensionId = e && p row.read).map (StoredPermission.withStatus id status) := by
  simp only [updatePermissionStatus, List.filter_map, Function.comp_def]
  simp only [fits_withStatus (e := e) p hp]

theorem passwordRows_update (id : String) (status : PermissionStatus) (action : Access) :
    (s.updatePermissionStatus id status).passwordRows e action =
      (s.passwordRows e action).map (StoredPermission.withStatus id status) :=
  filter_update (fun p => p.resourceType = .passwords && actionAllows .passwords p.action action) (fun _ _ => rfl) id status

theorem mailRows_update (id : String) (status : PermissionStatus) (action : MailAction) (host : String) :
    (s.updatePermissionStatus id status).mailRows e action host =
      (s.mailRows e action host).map (StoredPermission.withStatus id status) :=
  filter_update (fun p => p.resourceType = .mail && p.action = .mail action && hostMatches p.target host) (fun _ _ => rfl) id
    status

theorem passes_withStatus_self (status : PermissionStatus) :
    r.passes (row.withStatus row.id status).read = r.passes row.read := by
  rw [withStatus_self]
  cases r <;> rfl

theorem map_withStatus {l : List StoredPermission} (hrow : row ∈ s.rows) (hl : ∀ other ∈ l, other ∈ s.rows) (hnot : row ∉ l)
    (status : PermissionStatus) : l.map (StoredPermission.withStatus row.id status) = l := by
  have hsame : ∀ other ∈ l, other.withStatus row.id status = other := fun other hother =>
    withStatus_of_mem hrow (hl other hother) (by rintro rfl; exact hnot hother) status
  rw [List.map_congr_left hsame, List.map_id']

theorem firstRow_update_or (hrow : row ∈ s.rows) (status : PermissionStatus) (r : Request) : s.firstRow x e r = some row ∨
    (s.updatePermissionStatus row.id status).firstRow x e r = s.firstRow x e r := by
  rw [firstRow_update]
  cases hfirst : s.firstRow x e r with
  | none => exact .inr rfl
  | some first =>
    by_cases hsame : first = row
    · exact .inl (congrArg some hsame)
    · exact .inr (congrArg some (withStatus_of_mem hrow (List.mem_of_find?_eq_some hfirst) hsame status))

theorem covers_of_firstRow (h : s.firstRow x e r = some row) : row.read.resourceType = r.action.resourceType ∧
    r.matchesTarget x row.read.target = true := by
  have hfits := List.find?_some h
  rw [Bool.and_eq_true] at hfits
  obtain ⟨htype, -, htarget⟩ := fits_iff.1 hfits.2
  exact ⟨htype, htarget⟩

/-- What a grant of the row newly lets through for passwords. -/
theorem newly_password {action : Access} {tag : String} (hmem : row ∈ s.rows)
    (h' : (s.updatePermissionStatus row.id .granted).accepts x e (.passwords action tag) = true)
    (hno : s.accepts x e (.passwords action tag) = false) : row ∈ s.passwordRows e action ∧
      (∀ other ∈ s.otherPasswordRows e row action, other.read.status ≠ .denied) ∧
      ((row.read.target = "*" ∨ row.read.target = tag) ∨ row.read.status = .denied ∧
        ∃ other ∈ s.otherPasswordRows e row action, other.read.status = .granted ∧
          (other.read.target = "*" ∨ other.read.target = tag)) ∧
      (row.read.status ≠ .denied → ∀ other ∈ s.passwordRows e action, other.read.status = .granted →
        ¬ (other.read.target = "*" ∨ other.read.target = tag)) := by
  obtain ⟨hm, hdenied, hthrough⟩ := accepts_passwords.1 h'
  have hnot := mt accepts_passwords.2 (Bool.eq_false_iff.1 hno)
  rw [passwordRows_update] at hdenied hthrough
  have hrows : ∀ other ∈ s.passwordRows e action, other ∈ s.rows := fun other hother => (List.mem_filter.1 hother).1
  have hin : row ∈ s.passwordRows e action := by
    by_contra hout
    rw [map_withStatus hmem hrows hout] at hdenied hthrough
    exact hnot ⟨hm, hdenied, hthrough⟩
  have hother : ∀ other ∈ s.passwordRows e action, other ≠ row → other.withStatus row.id .granted = other :=
    fun other hother hne => withStatus_of_mem hmem (hrows other hother) hne _
  have hothers : ∀ other ∈ s.otherPasswordRows e row action, other ∈ s.passwordRows e action ∧ other ≠ row := fun o ho => by
    obtain ⟨hin, hid⟩ := List.mem_filter.1 ho
    exact ⟨hin, by rintro rfl; simp at hid⟩
  have hundenied : ∀ other ∈ s.passwordRows e action, other ≠ row → other.read.status ≠ .denied := fun o ho hne => by
    rw [← hother o ho hne]
    exact hdenied _ (List.mem_map_of_mem ho)
  have hbefore : row.read.status ≠ .denied → ∀ other ∈ s.passwordRows e action, other.read.status = .granted →
      ¬ (other.read.target = "*" ∨ other.read.target = tag) := fun hrow other hin hgranted hcovers => by
    refine hnot ⟨hm, fun o ho => ?_, other, hin, hgranted, hcovers⟩
    by_cases hne : o = row
    · rw [hne]
      exact hrow
    · exact hundenied o ho hne
  refine ⟨hin, fun o ho => hundenied o (hothers o ho).1 (hothers o ho).2, ?_, hbefore⟩
  obtain ⟨_, hmap, hgranted, hcovers⟩ := hthrough
  obtain ⟨other, hin', rfl⟩ := List.mem_map.1 hmap
  by_cases hne : other = row
  · subst hne
    rw [withStatus_self] at hcovers
    exact .inl hcovers
  · rw [hother other hin' hne] at hgranted hcovers
    refine .inr ⟨?_, other, List.mem_filter.2 ⟨hin', ?_⟩, hgranted, hcovers⟩
    · by_contra hrow
      exact hbefore hrow other hin' hgranted hcovers
    · have hid : other.id ≠ row.id := fun hid => hne (List.inj_on_of_nodup_map s.ids (hrows _ hin') hmem hid)
      exact decide_eq_true hid

/-- A remembered grant that finds a row lets through no more than was asked if the row was granted, or fits. -/
theorem GrantsNoMore.of_update (hrow : s.existingRow e a target = some row)
    (hfit : row.read.status = .granted ∨ if a.resourceType = .passwords then s.PasswordsFit e a row
      else ∀ r, s.Decides x e row r → a.includes r.action = true) :
    GrantsNoMore x s (s.updatePermissionStatus row.id .granted) e a target := by
  obtain ⟨hmem, hext, hrt, htarget, hmail⟩ := existingRow_some hrow
  intro r h' hno
  obtain hr | ⟨path, rfl⟩ | ⟨action, tag, rfl⟩ | ⟨action, host, rfl⟩ := settled_or r
  · have hsame : (s.updatePermissionStatus row.id .granted).extensions = s.extensions := rfl
    obtain ⟨hown, session, -, hnow, hbefore⟩ := newly_settled hr hsame h' hno
    rcases firstRow_update_or (x := x) (e := e) hmem .granted r with hfirst | hsame
    · rw [firstRow_update, hfirst] at hnow
      rw [hfirst] at hbefore
      have hpass : r.passes row.read = true := passes_withStatus_self .granted ▸ hnow.1
      have hstatus : row.read.status ≠ .granted := fun hgranted => hbefore ⟨hpass, hgranted⟩
      obtain ⟨htype, hcovers⟩ := covers_of_firstRow hfirst
      have hne : a.resourceType ≠ .passwords := fun hp => by
        rw [← hrt, htype] at hp
        cases r with
        | passwords => exact hr
        | _ => cases hp
      have hincl := hfit.resolve_left hstatus
      rw [if_neg hne] at hincl
      exact ⟨hincl r ⟨hr, hown, hfirst, hpass⟩, .inr (htarget ▸ hcovers)⟩
    · rw [hsame] at hnow
      exact absurd hnow hbefore
  · -- a silent read
    rcases firstRow_update_or (x := x) (e := e) hmem .granted (.readSilently path) with hfirst | hsame
    · obtain ⟨htype, hcovers⟩ := covers_of_firstRow hfirst
      refine ⟨?_, .inr (htarget ▸ hcovers)⟩
      cases a with
      | filesystem b => cases b <;> rfl
      | _ => cases hrt.symm.trans htype
    · have hwas : s.accepts x e (.readSilently path) = true := by
        rw [accepts_readSilently, hsame] at h'
        exact accepts_readSilently.2 h'
      cases hwas.symm.trans hno
  · -- passwords
    obtain ⟨hin, hothers, hcovers, hbefore⟩ := newly_password hmem h' hno
    have hfits := (List.mem_filter.1 hin).2
    simp only [Bool.and_eq_true, decide_eq_true_eq] at hfits
    have hp : a.resourceType = .passwords := hrt.symm.trans hfits.2.1
    rw [if_pos hp] at hfit
    have hmatch : ∀ t : String, (t = "*" ∨ t = tag) → (Request.passwords action tag).matchesTarget x t = true := fun t ht => by
      simpa [Request.matchesTarget] using ht
    cases hstatus : row.read.status with
    | granted =>
      have hno : row.read.status ≠ .denied := by simp [hstatus]
      exact absurd (hcovers.resolve_right fun h => hno h.1) (hbefore hno row hin hstatus)
    | denied =>
      obtain ⟨hincl, hopen⟩ := (hfit.resolve_left (by simp [hstatus])) action hfits.2.2 hothers
      refine ⟨hincl.resolve_right fun h => by simp [hstatus] at h, .inr (htarget ▸ hmatch _ ?_)⟩
      rcases hcovers with hcovers | ⟨-, other, hother, hgranted, hcovers⟩
      · exact hcovers
      · rcases hopen hstatus with hall | hsame
        · exact .inl hall
        · rw [← hsame other hother hgranted]
          exact hcovers
    | ask =>
      have hno : row.read.status ≠ .denied := by simp [hstatus]
      have hcovers := hcovers.resolve_right fun h => hno h.1
      obtain ⟨hincl, -⟩ := (hfit.resolve_left (by simp [hstatus])) action hfits.2.2 hothers
      refine ⟨hincl.resolve_right ?_, .inr (htarget ▸ hmatch _ hcovers)⟩
      rintro ⟨-, other, hother, hgranted, hall⟩
      refine hbefore hno other (List.mem_filter.1 hother).1 hgranted (hall.elim .inl fun hsame => ?_)
      rw [hsame]
      exact hcovers
  · -- mail
    obtain ⟨hm, hdenied, hthrough⟩ := accepts_mail.1 h'
    rw [mailRows_update] at hdenied hthrough
    have hrows : ∀ other ∈ s.mailRows e action host, other ∈ s.rows := fun other hother => (List.mem_filter.1 hother).1
    by_cases hin : row ∈ s.mailRows e action host
    · have hfits := (List.mem_filter.1 hin).2
      simp only [Bool.and_eq_true, decide_eq_true_eq] at hfits
      obtain ⟨-, ⟨htype, haction⟩, hhost⟩ := hfits
      have ha : a = .mail action := (hmail (hrt.symm.trans htype)).symm.trans haction
      subst ha
      exact ⟨by simp [Action.includes, Request.action], .inr (htarget ▸ hhost)⟩
    · rw [map_withStatus hmem hrows hin] at hdenied hthrough
      have hwas : s.accepts x e (.mail action host) = true := accepts_mail.2 ⟨hm, hdenied, hthrough⟩
      cases hwas.symm.trans hno

variable {m : Manifest}

theorem valid_of_fits (h : r.fits x perm = true) : r.Valid x := by
  cases r with
  | web url =>
    obtain ⟨-, -, htarget⟩ := fits_iff.1 h
    simp only [Request.matchesTarget] at htarget
    split at htarget
    case h_1 u hu =>
      cases hhost : u.host with
      | none => simp [hhost] at htarget
      | some host => exact ⟨u, hu, by simp [hhost]⟩
    case h_2 => cases htarget
  | _ => trivial

theorem decides_opens (hm : s.extensions e = some m) (h : s.Decides x e row r) (hstatus : row.read.status ≠ .granted) :
    (s.updatePermissionStatus row.id .granted).accepts x e r = true ∧ s.accepts x e r = false := by
  obtain ⟨hr, hown, hfirst, hpass⟩ := h
  have hfits := List.find?_some hfirst
  rw [Bool.and_eq_true] at hfits
  have htarget : ∃ target, r.sessionTarget = some target := by
    cases r with
    | passwords => exact hr.elim
    | mail => exact hr.elim
    | _ => exact ⟨_, rfl⟩
  obtain ⟨target, htarget⟩ := htarget
  constructor
  · refine (accepts_settled hr).2 ⟨m, hm, valid_of_fits hfits.2, .inr ⟨target, htarget, ?_⟩⟩
    rw [firstRow_update, hfirst]
    refine ⟨(passes_withStatus_self .granted).trans hpass, ?_⟩
    rw [withStatus_self]
  · refine Bool.eq_false_iff.2 fun hwas => ?_
    obtain ⟨m', hm', -, hthrough⟩ := (accepts_settled hr).1 hwas
    obtain ⟨target', -, hsettles⟩ := hthrough.resolve_left (by rw [hown m' hm']; exact Bool.false_ne_true)
    rw [hfirst] at hsettles
    exact hstatus hsettles.2

theorem password_opens {b : Access} {tag : String} (hm : s.extensions e = some m) (hin : row ∈ s.passwordRows e b)
    (hothers : ∀ other ∈ s.otherPasswordRows e row b, other.read.status ≠ .denied)
    (hcovers : (row.read.target = "*" ∨ row.read.target = tag) ∨ ∃ other ∈ s.otherPasswordRows e row b,
      other.read.status = .granted ∧ (other.read.target = "*" ∨ other.read.target = tag)) :
    (s.updatePermissionStatus row.id .granted).accepts x e (.passwords b tag) = true := by
  have hmem := (List.mem_filter.1 hin).1
  have hsame : ∀ other ∈ s.passwordRows e b, other ≠ row → other.withStatus row.id .granted = other := fun other ho hne =>
    withStatus_of_mem hmem (List.mem_filter.1 ho).1 hne _
  refine accepts_passwords.2 ⟨⟨m, hm⟩, fun other' hother' => ?_, ?_⟩
  · rw [passwordRows_update] at hother'
    obtain ⟨other, ho, rfl⟩ := List.mem_map.1 hother'
    by_cases hne : other = row
    · rw [hne, withStatus_self]
      simp
    · rw [hsame other ho hne]
      have hid : other.id ≠ row.id := fun hid =>
        hne (List.inj_on_of_nodup_map s.ids (List.mem_filter.1 ho).1 hmem hid)
      exact hothers other (List.mem_filter.2 ⟨ho, decide_eq_true hid⟩)
  · rw [passwordRows_update]
    rcases hcovers with hcovers | ⟨other, ho, hgranted, hcovers⟩
    · exact ⟨_, List.mem_map_of_mem hin, by rw [withStatus_self], by rwa [withStatus_self]⟩
    · obtain ⟨ho, hid⟩ := List.mem_filter.1 ho
      have hne : other ≠ row := by rintro rfl; simp at hid
      exact ⟨other, List.mem_map.2 ⟨other, ho, hsame other ho hne⟩, hgranted, hcovers⟩

theorem passwordsFit_of_grantsNoMore (hm : s.extensions e = some m) (hrow : s.existingRow e a target = some row)
    (hp : a.resourceType = .passwords) (hstatus : row.read.status ≠ .granted)
    (h : GrantsNoMore x s (s.updatePermissionStatus row.id .granted) e a target) : s.PasswordsFit e a row := by
  obtain ⟨hmem, hext, hrt, htarget, -⟩ := existingRow_some hrow
  intro b hallows hothers
  have hin : row ∈ s.passwordRows e b := by
    refine List.mem_filter.2 ⟨hmem, ?_⟩
    simp only [Bool.and_eq_true, decide_eq_true_eq]
    exact ⟨hext, hrt.trans hp, hallows⟩
  have hdenied : row.read.status = .denied → ∀ tag, s.accepts x e (.passwords b tag) = false := fun hd tag =>
    Bool.eq_false_iff.2 fun hwas => (accepts_passwords.1 hwas).2.1 row hin hd
  constructor
  · -- the row's own target, for the action that was not asked for
    by_contra hno
    rw [not_or] at hno
    have hopen : (s.updatePermissionStatus row.id .granted).accepts x e (.passwords b row.read.target) = true :=
      password_opens hm hin hothers (.inl (.inr rfl))
    refine hno.1 (h _ hopen ?_).1
    cases hs : row.read.status with
    | granted => exact absurd hs hstatus
    | denied => exact hdenied hs _
    | ask =>
      refine Bool.eq_false_iff.2 fun hwas => ?_
      obtain ⟨-, -, other, ho, hgranted, hcovers⟩ := accepts_passwords.1 hwas
      have hid : other.id ≠ row.id := fun hid => by
        have : other = row := List.inj_on_of_nodup_map s.ids (List.mem_filter.1 ho).1 hmem hid
        rw [this] at hgranted
        exact hstatus hgranted
      exact hno.2 ⟨hs, other, List.mem_filter.2 ⟨ho, decide_eq_true hid⟩, hgranted, hcovers⟩
  · -- the target of another row, which the denial kept out
    intro hd
    by_contra hno
    rw [not_or] at hno
    obtain ⟨hstar, hno⟩ := hno
    push Not at hno
    obtain ⟨other, ho, hgranted, hne⟩ := hno
    have hopen : (s.updatePermissionStatus row.id .granted).accepts x e (.passwords b other.read.target) = true :=
      password_opens hm hin hothers (.inr ⟨other, ho, hgranted, .inr rfl⟩)
    obtain ⟨-, hcovered | hcovered⟩ := h _ hopen (hdenied hd _)
    · cases hcovered
    · simp only [Request.matchesTarget, Bool.or_eq_true, decide_eq_true_eq, ← htarget] at hcovered
      rcases hcovered with hcovered | hcovered
      · exact hstar hcovered
      · exact hne hcovered.symm

theorem remember_iff (hm : s.extensions e = some m) :
    GrantsNoMore x s (s.saveDecision (a.prompt e name target) .granted true uuid pos) e a
      (savedTarget (a.prompt e name target)) ↔
      s.RememberFits x e a (savedTarget (a.prompt e name target)) := by
  rw [saveDecision_remember]
  generalize savedTarget (a.prompt e name target) = saved
  unfold RememberFits
  cases hrow : s.existingRow e a saved with
  | none =>
    simp only [reduceCtorEq, IsEmpty.forall_iff, implies_true, iff_true]
    cases hsave : s.savePermission ⟨uuid, e, a.resourceType, a.stored, saved, none, .granted⟩ pos with
    | error => exact fun r h' hno => nomatch h'.symm.trans hno
    | ok s' => exact savePermission_grantsNoMore rfl rfl rfl hsave
  | some row =>
    simp only [Option.some.injEq, forall_eq']
    refine ⟨fun h => ?_, fun hfit => .of_update hrow hfit⟩
    by_cases hstatus : row.read.status = .granted
    · exact .inl hstatus
    · refine .inr ?_
      split
      case isTrue hp => exact passwordsFit_of_grantsNoMore hm hrow hp hstatus h
      case isFalse =>
        intro r hr
        obtain ⟨hopen, hwas⟩ := decides_opens hm hr hstatus
        exact (h r hopen hwas).1

/-! ## A decision for the session -/

theorem getPermission_set (p : ExtensionPermission) (resourceType : ResourceType) (target : String) :
    (s.setPermission p).getPermission e resourceType target =
      if sessionKey p = (e, resourceType, target) then some p.status else s.getPermission e resourceType target := by
  simp only [getPermission, setPermission, List.find?_append, List.find?_filter]
  split
  case isTrue hkey =>
    have hnone : s.session.find? (fun q => decide (decide (sessionKey q ≠ sessionKey p) = true ∧
        decide (sessionKey q = (e, resourceType, target)) = true)) = none := by
      refine List.find?_eq_none.2 fun q _ => ?_
      simp only [hkey, decide_eq_true_eq, not_and]
      exact fun hne heq => hne heq
    rw [hnone]
    simp [hkey]
  case isFalse hkey =>
    have hsame : (fun q => decide (decide (sessionKey q ≠ sessionKey p) = true ∧
        decide (sessionKey q = (e, resourceType, target)) = true)) =
          fun q => decide (sessionKey q = (e, resourceType, target)) := by
      funext q
      by_cases hq : sessionKey q = (e, resourceType, target)
      · have hne : (e, resourceType, target) ≠ sessionKey p := fun h => hkey h.symm
        simp [hq, hne]
      · simp [hq]
    rw [hsame]
    cases s.session.find? fun q => decide (sessionKey q = (e, resourceType, target)) <;> simp [hkey]

theorem firstRow_set (p : ExtensionPermission) : (s.setPermission p).firstRow x e r = s.firstRow x e r := rfl

theorem mailSession_set (p : ExtensionPermission) (action : MailAction) (host : String)
    (hp : ¬ (p.resourceType = .mail ∧ p.action = .mail action ∧ hostMatches p.target host = true)) :
    (s.setPermission p).mailSession e action host =
      (s.removePermission p.extensionId p.resourceType p.target).mailSession e action host := by
  simp only [mailSession, setPermission, removePermission, List.filter_append]
  have hnone : [p].filter (fun p => p.extensionId = e && (p.resourceType = .mail && p.action = .mail action &&
      hostMatches p.target host)) = [] := by
    refine List.filter_eq_nil_iff.2 fun q hq => ?_
    obtain rfl := List.mem_singleton.1 hq
    simp only [Bool.and_eq_true, decide_eq_true_eq]
    exact fun h => hp ⟨h.2.1.1, h.2.1.2, h.2.2⟩
  rw [hnone, List.append_nil]
  rfl

theorem mailSession_remove (resourceType : ResourceType) (saved : String) (action : MailAction) (host : String)
    (h : resourceType = .mail → hostMatches saved host = false) :
    (s.removePermission e resourceType saved).mailSession e action host = s.mailSession e action host := by
  simp only [mailSession, removePermission, List.filter_filter]
  refine List.filter_congr fun q _ => ?_
  by_cases hkey : sessionKey q = (e, resourceType, saved)
  · simp only [sessionKey, Prod.mk.injEq] at hkey
    obtain ⟨-, hrt, htarget⟩ := hkey
    by_cases hmail : resourceType = .mail
    · simp [htarget, h hmail]
    · simp [hrt, hmail]
  · simp [hkey]

theorem accepts_mail_congr {action : MailAction} {host : String} (hext : s'.extensions = s.extensions) (hrows : s'.rows = s.rows)
    (hsession : s'.mailSession e action host = s.mailSession e action host) :
    s'.accepts x e (.mail action host) = s.accepts x e (.mail action host) := by
  rw [Bool.eq_iff_iff, accepts_mail, accepts_mail, hext, hsession]
  simp only [mailRows, hrows]

theorem newly_session {p : ExtensionPermission} (hp : p.extensionId = e)
    (hmail : p.resourceType = .mail → r.action.resourceType ≠ .mail)
    (h' : (s.setPermission p).accepts x e r = true) (hno : s.accepts x e r = false) :
    p.resourceType = r.action.resourceType ∧ r.sessionTarget = some p.target ∧
      (r.Settled → s.Undecided x e r ∧ s.getPermission e r.action.resourceType p.target ≠ some .granted) := by
  have hkey : ∀ target, (s.setPermission p).getPermission e r.action.resourceType target ≠
      s.getPermission e r.action.resourceType target → p.resourceType = r.action.resourceType ∧ p.target = target :=
    fun target hne => by
      rw [getPermission_set] at hne
      split at hne
      case isTrue hkey =>
        simp only [sessionKey, Prod.mk.injEq] at hkey
        exact hkey.2
      case isFalse => exact absurd rfl hne
  obtain hr | ⟨path, rfl⟩ | ⟨action, tag, rfl⟩ | ⟨action, host, rfl⟩ := settled_or r
  · have hext : (s.setPermission p).extensions = s.extensions := rfl
    obtain ⟨hown, target, htarget, hnow, hbefore⟩ := newly_settled hr hext h' hno
    rw [firstRow_set] at hnow
    cases hrow : s.firstRow x e r with
    | some row =>
      rw [hrow] at hnow hbefore
      exact absurd hnow hbefore
    | none =>
      rw [hrow] at hnow hbefore
      obtain ⟨hrt, rfl⟩ := hkey target fun heq => hbefore (heq ▸ hnow)
      exact ⟨hrt, htarget, fun _ => ⟨⟨hr, hown, hrow⟩, hbefore⟩⟩
  · by_cases hsame : (s.setPermission p).getPermission e .fs path = s.getPermission e .fs path
    · have hwas : s.accepts x e (.readSilently path) = true := by
        rw [accepts_readSilently, hsame] at h'
        exact accepts_readSilently.2 h'
      cases hwas.symm.trans hno
    · obtain ⟨hrt, htarget⟩ := hkey path hsame
      exact ⟨hrt, congrArg some htarget.symm, fun hr => hr.elim⟩
  · have hthrough := accepts_passwords.1 h'
    have hwas : s.accepts x e (.passwords action tag) = true := accepts_passwords.2 hthrough
    cases hwas.symm.trans hno
  · have hsession : (s.setPermission p).mailSession e action host = s.mailSession e action host := by
      rw [mailSession_set p action host fun h => hmail h.1 rfl, ← hp]
      exact mailSession_remove _ _ _ _ fun h => absurd rfl (hmail h)
    have hsame : (s.setPermission p).accepts x e (.mail action host) = s.accepts x e (.mail action host) :=
      accepts_mail_congr rfl rfl hsession
    cases (hsame.symm.trans h').symm.trans hno

theorem session_iff_plain (hm : s.extensions e = some m) (hweb : a.resourceType ≠ .web) (hmail : a.resourceType ≠ .mail) :
    GrantsNoMore x s (s.setPermission ⟨uuid, e, a.resourceType, a, target, none, .granted⟩) e a target ↔
      s.getPermission e a.resourceType target = some .granted ∨ ∀ r, s.Undecided x e r →
        r.action.resourceType = a.resourceType → r.sessionTarget = some target → a.includes r.action = true := by
  constructor
  · intro h
    by_cases hgranted : s.getPermission e a.resourceType target = some .granted
    · exact .inl hgranted
    refine .inr fun r hr hrt htarget => (h r ?_ ?_).1
    · refine (accepts_settled hr.1).2 ⟨m, hm, ?_, .inr ⟨target, htarget, ?_⟩⟩
      · cases r with
        | web => exact absurd hrt.symm hweb
        | _ => trivial
      · rw [firstRow_set, hr.2.2, getPermission_set, if_pos (by rw [hrt]; rfl)]
        rfl
    · refine Bool.eq_false_iff.2 fun hwas => ?_
      obtain ⟨m', hm', -, hthrough⟩ := (accepts_settled hr.1).1 hwas
      obtain ⟨target', htarget', hsettles⟩ := hthrough.resolve_left (by rw [hr.2.1 m' hm']; exact Bool.false_ne_true)
      obtain rfl : target = target' := Option.some.inj (htarget.symm.trans htarget')
      rw [hr.2.2, hrt] at hsettles
      exact hgranted hsettles
  · intro hfit r h' hno
    obtain ⟨hrt, htarget, hsettled⟩ := newly_session (p := ⟨uuid, e, a.resourceType, a, target, none, .granted⟩) rfl
      (fun h => absurd h hmail) h' hno
    dsimp only at hrt htarget hsettled
    refine ⟨?_, .inl htarget⟩
    by_cases hr : r.Settled
    · obtain ⟨hundecided, hgranted⟩ := hsettled hr
      exact hfit.resolve_left (by rw [hrt]; exact hgranted) r hundecided hrt.symm htarget
    · -- a silent read, which a grant to read or to write includes
      cases r with
      | readSilently path =>
        cases a with
        | filesystem b => cases b <;> rfl
        | _ => cases hrt
      | passwords => cases htarget
      | mail => cases htarget
      | _ => exact absurd trivial hr

theorem session_iff_mail {action : MailAction} :
    GrantsNoMore x s (s.setPermission ⟨uuid, e, .mail, .mail action, target, none, .granted⟩) e (.mail action) target ↔
      ∀ b host, b ≠ action → (s.removePermission e .mail target).accepts x e (.mail b host) = true →
        s.accepts x e (.mail b host) = true := by
  have hother : ∀ b host, b ≠ action → (s.setPermission ⟨uuid, e, .mail, .mail action, target, none, .granted⟩).accepts x e
      (.mail b host) = (s.removePermission e .mail target).accepts x e (.mail b host) := fun b host hb => by
    refine accepts_mail_congr rfl rfl (mailSession_set _ _ _ fun h => hb ?_)
    exact (Action.mail.inj h.2.1).symm
  constructor
  · intro h b host hb hremoved
    by_contra hno
    have hincl := (h (.mail b host) ((hother b host hb).trans hremoved) (Bool.eq_false_iff.2 hno)).1
    exact hb (of_decide_eq_true hincl).symm
  · intro hfit r h' hno
    by_cases hr : ∃ b host, r = .mail b host
    · obtain ⟨b, host, rfl⟩ := hr
      by_cases hb : b = action
      · subst hb
        cases hhost : hostMatches target host with
        | true => exact ⟨by simp [Action.includes, Request.action], .inr hhost⟩
        | false =>
          have hsession := (mailSession_set (s := s) (e := e) ⟨uuid, e, .mail, .mail b, target, none, .granted⟩ b host
            fun h => by simp [hhost] at h).trans (mailSession_remove .mail target b host fun _ => hhost)
          have hsame : (s.setPermission ⟨uuid, e, .mail, .mail b, target, none, .granted⟩).accepts x e (.mail b host) =
              s.accepts x e (.mail b host) := accepts_mail_congr rfl rfl hsession
          cases (hsame.symm.trans h').symm.trans hno
      · cases (hfit b host hb ((hother b host hb).symm.trans h')).symm.trans hno
    · have hne : r.action.resourceType ≠ .mail := fun h => by
        cases r with
        | mail b host => exact hr ⟨b, host, rfl⟩
        | _ => cases h
      exact absurd (newly_session rfl (fun _ => hne) h' hno).1.symm hne

theorem session_iff (hm : s.extensions e = some m) :
    GrantsNoMore x s (s.saveDecision (a.prompt e name target) .granted false uuid pos) e a
      (savedTarget (a.prompt e name target)) ↔ s.SessionFits x e a (savedTarget (a.prompt e name target)) := by
  rw [saveDecision_session]
  cases a with
  | web b => exact iff_of_true (fun r h' hno => nomatch h'.symm.trans hno) trivial
  | mail action => exact session_iff_mail
  | _ => refine session_iff_plain hm ?_ ?_ <;> simp [Action.resourceType]

theorem accepts_installed (h : s.accepts x e r = true) : ∃ m, s.extensions e = some m := by
  obtain hr | ⟨path, rfl⟩ | ⟨action, tag, rfl⟩ | ⟨action, host, rfl⟩ := settled_or r
  · obtain ⟨m, hm, -⟩ := (accepts_settled hr).1 h
    exact ⟨m, hm⟩
  · exact (accepts_readSilently.1 h).1
  · exact (accepts_passwords.1 h).1
  · exact (accepts_mail.1 h).1

theorem saveDecision_extensions (remember : Bool) :
    (s.saveDecision (a.prompt e name target) .granted remember uuid pos).extensions = s.extensions := by
  cases remember with
  | true =>
    rw [saveDecision_remember]
    cases s.existingRow e a (savedTarget (a.prompt e name target)) with
    | some row => rfl
    | none =>
      dsimp only
      split
      case h_1 h => exact (savePermission_ok h).1
      case h_2 => rfl
  | false =>
    rw [saveDecision_session]
    split <;> rfl

/-- A prompt that is granted lets through what was asked and no more, just when the grant fits what is stored. -/
theorem grants_no_more_iff (x : Externals) (s : Permissions) (e name target uuid : String) (a : Action) (remember : Bool)
    (pos : Nat) :
    GrantsNoMore x s (s.saveDecision (a.prompt e name target) .granted remember uuid pos) e a
      (savedTarget (a.prompt e name target)) ↔ s.Fits x e a (savedTarget (a.prompt e name target)) remember := by
  cases hm : s.extensions e with
  | none =>
    refine iff_of_true (fun r h' _ => ?_) (.inl hm)
    obtain ⟨m, hm'⟩ := accepts_installed h'
    rw [saveDecision_extensions, hm] at hm'
    cases hm'
  | some m =>
    have hsome : s.extensions e ≠ none := by simp [hm]
    unfold Fits
    rw [or_iff_right hsome]
    cases remember with
    | true => exact remember_iff hm
    | false => exact session_iff hm

def noExternals : Externals := ⟨fun _ => .error "relative URL without a base", fun _ => ""⟩

def withRows (rows : List StoredPermission) (ids : (rows.map (·.id)).Nodup) : Permissions :=
  ⟨fun _ => some ⟨zeroKey, "notes"⟩, rows, ids, []⟩

/-- A prompt to read a table, granted: for the session, and remembered where a row to write is stored with status `ask`. -/
theorem read_grant_admits_write :
    ¬ GrantsNoMore noExternals (withRows [] (by decide))
      ((withRows [] (by decide)).saveDecision ((Action.database .read).prompt "x" "notes" "t") .granted false "u" 0)
      "x" (.database .read) "t" ∧
    ¬ GrantsNoMore noExternals (withRows [⟨⟨"x", some "db", some "readWrite", some "t", some "ask"⟩, "p", none⟩] (by decide))
      ((withRows [⟨⟨"x", some "db", some "readWrite", some "t", some "ask"⟩, "p", none⟩] (by decide)).saveDecision
        ((Action.database .read).prompt "x" "notes" "t") .granted true "u" 0)
      "x" (.database .read) "t" := by
  constructor
  · intro h
    exact absurd (h (.database .readWrite "t") (by decide +kernel) (by decide +kernel)).1 (by decide +kernel)
  · intro h
    exact absurd (h (.database .readWrite "t") (by decide +kernel) (by decide +kernel)).1 (by decide +kernel)

end Permissions

end HaexVault.Extension.PermissionManager
