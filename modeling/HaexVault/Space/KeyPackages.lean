import Mathlib.Data.List.Sort
import HaexVault.Crdt.Commands
import HaexVault.Lib.Calls
/-!
# Key packages (`space_delivery/local/buffer.rs`)

`consumeKeyPackage` reads the oldest key package of a DID and deletes it in a statement of its own,
without a look at how many rows that deleted (`single_use`).
-/

namespace HaexVault.Space

open HaexVault.Crdt (HashOrder)
open HaexVault.Lib HaexVault.Lib.Runs

/-! ## The table -/

/-- A row of `haex_local_delivery_key_packages_no_sync`. -/
structure KeyPackage where
  id : Nat
  spaceId : String
  targetDid : String
  blob : List UInt8
  createdAt : String
  deriving DecidableEq

structure KeyPackages where
  nextId : Nat := 0
  rows : List KeyPackage := []
  deriving DecidableEq

namespace KeyPackages

variable (b : KeyPackages) (spaceId targetDid : String)

def oldestFirst (order : HashOrder KeyPackage) : List KeyPackage :=
  (order.iter (b.rows.filter fun p => p.spaceId = spaceId && p.targetDid = targetDid)).insertionSort fun p p' =>
    p.createdAt ≤ p'.createdAt

def newestFirst (order : HashOrder KeyPackage) : List KeyPackage :=
  (order.iter (b.rows.filter fun p => p.spaceId = spaceId && p.targetDid = targetDid)).insertionSort fun p p' =>
    p'.createdAt ≤ p.createdAt

def storeKeyPackage (blob : List UInt8) (createdAt : String) : KeyPackages where
  nextId := b.nextId + 1
  rows := b.rows ++ [⟨b.nextId, spaceId, targetDid, blob, createdAt⟩]

def trimKeyPackages (maxCount : UInt32) (order : HashOrder KeyPackage) : KeyPackages :=
  { b with
    rows := b.rows.filter fun p => p.id ∉ ((b.newestFirst spaceId targetDid order).drop maxCount.toNat).map (·.id) }

def clearKeyPackagesForDid : KeyPackages :=
  { b with rows := b.rows.filter fun p => ¬ (p.spaceId = spaceId ∧ p.targetDid = targetDid) }

/-- The DELETE of `consume_key_package`. -/
def delete (id : Nat) : KeyPackages := { b with rows := b.rows.filter (·.id ≠ id) }

theorem mem_of_oldest {b : KeyPackages} {spaceId targetDid : String} {order : HashOrder KeyPackage} {p : KeyPackage}
    (h : (b.oldestFirst spaceId targetDid order).head? = some p) : p ∈ b.rows := by
  have hmem := List.mem_of_head? h
  rw [oldestFirst, List.mem_insertionSort, (order.perm _).mem_iff] at hmem
  exact (List.mem_filter.1 hmem).1

theorem mem_delete {b : KeyPackages} {id : Nat} {p : KeyPackage} : p ∈ (b.delete id).rows ↔ p ∈ b.rows ∧ p.id ≠ id := by
  simp [delete]

end KeyPackages

/-! ## The calls -/

/-- A call of `consume_key_package`, before each of its statements and after them. -/
inductive ConsumeCall where
  | selecting (spaceId targetDid : String)
  | deleting (p : KeyPackage)
  | returned (p : KeyPackage)
  | foundNone
  | failed

def ConsumeCall.holds : ConsumeCall → Option KeyPackage
  | deleting p | returned p => some p
  | _ => none

inductive KeyPackageEvent where
  | store (spaceId targetDid : String) (blob : List UInt8) (createdAt : String)
  | trim (spaceId targetDid : String) (maxCount : UInt32) (order : HashOrder KeyPackage)
  | clear (spaceId targetDid : String)

/-- The statements of the calls, each with how it goes: it fails, or it meets the rows in an order. -/
def consumeKeyPackage :
    Calls.Machine KeyPackages (String × String) ConsumeCall (Option (HashOrder KeyPackage)) KeyPackageEvent where
  start | (spaceId, targetDid) => .selecting spaceId targetDid
  advance b
    | .selecting spaceId targetDid, some order =>
      (b, ((b.oldestFirst spaceId targetDid order).head?).elim .foundNone .deleting)
    | .deleting p, some _ => (b.delete p.id, .returned p) -- whether or not the row was there
    | .selecting _ _, none | .deleting _, none => (b, .failed)
    | c, _ => (b, c)
  outside b
    | .store spaceId targetDid blob createdAt => b.storeKeyPackage spaceId targetDid blob createdAt
    | .trim spaceId targetDid maxCount order => b.trimKeyPackages spaceId targetDid maxCount order
    | .clear spaceId targetDid => b.clearKeyPackagesForDid spaceId targetDid

abbrev KeyPackageCalls := Calls.Sys KeyPackages ConsumeCall
abbrev ConsumeEvent := Calls.Event (String × String) (Option (HashOrder KeyPackage)) KeyPackageEvent

namespace KeyPackageCalls

abbrev step : KeyPackageCalls → ConsumeEvent → KeyPackageCalls := consumeKeyPackage.step

def SingleUse (σ : KeyPackageCalls) : Prop :=
  ∀ (i j : Nat) (p q : KeyPackage), σ.calls[i]? = some (ConsumeCall.returned p) →
    σ.calls[j]? = some (ConsumeCall.returned q) → p.id = q.id → i = j

/-- A SELECT does not return a package that another call has read and not deleted yet. -/
def NoOverlap (σ : KeyPackageCalls) : ConsumeEvent → Prop
  | .resume i (some order) => ∀ spaceId targetDid p, σ.calls[i]? = some (ConsumeCall.selecting spaceId targetDid) →
      (σ.shared.oldestFirst spaceId targetDid order).head? = some p → ∀ q, ConsumeCall.deleting q ∈ σ.calls → q.id ≠ p.id
  | _ => True

/-! ## What a statement does -/

theorem advance_cases (b : KeyPackages) (c : ConsumeCall) (order : Option (HashOrder KeyPackage)) :
    (∃ c', consumeKeyPackage.advance b c order = (b, c') ∧ c'.holds = none) ∨
    consumeKeyPackage.advance b c order = (b, c) ∨
    (∃ spaceId targetDid o p, c = .selecting spaceId targetDid ∧ order = some o ∧
      (b.oldestFirst spaceId targetDid o).head? = some p ∧ consumeKeyPackage.advance b c order = (b, .deleting p)) ∨
    ∃ p, c = .deleting p ∧ consumeKeyPackage.advance b c order = (b.delete p.id, .returned p) := by
  cases c with
  | selecting spaceId targetDid =>
    cases order with
    | none => exact .inl ⟨.failed, rfl, rfl⟩
    | some o =>
      cases hp : (b.oldestFirst spaceId targetDid o).head? with
      | none => exact .inl ⟨.foundNone, by simp only [consumeKeyPackage, hp, Option.elim], rfl⟩
      | some p =>
        exact .inr (.inr (.inl ⟨spaceId, targetDid, o, p, rfl, rfl, hp, by simp only [consumeKeyPackage, hp, Option.elim]⟩))
  | deleting p =>
    cases order with
    | none => exact .inl ⟨.failed, rfl, rfl⟩
    | some o => exact .inr (.inr (.inr ⟨p, rfl, rfl⟩))
  | returned p | foundNone | failed => exact .inr (.inl rfl)

theorem outside_rows (b : KeyPackages) (e : KeyPackageEvent) :
    b.nextId ≤ (consumeKeyPackage.outside b e).nextId ∧
      ∀ p ∈ (consumeKeyPackage.outside b e).rows, p ∈ b.rows ∨ p.id = b.nextId ∧ p.id < (consumeKeyPackage.outside b e).nextId := by
  cases e with
  | store spaceId targetDid blob createdAt =>
    refine ⟨Nat.le_succ _, fun p hp => ?_⟩
    rcases List.mem_append.1 hp with hp | hp
    · exact .inl hp
    · obtain rfl := List.mem_singleton.1 hp
      exact .inr ⟨rfl, Nat.lt_succ_self _⟩
  | trim spaceId targetDid maxCount order => exact ⟨le_rfl, fun p hp => .inl (List.mem_filter.1 hp).1⟩
  | clear spaceId targetDid => exact ⟨le_rfl, fun p hp => .inl (List.mem_filter.1 hp).1⟩

/-! ## Packages that are read once -/

/-- Each call has read a package of its own, and what was returned is out of the table. -/
structure Inv (σ : KeyPackageCalls) : Prop where
  rows : ∀ p ∈ σ.shared.rows, p.id < σ.shared.nextId
  held : ∀ c ∈ σ.calls, ∀ p, c.holds = some p → p.id < σ.shared.nextId
  sole : ∀ (i j : Nat) (c d : ConsumeCall) (p q : KeyPackage), σ.calls[i]? = some c → σ.calls[j]? = some d →
    c.holds = some p → d.holds = some q → p.id = q.id → i = j
  gone : ∀ p, ConsumeCall.returned p ∈ σ.calls → ∀ r ∈ σ.shared.rows, r.id ≠ p.id

variable {σ : KeyPackageCalls} {i : Nat} {c c' : ConsumeCall} {b : KeyPackages}

theorem Inv.resume (h : Inv σ) (hnext : b.nextId = σ.shared.nextId)
    (hrows : ∀ r ∈ b.rows, r ∈ σ.shared.rows) (hnew : ∀ p, c'.holds = some p → p.id < σ.shared.nextId)
    (hsole : ∀ p, c'.holds = some p → ∀ j d q, j ≠ i → σ.calls[j]? = some d → d.holds = some q → q.id ≠ p.id)
    (hgone : ∀ p, c' = .returned p → ∀ r ∈ b.rows, r.id ≠ p.id) : Inv ⟨b, σ.calls.set i c'⟩ where
  rows r hr := hnext ▸ h.rows r (hrows r hr)
  held d hd p hp := by
    rcases List.mem_or_eq_of_mem_set hd with hd | rfl
    · exact hnext ▸ h.held d hd p hp
    · exact hnext ▸ hnew p hp
  sole j k d e p q hj hk hp hq hid := by
    rcases Calls.getElem?_set_cases hj with ⟨rfl, rfl⟩ | ⟨hji, hj'⟩ <;>
      rcases Calls.getElem?_set_cases hk with ⟨rfl, rfl⟩ | ⟨hki, hk'⟩
    · rfl
    · exact absurd hid.symm (hsole p hp k e q hki hk' hq)
    · exact absurd hid (hsole q hq j d p hji hj' hp)
    · exact h.sole j k d e p q hj' hk' hp hq hid
  gone p hp r hr := by
    rcases List.mem_or_eq_of_mem_set hp with hp | hp
    · exact h.gone p hp r (hrows r hr)
    · exact hgone p hp.symm r hr

theorem Inv.start (h : Inv σ) (p : String × String) : Inv (σ.step (.start p)) where
  rows := h.rows
  held d hd q hq := by
    rcases List.mem_append.1 hd with hd | hd
    · exact h.held d hd q hq
    · obtain rfl := List.mem_singleton.1 hd
      cases hq
  sole j k d e q r hj hk hq hr hid := by
    -- the new call has read nothing
    have hold : ∀ (l : Nat) (f : ConsumeCall) (t : KeyPackage), (σ.calls ++ [consumeKeyPackage.start p])[l]? = some f →
        f.holds = some t → σ.calls[l]? = some f := by
      intro l f t hl ht
      rcases Calls.getElem?_append_singleton_cases hl with hl | ⟨-, rfl⟩
      · exact hl
      · cases ht
    exact h.sole j k d e q r (hold j d q hj hq) (hold k e r hk hr) hq hr hid
  gone q hq r hr := by
    rcases List.mem_append.1 hq with hq | hq
    · exact h.gone q hq r hr
    · cases List.mem_singleton.1 hq

theorem Inv.outside (h : Inv σ) (e : KeyPackageEvent) : Inv (σ.step (.outside e)) := by
  obtain ⟨hnext, hrows⟩ := outside_rows σ.shared e
  refine ⟨fun r hr => ?_, fun c hc p hp => (h.held c hc p hp).trans_le hnext, h.sole, fun p hp r hr => ?_⟩
  · rcases hrows r hr with hold | ⟨-, hlt⟩
    · exact (h.rows r hold).trans_le hnext
    · exact hlt
  · rcases hrows r hr with hold | ⟨hid, -⟩
    · exact h.gone p hp r hold
    · have := h.held _ hp p rfl
      omega

theorem Inv.step (h : Inv σ) {e : ConsumeEvent} (hG : NoOverlap σ e) : Inv (σ.step e) := by
  cases e with
  | start p => exact h.start p
  | outside e => exact h.outside e
  | resume i order =>
    cases hi : σ.calls[i]? with
    | none => rwa [KeyPackageCalls.step, Calls.step_resume_none hi]
    | some c =>
      have hc := List.mem_of_getElem? hi
      rw [KeyPackageCalls.step, Calls.step_resume hi]
      rcases advance_cases σ.shared c order with ⟨c', hadv, hnone⟩ | hadv | ⟨spaceId, targetDid, o, p, rfl, rfl, hp, hadv⟩ |
        ⟨p, rfl, hadv⟩ <;> rw [hadv]
      · refine h.resume rfl (fun r hr => hr) ?_ ?_ ?_
        · exact fun p hp => absurd (hnone.symm.trans hp) nofun
        · exact fun p hp => absurd (hnone.symm.trans hp) nofun
        · rintro p rfl
          cases hnone
      · refine h.resume rfl (fun r hr => hr) (h.held c hc) ?_ ?_
        · exact fun p hp j d q hji hj hq hid => hji (h.sole j i d c q p hj hi hq hp hid)
        · rintro p rfl
          exact h.gone p hc
      · -- no call that has returned has read a row of the table, and none that is deleting has read this one
        have hmem := KeyPackages.mem_of_oldest hp
        refine h.resume rfl (fun r hr => hr) ?_ ?_ nofun
        · rintro _ ⟨⟩
          exact h.rows p hmem
        · rintro _ ⟨⟩ j d q - hj hq hid
          have hd := List.mem_of_getElem? hj
          cases d with
          | deleting _ =>
            cases hq
            exact hG spaceId targetDid p hi hp q hd hid
          | returned _ =>
            cases hq
            exact h.gone q hd p hmem hid.symm
          | selecting _ _ => cases hq
          | foundNone => cases hq
          | failed => cases hq
      · refine h.resume rfl (fun r hr => (KeyPackages.mem_delete.1 hr).1) ?_ ?_ ?_
        · exact fun q hq => h.held _ hc q hq
        · exact fun q hq j d r hji hj hr hid => hji (h.sole j i d _ r q hj hi hr hq hid)
        · rintro _ ⟨⟩ r hr
          exact (KeyPackages.mem_delete.1 hr).2

theorem inv_init : Inv ({ shared := {} } : KeyPackageCalls) where
  rows := nofun
  held := nofun
  sole _ _ _ _ _ _ hi := by cases hi
  gone := nofun

theorem Inv.singleUse (h : Inv σ) : SingleUse σ := fun i j p q hi hj => h.sole i j _ _ p q hi hj rfl rfl

/-- In every state of a run in which no SELECT returns a package that another call has read and not deleted yet, no two
calls have returned one package. -/
theorem single_use (events : List ConsumeEvent) (h : Guarded step NoOverlap { shared := {} } events) :
    SingleUse (run step { shared := {} } events) :=
  (h.inv (fun _ _ hinv hG => hinv.step hG) inv_init).singleUse

/-- Two calls that have read one package both return it once their DELETEs succeed. -/
theorem overlap_returns_twice {j : Nat} {p q : KeyPackage} (hi : σ.calls[i]? = some (ConsumeCall.deleting p))
    (hj : σ.calls[j]? = some (ConsumeCall.deleting q)) (hij : i ≠ j) (hid : p.id = q.id) (order : HashOrder KeyPackage) :
    ¬ SingleUse (run step σ [.resume i (some order), .resume j (some order)]) := by
  intro h
  have hstep : step σ (.resume i (some order)) = ⟨σ.shared.delete p.id, σ.calls.set i (.returned p)⟩ := Calls.step_resume hi _
  have hj' : (step σ (.resume i (some order))).calls[j]? = some (ConsumeCall.deleting q) := by
    rw [hstep, List.getElem?_set_ne hij, hj]
  have hlast : run step σ [.resume i (some order), .resume j (some order)] =
      ⟨(σ.shared.delete p.id).delete q.id, (σ.calls.set i (.returned p)).set j (.returned q)⟩ := by
    rw [run_cons, run_cons, run_nil, step, Calls.step_resume hj', hstep]
    rfl
  obtain ⟨hilt, -⟩ := List.getElem?_eq_some_iff.1 hi
  obtain ⟨hjlt, -⟩ := List.getElem?_eq_some_iff.1 hj
  rw [hlast] at h
  refine hij (h i j p q ?_ ?_ hid)
  · rw [List.getElem?_set_ne hij.symm, List.getElem?_set_self hilt]
  · rw [List.getElem?_set_self (by rwa [List.length_set])]

def inOrder : HashOrder KeyPackage := ⟨id, List.Perm.refl⟩

/-- One package, and two calls of which the second reads after the first has deleted. -/
def oneByOne : List ConsumeEvent :=
  [.outside (.store "s" "did:b" [1] "2025-06-15 12:00:00"), .start ("s", "did:b"), .start ("s", "did:b"),
    .resume 0 (some inOrder), .resume 0 (some inOrder), .resume 1 (some inOrder)]

theorem single_use_oneByOne :
    Guarded step NoOverlap { shared := {} } oneByOne ∧ SingleUse (run step { shared := {} } oneByOne) := by
  have h : Guarded step NoOverlap { shared := {} } oneByOne := by
    refine ⟨trivial, trivial, trivial, ?_, ?_, ?_, trivial⟩
    · rintro _ _ _ - - q hq
      have hq' : ConsumeCall.deleting q ∈ [ConsumeCall.selecting "s" "did:b", .selecting "s" "did:b"] := hq
      simp at hq'
    · rintro _ _ _ hi
      cases hi
    · rintro _ _ p - - q hq
      have hq' : ConsumeCall.deleting q ∈ [ConsumeCall.returned ⟨0, "s", "did:b", [1], "2025-06-15 12:00:00"⟩,
        .selecting "s" "did:b"] := hq
      simp at hq'
  exact ⟨h, single_use _ h⟩

def overlapping : List ConsumeEvent :=
  [.outside (.store "s" "did:b" [1] "2025-06-15 12:00:00"), .start ("s", "did:b"), .start ("s", "did:b"),
    .resume 0 (some inOrder), .resume 1 (some inOrder), .resume 0 (some inOrder), .resume 1 (some inOrder)]

/-- The package is returned to both. -/
theorem key_package_returned_twice : ¬ ∀ events : List ConsumeEvent, SingleUse (run step { shared := {} } events) := by
  intro h
  exact absurd (h overlapping 0 1 _ _ rfl rfl rfl) (by decide)

end KeyPackageCalls

end HaexVault.Space
