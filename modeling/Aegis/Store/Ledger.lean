import Aegis.Store.Deleted

/-! The store as a map of records: what its operations mean, with no file anywhere. -/
namespace Aegis.Store
open FileProfileStore

/-- What there is to a profile, beside its size. -/
structure ProfileRecord (Time : Type) where
  spec : Ipc.ProfileSpec
  createdAt : Time
  lastLaunched : Option Time
  lock : Option LockToken

namespace ProfileRecord

variable {Time : Type}

/-- The metadata of the profile: its size and its lock are told by its directory. -/
def stored (id : ProfileId) (r : ProfileRecord Time) : Ipc.Profile Time :=
  ⟨id, r.spec, r.createdAt, r.lastLaunched, ⟨0⟩, false⟩

/-- The profile as it is returned, without its size. -/
def shown (id : ProfileId) (r : ProfileRecord Time) : Ipc.Profile Time :=
  { r.stored id with locked := r.lock.isSome }

end ProfileRecord

/-- The records of the profiles that there are. -/
abbrev Ledger (Time : Type) := AList fun _ : ProfileId => ProfileRecord Time

namespace Ledger

variable {Time : Type} [Ord Time]

def absent (id : ProfileId) : Error := .notFound ("profile " ++ id.uuid.display)

/-- The profiles that there are, newest first. -/
def listing (b : Ledger Time) : List (Ipc.Profile Time) :=
  (b.keys.filterMap fun id => (b.lookup id).map (·.shown id)).mergeSort listedBefore

/-- An operation on a profile that has a record. -/
def onRecord (b : Ledger Time) (id : ProfileId)
    (act : ProfileRecord Time → Except Error (Reply Time) × Ledger Time) :
    Except Error (Reply Time) × Ledger Time :=
  match b.lookup id with
  | none => (.error (absent id), b)
  | some r => act r

/-- An operation as the map has it. -/
def perform (b : Ledger Time) : StoreOp Time → Except Error (Reply Time) × Ledger Time
  | .create spec id _ now =>
    match spec.toCore.validate, b.lookup id with
    | .error e, _ => (.error e, b)
    | .ok (), some _ =>
      (.error (.internal ("profile dir already exists for " ++ id.uuid.display)), b)
    | .ok (), none =>
      let r : ProfileRecord Time := ⟨spec, now, none, none⟩
      (.ok (.profile (r.shown id)), b.insert id r)
  | .get id => b.onRecord id fun r => (.ok (.profile (r.shown id)), b)
  | .list => (.ok (.profiles b.listing), b)
  | .update id patch _ => b.onRecord id fun r =>
      if patch.toCore.isEmpty then (.ok (.profile (r.shown id)), b)
      else match applyPatch r.spec patch with
        | .error e => (.error e, b)
        | .ok spec =>
          (.ok (.profile ({ r with spec := spec }.shown id)), b.insert id { r with spec := spec })
  | .delete id => b.onRecord id fun _ => (.ok .done, b.erase id)
  | .acquireLock id token => b.onRecord id fun r =>
      match r.lock with
      | some _ => (.error (.busy ("profile " ++ id.uuid.display ++ " is already locked")), b)
      | none => (.ok (.lease ⟨id, token⟩), b.insert id { r with lock := some token })
  | .releaseLock lease =>
      match (b.lookup lease.profile).bind fun r => r.lock.map fun held => (r, held) with
      | none =>
        (.error (.precondition ("profile " ++ lease.profile.uuid.display ++ " is not locked")), b)
      | some (r, held) =>
        if held ≠ lease.token then
          (.error (.precondition
            ("lock token mismatch for profile " ++ lease.profile.uuid.display)), b)
        else (.ok .done, b.insert lease.profile { r with lock := none })
  | .touchLaunch id now _ => b.onRecord id fun r =>
      (.ok .done, b.insert id { r with lastLaunched := some now })

/-- The replies to operations performed in turn, and the map after them. -/
def performAll (b : Ledger Time) :
    List (StoreOp Time) → List (Except Error (Reply Time)) × Ledger Time
  | [] => ([], b)
  | op :: ops =>
    let (r, b) := b.perform op
    let (rs, b) := performAll b ops
    (r :: rs, b)

theorem performAll_append (b : Ledger Time) (ops : List (StoreOp Time)) (op : StoreOp Time) :
    b.performAll (ops ++ [op]) = ((b.performAll ops).1 ++ [((b.performAll ops).2.perform op).1],
      ((b.performAll ops).2.perform op).2) := by
  induction ops generalizing b with
  | nil => rfl
  | cons first ops ih =>
    rw [List.cons_append, performAll, performAll]
    simp only [ih, List.cons_append]

/-- Two profiles, neither of which comes after the other, are the same. -/
theorem eq_of_newestFirst [Std.TransOrd Time] {b : Ledger Time} {p q : Ipc.Profile Time}
    (hp : p ∈ b.listing) (hq : q ∈ b.listing) (hpq : NewestFirst p q) (hqp : NewestFirst q p) :
    p = q := by
  have hshown : ∀ p ∈ b.listing, (b.lookup p.id).map (·.shown p.id) = some p := by
    intro p hp
    obtain ⟨id, -, hid⟩ := List.mem_filterMap.mp ((List.mergeSort_perm _ _).mem_iff.mp hp)
    obtain ⟨r, hr, rfl⟩ := Option.map_eq_some_iff.mp hid
    simp only [ProfileRecord.shown, ProfileRecord.stored, hr, Option.map_some]
  have hcompare : compare p.id.uuid.display q.id.uuid.display = .eq := by
    rcases hpq with hlt | ⟨heq, hpq⟩
    · rcases hqp with hlt' | ⟨heq', -⟩
      · rw [Std.OrientedOrd.eq_swap (a := q.createdAt)] at hlt
        rw [hlt'] at hlt
        cases hlt
      · rw [Std.OrientedOrd.eq_swap (a := q.createdAt), heq'] at hlt
        cases hlt
    · rcases hqp with hlt' | ⟨-, hqp⟩
      · rw [Std.OrientedOrd.eq_swap (a := q.createdAt), hlt'] at heq
        cases heq
      · rw [Std.OrientedOrd.eq_swap (a := q.id.uuid.display)] at hqp
        cases hcompare : compare p.id.uuid.display q.id.uuid.display with
        | eq => rfl
        | lt =>
          rw [hcompare] at hqp
          exact absurd rfl hqp
        | gt => exact absurd hcompare hpq
  have hid : p.id = q.id := by
    have huuid : p.id.uuid = q.id.uuid := display_injective (Std.LawfulEqCmp.eq_of_compare hcompare)
    rw [show p.id = ⟨p.id.uuid⟩ from rfl, huuid]
  have hsame := hshown p hp
  rw [hid, hshown q hq] at hsame
  exact (Option.some.inj hsame).symm

end Ledger

/-- A reply without the sizes of profiles. -/
def FileProfileStore.Reply.unsized {Time : Type} : Reply Time → Reply Time
  | .profile p => .profile { p with storage := ⟨0⟩ }
  | .profiles ps => .profiles (ps.map fun p => { p with storage := ⟨0⟩ })
  | .lease l => .lease l
  | .done => .done

end Aegis.Store
