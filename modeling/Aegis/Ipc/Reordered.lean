import Aegis.Ipc.Protocol

/-! Values that are read back after the keys of all their objects were sorted. -/
namespace Aegis
open Json Deserialize Wire

theorem sortEach_eq_map (ms : List (String × Value)) :
    sortEach ms = ms.map fun m => (m.1, sortKeys m.2) := by
  induction ms with
  | nil => rfl
  | cons m ms ih => rw [sortEach, ih, List.map_cons]

theorem keys_sortEach (ms : List (String × Value)) : keys (sortEach ms) = keys ms := by
  rw [sortEach_eq_map, keys, List.map_map]
  rfl

theorem sortKeys_ne_null {v : Value} (h : v ≠ .null) : sortKeys v ≠ .null := by
  cases v with
  | null => exact absurd rfl h
  | _ => simp [sortKeys]

/-- A member keeps its place under its key when the keys are sorted. -/
theorem member_sortEach {m : String × Value} {ms : List (String × Value)} (hn : (keys ms).Nodup)
    (h : m ∈ ms) : member m.1 (sortMembers (sortEach ms)) = some (some (sortKeys m.2)) := by
  have hperm : (sortMembers (sortEach ms)).Perm (sortEach ms) :=
    sortMembers_perm (by rwa [keys_sortEach])
  have hkeys : (keys (sortMembers (sortEach ms))).Nodup := by
    rw [keys, (hperm.map Prod.fst).nodup_iff]
    rwa [← keys, keys_sortEach]
  apply member_of_mem (m := (m.1, sortKeys m.2)) hkeys
  rw [hperm.mem_iff, sortEach_eq_map]
  exact List.mem_map_of_mem h

theorem plain_members {ms : List (String × Value)} (h : PlainValue (.object ms)) :
    ∀ m ∈ ms, PlainValue m.2 := by
  induction ms with
  | nil => simp
  | cons m ms ih => exact List.forall_mem_cons.mpr ⟨h.2.1, ih h.2.2⟩

theorem mem_of_mem_sortMembers {ms : List (String × Value)} {m : String × Value}
    (h : m ∈ sortMembers ms) : m ∈ ms := by
  suffices hacc : ∀ acc : List (String × Value),
      m ∈ ms.foldl (fun acc n => insertMember n.1 n.2 acc) acc → m ∈ acc ∨ m ∈ ms from
    (hacc [] h).resolve_left List.not_mem_nil
  clear h
  induction ms with
  | nil => exact fun acc h => .inl h
  | cons n ms ih =>
    intro acc h
    rcases ih _ h with h | h
    · rcases mem_insertMember h with rfl | h
      · exact .inr List.mem_cons_self
      · exact .inl h
    · exact .inr (List.mem_cons_of_mem _ h)

mutual

/-- Sorting the keys only moves members. -/
theorem plain_sortKeys (v : Value) (h : PlainValue v) : PlainValue (sortKeys v) := by
  match v with
  | .null | .bool _ | .number _ | .string _ => exact h
  | .array vs =>
    apply (everyItem_iff _ _ _).mpr
    exact plain_sortAll vs ((everyItem_iff _ _ _).mp h)
  | .object ms =>
    apply Record.plain_object
    intro m hm
    exact plain_sortEach ms (plain_members h) m (mem_of_mem_sortMembers hm)

theorem plain_sortAll (vs : List Value) (h : ∀ v ∈ vs, PlainValue v) :
    ∀ v ∈ sortAll vs, PlainValue v := by
  match vs with
  | [] => nofun
  | v :: vs =>
    obtain ⟨hv, hvs⟩ := List.forall_mem_cons.mp h
    exact List.forall_mem_cons.mpr ⟨plain_sortKeys v hv, plain_sortAll vs hvs⟩

theorem plain_sortEach (ms : List (String × Value)) (h : ∀ m ∈ ms, PlainValue m.2) :
    ∀ m ∈ sortEach ms, PlainValue m.2 := by
  match ms with
  | [] => nofun
  | (k, v) :: ms =>
    obtain ⟨hv, hms⟩ := List.forall_mem_cons.mp h
    exact List.forall_mem_cons.mpr ⟨plain_sortKeys v hv, plain_sortEach ms hms⟩

end

/-- What is read does not depend on the order of the keys. -/
class Wire.Reordered (α : Type) [Wire α] : Prop where
  ofValue_sortKeys : ∀ a : α, ofValue (sortKeys (toValue a)) = some a

section Basic

variable {α : Type} [Wire α]

/-- An enumeration is written as a text. -/
theorem Wire.Reordered.of_string (h : ∀ a : α, ∃ s, toValue a = .string s) : Reordered α where
  ofValue_sortKeys a := by
    obtain ⟨s, hs⟩ := h a
    have hread := ofValue_toValue a
    rw [hs] at hread ⊢
    exact hread

instance : Reordered Bool := ⟨fun _ => rfl⟩

instance : Reordered String := ⟨fun _ => rfl⟩

instance [NonNull α] [Reordered α] : Reordered (Option α) where
  ofValue_sortKeys
    | none => rfl
    | some a => by
      show Deserialize.nullable ofValue (sortKeys (toValue a)) = some (some a)
      have hread := Reordered.ofValue_sortKeys a
      unfold Deserialize.nullable
      split
      · exact absurd ‹_› (sortKeys_ne_null (NonNull.ne_null a))
      · rw [hread]
        rfl

instance [Reordered α] : Reordered (List α) where
  ofValue_sortKeys as := by
    show (sortAll (as.map toValue)).mapM ofValue = some as
    rw [sortAll_eq_map, List.map_map, mapM_map (f := sortKeys ∘ toValue) (h := id)
      Reordered.ofValue_sortKeys, List.map_id]

end Basic

namespace Record

variable {α β : Type}

/-- The fields are read by name, each from its value with the keys sorted. -/
def Reordered (r : Record α) : Prop :=
  ∀ a ms, (∀ m ∈ r.write a, member m.1 ms = some (some (sortKeys m.2))) → r.named ms = some a

theorem reordered_nil : nil.Reordered := fun _ _ _ => rfl

theorem Reordered.cons [Wire α] [Wire.Reordered α] {r : Record β} (h : r.Reordered)
    (name : String) (absent short : Option α) : (r.cons name absent short).Reordered := by
  intro a ms hm
  have hfield := hm _ List.mem_cons_self
  have hrest := h a.2 ms fun m hmem => hm m (List.mem_cons_of_mem _ hmem)
  simp only [Record.cons, hfield, hrest, Wire.Reordered.ofValue_sortKeys]
  rfl

theorem Reordered.of {r : Record β} (hr : r.Reordered) (fields : α → β) (make : β → α)
    (h : ∀ a, make (fields a) = a) : (r.of fields make h).Reordered := by
  intro a ms hm
  show (r.named ms).map make = some a
  rw [hr (fields a) ms hm, Option.map_some, h]

theorem Reordered.wire {r : Record α} (hr : r.Reordered) (h : r.names.Nodup) :
    @Wire.Reordered α (r.wire h) := by
  let _ := r.wire h
  refine ⟨fun a => ?_⟩
  apply hr
  intro m hm
  exact member_sortEach (by rwa [r.keys_write]) hm

end Record

/-! ### The diagnostics -/

instance : Reordered CheckId := .of_string fun _ => ⟨_, rfl⟩

instance : Reordered CheckOutcome := .of_string fun _ => ⟨_, rfl⟩

instance : Reordered CheckReport :=
  Record.Reordered.wire (((Record.reordered_nil.cons _ _ _).cons _ _ _).cons _ _ _ |>.of _ _ _)
    (by decide)

instance : Reordered IpObservation :=
  Record.Reordered.wire (((Record.reordered_nil.cons _ _ _).cons _ _ _).cons _ _ _ |>.of _ _ _)
    (by decide)

instance : Reordered ConnectivityChecklist :=
  Record.Reordered.wire ((Record.reordered_nil.cons _ _ _).cons _ _ _ |>.of _ _ _)
    (by decide)

instance : Reordered Ipc.HealthLevel := .of_string fun _ => ⟨_, rfl⟩

instance : Reordered Ipc.EvidenceState := .of_string fun _ => ⟨_, rfl⟩

instance : Reordered Ipc.DiagnosticItem :=
  Record.Reordered.wire
    ((((Record.reordered_nil.cons _ _ _).cons _ _ _).cons _ _ _).cons _ _ _ |>.of _ _ _)
    (by decide)

end Aegis
