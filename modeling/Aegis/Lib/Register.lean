import Aegis.Lib.Transition

/-! A register that two parties update by reading it and writing a function of what they read, in
two separate requests: which of the six orders of the requests keep both updates. -/
namespace Register
open Transition

inductive Party where
  | left
  | right
  deriving DecidableEq

inductive Ask where
  | get (c : Party)
  | set (c : Party)
  deriving DecidableEq

/-- How far a party has come. -/
inductive Phase (α : Type*) where
  | idle
  | fetched (v : α)
  | done

structure State (α : Type*) where
  value : α
  phase : Party → Phase α

variable {α : Type*}

/-- A party writes its update of what it read. -/
def step (f : Party → α → α) (s : State α) : Ask → Option (State α)
  | .get c =>
    match s.phase c with
    | .idle => some { s with phase := Function.update s.phase c (.fetched s.value) }
    | _ => none
  | .set c =>
    match s.phase c with
    | .fetched v => some ⟨f c v, Function.update s.phase c .done⟩
    | _ => none

def initial (v : α) : State α := ⟨v, fun _ => .idle⟩

/-- Both parties have written. -/
def State.Complete (s : State α) : Prop := ∀ c, s.phase c = .done

/-- How far the two have come, after the requests so far. -/
inductive Course (f : Party → α → α) (v : α) : List Ask → State α → Prop where
  | idle {s : State α} : s.value = v → (∀ c, s.phase c = .idle) → Course f v [] s
  | got {s : State α} {c d : Party} : c ≠ d → s.value = v →
      s.phase c = .fetched v → s.phase d = .idle → Course f v [.get c] s
  | serialSet {s : State α} {c d : Party} : c ≠ d → s.value = f c v →
      s.phase c = .done → s.phase d = .idle → Course f v [.get c, .set c] s
  | serialGot {s : State α} {c d : Party} : c ≠ d → s.value = f c v →
      s.phase c = .done → s.phase d = .fetched (f c v) → Course f v [.get c, .set c, .get d] s
  | serial {s : State α} {c d : Party} : c ≠ d → s.value = f d (f c v) →
      s.phase c = .done → s.phase d = .done → Course f v [.get c, .set c, .get d, .set d] s
  | racing {s : State α} {c d : Party} : c ≠ d → s.value = v →
      s.phase c = .fetched v → s.phase d = .fetched v → Course f v [.get c, .get d] s
  | racedSet {s : State α} {gets : List Ask} {c d : Party} : c ≠ d →
      gets.Perm [.get c, .get d] → s.value = f c v → s.phase c = .done →
      s.phase d = .fetched v → Course f v (gets ++ [.set c]) s
  | raced {s : State α} {gets : List Ask} {c d : Party} : c ≠ d →
      gets.Perm [.get c, .get d] → s.value = f d v → s.phase c = .done →
      s.phase d = .done → Course f v (gets ++ [.set c, .set d]) s

variable {f : Party → α → α} {v : α} {s s' : State α} {asks : List Ask} {c d : Party}

theorem Party.eq_or (h : c ≠ d) (x : Party) : x = c ∨ x = d := by
  cases c <;> cases d <;> cases x <;> simp_all

theorem step_get (h : step f s (.get c) = some s') :
    s.phase c = .idle ∧ s'.value = s.value ∧ s'.phase c = .fetched s.value ∧
      ∀ x, x ≠ c → s'.phase x = s.phase x := by
  simp only [step] at h
  split at h
  next hc =>
    cases h
    exact ⟨hc, rfl, Function.update_self .., fun x hx => Function.update_of_ne hx ..⟩
  · cases h

theorem step_set (h : step f s (.set c) = some s') :
    ∃ u, s.phase c = .fetched u ∧ s'.value = f c u ∧ s'.phase c = .done ∧
      ∀ x, x ≠ c → s'.phase x = s.phase x := by
  simp only [step] at h
  split at h
  next u hc =>
    cases h
    exact ⟨u, hc, rfl, Function.update_self .., fun x hx => Function.update_of_ne hx ..⟩
  · cases h

theorem Course.get {x : Party} (h : Course f v asks s) (hs : step f s (.get x) = some s') :
    Course f v (asks ++ [.get x]) s' := by
  obtain ⟨hidle, hvalue, hx, hother⟩ := step_get hs
  cases h with
  | idle hv hall =>
    obtain ⟨y, hy⟩ : ∃ y, x ≠ y := by
      cases x
      · exact ⟨.right, nofun⟩
      · exact ⟨.left, nofun⟩
    exact .got hy (by rw [hvalue, hv]) (by rw [hx, hv]) (by rw [hother y hy.symm, hall])
  | @got _ c d hcd hv hc hd =>
    rcases Party.eq_or hcd x with rfl | rfl
    · rw [hc] at hidle
      cases hidle
    · exact .racing hcd (by rw [hvalue, hv]) (by rw [hother c hcd, hc]) (by rw [hx, hv])
  | @serialSet _ c d hcd hv hc hd =>
    rcases Party.eq_or hcd x with rfl | rfl
    · rw [hc] at hidle
      cases hidle
    · exact .serialGot hcd (by rw [hvalue, hv]) (by rw [hother c hcd, hc]) (by rw [hx, hv])
  | serialGot hcd _ hc hd | serial hcd _ hc hd | racing hcd _ hc hd | racedSet hcd _ _ hc hd
  | raced hcd _ _ hc hd =>
    rcases Party.eq_or hcd x with rfl | rfl
    · rw [hc] at hidle
      cases hidle
    · rw [hd] at hidle
      cases hidle

theorem Course.set {x : Party} (h : Course f v asks s) (hs : step f s (.set x) = some s') :
    Course f v (asks ++ [.set x]) s' := by
  obtain ⟨u, hu, hvalue, hx, hother⟩ := step_set hs
  cases h with
  | idle hv hall =>
    rw [hall] at hu
    cases hu
  | @got _ c d hcd hv hc hd =>
    rcases Party.eq_or hcd x with rfl | rfl
    · obtain rfl : v = u := Phase.fetched.inj (hc.symm.trans hu)
      exact .serialSet hcd hvalue hx (by rw [hother d hcd.symm, hd])
    · rw [hd] at hu
      cases hu
  | @serialGot _ c d hcd hv hc hd =>
    rcases Party.eq_or hcd x with rfl | rfl
    · rw [hc] at hu
      cases hu
    · obtain rfl : f c v = u := Phase.fetched.inj (hd.symm.trans hu)
      exact .serial hcd hvalue (by rw [hother c hcd, hc]) hx
  | @racing _ c d hcd hv hc hd =>
    rcases Party.eq_or hcd x with rfl | rfl
    · obtain rfl : v = u := Phase.fetched.inj (hc.symm.trans hu)
      exact .racedSet hcd (.refl _) hvalue hx (by rw [hother d hcd.symm, hd])
    · obtain rfl : v = u := Phase.fetched.inj (hd.symm.trans hu)
      exact .racedSet hcd.symm (.swap ..) hvalue hx (by rw [hother c hcd, hc])
  | @racedSet _ gets c d hcd hperm hv hc hd =>
    rcases Party.eq_or hcd x with rfl | rfl
    · rw [hc] at hu
      cases hu
    · obtain rfl : v = u := Phase.fetched.inj (hd.symm.trans hu)
      rw [List.append_assoc]
      exact .raced hcd hperm hvalue (by rw [hother c hcd, hc]) hx
  | serialSet hcd _ hc hd | serial hcd _ hc hd | raced hcd _ _ hc hd =>
    rcases Party.eq_or hcd x with rfl | rfl
    · rw [hc] at hu
      cases hu
    · rw [hd] at hu
      cases hu

theorem Course.exec {more : List Ask} (h : Course f v asks s)
    (hs : Transition.exec (step f) s more = some s') : Course f v (asks ++ more) s' := by
  induction more generalizing asks s with
  | nil =>
    cases hs
    rwa [List.append_nil]
  | cons a more ih =>
    obtain ⟨u, hu, hmore⟩ := Option.bind_eq_some_iff.mp hs
    rw [List.append_cons]
    cases a with
    | get x => exact ih (h.get hu) hmore
    | set x => exact ih (h.set hu) hmore

/-- Once both have written, the requests came one party after the other and the register holds
both updates; or both had read before the first wrote, and it holds the last one only. -/
theorem outcome (hs : Transition.exec (step f) (initial v) asks = some s) (hd : s.Complete) :
    ∃ c d, c ≠ d ∧ ((asks = [.get c, .set c, .get d, .set d] ∧ s.value = f d (f c v)) ∨
      ((∃ gets, gets.Perm [.get c, .get d] ∧ asks = gets ++ [.set c, .set d]) ∧
        s.value = f d v)) := by
  have h : Course f v ([] ++ asks) s := Course.exec (.idle rfl fun _ => rfl) hs
  rw [List.nil_append] at h
  cases h with
  | serial hcd hv _ _ => exact ⟨_, _, hcd, .inl ⟨rfl, hv⟩⟩
  | raced hcd hperm hv _ _ => exact ⟨_, _, hcd, .inr ⟨⟨_, hperm, rfl⟩, hv⟩⟩
  | idle _ hidle =>
    have := (hidle .left).symm.trans (hd .left)
    cases this
  | got _ _ hc _ | racing _ _ hc _ =>
    have := hc.symm.trans (hd _)
    cases this
  | serialSet _ _ _ hother | serialGot _ _ _ hother | racedSet _ _ _ _ hother =>
    have := hother.symm.trans (hd _)
    cases this

end Register
